/-
Purpose: What is noted, and what is computed, when steps are strung together, and what all results
  and all complaints of a computation have in common.
-/
import Linkage.Diagnostic.Basic

namespace Linkage

open List

namespace Noted

variable {ν α β σ : Type} {f : σ → α → Noted ν σ} {xs : List α} {s : σ}

protected theorem ext {x y : Noted ν α} (value : x.value = y.value) (notes : x.notes = y.notes) :
    x = y := by
  cases y
  cases value
  cases notes
  rfl

@[simp] theorem value_map (f : α → β) (x : Noted ν α) : (f <$> x).value = f x.value := rfl

@[simp] theorem notes_map (f : α → β) (x : Noted ν α) : (f <$> x).notes = x.notes := by
  exact append_nil _

@[simp] theorem notes_note (n : ν) : (note n).notes = [n] := rfl

@[simp] theorem notes_noteAll (ns : List ν) : (noteAll ns).notes = ns := rfl

@[simp] theorem value_traverse (f : α → Noted ν β) (xs : List α) :
    (traverse f xs).value = xs.map fun a => (f a).value := by
  induction xs with
  | nil => rfl
  | cons a rest ih =>
    simp only [traverse, map_cons]
    rw [ih]

@[simp] theorem notes_traverse (f : α → Noted ν β) (xs : List α) :
    (traverse f xs).notes = xs.flatMap fun a => (f a).notes := by
  induction xs with
  | nil => rfl
  | cons a rest ih =>
    simp only [traverse, flatMap_cons]
    rw [ih]

@[simp] theorem notes_forM (f : α → Noted ν PUnit) (xs : List α) :
    (forM xs f : Noted ν PUnit).notes = xs.flatMap fun a => (f a).notes := by
  induction xs with
  | nil => rfl
  | cons a rest ih => simp [ih]

@[simp] theorem value_foldlM (f : σ → α → Noted ν σ) (s : σ) (xs : List α) :
    (xs.foldlM f s).value = xs.foldl (fun s a => (f s a).value) s := by
  induction xs generalizing s with
  | nil => rfl
  | cons a rest ih => simp [ih]

/-- What every step of a fold keeps holds at its end. -/
theorem value_foldlM_of_step {P : σ → Prop} (step : ∀ s, ∀ a ∈ xs, P s → P (f s a).value)
    (start : P s) : P (xs.foldlM f s).value := by
  induction xs generalizing s with
  | nil => exact start
  | cons a rest ih =>
    have next : P (f s a).value := step s a (mem_cons_self ..) start
    have later := ih (fun s a member => step s a (mem_cons_of_mem _ member)) next
    simpa using later

/-- What every step of a fold keeps of the state and of all that has been noted so far holds at
its end. -/
theorem foldlM_of_step {P : σ → List ν → Prop}
    (step : ∀ s notes, ∀ a ∈ xs, P s notes → P (f s a).value (notes ++ (f s a).notes))
    {notes : List ν} (start : P s notes) :
    P (xs.foldlM f s).value (notes ++ (xs.foldlM f s).notes) := by
  induction xs generalizing s notes with
  | nil => simpa using start
  | cons a rest ih =>
    have next := step s notes a (mem_cons_self ..) start
    have later := ih (fun s notes a member => step s notes a (mem_cons_of_mem _ member)) next
    simpa using later

/-- What every step of a fold keeps of the elements gone through, of the state and of all that has
been noted so far holds at its end. -/
theorem foldlM_of_past {P : List α → σ → List ν → Prop} (step : ∀ past s notes a, P past s notes →
      P (past ++ [a]) (f s a).value (notes ++ (f s a).notes)) (start : P [] s [])
    (xs : List α) : P xs (xs.foldlM f s).value (xs.foldlM f s).notes := by
  have later (past : List α) (s : σ) (notes : List ν) (held : P past s notes) :
      P (past ++ xs) (xs.foldlM f s).value (notes ++ (xs.foldlM f s).notes) := by
    induction xs generalizing past s notes with
    | nil => simpa using held
    | cons a rest ih => simpa using ih _ _ _ (step past s notes a held)
  exact later [] s [] start

/-- What the step at an index brings about, and every step keeps, holds once it has been passed. -/
theorem value_foldlM_range {P : Nat → σ → Prop} {f : σ → Nat → Noted ν σ}
    (here : ∀ s i, P i (f s i).value) (keeps : ∀ s i j, P i s → P i (f s j).value) (s : σ)
    {count i : Nat} (passed : i < count) : P i ((range count).foldlM f s).value := by
  induction count with
  | zero => omega
  | succ count ih =>
    rw [range_succ, foldlM_append, value_bind, foldlM_cons, value_bind, foldlM_nil]
    by_cases last : i = count
    · subst last
      exact here _ i
    · exact keeps _ i count (ih (by omega))

/-- What every step that notes nothing keeps holds at the end of a fold that notes nothing. -/
theorem value_foldlM_of_quiet_step {P : σ → Prop}
    (step : ∀ s, ∀ a ∈ xs, (f s a).notes = [] → P s → P (f s a).value) (start : P s)
    (quiet : (xs.foldlM f s).notes = []) : P (xs.foldlM f s).value := by
  induction xs generalizing s with
  | nil => exact start
  | cons a rest ih =>
    simp at quiet
    have next : P (f s a).value := step s a (mem_cons_self ..) quiet.1 start
    have later := ih (fun s a member => step s a (mem_cons_of_mem _ member)) next quiet.2
    simpa using later

/-- A fold that notes nothing stays where it is if every step that notes nothing does. -/
theorem foldlM_eq_of_notes_nil (step : ∀ a ∈ xs, (f s a).notes = [] → (f s a).value = s)
    (quiet : (xs.foldlM f s).notes = []) :
    (xs.foldlM f s).value = s ∧ ∀ a ∈ xs, (f s a).notes = [] := by
  induction xs with
  | nil => exact ⟨rfl, by simp⟩
  | cons a rest ih =>
    simp at quiet
    have same : (f s a).value = s := step a (mem_cons_self ..) quiet.1
    rw [same] at quiet
    obtain ⟨stays, silent⟩ := ih (fun a member => step a (mem_cons_of_mem _ member)) quiet.2
    refine ⟨?_, ?_⟩
    · simpa [same] using stays
    · intro x member
      rcases mem_cons.1 member with rfl | member
      · exact quiet.1
      · exact silent x member

theorem foldlM_eq_pure (step : ∀ a ∈ xs, f s a = pure s) : xs.foldlM f s = pure s := by
  induction xs with
  | nil => rfl
  | cons a rest ih =>
    rw [foldlM_cons, step a (mem_cons_self ..)]
    exact ih fun b member => step b (mem_cons_of_mem _ member)

/-- A fold over states that are images takes the images of the steps. -/
theorem foldlM_map {τ : Type} {g : τ → α → Noted ν τ} {h : σ → τ}
    (commutes : ∀ s a, g (h s) a = h <$> f s a) (s : σ) (xs : List α) :
    xs.foldlM g (h s) = h <$> xs.foldlM f s := by
  induction xs generalizing s with
  | nil => rfl
  | cons a rest ih =>
    rw [foldlM_cons, foldlM_cons, commutes, bind_map_left, map_bind]
    exact congrArg (f s a >>= ·) (funext fun s' => ih s')

theorem traverse_map {γ : Type} {f : α → Noted ν β} {g : α → Noted ν γ} {h : β → γ}
    (commutes : ∀ a, g a = h <$> f a) (xs : List α) :
    traverse g xs = List.map h <$> traverse f xs := by
  apply Noted.ext
  · simp [commutes]
  · simp [commutes]

end Noted

@[simp] theorem notes_report (path : String) (span : Span) (problem : Problem) :
    (report path span problem).notes = [⟨path, span, problem⟩] := rfl

/-! ### Computations that may fail -/

section Ends

variable {ε α β : Type} {P P' : ε → Prop} {Q Q' : α → Prop} {R : β → Prop}

/-- However a computation ends, its result satisfies `Q` or its complaint satisfies `P`. -/
def Ends (P : ε → Prop) (Q : α → Prop) : Except ε α → Prop
  | .ok a => Q a
  | .error e => P e

namespace Ends

variable {x : Except ε α}

theorem of_error {e : ε} (ends : Ends P Q x) (fails : x = .error e) : P e := by
  subst fails
  exact ends

theorem of_ok {a : α} (ends : Ends P Q x) (works : x = .ok a) : Q a := by
  subst works
  exact ends

protected theorem pure {a : α} (holds : Q a) : Ends P Q (pure a) := holds

theorem imp (ends : Ends P Q x) (complaint : ∀ e, P e → P' e)
    (result : ∀ a, Q a → Q' a) : Ends P' Q' x := by
  cases x with
  | ok a => exact result a ends
  | error e => exact complaint e ends

/-- The second step starts from what holds after the first. -/
theorem bind {f : α → Except ε β} (first : Ends P Q x)
    (second : ∀ a, Q a → Ends P R (f a)) : Ends P R (x >>= f) := by
  cases x with
  | ok a => exact second a first
  | error e => exact first

theorem map {f : α → β} (ends : Ends P Q x) (result : ∀ a, Q a → R (f a)) : Ends P R (x.map f) := by
  cases x with
  | ok a => exact result a ends
  | error e => exact ends

theorem mapM {f : α → Except ε β} {xs : List α} (each : ∀ a ∈ xs, Ends P R (f a)) :
    Ends P (fun ys => ∀ y ∈ ys, R y) (xs.mapM f) := by
  induction xs with
  | nil => exact Ends.pure (by simp)
  | cons a rest ih =>
    rw [mapM_cons]
    refine (each a (mem_cons_self ..)).bind fun b here => ?_
    refine (ih fun a member => each a (mem_cons_of_mem _ member)).bind fun bs later => ?_
    exact Ends.pure (forall_mem_cons.2 ⟨here, later⟩)

end Ends

end Ends

/-! ### Computations with notes -/

namespace Noted

variable {ν α β σ : Type} {P : ν → Prop}

/-- All notes of a computation satisfy `P`. -/
def Reports (P : ν → Prop) (x : Noted ν α) : Prop := ∀ n ∈ x.notes, P n

namespace Reports

protected theorem pure (a : α) : Reports P (pure a : Noted ν α) := by simp [Reports]

protected theorem note {n : ν} (holds : P n) : Reports P (note n) := by
  simpa [Reports] using holds

theorem imp {P' : ν → Prop} {x : Noted ν α} (reports : Reports P x) (weaker : ∀ n, P n → P' n) :
    Reports P' x :=
  fun n member => weaker n (reports n member)

/-- Nothing is left of the notes if only notes of another sort are picked. -/
theorem filter_eq_nil {p : ν → Bool} {x : Noted ν α} (reports : Reports (p · = false) x) :
    x.notes.filter p = [] :=
  filter_eq_nil_iff.2 fun n member => by simp [reports n member]

theorem bind {x : Noted ν α} {f : α → Noted ν β} (first : Reports P x)
    (second : Reports P (f x.value)) : Reports P (x >>= f) := by
  intro n member
  rw [notes_bind, mem_append] at member
  exact member.elim (first n) (second n)

theorem ite {c : Prop} [Decidable c] {x y : Noted ν α} (yes : Reports P x) (no : Reports P y) :
    Reports P (if c then x else y) := by
  by_cases holds : c
  · rwa [if_pos holds]
  · rwa [if_neg holds]

theorem traverse {f : α → Noted ν β} {xs : List α} (each : ∀ a ∈ xs, Reports P (f a)) :
    Reports P (traverse f xs) := by
  intro n member
  rw [notes_traverse, mem_flatMap] at member
  obtain ⟨a, inList, noted⟩ := member
  exact each a inList n noted

theorem forM {f : α → Noted ν PUnit} {xs : List α} (each : ∀ a ∈ xs, Reports P (f a)) :
    Reports P (forM xs f) := by
  intro n member
  rw [notes_forM, mem_flatMap] at member
  obtain ⟨a, inList, noted⟩ := member
  exact each a inList n noted

theorem foldlM {f : σ → α → Noted ν σ} {xs : List α} {s : σ}
    (each : ∀ s, ∀ a ∈ xs, Reports P (f s a)) : Reports P (xs.foldlM f s) := by
  induction xs generalizing s with
  | nil => exact Reports.pure s
  | cons a rest ih =>
    exact (each s a (mem_cons_self ..)).bind
      (ih fun s a member => each s a (mem_cons_of_mem _ member))

end Reports

/-- All notes of a computation satisfy `P`, and its value satisfies `Q`. -/
structure Yields (P : ν → Prop) (Q : α → Prop) (x : Noted ν α) : Prop where
  reports : Reports P x
  value : Q x.value

namespace Yields

variable {Q : α → Prop} {R : β → Prop}

protected theorem pure {a : α} (holds : Q a) : Yields P Q (pure a) := ⟨.pure a, holds⟩

theorem bind {x : Noted ν α} {f : α → Noted ν β} (first : Yields P Q x)
    (second : ∀ a, Q a → Yields P R (f a)) : Yields P R (x >>= f) :=
  ⟨first.reports.bind (second _ first.value).reports, (second _ first.value).value⟩

end Yields

/-- If a computation notes nothing, its value satisfies `Q`. -/
def Quietly (Q : α → Prop) (x : Noted ν α) : Prop := x.notes = [] → Q x.value

namespace Quietly

variable {Q : α → Prop} {R : β → Prop}

protected theorem pure {a : α} (holds : Q a) : Quietly Q (pure a : Noted ν α) := fun _ => holds

protected theorem note {n : ν} : Quietly (fun _ => False) (note n) := fun quiet => by
  simp at quiet

theorem bind {x : Noted ν α} {f : α → Noted ν β} (first : Quietly Q x)
    (second : ∀ a, Q a → Quietly R (f a)) : Quietly R (x >>= f) := by
  intro quiet
  rw [notes_bind, append_eq_nil_iff] at quiet
  exact second _ (first quiet.1) quiet.2

end Quietly

end Noted

end Linkage
