/-
Purpose: The counters of a pool are right after every run of a workbench: they agree with a ledger
  that is kept beside it.
-/
import Linkage.Pool
import Mathlib.Data.List.Basic
import Mathlib.Data.List.Count

namespace Linkage

open List

variable {p : Pool} {w w' : Workbench} {c : Container} {name other : String}

/-- What has happened to a pool since it was last cleared: how many containers were taken, the
shapes of those that had been out before, and the shapes of those that were given back. -/
structure Ledger where
  taken : Nat := 0
  reused : List Shape := []
  returned : List Shape := []

variable {l l' : Ledger}

namespace Ledger

/-- More containers of a shape were given back than taken again. -/
def spares (l : Ledger) (shape : Shape) : Bool := l.reused.count shape < l.returned.count shape

def take (l : Ledger) (shape : Shape) : Ledger :=
  { l with
    taken := l.taken + 1
    reused := if l.spares shape then shape :: l.reused else l.reused }

def giveBack (l : Ledger) (c : Option Container) : Ledger :=
  { l with returned := (c.map Container.shape).toList ++ l.returned }

/-- Enter an operation at a workbench. -/
def enter (l : Ledger) (w : Workbench) : Workbench.Operation → Ledger
  | .take name shape => (l.take shape).giveBack (w.held? name)
  | .put _ _ | .leak _ => l
  | .drop name => l.giveBack (w.held? name)
  | .clear => {}

end Ledger

/-- Carry out operations in turn and keep the ledger. -/
def Workbench.audit (w : Workbench) (l : Ledger) : List Operation → Option (Workbench × Ledger)
  | [] => some (w, l)
  | op :: rest => (w.step op).bind fun result => audit result.2 (l.enter w op) rest

/-! ### The pool -/

namespace Pool

/-- Take a container back if there is one. -/
def settle (p : Pool) : Option Container → Pool
  | some c => p.giveBack c
  | none => p

/-- The pool is as the ledger says. -/
structure Agrees (p : Pool) (l : Ledger) : Prop where
  emptied : ∀ c ∈ p.free, c = .empty c.shape
  free : ∀ shape, p.free.countP (·.shape = shape) + l.reused.count shape = l.returned.count shape
  outstanding : p.outstanding + l.returned.length = l.taken
  checkouts : p.checkouts = l.taken
  reuses : p.reuses = l.reused.length

namespace Agrees

variable (agrees : p.Agrees l)
include agrees

/-- Whatever is handed out is empty. -/
theorem take (shape : Shape) : (p.take shape).1 = .empty shape ∧
    (p.take shape).2.outstanding = p.outstanding + 1 ∧ (p.take shape).2.Agrees (l.take shape) := by
  have out : p.outstanding + 1 + l.returned.length = l.taken + 1 := by
    rw [← agrees.outstanding]
    omega
  have checkouts := congrArg (· + 1) agrees.checkouts
  have balance := agrees.free shape
  unfold Pool.take Ledger.take
  cases found : p.free.find? fun c => c.shape = shape with
  | none =>
    have nothing : p.free.countP (·.shape = shape) = 0 := countP_eq_zero.2 (find?_eq_none.1 found)
    have none : ¬l.spares shape := by simp [Ledger.spares, ← balance, nothing]
    rw [if_neg none]
    exact ⟨rfl, rfl, agrees.emptied, agrees.free, out, checkouts, agrees.reuses⟩
  | some c =>
    have member := mem_of_find?_eq_some found
    obtain rfl : c.shape = shape := by simpa using find?_some found
    have present : 0 < p.free.countP (·.shape = c.shape) := countP_pos_iff.2 ⟨c, member, by simp⟩
    rw [if_pos (by simp [Ledger.spares, ← balance, present])]
    refine ⟨agrees.emptied c member, rfl, fun c' later => agrees.emptied c' (mem_of_mem_erase later),
      fun shape => ?_, out, checkouts, congrArg (· + 1) agrees.reuses⟩
    have others := agrees.free shape
    rw [countP_erase, count_cons]
    by_cases same : c.shape = shape
    · subst same
      simp [member]
      omega
    · simpa [member, same] using others

/-- What is given back is emptied. -/
theorem settle {c : Option Container} (isOut : c.isSome = true → 0 < p.outstanding) :
    (p.settle c).Agrees (l.giveBack c) := by
  cases c with
  | none => exact agrees
  | some c =>
    have out := agrees.outstanding
    have positive := isOut rfl
    have shape : c.cleared.shape = c.shape := by cases c <;> rfl
    refine ⟨forall_mem_cons.2 ⟨by rw [shape]; rfl, agrees.emptied⟩, fun s => ?_, ?_,
      agrees.checkouts, agrees.reuses⟩
    · have balance := agrees.free s
      simp [Pool.settle, giveBack, Ledger.giveBack, countP_cons, shape, count_cons]
      omega
    · show p.outstanding - 1 + (l.returned.length + 1) = l.taken
      omega

end Agrees

end Pool

/-! ### What is held -/

namespace Workbench

theorem length_release_le (w : Workbench) (name : String) :
    (w.release name).length + (w.held? name).toList.length ≤ w.held.length := by
  cases held : w.held? name with
  | none => exact length_filter_le ..
  | some c =>
    obtain ⟨before, after, split, _⟩ := lookup_eq_some_iff.1 held
    refine length_filter_lt_length_iff_exists.2 ⟨(name, c), ?_, by simp⟩
    rw [split]
    exact mem_append_right _ (mem_cons_self ..)

/-- What taking a container does: it is held, and one that was held under the name is given back. -/
theorem step_take (w : Workbench) (name : String) (shape : Shape) :
    w.step (.take name shape) = some (.contents (w.pool.take shape).1,
      ⟨(w.pool.take shape).2.settle (w.held? name), w.hold name (w.pool.take shape).1⟩) := by
  rw [step]
  cases w.held? name <;> rfl

/-! ### Every run -/

/-- The pool of the workbench is as the ledger says, and what is held is out. -/
structure Agrees (w : Workbench) (l : Ledger) : Prop where
  pool : w.pool.Agrees l
  out : w.held.length ≤ w.pool.outstanding

theorem agrees_empty : Agrees {} {} :=
  ⟨⟨forall_mem_nil _, fun _ => rfl, rfl, rfl, rfl⟩, Nat.le_refl _⟩

namespace Agrees

theorem step {op : Operation} {outcome : Outcome} (agrees : w.Agrees l)
    (done : w.step op = some (outcome, w')) : w'.Agrees (l.enter w op) := by
  have out := agrees.out
  have fewer := w.length_release_le
  cases op with
  | take name shape =>
    obtain ⟨_, more, taken⟩ := agrees.pool.take shape
    rw [step_take] at done
    cases done
    refine ⟨taken.settle fun _ => by omega, ?_⟩
    show (w.release name).length + 1 ≤ (Pool.settle _ (w.held? name)).outstanding
    have others := fewer name
    cases held : w.held? name with
    | none =>
      rw [held] at others
      exact more ▸ Nat.succ_le_succ (Nat.le_trans others out)
    | some c =>
      rw [held] at others
      show _ ≤ (w.pool.take shape).2.outstanding - 1
      rw [more]
      exact Nat.le_trans others out
  | put name numbers =>
    obtain ⟨c, held, same⟩ := Option.map_eq_some_iff.1 done
    cases same
    have others := fewer name
    rw [held] at others
    exact ⟨agrees.pool, Nat.le_trans others out⟩
  | drop name =>
    obtain ⟨c, held, same⟩ := Option.map_eq_some_iff.1 done
    cases same
    have others : (w.release name).length + 1 ≤ w.held.length := by simpa [held] using fewer name
    rw [Ledger.enter, held]
    refine ⟨agrees.pool.settle (c := some c) fun _ => by omega, ?_⟩
    show (w.release name).length ≤ w.pool.outstanding - 1
    omega
  | leak name =>
    obtain ⟨c, held, same⟩ := Option.map_eq_some_iff.1 done
    cases same
    exact ⟨agrees.pool, Nat.le_trans (length_filter_le ..) out⟩
  | clear =>
    cases done
    exact agrees_empty

theorem audit {ops : List Operation} (agrees : w.Agrees l) (ran : w.audit l ops = some (w', l')) :
    w'.Agrees l' := by
  induction ops generalizing w l with
  | nil =>
    cases ran
    exact agrees
  | cons op rest ih =>
    obtain ⟨⟨outcome, next⟩, done, later⟩ := Option.bind_eq_some_iff.1 ran
    exact ih (agrees.step done) later

end Agrees

end Workbench

/-- Two lists are taken, the first is filled and given back, and comes back empty; a third shape is
taken under a name that is in use, and one list is leaked. -/
def Sample.shift : List Workbench.Operation :=
  [.take "a" .list, .put "a" [7], .take "b" .list, .drop "a", .take "c" .list, .take "c" .set,
    .leak "b"]

end Linkage
