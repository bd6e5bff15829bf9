/-
Purpose: What the slots of the libraries look like while they are built, and when nothing is
  left to build.
-/
import Linkage.Proofs.Lists
import Linkage.Proofs.Noted
import Linkage.Rely.Graph

namespace Linkage

open List

variable {index i : Nat} {slot : Slot} {name : String} {known : Option Table} {s : Surface}

/-! ### Lists of optional results -/

section OptionalResults

variable {α β σ : Type}

theorem mapM_eq_some_iff {f : α → Option β} {xs : List α} {ys : List β} :
    xs.mapM f = some ys ↔ xs.map f = ys.map some := by
  induction xs generalizing ys with
  | nil => cases ys <;> simp
  | cons x rest ih =>
    cases ys with
    | nil => cases found : f x <;> cases results : rest.mapM f <;> simp [found, results]
    | cons y ys =>
      rw [mapM_cons, map_cons, map_cons, List.cons.injEq, ← ih]
      cases f x <;> cases rest.mapM f <;> simp

/-- A fold that does not come down was idle at every step. -/
theorem foldl_idle {f : σ → α → σ} {size : σ → Nat}
    (step : ∀ s a, f s a = s ∨ size (f s a) < size s) {xs : List α} {s : σ}
    (idle : ¬size (xs.foldl f s) < size s) : xs.foldl f s = s ∧ ∀ a ∈ xs, f s a = s := by
  have shrinks (xs : List α) (s : σ) : size (xs.foldl f s) ≤ size s := by
    induction xs generalizing s with
    | nil => exact Nat.le_refl _
    | cons a rest ih =>
      rcases step s a with same | less
      · rw [foldl_cons, same]
        exact ih s
      · exact Nat.le_trans (ih _) (Nat.le_of_lt less)
  induction xs with
  | nil => exact ⟨rfl, by simp⟩
  | cons a rest ih =>
    rcases step s a with same | less
    · rw [foldl_cons, same] at idle
      obtain ⟨stays, all⟩ := ih idle
      rw [foldl_cons, same]
      exact ⟨stays, forall_mem_cons.2 ⟨same, all⟩⟩
    · exact absurd (Nat.lt_of_le_of_lt (shrinks rest _) less) idle

end OptionalResults

namespace RelyGraph

variable {g : RelyGraph} {slots : List Slot}

/-- Library `i` names library `k` among its dependencies. -/
def Needs (g : RelyGraph) (k i : Nat) : Prop :=
  ∃ s name, g.libraries[i]? = some s ∧ name ∈ s.dependencies ∧ g.node? name = some (.rely k)

/-! ### While libraries are built -/

/-- The slots while libraries are built: each that is not pending was built, or refused, with
the dependencies that are in the slots now, and only finitely many libraries lie below it. -/
structure Settling (g : RelyGraph) (slots : List Slot) : Prop where
  length : slots.length = g.libraries.length
  built : ∀ {i r}, slots[i]? = some (.built r) → ∃ s dependencies,
    g.libraries[i]? = some s ∧ s.dependencies.mapM (g.dependency slots) = some dependencies ∧
      (Linkup.mk s (.rely i) dependencies).instantiate = .ok r
  failed : ∀ {i}, slots[i]? = some .failed → ∃ s dependencies problem,
    g.libraries[i]? = some s ∧ s.dependencies.mapM (g.dependency slots) = some dependencies ∧
      (Linkup.mk s (.rely i) dependencies).instantiate = .error problem
  ordered : ∀ {i slot}, slots[i]? = some slot → slot.isPending = false → Acc g.Needs i

/-- Nothing has been built yet. -/
theorem settling_pending (g : RelyGraph) : g.Settling (g.libraries.map fun _ => .pending) where
  length := by simp
  built := by
    intro i r found
    rw [getElem?_map] at found
    obtain ⟨_, _, impossible⟩ := Option.map_eq_some_iff.1 found
    cases impossible
  failed := by
    intro i found
    rw [getElem?_map] at found
    obtain ⟨_, _, impossible⟩ := Option.map_eq_some_iff.1 found
    cases impossible
  ordered := by
    intro i slot found done
    rw [getElem?_map] at found
    obtain ⟨_, _, rfl⟩ := Option.map_eq_some_iff.1 found
    cases done

/-- Filling a pending slot does not change what is known of dependencies. -/
theorem dependency_set (pending : slots[index]? = some .pending)
    (found : g.dependency slots name = some known) :
    g.dependency (slots.set index slot) name = some known := by
  unfold dependency at found ⊢
  split
  · rename_i d atNode
    simp only [atNode] at found
    have other : index ≠ d := by
      rintro rfl
      rw [pending] at found
      cases found
    rw [getElem?_set_ne other]
    exact found
  · rename_i atNode
    simpa [atNode] using found
  · rename_i atNode
    simpa [atNode] using found

theorem mapM_dependency_set (pending : slots[index]? = some .pending) {names : List String}
    {known : List (Option Table)} (found : names.mapM (g.dependency slots) = some known) :
    names.mapM (g.dependency (slots.set index slot)) = some known := by
  rw [mapM_eq_some_iff] at found ⊢
  rw [← found]
  apply map_congr_left
  intro name member
  have image : g.dependency slots name ∈ known.map some := found ▸ mem_map_of_mem member
  obtain ⟨value, _, same⟩ := mem_map.1 image
  rw [← same]
  exact dependency_set pending same.symm

/-- What is known of a dependency is no longer pending. -/
theorem not_pending_of_dependency {k : Nat}
    (found : g.dependency slots name = some known) (atNode : g.node? name = some (.rely k)) :
    ∃ slot, slots[k]? = some slot ∧ slot.isPending = false := by
  unfold dependency at found
  rw [atNode] at found
  cases held : slots[k]? with
  | none => simp [held] at found
  | some slot =>
    cases slot with
    | pending => simp [held] at found
    | failed | built r => exact ⟨_, rfl, rfl⟩

/-- What an attempt to build a library can come to. -/
inductive Attempt (g : RelyGraph) (slots : List Slot) (index : Nat) (s : Surface) :
    Noted RelyProblem (List Slot) → Prop
  | idle (blocked : slots[index]? = some .pending →
      s.dependencies.mapM (g.dependency slots) = none) : Attempt g slots index s (pure slots)
  | built {dependencies : List (Option Table)} {r : Rely} (pending : slots[index]? = some .pending)
      (known : s.dependencies.mapM (g.dependency slots) = some dependencies)
      (result : (Linkup.mk s (.rely index) dependencies).instantiate = .ok r) :
      Attempt g slots index s (pure (slots.set index (.built r)))
  | failed {dependencies : List (Option Table)} {problem : RelyProblem}
      (pending : slots[index]? = some .pending)
      (known : s.dependencies.mapM (g.dependency slots) = some dependencies)
      (result : (Linkup.mk s (.rely index) dependencies).instantiate = .error problem) :
      Attempt g slots index s ⟨slots.set index .failed, [problem]⟩

theorem attempt_spec (g : RelyGraph) (slots : List Slot) (index : Nat) (s : Surface) :
    Attempt g slots index s (g.attempt slots index s) := by
  unfold attempt
  split
  · rename_i dependencies pending known
    split
    · rename_i r result
      exact .built pending known result
    · rename_i problem result
      exact .failed pending known result
  · rename_i other
    refine .idle fun pending => ?_
    cases known : s.dependencies.mapM (g.dependency slots) with
    | none => rfl
    | some dependencies => exact absurd known (other dependencies pending)

section

variable (settling : g.Settling slots) {index : Nat} {s : Surface}
    (atIndex : g.libraries[index]? = some s)
include settling atIndex

/-- Filling a pending slot whose dependencies are known keeps the order of building. -/
theorem Settling.ordered_set {dependencies : List (Option Table)}
    (known : s.dependencies.mapM (g.dependency slots) = some dependencies)
    {slot' : Slot} (found : (slots.set index slot)[i]? = some slot')
    (done : slot'.isPending = false) : Acc g.Needs i := by
  by_cases here : index = i
  · subst here
    refine Acc.intro index ?_
    rintro k ⟨s', name, atIndex', isDependency, atNode⟩
    rw [atIndex] at atIndex'
    cases atIndex'
    have image : g.dependency slots name ∈ dependencies.map some :=
      mapM_eq_some_iff.1 known ▸ mem_map_of_mem isDependency
    obtain ⟨value, _, same⟩ := mem_map.1 image
    obtain ⟨held, there, notPending⟩ := not_pending_of_dependency same.symm atNode
    exact settling.ordered there notPending
  · rw [getElem?_set_ne here] at found
    exact settling.ordered found done

/-- An attempt keeps the slots in order. -/
theorem attempt_settling : g.Settling (g.attempt slots index s).value := by
  have spec := g.attempt_spec slots index s
  generalize g.attempt slots index s = result at spec ⊢
  cases spec with
  | idle blocked => exact settling
  | @built dependencies r pending known result =>
    refine ⟨by simpa using settling.length, ?_, ?_, settling.ordered_set atIndex known⟩
    · intro i r' found
      rcases eq_or_of_getElem?_set found with ⟨rfl, same⟩ | found
      · cases same
        exact ⟨s, dependencies, atIndex, mapM_dependency_set pending known, result⟩
      · obtain ⟨s', known', atI, knownAt, result'⟩ := settling.built found
        exact ⟨s', known', atI, mapM_dependency_set pending knownAt, result'⟩
    · intro i found
      rcases eq_or_of_getElem?_set found with ⟨_, same⟩ | found
      · cases same
      · obtain ⟨s', known', problem, atI, knownAt, result'⟩ := settling.failed found
        exact ⟨s', known', problem, atI, mapM_dependency_set pending knownAt, result'⟩
  | @failed dependencies problem pending known result =>
    refine ⟨by simpa using settling.length, ?_, ?_, settling.ordered_set atIndex known⟩
    · intro i r found
      rcases eq_or_of_getElem?_set found with ⟨_, same⟩ | found
      · cases same
      · obtain ⟨s', known', atI, knownAt, result'⟩ := settling.built found
        exact ⟨s', known', atI, mapM_dependency_set pending knownAt, result'⟩
    · intro i found
      rcases eq_or_of_getElem?_set found with ⟨rfl, _⟩ | found
      · exact ⟨s, dependencies, problem, atIndex, mapM_dependency_set pending known, result⟩
      · obtain ⟨s', known', problem', atI, knownAt, result'⟩ := settling.failed found
        exact ⟨s', known', problem', atI, mapM_dependency_set pending knownAt, result'⟩

end

theorem pass_settling (settling : g.Settling slots) : g.Settling (g.pass slots).value := by
  refine Noted.value_foldlM_of_step ?_ settling
  intro slots entry member held
  exact attempt_settling held (mem_zipIdx_iff_getElem?.1 member)

theorem settle_settling (settling : g.Settling slots) : g.Settling (g.settle slots).value := by
  fun_induction settle g slots with
  | case1 slots after progress done | case3 slots after stuck done | case4 slots after stuck more =>
    exact pass_settling settling
  | case2 slots after progress more rest ih => exact ih (pass_settling settling)

/-! ### When nothing is left to build -/

/-- An attempt does nothing or leaves fewer libraries pending. -/
theorem attempt_idle_or_less (g : RelyGraph) (slots : List Slot) (index : Nat) (s : Surface) :
    (g.attempt slots index s).value = slots ∨
      pendingCount (g.attempt slots index s).value < pendingCount slots := by
  have fewer {slot : Slot} (pending : slots[index]? = some .pending)
      (done : slot.isPending = false) :
      pendingCount (slots.set index slot) < pendingCount slots := by
    obtain ⟨inside, isPending⟩ := List.getElem?_eq_some_iff.1 pending
    have positive : 0 < slots.countP Slot.isPending :=
      countP_pos_iff.2 ⟨.pending, mem_of_getElem? pending, rfl⟩
    unfold pendingCount
    rw [countP_set inside, isPending, done]
    simp only [Slot.isPending, if_true, Bool.false_eq_true, if_false]
    omega
  have spec := g.attempt_spec slots index s
  generalize g.attempt slots index s = result at spec ⊢
  cases spec with
  | idle blocked => exact .inl rfl
  | built pending known result | failed pending known result => exact .inr (fewer pending rfl)

/-- A library that is pending in the end waits for one that is pending too. -/
theorem settle_stuck
    (pending : (g.settle slots).value[i]? = some .pending) (atIndex : g.libraries[i]? = some s) :
    s.dependencies.mapM (g.dependency (g.settle slots).value) = none := by
  have none_pending {slots : List Slot} (done : pendingCount slots = 0) :
      slots[i]? ≠ some .pending := by
    intro found
    exact countP_eq_zero.1 done .pending (mem_of_getElem? found) rfl
  fun_induction settle g slots with
  | case1 slots after progress done | case3 slots after stuck done =>
    exact absurd pending (none_pending done)
  | case2 slots after progress more rest ih => exact ih pending
  | case4 slots after stuck more =>
    have step (slots : List Slot) (entry : Surface × Nat) :
        (g.attempt slots entry.2 entry.1).value = slots ∨
          pendingCount (g.attempt slots entry.2 entry.1).value < pendingCount slots :=
      g.attempt_idle_or_less slots entry.2 entry.1
    have value : after.value = g.libraries.zipIdx.foldl
        (fun slots entry => (g.attempt slots entry.2 entry.1).value) slots :=
      Noted.value_foldlM _ _ _
    rw [value] at stuck
    obtain ⟨same, idle⟩ := foldl_idle step stuck
    rw [value, same] at pending ⊢
    have stays := idle (s, i) (mk_mem_zipIdx_iff_getElem?.2 atIndex)
    have spec := g.attempt_spec slots i s
    have inside := lt_of_getElem? pending
    generalize g.attempt slots i s = result at spec stays
    cases spec with
    | idle blocked => exact blocked pending
    | built _ known result =>
      rw [← stays, Noted.value_pure, getElem?_set_self inside] at pending
      cases pending
    | failed _ known result =>
      rw [← stays, getElem?_set_self inside] at pending
      cases pending

/-- Whether all libraries are built or still to be built. -/
def Unfailed (slots : List Slot) : Prop := ∀ slot ∈ slots, slot ≠ .failed

theorem attempt_unfailed (unfailed : Unfailed slots)
    (quiet : (g.attempt slots index s).notes = []) : Unfailed (g.attempt slots index s).value := by
  have spec := g.attempt_spec slots index s
  generalize g.attempt slots index s = result at spec quiet ⊢
  cases spec with
  | idle blocked => exact unfailed
  | built pending known result =>
    intro slot member
    rcases mem_or_eq_of_mem_set member with old | rfl
    · exact unfailed slot old
    · exact Slot.noConfusion
  | failed pending known result => cases quiet

theorem pass_unfailed (unfailed : Unfailed slots) (quiet : (g.pass slots).notes = []) :
    Unfailed (g.pass slots).value := by
  refine Noted.value_foldlM_of_quiet_step ?_ unfailed quiet
  intro slots entry _ silent held
  exact attempt_unfailed held silent

/-- Where nothing is complained about, all libraries are built in the end. -/
theorem settle_built_of_quiet (unfailed : Unfailed slots) (quiet : (g.settle slots).notes = []) :
    ∀ slot ∈ (g.settle slots).value, ∃ r, slot = .built r := by
  have all_built {slots : List Slot} (unfailed : Unfailed slots)
      (done : pendingCount slots = 0) : ∀ slot ∈ slots, ∃ r, slot = .built r := by
    intro slot member
    cases slot with
    | pending => exact absurd rfl (countP_eq_zero.1 done .pending member)
    | failed => exact absurd rfl (unfailed .failed member)
    | built r => exact ⟨r, rfl⟩
  fun_induction settle g slots with
  | case1 slots after progress done | case3 slots after stuck done =>
    exact all_built (pass_unfailed unfailed quiet) done
  | case2 slots after progress more rest ih =>
    obtain ⟨quietNow, quietLater⟩ := append_eq_nil_iff.1 quiet
    exact ih (pass_unfailed unfailed quietNow) quietLater
  | case4 slots after stuck more => simp at quiet

end RelyGraph

end Linkage
