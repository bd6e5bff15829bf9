/-
Purpose: How far the places that a walk meets are from where it began: paths with their number
  of links, and that a breadth-first search and a chain list each place at its least distance.
-/
import Linkage.Proofs.Walk
import Mathlib.Order.Bounds.Defs

namespace Linkage.Walk

open List

variable {d m i : Nat}

/-! ### Paths -/

/-- A path from place to place along a relation, with its number of links. -/
inductive Path {α : Type} (R : α → α → Prop) : Nat → α → α → Prop
  | nil (a : α) : Path R 0 a a
  | cons {n : Nat} {a b c : α} : R a b → Path R n b c → Path R (n + 1) a c

namespace Path

variable {α : Type} {R S : α → α → Prop} {m n : Nat} {a b c : α}

theorem append (first : Path R m a b) (second : Path R n b c) : Path R (m + n) a c := by
  induction first with
  | nil a =>
    rw [Nat.zero_add]
    exact second
  | cons link _ ih =>
    rw [Nat.succ_add]
    exact .cons link (ih second)

/-- A path stays one where its links do, as long as it keeps to places of a kind. -/
theorem imp {P : α → Prop} (links : ∀ x y, P x → R x y → S x y ∧ P y) (first : P a)
    (path : Path R n a b) : Path S n a b ∧ P b := by
  induction path with
  | nil a => exact ⟨.nil a, first⟩
  | cons link _ ih =>
    obtain ⟨link', next⟩ := links _ _ first link
    obtain ⟨rest, last⟩ := ih next
    exact ⟨.cons link' rest, last⟩

end Path

theorem exists_path_iff {α : Type} {R : α → α → Prop} {a b : α} :
    (∃ n, Path R n a b) ↔ Relation.ReflTransGen R a b := by
  constructor
  · rintro ⟨n, path⟩
    induction path with
    | nil a => exact .refl
    | cons link _ ih => exact .head link ih
  · intro reached
    induction reached using Relation.ReflTransGen.head_induction_on with
    | refl => exact ⟨0, .nil b⟩
    | head link _ ih =>
      obtain ⟨n, path⟩ := ih
      exact ⟨n + 1, .cons link path⟩

variable {α : Type}

/-! ### Breadth-first search

The queue holds places at two distances at most, the nearer ones in front.  So a place is listed
at the least distance at which it stands in the queue, and what one link leads to is listed one
further or nearer. -/

/-- A queue as breadth-first search keeps it: the distances go up, by one at most. -/
def InOrder (queue : List (α × Nat)) : Prop := queue.Pairwise fun x y => x.2 ≤ y.2 ∧ y.2 ≤ x.2 + 1

theorem inOrder_start (start : List α) : InOrder (start.map fun a => (a, 0)) := by
  rw [InOrder, pairwise_map]
  exact pairwise_of_forall fun _ _ => ⟨le_refl 0, Nat.zero_le 1⟩

/-- The links of the first place keep the order when they are put at the end. -/
theorem InOrder.step {a : α} {distance : Nat} {queue : List (α × Nat)}
    (ordered : InOrder ((a, distance) :: queue)) (targets : List α) :
    InOrder (queue ++ targets.map fun b => (b, distance + 1)) := by
  obtain ⟨first, rest⟩ := pairwise_cons.1 ordered
  refine pairwise_append.2 ⟨rest, ?_, ?_⟩
  · rw [pairwise_map]
    exact pairwise_of_forall fun _ _ => ⟨le_refl _, Nat.le_succ _⟩
  · intro x old y new
    obtain ⟨b, _, rfl⟩ := mem_map.1 new
    exact ⟨(first x old).2, Nat.succ_le_succ (first x old).1⟩

variable [DecidableEq α] {next : α → List α} {room : List α} {queue : List (α × Nat)}

/-- A place is listed at the length of a path to it. -/
theorem exists_path_of_mem_levels {a : α} (member : (a, d) ∈ levels next room queue) :
    ∃ origin ∈ queue, ∃ m, Path (fun x y => y ∈ next x) m origin.1 a ∧ d = origin.2 + m := by
  fun_induction levels next room queue with
  | case1 room => cases member
  | case2 room b distance queue present ih =>
    rcases mem_cons.1 member with same | later
    · cases same
      exact ⟨(a, d), mem_cons_self .., 0, .nil a, rfl⟩
    · obtain ⟨origin, inside, m, path, total⟩ := ih later
      rcases mem_append.1 inside with old | new
      · exact ⟨origin, mem_cons_of_mem _ old, m, path, total⟩
      · obtain ⟨target, link, rfl⟩ := mem_map.1 new
        refine ⟨(b, distance), mem_cons_self .., m + 1, .cons link path, ?_⟩
        omega
  | case3 room b distance queue absent ih =>
    obtain ⟨origin, inside, found⟩ := ih member
    exact ⟨origin, mem_cons_of_mem _ inside, found⟩

/-- What stands in the queue is listed no further away. -/
theorem mem_levels_of_mem_queue (next : α → List α) (ordered : InOrder queue) {a : α} {e : Nat}
    (member : (a, e) ∈ queue) (inside : a ∈ room) : ∃ d ≤ e, (a, d) ∈ levels next room queue := by
  fun_induction levels next room queue with
  | case1 room => cases member
  | case2 room b distance queue present ih =>
    by_cases same : a = b
    · subst same
      refine ⟨distance, ?_, mem_cons_self ..⟩
      rcases mem_cons.1 member with first | later
      · cases first
        exact le_refl _
      · exact ((pairwise_cons.1 ordered).1 _ later).1
    · have later : (a, e) ∈ queue := by
        rcases mem_cons.1 member with first | later
        · cases first
          exact absurd rfl same
        · exact later
      obtain ⟨d, near, listed⟩ := ih (ordered.step _) (mem_append_left _ later)
        (mem_without.2 ⟨inside, same⟩)
      exact ⟨d, near, mem_cons_of_mem _ listed⟩
  | case3 room b distance queue absent ih =>
    rcases mem_cons.1 member with first | later
    · cases first
      exact absurd inside absent
    · exact ih (pairwise_cons.1 ordered).2 later inside

/-- What a place that is listed links to is listed, at most one further away. -/
theorem mem_levels_of_mem_next (ordered : InOrder queue) {a b : α}
    (member : (a, d) ∈ levels next room queue) (link : b ∈ next a) (inside : b ∈ room) :
    ∃ e ≤ d + 1, (b, e) ∈ levels next room queue := by
  fun_induction levels next room queue with
  | case1 room => cases member
  | case2 room x distance queue present ih =>
    have ordered' := ordered.step (next x)
    by_cases same : b = x
    · subst same
      refine ⟨distance, ?_, mem_cons_self ..⟩
      rcases mem_cons.1 member with first | later
      · cases first
        exact Nat.le_succ _
      · -- What is listed later comes from the queue, or is one link further than the first.
        obtain ⟨origin, from_, m, _, rfl⟩ := exists_path_of_mem_levels later
        rcases mem_append.1 from_ with old | new
        · have near := ((pairwise_cons.1 ordered).1 origin old).1
          omega
        · obtain ⟨_, _, rfl⟩ := mem_map.1 new
          omega
    · have stays : b ∈ without room x := mem_without.2 ⟨inside, same⟩
      rcases mem_cons.1 member with first | later
      · cases first
        obtain ⟨e, near, listed⟩ := mem_levels_of_mem_queue next ordered'
          (mem_append_right _ (mem_map.2 ⟨b, link, rfl⟩)) stays
        exact ⟨e, near, mem_cons_of_mem _ listed⟩
      · obtain ⟨e, near, listed⟩ := ih ordered' later stays
        exact ⟨e, near, mem_cons_of_mem _ listed⟩
  | case3 room x distance queue absent ih => exact ih (pairwise_cons.1 ordered).2 member inside

/-- What a path leads to is listed no further away than the path is long. -/
theorem mem_levels_of_path (ordered : InOrder queue)
    (onward : ∀ x y, y ∈ next x → y ∈ room) {a b : α}
    (member : (a, d) ∈ levels next room queue) (path : Path (fun x y => y ∈ next x) m a b) :
    ∃ e ≤ d + m, (b, e) ∈ levels next room queue := by
  induction path generalizing d with
  | nil a => exact ⟨d, le_refl d, member⟩
  | cons link _ ih =>
    obtain ⟨e, near, listed⟩ := mem_levels_of_mem_next ordered member link (onward _ _ link)
    obtain ⟨e', near', listed'⟩ := ih listed
    exact ⟨e', by omega, listed'⟩

/-- A place is looked up at the distance at which it is listed. -/
theorem lookup_levels_eq_some {a : α} :
    (levels next room queue).lookup a = some d ↔ (a, d) ∈ levels next room queue := by
  have listed {e : Nat} (found : (levels next room queue).lookup a = some e) :
      (a, e) ∈ levels next room queue := by
    obtain ⟨before, after, split, _⟩ := lookup_eq_some_iff.1 found
    rw [split]
    exact mem_append_right _ (mem_cons_self ..)
  refine ⟨listed, fun member => ?_⟩
  cases found : (levels next room queue).lookup a with
  | none =>
    have missing := lookup_eq_none_iff.1 found (a, d) member
    simp at missing
  | some e =>
    have same : (a, e) = (a, d) :=
      inj_on_of_nodup_map (nodup_levels next room queue) (listed found) member rfl
    rw [(Prod.mk.inj same).2]

/-- A breadth-first search finds a place at the length of the shortest path from where it began,
and finds none that no path leads to. -/
theorem lookup_levels_iff {start : List α} (begins : ∀ a ∈ start, a ∈ room)
    (onward : ∀ x y, y ∈ next x → y ∈ room) {b : α} {n : Nat} :
    (levels next room (start.map fun a => (a, 0))).lookup b = some n ↔
      IsLeast {m | ∃ a ∈ start, Path (fun x y => y ∈ next x) m a b} n := by
  have ordered := inOrder_start start
  have reached {a : α} {m : Nat} (first : a ∈ start) (path : Path (fun x y => y ∈ next x) m a b) :
      ∃ d ≤ m, (b, d) ∈ levels next room (start.map fun a => (a, 0)) := by
    obtain ⟨d, near, listed⟩ := mem_levels_of_mem_queue next ordered
      (mem_map.2 ⟨a, first, rfl⟩) (begins a first)
    obtain ⟨e, near', listed'⟩ := mem_levels_of_path ordered onward listed path
    exact ⟨e, by omega, listed'⟩
  have sound {d : Nat} (listed : (b, d) ∈ levels next room (start.map fun a => (a, 0))) :
      ∃ a ∈ start, Path (fun x y => y ∈ next x) d a b := by
    obtain ⟨origin, inside, m, path, rfl⟩ := exists_path_of_mem_levels listed
    obtain ⟨a, first, rfl⟩ := mem_map.1 inside
    exact ⟨a, first, by simpa using path⟩
  constructor
  · intro found
    refine ⟨sound (lookup_levels_eq_some.1 found), ?_⟩
    rintro m ⟨a, first, path⟩
    obtain ⟨d, near, listed⟩ := reached first path
    rw [lookup_levels_eq_some.2 listed] at found
    cases found
    exact near
  · rintro ⟨⟨a, first, path⟩, least⟩
    obtain ⟨d, near, listed⟩ := reached first path
    rw [le_antisymm (least (sound listed)) near]
    exact lookup_levels_eq_some.2 listed

/-! ### Chains

A chain ends where it would come back to one of its places.  All that any number of steps leads
to stands on it nevertheless, no later than after that many steps. -/

variable {go : α → Option α}

/-- What stands on a chain is where as many steps lead. -/
theorem steps_of_getElem?_chain {a b : α} (found : (chain go room a)[i]? = some b) :
    steps go i a = some b := by
  fun_induction chain go room a generalizing i with
  | case1 room a present stop =>
    obtain ⟨inside, same⟩ := List.getElem?_eq_some_iff.1 found
    obtain rfl : i = 0 := by simpa using inside
    exact congrArg some same
  | case2 room a present c onward ih =>
    cases i with
    | zero => exact found
    | succ i =>
      rw [steps, onward]
      exact ih found
  | case3 room a absent => cases found

theorem getElem?_chain_zero {a : α} (present : a ∈ room) : (chain go room a)[0]? = some a := by
  rw [chain, if_pos present]
  cases go a <;> rfl

/-- The step from a place of a chain leads to another one, at most one later. -/
theorem exists_getElem?_chain_of_step {a x y : α} (found : (chain go room a)[i]? = some x)
    (step : go x = some y) (inside : y ∈ room) : ∃ j ≤ i + 1, (chain go room a)[j]? = some y := by
  fun_induction chain go room a generalizing i with
  | case1 room a present stop =>
    obtain ⟨_, same⟩ := List.getElem?_eq_some_iff.1 found
    obtain rfl : a = x := by simpa using same
    rw [stop] at step
    cases step
  | case2 room a present c onward ih =>
    by_cases back : y = a
    · exact ⟨0, Nat.zero_le _, by rw [back]; rfl⟩
    · have stays : y ∈ without room a := mem_without.2 ⟨inside, back⟩
      cases i with
      | zero =>
        cases found
        rw [step] at onward
        cases onward
        exact ⟨1, le_refl 1, getElem?_chain_zero stays⟩
      | succ i =>
        obtain ⟨j, near, listed⟩ := ih found stays
        exact ⟨j + 1, Nat.succ_le_succ near, listed⟩
  | case3 room a absent => cases found

/-- What a number of steps leads to stands on the chain, no later than that. -/
theorem exists_getElem?_chain_of_steps {a b : α} (present : a ∈ room)
    (onward : ∀ x y, go x = some y → y ∈ room) (path : steps go m a = some b) :
    ∃ j ≤ m, (chain go room a)[j]? = some b := by
  induction m generalizing b with
  | zero =>
    cases path
    exact ⟨0, le_refl 0, getElem?_chain_zero present⟩
  | succ m ih =>
    rw [steps_add] at path
    obtain ⟨x, before, last⟩ := Option.bind_eq_some_iff.1 path
    have step : go x = some b := by simpa [steps] using last
    obtain ⟨j, near, listed⟩ := ih before
    obtain ⟨j', near', listed'⟩ := exists_getElem?_chain_of_step listed step (onward x b step)
    exact ⟨j', by omega, listed'⟩

end Linkage.Walk
