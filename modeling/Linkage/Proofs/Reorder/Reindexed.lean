/-
Purpose: Lists that hold corresponding elements at other positions, and computations that have
  nothing to say where a corresponding one has not.
-/
import Linkage.Proofs.Noted
import Mathlib.Data.List.Forall2
import Mathlib.Data.List.Nodup
import Mathlib.Data.List.Perm.Basic
import Mathlib.Logic.Equiv.Basic

namespace Linkage

open List

variable {α β γ δ : Type}

/-! ### Positions -/

/-- The first position stays, and those after it move as in the rest of the list. -/
def afterFirst (π : Equiv.Perm Nat) : Equiv.Perm Nat where
  toFun
    | 0 => 0
    | i + 1 => π i + 1
  invFun
    | 0 => 0
    | i + 1 => π.symm i + 1
  left_inv i := by cases i <;> simp
  right_inv i := by cases i <;> simp

/-- A permuted list has every element at some other position. -/
theorem exists_reindex_of_perm {xs ys : List α} (perm : xs.Perm ys) :
    ∃ π : Equiv.Perm Nat, ∀ i, ys[π i]? = xs[i]? := by
  induction perm with
  | nil => exact ⟨.refl _, fun _ => rfl⟩
  | cons x _ ih =>
    obtain ⟨π, same⟩ := ih
    refine ⟨afterFirst π, ?_⟩
    rintro (_ | i)
    · rfl
    · exact same i
  | swap x y rest =>
    refine ⟨Equiv.swap 0 1, ?_⟩
    rintro (_ | _ | i)
    · rfl
    · rfl
    · rfl
  | trans _ _ ih ih' =>
    obtain ⟨π, same⟩ := ih
    obtain ⟨π', same'⟩ := ih'
    exact ⟨π.trans π', fun i => (same' (π i)).trans (same i)⟩

/-- Two numberings of the same things differ by a permutation of the numbers. -/
theorem exists_reindex {f f' : Nat → Option α} {count count' : Nat}
    (numbered : ∀ i, (f i).isSome = true ↔ i < count)
    (numbered' : ∀ i, (f' i).isSome = true ↔ i < count')
    (once : ∀ {i j k}, f i = some k → f j = some k → i = j)
    (once' : ∀ {i j k}, f' i = some k → f' j = some k → i = j)
    (same : ∀ k, (∃ i, f i = some k) ↔ ∃ i, f' i = some k) :
    ∃ π : Equiv.Perm Nat, ∀ i, f' (π i) = f i := by
  have nodup {f : Nat → Option α} {count : Nat} (numbered : ∀ i, (f i).isSome = true ↔ i < count)
      (once : ∀ {i j k}, f i = some k → f j = some k → i = j) :
      ((range count).map f).Nodup := by
    refine List.Nodup.map_on ?_ nodup_range
    intro i inside j _ equal
    obtain ⟨k, found⟩ := Option.isSome_iff_exists.1 ((numbered i).2 (mem_range.1 inside))
    exact once found (equal ▸ found)
  have mem {f : Nat → Option α} {count : Nat} (numbered : ∀ i, (f i).isSome = true ↔ i < count)
      (x : Option α) : x ∈ (range count).map f ↔ ∃ k, x = some k ∧ ∃ i, f i = some k := by
    rw [mem_map]
    constructor
    · rintro ⟨i, inside, rfl⟩
      obtain ⟨k, found⟩ := Option.isSome_iff_exists.1 ((numbered i).2 (mem_range.1 inside))
      exact ⟨k, found, i, found⟩
    · rintro ⟨k, rfl, i, found⟩
      exact ⟨i, mem_range.2 ((numbered i).1 (by rw [found]; rfl)), found⟩
  have perm : ((range count).map f).Perm ((range count').map f') := by
    rw [perm_ext_iff_of_nodup (nodup numbered once) (nodup numbered' once')]
    intro x
    simp only [mem numbered, mem numbered', same]
  obtain ⟨π, places⟩ := exists_reindex_of_perm perm
  refine ⟨π, fun i => ?_⟩
  have place := places i
  rw [getElem?_map, getElem?_map] at place
  by_cases inside : i < count
  · rw [getElem?_range inside] at place
    obtain ⟨j, atPlace, equal⟩ := Option.map_eq_some_iff.1 place
    obtain ⟨_, rfl⟩ := List.getElem?_eq_some_iff.1 atPlace
    rw [← equal, getElem_range]
  · have gone : (range count)[i]? = none := getElem?_eq_none (by simpa using inside)
    rw [gone, Option.map_none, Option.map_eq_none_iff, List.getElem?_eq_none_iff,
      length_range] at place
    have beyond := fun found => inside ((numbered i).1 found)
    have beyond' := fun found => Nat.not_lt.2 place ((numbered' (π i)).1 found)
    rw [Option.not_isSome_iff_eq_none.1 beyond, Option.not_isSome_iff_eq_none.1 beyond']

/-- What one list has at a position corresponds to what the other has at the image of the
position, and beyond the end there is nothing in both. -/
def Reindexed (π : Equiv.Perm Nat) (R : α → β → Prop) (xs : List α) (ys : List β) : Prop :=
  ∀ i, Option.Rel R xs[i]? ys[π i]?

section

variable {R : α → β → Prop} {x : Option α} {y : Option β} (related : Option.Rel R x y)
include related

/-- What corresponds to something is something that corresponds to it. -/
theorem exists_of_rel :
    (∀ a, x = some a → ∃ b, y = some b ∧ R a b) ∧ (∀ b, y = some b → ∃ a, x = some a ∧ R a b) := by
  cases related with
  | some holds =>
    refine ⟨?_, ?_⟩
    · rintro _ ⟨⟩
      exact ⟨_, rfl, holds⟩
    · rintro _ ⟨⟩
      exact ⟨_, rfl, holds⟩
  | none => exact ⟨nofun, nofun⟩

theorem rel_map {S : γ → δ → Prop} {f : α → γ} {g : β → δ}
    (carries : ∀ a b, x = some a → R a b → S (f a) (g b)) : Option.Rel S (x.map f) (y.map g) := by
  cases related with
  | some holds => exact .some (carries _ _ rfl holds)
  | none => exact .none

end

namespace Reindexed

variable {π : Equiv.Perm Nat} {R : α → β → Prop} {xs : List α} {ys : List β}

/-- Having the same image is an equation at every position. -/
theorem iff_map {k : β → γ} {h : α → γ} :
    Reindexed π (fun a b => k b = h a) xs ys ↔ ∀ i, ys[π i]?.map k = xs[i]?.map h := by
  refine forall_congr' fun i => ?_
  generalize xs[i]? = x, ys[π i]? = y
  constructor
  · rintro (same | _)
    · exact congrArg some same
    · rfl
  · intro same
    cases x with
    | none =>
      rw [Option.map_none, Option.map_eq_none_iff] at same
      rw [same]
      exact .none
    | some a =>
      obtain ⟨b, rfl, equal⟩ := Option.map_eq_some_iff.1 same
      exact .some equal

/-- The correspondence that a function makes. -/
theorem of_map {f : α → β} (same : ∀ i, ys[π i]? = xs[i]?.map f) :
    Reindexed π (fun a b => b = f a) xs ys :=
  iff_map (k := id).2 fun i => by rw [Option.map_id, same]; rfl

theorem getElem?_eq_map {f : α → β} (reindexed : Reindexed π (fun a b => b = f a) xs ys) (i : Nat) :
    ys[π i]? = xs[i]?.map f := by
  have same := iff_map (k := id).1 reindexed i
  rwa [Option.map_id] at same

section

variable (reindexed : Reindexed π R xs ys)
include reindexed

theorem lt_length_iff (i : Nat) : π i < ys.length ↔ i < xs.length := by
  obtain ⟨right, left⟩ := exists_of_rel (reindexed i)
  constructor
  · intro inside
    obtain ⟨a, found, _⟩ := left _ (getElem?_eq_getElem inside)
    exact (List.getElem?_eq_some_iff.1 found).1
  · intro inside
    obtain ⟨b, found, _⟩ := right _ (getElem?_eq_getElem inside)
    exact (List.getElem?_eq_some_iff.1 found).1

theorem exists_of_mem {b : β} (member : b ∈ ys) :
    ∃ i a, xs[i]? = some a ∧ ys[π i]? = some b ∧ R a b := by
  obtain ⟨j, found⟩ := mem_iff_getElem?.1 member
  obtain ⟨i, rfl⟩ := π.surjective j
  obtain ⟨a, there, related⟩ := (exists_of_rel (reindexed i)).2 b found
  exact ⟨i, a, there, found, related⟩

theorem zipIdx : Reindexed π (fun a b => R a.1 b.1 ∧ b.2 = π a.2) xs.zipIdx ys.zipIdx := by
  intro i
  rw [getElem?_zipIdx, getElem?_zipIdx, Nat.zero_add, Nat.zero_add]
  exact rel_map (reindexed i) fun _ _ _ holds => ⟨holds, rfl⟩

/-- Brought into the order of the first list, the second corresponds to it element by
element. -/
theorem exists_forall₂ : ∃ zs, List.Forall₂ R xs zs ∧ zs.Perm ys := by
  refine ⟨((range xs.length).map π).filterMap fun j => ys[j]?, ?_, ?_⟩
  · have pick (n : Nat) (small : n ≤ xs.length) : List.Forall₂ R (xs.take n)
        (((range n).map π).filterMap fun j => ys[j]?) := by
      induction n with
      | zero => simp
      | succ n ih =>
        have inside : n < xs.length := small
        obtain ⟨b, found, related⟩ :=
          (exists_of_rel (reindexed n)).1 _ (getElem?_eq_getElem inside)
        rw [range_succ, map_append, filterMap_append,
          ← take_append_getElem inside]
        refine rel_append (ih (Nat.le_of_lt inside)) ?_
        simp [found, related]
    have all := pick xs.length (Nat.le_refl _)
    rwa [take_length] at all
  · have positions : ((range xs.length).map π).Perm (range ys.length) := by
      rw [perm_ext_iff_of_nodup (nodup_range.map π.injective) nodup_range]
      intro j
      obtain ⟨i, rfl⟩ := π.surjective j
      rw [mem_map_of_injective π.injective, mem_range, mem_range,
        reindexed.lt_length_iff]
    have whole : (range ys.length).map (fun j => ys[j]?) = ys.map some := by
      apply ext_getElem?
      intro k
      by_cases inside : k < ys.length <;> simp [inside]
    have picked : (range ys.length).filterMap (fun j => ys[j]?) = ys := by
      have image := congrArg (filterMap id) whole
      simpa using image
    have perm := positions.filterMap fun j => ys[j]?
    rwa [picked] at perm

/-- What corresponding elements bring along is brought along in another order. -/
theorem flatMap_perm {f : α → List γ} {g : β → List γ}
    (brings : ∀ a b, R a b → (g b).Perm (f a)) : (ys.flatMap g).Perm (xs.flatMap f) := by
  obtain ⟨zs, pairs, perm⟩ := reindexed.exists_forall₂
  refine (perm.symm.flatMap_right g).trans ?_
  clear perm reindexed
  induction pairs with
  | nil => exact .refl _
  | cons related _ ih =>
    exact (brings _ _ related).append ih

theorem map_perm {f : α → γ} {g : β → γ}
    (same : ∀ a b, R a b → g b = f a) : (ys.map g).Perm (xs.map f) := by
  rw [map_eq_flatMap, map_eq_flatMap]
  refine reindexed.flatMap_perm fun a b related => ?_
  rw [same a b related]

end

end Reindexed

/-! ### Computations that follow others -/

namespace Noted

variable {ν : Type} {R : α → β → Prop} {S : γ → δ → Prop}

/-- Where the first computation notes nothing, the second notes nothing either and its value
corresponds. -/
def Follows (R : α → β → Prop) (x : Noted ν α) (y : Noted ν β) : Prop :=
  x.notes = [] → y.notes = [] ∧ R x.value y.value

namespace Follows

variable {f : α → Noted ν γ} {g : β → Noted ν δ}

theorem pure {a : α} {b : β} (related : R a b) :
    Follows R (Pure.pure a : Noted ν α) (Pure.pure b) :=
  fun _ => ⟨rfl, related⟩

theorem bind {x : Noted ν α} {y : Noted ν β} (first : Follows R x y)
    (later : ∀ a b, R a b → Follows S (f a) (g b)) : Follows S (x >>= f) (y >>= g) := by
  intro quiet
  rw [notes_bind, append_eq_nil_iff] at quiet
  obtain ⟨quiet', related⟩ := first quiet.1
  obtain ⟨quiet'', related'⟩ := later _ _ related quiet.2
  refine ⟨?_, related'⟩
  rw [notes_bind, quiet', quiet'']
  rfl

theorem and_left {x : Noted ν α} {y : Noted ν β} {P : α → Prop} (follows : Follows R x y)
    (holds : P x.value) : Follows (fun a b => R a b ∧ P a) x y :=
  fun quiet => (follows quiet).imp_right fun related => ⟨related, holds⟩

end Follows

/-- Where the first computation notes nothing, the second notes nothing either. -/
abbrev Hushes (x : Noted ν α) (y : Noted ν β) : Prop := Follows (fun _ _ => True) x y

namespace Follows

variable {f : α → Noted ν γ} {g : β → Noted ν δ} {xs : List α} {ys : List β}

/-- Several computations are silent if each has a silent counterpart. -/
theorem notes_of_mem (each : ∀ b ∈ ys, ∃ a ∈ xs, Hushes (f a) (g b))
    (quiet : (xs.flatMap fun a => (f a).notes) = []) : (ys.flatMap fun b => (g b).notes) = [] := by
  rw [flatMap_eq_nil_iff] at quiet ⊢
  intro b member
  obtain ⟨a, inside, hushes⟩ := each b member
  exact (hushes (quiet a inside)).1

theorem forM_of_mem {f : α → Noted ν PUnit} {g : β → Noted ν PUnit}
    (each : ∀ b ∈ ys, ∃ a ∈ xs, Hushes (f a) (g b)) :
    Hushes (forM xs f : Noted ν PUnit) (forM ys g : Noted ν PUnit) := by
  intro quiet
  rw [notes_forM] at quiet
  exact ⟨(notes_forM ..).trans (notes_of_mem each quiet), trivial⟩

theorem traverse_of_mem (each : ∀ b ∈ ys, ∃ a ∈ xs, Hushes (f a) (g b)) :
    Hushes (traverse f xs) (traverse g ys) := by
  intro quiet
  rw [notes_traverse] at quiet
  exact ⟨(notes_traverse ..).trans (notes_of_mem each quiet), trivial⟩

/-- Traversing corresponding lists gives corresponding lists. -/
theorem traverse {π : Equiv.Perm Nat} (reindexed : Reindexed π R xs ys)
    (each : ∀ a b, R a b → Follows S (f a) (g b)) :
    Follows (Reindexed π S) (traverse f xs) (traverse g ys) := by
  intro quiet
  refine ⟨(traverse_of_mem (fun b member => ?_) quiet).1, fun i => ?_⟩
  · obtain ⟨i, a, found, _, related⟩ := reindexed.exists_of_mem member
    exact ⟨a, mem_of_getElem? found, fun quiet => ⟨(each a b related quiet).1, trivial⟩⟩
  · rw [notes_traverse, flatMap_eq_nil_iff] at quiet
    rw [value_traverse, value_traverse, getElem?_map, getElem?_map]
    exact rel_map (reindexed i) fun a b found related =>
      (each a b related (quiet a (mem_of_getElem? found))).2

section

variable {k : α → β} {h : γ → δ} (each : ∀ a, Follows (fun u v => v = h u) (f a) (g (k a)))
include each

/-- Traversing the image of a list in another order gives the image in another order. -/
theorem traverse_perm (perm : ys.Perm (xs.map k)) :
    Follows (fun us vs => vs.Perm (us.map h)) (Noted.traverse f xs) (Noted.traverse g ys) := by
  obtain ⟨π, places⟩ := exists_reindex_of_perm perm.symm
  intro quiet
  obtain ⟨quiet', related⟩ := traverse (.of_map fun i => (places i).trans (getElem?_map ..))
    (by rintro a _ rfl; exact each a) quiet
  exact ⟨quiet', by simpa using related.map_perm (g := id) fun _ _ same => same⟩

/-- Traversing the image of a list gives the image of the list. -/
theorem traverse_map :
    Follows (fun us vs => vs = us.map h) (Noted.traverse f xs) (Noted.traverse g (xs.map k)) := by
  intro quiet
  obtain ⟨quiet', related⟩ := traverse (.of_map (π := .refl _) fun i => getElem?_map ..)
    (by rintro a _ rfl; exact each a) quiet
  exact ⟨quiet', ext_getElem? fun i => (related.getElem?_eq_map i).trans (getElem?_map ..).symm⟩

end

end Follows

end Noted

end Linkage
