/-
Purpose: Lists that grow at their end, change at one place, or have the same or different images.
-/
import Mathlib.Data.List.Induction
import Mathlib.Data.List.Nodup

namespace Linkage

open List

variable {α β : Type} {f : α → β} {change : α → α}

theorem lt_of_getElem? {xs : List α} {i : Nat} {x : α} (found : xs[i]? = some x) : i < xs.length :=
  (List.getElem?_eq_some_iff.1 found).1

theorem getElem?_append_singleton (xs : List α) (x : α) (i : Nat) :
    (xs ++ [x])[i]? = if i = xs.length then some x else xs[i]? := by
  rw [getElem?_append]
  by_cases last : i = xs.length
  · simp [last]
  · by_cases before : i < xs.length
    · simp [last, before]
    · have beyond : i - xs.length ≠ 0 := by omega
      simp [last, before, beyond]

theorem forall_getElem?_append_singleton {P : Nat → α → Prop} {xs : List α} {x : α}
    (others : ∀ {i a}, xs[i]? = some a → P i a) (last : P xs.length x) {i : Nat} {a : α}
    (found : (xs ++ [x])[i]? = some a) : P i a := by
  rw [getElem?_append_singleton] at found
  split at found
  · rename_i same
    cases found
    exact same ▸ last
  · exact others found

/-- Changing an element in a way that a function does not see changes no image. -/
theorem map_modify_of_keeps (keeps : ∀ a, f (change a) = f a)
    (xs : List α) (i : Nat) : (xs.modify i change).map f = xs.map f := by
  apply ext_getElem?
  intro k
  simp only [getElem?_map, getElem?_modify]
  cases xs[k]? with
  | none => simp
  | some a =>
    split <;> simp [keeps]

/-- A function that changes the elements of a list passes by the change of one of them. -/
theorem map_modify_of_comm {change' : β → β} (comm : ∀ a, f (change a) = change' (f a))
    (xs : List α) (i : Nat) : (xs.modify i change).map f = (xs.map f).modify i change' := by
  apply ext_getElem?
  intro k
  simp only [getElem?_map, getElem?_modify]
  cases xs[k]? with
  | none => simp
  | some a =>
    split <;> simp [comm]

/-- What a change of one element keeps holds of all elements after it. -/
theorem forall_mem_modify {P : α → Prop} (keeps : ∀ a, P a → P (change a))
    {xs : List α} (all : ∀ a ∈ xs, P a) (i : Nat) : ∀ a ∈ xs.modify i change, P a := by
  intro a member
  obtain ⟨k, found⟩ := mem_iff_getElem?.1 member
  rw [getElem?_modify] at found
  obtain ⟨old, found', rfl⟩ := Option.map_eq_some_iff.1 found
  have held := all old (mem_of_getElem? found')
  split
  · exact keeps old held
  · exact held

theorem eq_or_of_getElem?_set {xs : List α} {x y : α} {i j : Nat}
    (found : (xs.set i x)[j]? = some y) : i = j ∧ x = y ∨ xs[j]? = some y := by
  grind

theorem exists_getElem?_of_map_eq {xs ys : List α} (same : xs.map f = ys.map f)
    {i : Nat} {x : α} (found : xs[i]? = some x) : ∃ y, ys[i]? = some y ∧ f y = f x := by
  have image := congrArg (fun l => l[i]?) same
  simp only [getElem?_map, found, Option.map_some] at image
  exact Option.map_eq_some_iff.1 image.symm

/-- What the image of an element decides carries over to a list with the same images. -/
theorem forall_mem_of_map_eq {P : α → Prop} {xs ys : List α}
    (decided : ∀ x y, f x = f y → P x → P y) (same : xs.map f = ys.map f)
    (all : ∀ x ∈ xs, P x) : ∀ y ∈ ys, P y := by
  intro y member
  have image : f y ∈ xs.map f := same ▸ mem_map_of_mem member
  obtain ⟨x, inside, equal⟩ := mem_map.1 image
  exact decided x y equal (all x inside)

/-- Where all images are different, elements with the same image are at the same place. -/
theorem index_eq_of_nodup_map {xs : List α} (distinct : (xs.map f).Nodup) {i j : Nat} {x y : α}
    (atI : xs[i]? = some x) (atJ : xs[j]? = some y) (same : f x = f y) : i = j := by
  have imageI : (xs.map f)[i]? = some (f x) := by rw [getElem?_map, atI, Option.map_some]
  have imageJ : (xs.map f)[j]? = some (f x) := by rw [getElem?_map, atJ, Option.map_some, same]
  exact (getElem?_inj (lt_of_getElem? imageI) distinct).1
    (imageI.trans imageJ.symm)

/-! ### Keeping each thing once -/

section Distinct

variable [BEq α] [LawfulBEq α]

theorem eraseDups_append_singleton (xs : List α) (a : α) :
    (xs ++ [a]).eraseDups = if a ∈ xs then xs.eraseDups else xs.eraseDups ++ [a] := by
  rw [eraseDups_append, List.removeAll]
  by_cases known : a ∈ xs <;> simp [known, eraseDups_cons]

theorem nodup_eraseDups (xs : List α) : xs.eraseDups.Nodup := by
  induction xs using List.reverseRecOn with
  | nil => simp
  | append_singleton xs a ih =>
    rw [eraseDups_append_singleton]
    split
    · exact ih
    · rename_i new
      exact ih.append (nodup_singleton a) (by simpa using new)

/-- Keeping each thing once, and passing things over or renaming them so that they stay apart, can
be done in any order. -/
theorem eraseDups_filterMap [BEq β] [LawfulBEq β] {f : α → Option β}
    (apart : ∀ {x y z}, f x = some z → f y = some z → x = y) (xs : List α) :
    (xs.filterMap f).eraseDups = xs.eraseDups.filterMap f := by
  induction xs using List.reverseRecOn with
  | nil => rfl
  | append_singleton xs a ih =>
    rw [filterMap_append, eraseDups_append_singleton]
    cases image : f a with
    | none =>
      have passed : [a].filterMap f = [] := by simp [image]
      rw [passed, append_nil, ih]
      split <;> simp [passed]
    | some b =>
      have kept : [a].filterMap f = [b] := by simp [image]
      have known : b ∈ xs.filterMap f ↔ a ∈ xs := by
        rw [mem_filterMap]
        refine ⟨?_, fun member => ⟨a, member, image⟩⟩
        rintro ⟨x, member, image'⟩
        exact apart image' image ▸ member
      rw [kept, eraseDups_append_singleton, ih]
      simp only [known]
      split <;> simp [kept]

end Distinct

end Linkage
