/-
Purpose: The spaces of a library are a tree, both where it is made and where others rely on it, and
  one space lies in another if its path goes on from the path of that one.
-/
import Linkage.Compile.Pipeline
import Linkage.Proofs.Export.Renumbering
import Linkage.Proofs.Link.Refit
import Linkage.Proofs.Symbols.Spelling
import Linkage.Proofs.Table.Layout

namespace Linkage

open List Surface

variable {t : Table} {s s' : Surface}

namespace Table

section

variable (tree : t.TreeShaped) (distinct : t.DistinctSpaces)
include tree distinct

/-- A space lies in those whose paths its own path begins with. -/
theorem spaceContains_iff_isPrefix {outer inner : Nat} (isSpace : outer < t.spaces.length)
    (inside : inner < t.spaces.length) :
    t.spaceContains outer inner = true ↔ t.spacePath outer <+: t.spacePath inner := by
  have samePath {i : Nat} (isSpace' : i < t.spaces.length) :
      outer = i ↔ t.spacePath outer = t.spacePath i :=
    ⟨congrArg t.spacePath, spacePath_injective tree distinct isSpace isSpace'⟩
  rw [spaceContains, decide_eq_true_iff]
  induction inner using Nat.strongRecOn with
  | ind inner ih =>
    cases inner with
    | zero =>
      rw [tree.spaceChain_root, mem_singleton, samePath inside, tree.spacePath_root, prefix_nil]
    | succ i =>
      obtain ⟨p, name, key, below⟩ := tree.exists_key inside
      have around : outer ∈ t.spaceChain p ↔ t.spacePath outer <+: t.spacePath p :=
        ih p (Nat.lt_succ_of_le below) (by omega)
      rw [tree.spaceChain_child key, mem_cons, samePath inside, around, tree.spacePath_child key,
        prefix_concat_iff]

end

/-- The spaces are a tree that is kept in two ways: each space but the root has a parent that comes
before it, and knows its children by their names.  So paths tell spaces apart, and tell which lies
in which. -/
structure SpaceTree (t : Table) : Prop where
  parent : ∀ i, 0 < i → i < t.spaces.length → ∃ s p, t.spaces[i]? = some s ∧ s.parent = some p ∧
    p < i ∧ t.childSpace p s.name = some i
  child : ∀ p name i, t.childSpace p name = some i →
    ∃ s, t.spaces[i]? = some s ∧ s.parent = some p ∧ s.name = name
  path : ∀ i j, i < t.spaces.length → j < t.spaces.length → t.spacePath i = t.spacePath j → i = j
  contains : ∀ outer inner, outer < t.spaces.length → inner < t.spaces.length →
    (t.spaceContains outer inner = true ↔ t.spacePath outer <+: t.spacePath inner)

theorem TreeShaped.spaceTree (tree : t.TreeShaped) (distinct : t.DistinctSpaces) :
    t.SpaceTree where
  parent i below inside := by
    obtain ⟨i, rfl⟩ := Nat.exists_eq_add_one.2 below
    obtain ⟨p, isParent, before⟩ := tree.parent (getElem?_eq_getElem inside)
    refine ⟨_, p, getElem?_eq_getElem inside, isParent, by omega, ?_⟩
    rw [childSpace_eq_some_iff tree distinct]
    simp [spaceKeys, Space.key, inside, isParent]
  child p name i known := by
    rw [childSpace_eq_some_iff tree distinct, spaceKeys, getElem?_map] at known
    obtain ⟨s, found, key⟩ := Option.map_eq_some_iff.1 known
    exact ⟨s, found, (Prod.mk.inj key).1, (Prod.mk.inj key).2⟩
  path _ _ inside inside' same := spacePath_injective tree distinct inside inside' same
  contains _ _ isSpace inside := spaceContains_iff_isPrefix tree distinct isSpace inside

/-- The tree is seen in the frames of the spaces alone. -/
theorem spaceTree_of_frames {t' : Table} (tree : t.TreeShaped) (distinct : t.DistinctSpaces)
    (same : t'.spaces.map Space.frame = t.spaces.map Space.frame) : t'.SpaceTree := by
  refine (tree.of_frames same).spaceTree ?_
  intro i j p name one other
  rw [spaceKeys_of_frames same] at one other
  exact distinct one other

end Table

/-- Surfaces with the same spaces are placed with the same tree. -/
theorem Surface.frames_congr (same : s.spaces = s'.spaces)
    (parents : ∀ x ∈ s'.below, ∃ p, x.parent = some p ∧ p < s'.spaces.length) (ρ : Placement) :
    (s.tableAt ρ).spaces.map Space.frame = (s'.tableAt ρ).spaces.map Space.frame := by
  have below : s.below = s'.below := congrArg (drop 1) same
  have keys : s.spaceKeys = s'.spaceKeys := by rw [spaceKeys, below, spaceKeys]
  rw [frames_tableAt parents, ← keys]
  exact frames_tableAt (by rwa [below, same])

/-- The spaces of a merged library are a tree, whatever its files declare and whatever is reported.
They stay as they are until the library is exported, and a table that is made of its surface has the
same tree again. -/
theorem Draft.spaceTree_merge (name : String) (files : List (SourceFile × Outline)) :
    (Draft.merge name files).value.table.SpaceTree ∧
    (∀ relies, ((Draft.merge name files).value.link relies).value.table.assignAddresses.1.spaces =
      (Draft.merge name files).value.table.spaces) ∧
    ∀ (d : Draft) (relies : List Table) (l : Linkup) (r : Rely),
      d.table.spaces = (Draft.merge name files).value.table.spaces →
      l.surface = (d.exportSurface relies).value → l.instantiate = .ok r → r.table.SpaceTree := by
  have tree := (Draft.merge_wellMade name files).tree
  have distinct : (Draft.merge name files).value.table.DistinctSpaces :=
    Draft.merge_distinctSpaces name files
  refine ⟨tree.spaceTree distinct, fun relies => ?_, fun d relies l r kept exported made => ?_⟩
  · rw [Table.spaces_eq_of_skeleton (Table.assignAddresses_skeleton _)]
    exact Table.spaces_eq_of_skeleton (Draft.link_skeleton _ relies)
  · obtain ⟨_, rfl⟩ := Linkup.instantiate_eq_ok.1 made
    refine Table.spaceTree_of_frames tree distinct ?_
    have same : l.surface.spaces =
        ((Draft.merge name files).value.table.surfaceOf []).spaces := by
      rw [exported]
      show _ :: (d.table.spaces.drop 1).map _ = _
      rw [kept]
      rfl
    rw [frames_congr same (Table.parents_surfaceOf tree []), Table.frames_surfaceOf tree]

/-- Two files that open one space, of which the second declares a variable of its name, too. -/
def Sample.annexes : Draft :=
  (Draft.merge "Annexes" (readFiles [⟨"a", "space Outer\n\tspace Inner\n"⟩,
    ⟨"b", "space Outer\n\tspace Annex\ninteger Outer\n"⟩]).value).value

/-- The library is made again from its surface, with the root and its three spaces. -/
theorem Draft.spaceTree_merge_annexes : ∃ r, r.table.spaces.length = 4 ∧ r.table.SpaceTree ∧
    Linkup.instantiate ⟨(Sample.annexes.exportSurface []).value, .rely 0, []⟩ = .ok r := by
  have shape : (Linkup.instantiate ⟨(Sample.annexes.exportSurface []).value, .rely 0,
      []⟩).toOption.map (·.table.spaces.length) = some 4 := by decide +kernel
  cases made : Linkup.instantiate ⟨(Sample.annexes.exportSurface []).value, .rely 0, []⟩ with
  | error problem =>
    rw [made] at shape
    cases shape
  | ok r =>
    rw [made] at shape
    obtain ⟨_, _, remade⟩ := Draft.spaceTree_merge "Annexes" _
    exact ⟨r, Option.some.inj shape, remade Sample.annexes [] _ r rfl rfl made, rfl⟩

end Linkage
