/-
Purpose: A space is known by its path, however the spaces are numbered.
-/
import Linkage.Proofs.Table.Spaces
import Linkage.Proofs.Walk

namespace Linkage.Table

open List

variable {s p c : Nat} {name : String} {t t' : Table}

/-- No two spaces right below one space have the same name. -/
def DistinctSpaces (t : Table) : Prop :=
  ∀ {i j p : Nat} {name : String}, t.spaceKeys[i]? = some (some p, name) →
    t.spaceKeys[j]? = some (some p, name) → i = j

@[simp] theorem length_spaceKeys (t : Table) : t.spaceKeys.length = t.spaces.length := by
  simp [spaceKeys]

theorem parentSpace_eq (t : Table) (s : Nat) : t.parentSpace s = t.spaceKeys[s]?.bind (·.1) := by
  simp only [parentSpace, spaceKeys, getElem?_map]
  cases t.spaces[s]? <;> rfl

/-- What a space adds to a path: its name, unless it is the root. -/
theorem label_eq (t : Table) (s : Nat) : (t.spaces[s]?.bind fun x => x.parent.map fun _ => x.name) =
      t.spaceKeys[s]?.bind fun key => key.1.map fun _ => key.2 := by
  simp only [spaceKeys, getElem?_map]
  cases t.spaces[s]? <;> rfl

namespace TreeShaped

section

variable (tree : t.TreeShaped)
include tree

theorem key_root : t.spaceKeys[0]? = some (none, "") := by
  obtain ⟨s, found, noName, noParent⟩ := tree.root
  simp [spaceKeys, found, Space.key, noName, noParent]

theorem exists_key {i : Nat} (inside : i + 1 < t.spaces.length) :
    ∃ p name, t.spaceKeys[i + 1]? = some (some p, name) ∧ p ≤ i := by
  have found := getElem?_eq_getElem inside
  obtain ⟨p, isParent, below⟩ := tree.parent found
  refine ⟨p, t.spaces[i + 1].name, ?_, below⟩
  simp [spaceKeys, found, Space.key, isParent]

theorem parent_of_key (key : t.spaceKeys[s]? = some (some p, name)) : p < s := by
  have inside : s < t.spaces.length := by
    have bound := lt_of_getElem? key
    simpa using bound
  cases s with
  | zero =>
    rw [tree.key_root] at key
    cases key
  | succ i =>
    obtain ⟨q, name', key', below⟩ := tree.exists_key inside
    rw [key] at key'
    cases key'
    omega

/-- A number is that of a space if it is that of the root or lies in some space. -/
theorem lt_length_iff (s : Nat) :
    s < t.spaces.length ↔ s = rootSpace ∨ (t.parentSpace s).isSome = true := by
  rw [parentSpace_eq, ← t.length_spaceKeys]
  constructor
  · intro inside
    cases s with
    | zero => exact .inl rfl
    | succ i =>
      obtain ⟨p, name, key, _⟩ := tree.exists_key (by simpa using inside)
      exact .inr (by rw [key]; rfl)
  · rintro (rfl | lies)
    · exact lt_of_getElem? tree.key_root
    · obtain ⟨p, isParent⟩ := Option.isSome_iff_exists.1 lies
      obtain ⟨key, found, _⟩ := Option.bind_eq_some_iff.1 isParent
      exact lt_of_getElem? found

/-- The way up from a space ends. -/
theorem acc_parentSpace (s : Nat) : Acc (Walk.Onward t.parentSpace) s := by
  induction s using Nat.strongRecOn with
  | ind s ih =>
    refine ⟨s, fun p isParent => ?_⟩
    have above : t.parentSpace s = some p := isParent
    rw [parentSpace_eq] at above
    obtain ⟨⟨parent, name⟩, key, same⟩ := Option.bind_eq_some_iff.1 above
    obtain rfl : parent = some p := same
    exact ih p (tree.parent_of_key key)

theorem spaceChain_root : t.spaceChain 0 = [0] := by
  have noParent : t.parentSpace 0 = none := by
    rw [parentSpace_eq, tree.key_root]
    rfl
  rw [spaceChain, Walk.chain, if_pos (mem_cons_self ..), noParent]

/-- The way up from a space goes on from the space around it. -/
theorem spaceChain_child
    (key : t.spaceKeys[s]? = some (some p, name)) : t.spaceChain s = s :: t.spaceChain p := by
  have isParent : t.parentSpace s = some p := by
    rw [parentSpace_eq, key]
    rfl
  have listed {x y : Nat} (above : t.parentSpace x = some y) :
      y ∈ t.spaces.filterMap (·.parent) := by
    obtain ⟨space, found, same⟩ := Option.bind_eq_some_iff.1 above
    exact mem_filterMap.2 ⟨space, mem_of_getElem? found, same⟩
  unfold spaceChain
  rw [Walk.chain_eq_cons_of_acc (tree.acc_parentSpace s) (mem_cons_self ..)
    fun x y above => mem_cons_of_mem _ (listed above), isParent]
  -- From the parent on, both walks meet only spaces that lie around others.
  have same : Walk.chain t.parentSpace (s :: t.spaces.filterMap (·.parent)) (id p) =
      (Walk.chain t.parentSpace (p :: t.spaces.filterMap (·.parent)) p).map id :=
    Walk.chain_map
      (fun x _ => by simp) (fun x y _ above => listed above)
      ⟨fun _ _ _ _ equal => equal, fun x met => ⟨fun _ => mem_cons_of_mem _ met,
        fun _ => mem_cons_of_mem _ met⟩⟩ (listed isParent)
  rw [map_id] at same
  exact congrArg (s :: ·) same

theorem spacePath_root : t.spacePath 0 = [] := by
  rw [spacePath, tree.spaceChain_root]
  simp only [label_eq]
  simp [tree.key_root]

theorem spacePath_child (key : t.spaceKeys[s]? = some (some p, name)) :
    t.spacePath s = t.spacePath p ++ [name] := by
  unfold spacePath
  rw [tree.spaceChain_child key]
  simp only [label_eq]
  simp [key]

end

end TreeShaped

section

variable (tree : t.TreeShaped) (distinct : t.DistinctSpaces)
include tree distinct

/-- Spaces of the same path are the same. -/
theorem spacePath_injective {s' : Nat} (inside : s < t.spaces.length)
    (inside' : s' < t.spaces.length) (same : t.spacePath s = t.spacePath s') : s = s' := by
  induction s using Nat.strongRecOn generalizing s' with
  | ind s ih =>
    cases s with
    | zero =>
      cases s' with
      | zero => rfl
      | succ j =>
        obtain ⟨p, name, key, _⟩ := tree.exists_key inside'
        rw [tree.spacePath_root, tree.spacePath_child key] at same
        simp at same
    | succ i =>
      obtain ⟨p, name, key, below⟩ := tree.exists_key inside
      cases s' with
      | zero =>
        rw [tree.spacePath_root, tree.spacePath_child key] at same
        simp at same
      | succ j =>
        obtain ⟨q, name', key', below'⟩ := tree.exists_key inside'
        rw [tree.spacePath_child key, tree.spacePath_child key'] at same
        obtain ⟨paths, names⟩ := append_inj' same rfl
        cases names
        obtain rfl := ih p (by omega) (by omega) (by omega) paths
        exact distinct key key'

/-- The spaces right below a space are those that have it as their parent. -/
theorem childSpace_eq_some_iff :
    t.childSpace s name = some c ↔ t.spaceKeys[c]? = some (some s, name) := by
  have listed {entry : String × Nat} : entry ∈ childNames s t.spaceKeys ↔
      t.spaceKeys[entry.2]? = some (some s, entry.1) := by
    simp only [childNames, mem_filterMap]
    constructor
    · rintro ⟨⟨key, i⟩, member, image⟩
      obtain ⟨isParent, same⟩ := Option.ite_none_right_eq_some.1 image
      obtain rfl := Option.some.inj same
      have found := mk_mem_zipIdx_iff_getElem?.1 member
      obtain ⟨parent, name⟩ := key
      obtain rfl : parent = some s := isParent
      exact found
    · intro found
      exact ⟨((some s, entry.1), entry.2), mk_mem_zipIdx_iff_getElem?.2 found, if_pos rfl⟩
  constructor
  · intro known
    obtain ⟨x, found, hit⟩ := Option.bind_eq_some_iff.1 known
    rw [tree.children found] at hit
    exact listed.1 (NameMap.mem_of_find?_ofList hit)
  · intro key
    have inside : s < t.spaces.length := by
      have bound := lt_of_getElem? key
      have below := tree.parent_of_key key
      rw [length_spaceKeys] at bound
      omega
    refine Option.bind_eq_some_iff.2 ⟨_, getElem?_eq_getElem inside, ?_⟩
    rw [tree.children (getElem?_eq_getElem inside)]
    obtain ⟨held, found⟩ := NameMap.find?_ofList_isSome (listed.2 key)
    obtain rfl : held = c := distinct (listed.1 (NameMap.mem_of_find?_ofList found)) key
    exact found

/-- A space right below another has its path and one more name. -/
theorem childSpace_eq_some_iff_spacePath (inside : s < t.spaces.length) :
    t.childSpace s name = some c ↔
      c < t.spaces.length ∧ t.spacePath c = t.spacePath s ++ [name] := by
  rw [childSpace_eq_some_iff tree distinct]
  constructor
  · intro key
    refine ⟨?_, tree.spacePath_child key⟩
    have bound := lt_of_getElem? key
    simpa using bound
  · rintro ⟨bound, path⟩
    cases c with
    | zero =>
      rw [tree.spacePath_root] at path
      simp at path
    | succ i =>
      obtain ⟨p, name', key, below⟩ := tree.exists_key bound
      rw [tree.spacePath_child key] at path
      obtain ⟨paths, names⟩ := append_inj' path rfl
      cases names
      obtain rfl := spacePath_injective tree distinct (by omega) inside paths
      exact key

end

/-- Paths are told by the names of the spaces and the spaces around them. -/
theorem spacePath_congr (same : t'.spaceKeys = t.spaceKeys) (s : Nat) :
    t'.spacePath s = t.spacePath s := by
  have parents (u : Table) : u.spaces.filterMap (·.parent) = u.spaceKeys.filterMap (·.1) := by
    rw [spaceKeys, filterMap_map]
    rfl
  have parent : t'.parentSpace = t.parentSpace := by
    funext i
    rw [parentSpace_eq, parentSpace_eq, same]
  simp only [spacePath, spaceChain, label_eq, parents, parent, same]

/-- A table that only got more spaces has the old ones at their old paths. -/
theorem spacePath_of_isPrefix (tree : t.TreeShaped) (tree' : t'.TreeShaped)
    (grows : t.spaceKeys <+: t'.spaceKeys) (inside : s < t.spaces.length) :
    t'.spacePath s = t.spacePath s := by
  obtain ⟨_, more⟩ := grows
  induction s using Nat.strongRecOn with
  | ind s ih =>
    cases s with
    | zero => rw [tree.spacePath_root, tree'.spacePath_root]
    | succ i =>
      obtain ⟨p, name, key, below⟩ := tree.exists_key inside
      have key' : t'.spaceKeys[i + 1]? = some (some p, name) := by
        rw [← more, getElem?_append_left (by simpa using inside), key]
      rw [tree.spacePath_child key, tree'.spacePath_child key', ih p (by omega) (by omega)]

end Linkage.Table
