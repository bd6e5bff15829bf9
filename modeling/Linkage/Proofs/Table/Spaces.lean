/-
Purpose: The shape of the spaces of a table: a tree that is numbered from the root.
-/
import Linkage.Proofs.Table.Skeleton

namespace Linkage

open List

variable {p parent child : Nat} {t t' : Table} {change : Space → Space}

/-- What a space is without its declarations: its name and its place in the tree. -/
def Space.frame (s : Space) : String × Option Nat × NameMap Nat := (s.name, s.parent, s.children)

/-- What the space around a space has to know of it. -/
def Space.key (s : Space) : Option Nat × String := (s.parent, s.name)

/-- The names and numbers of the spaces right below one space. -/
def childNames (p : Nat) (spaces : List (Option Nat × String)) : List (String × Nat) :=
  spaces.zipIdx.filterMap fun (s, i) => if s.1 = some p then some (s.2, i) else none

theorem childNames_append_singleton (p : Nat) (spaces : List (Option Nat × String))
    (s : Option Nat × String) :
    childNames p (spaces ++ [s]) =
      childNames p spaces ++ if s.1 = some p then [(s.2, spaces.length)] else [] := by
  simp only [childNames, zipIdx_append, filterMap_append]
  split <;> simp_all

theorem childNames_eq_nil {spaces : List (Option Nat × String)}
    (unknown : ∀ s ∈ spaces, s.1 ≠ some p) : childNames p spaces = [] := by
  unfold childNames
  rw [filterMap_eq_nil_iff]
  rintro ⟨s, i⟩ member
  have inside : s ∈ spaces := fst_mem_of_mem_zipIdx member
  exact if_neg (unknown s inside)

namespace Table

/-- The parents and names of the spaces, by number. -/
def spaceKeys (t : Table) : List (Option Nat × String) := t.spaces.map Space.key

/-- The first space is the root, every other space lies below one with a smaller number, and
each space knows the spaces right below it in the order of their numbers. -/
structure TreeShaped (t : Table) : Prop where
  root : ∃ s, t.spaces[0]? = some s ∧ s.name = "" ∧ s.parent = none
  parent : ∀ {i s}, t.spaces[i + 1]? = some s → ∃ p, s.parent = some p ∧ p ≤ i
  children : ∀ {p s}, t.spaces[p]? = some s → s.children = NameMap.ofList (childNames p t.spaceKeys)

theorem TreeShaped.root_lt (tree : t.TreeShaped) : rootSpace < t.spaces.length := by
  obtain ⟨s, found, _⟩ := tree.root
  exact lt_of_getElem? found

theorem spaceKeys_of_frames
    (same : t'.spaces.map Space.frame = t.spaces.map Space.frame) : t'.spaceKeys = t.spaceKeys := by
  have image := congrArg (List.map fun f => (f.2.1, f.1)) same
  rw [map_map, map_map] at image
  exact image

/-- The tree of spaces is seen in their frames alone. -/
theorem TreeShaped.of_frames (same : t'.spaces.map Space.frame = t.spaces.map Space.frame)
    (tree : t.TreeShaped) : t'.TreeShaped := by
  refine ⟨?_, ?_, ?_⟩
  · obtain ⟨s, found, noName, noParent⟩ := tree.root
    obtain ⟨s', found', alike⟩ := exists_getElem?_of_map_eq same.symm found
    simp only [Space.frame, Prod.mk.injEq] at alike
    exact ⟨s', found', alike.1.trans noName, alike.2.1.trans noParent⟩
  · intro i s' found
    obtain ⟨s, found', alike⟩ := exists_getElem?_of_map_eq same found
    simp only [Space.frame, Prod.mk.injEq] at alike
    obtain ⟨p, isParent, below⟩ := tree.parent found'
    exact ⟨p, alike.2.1 ▸ isParent, below⟩
  · intro p s' found
    obtain ⟨s, found', alike⟩ := exists_getElem?_of_map_eq same found
    simp only [Space.frame, Prod.mk.injEq] at alike
    rw [spaceKeys_of_frames same, ← alike.2.2]
    exact tree.children found'

theorem TreeShaped.of_skeleton (same : t.skeleton = t'.skeleton)
    (tree : t.TreeShaped) : t'.TreeShaped :=
  tree.of_frames (by rw [spaces_eq_of_skeleton same])

/-- A change of declarations leaves the tree as it is. -/
theorem TreeShaped.modifySpace (tree : t.TreeShaped) {space : Nat}
    (keeps : ∀ s, (change s).frame = s.frame) : (t.modifySpace space change).TreeShaped :=
  tree.of_frames (map_modify_of_keeps keeps t.spaces space)

/-- The parents of spaces are spaces. -/
theorem TreeShaped.parent_lt (tree : t.TreeShaped) {s : Space} (member : s ∈ t.spaces)
    (isParent : s.parent = some p) : p < t.spaces.length := by
  obtain ⟨i, found⟩ := mem_iff_getElem?.1 member
  have inside := lt_of_getElem? found
  cases i with
  | zero =>
    obtain ⟨root, atRoot, _, noParent⟩ := tree.root
    rw [found] at atRoot
    cases atRoot
    rw [isParent] at noParent
    cases noParent
  | succ i =>
    obtain ⟨q, isParent', below⟩ := tree.parent found
    rw [isParent] at isParent'
    cases isParent'
    omega

theorem TreeShaped.child_lt (tree : t.TreeShaped) {name : String}
    (known : t.childSpace parent name = some child) : child < t.spaces.length := by
  obtain ⟨s, found, hit⟩ := Option.bind_eq_some_iff.1 known
  rw [tree.children found] at hit
  have member := NameMap.mem_of_find?_ofList hit
  obtain ⟨⟨key, i⟩, inside, image⟩ := mem_filterMap.1 member
  have bound := snd_lt_of_mem_zipIdx inside
  obtain ⟨_, same⟩ := Option.ite_none_right_eq_some.1 image
  obtain rfl : i = child := (Prod.mk.inj (Option.some.inj same)).2
  simpa [spaceKeys] using bound

/-! ### Opening a space -/

/-- The table with one more space, right below another. -/
def withChild (t : Table) (parent : Nat) (name : String) : Table :=
  ({ t with spaces := t.spaces ++ [⟨name, some parent, .empty, .empty⟩] } : Table).modifySpace
    parent fun s => { s with children := s.children.insert name t.spaces.length }

theorem openSpace_of_childSpace_eq_none {name : String}
    (unknown : t.childSpace parent name = none) :
    t.openSpace parent name = (t.spaces.length, t.withChild parent name) := by
  unfold openSpace
  rw [unknown]
  rfl

theorem openSpace_of_childSpace_eq_some {name : String}
    (known : t.childSpace parent name = some child) : t.openSpace parent name = (child, t) := by
  unfold openSpace
  rw [known]

theorem spaceKeys_withChild (t : Table) (parent : Nat) (name : String) :
    (t.withChild parent name).spaceKeys = t.spaceKeys ++ [(some parent, name)] := by
  let change : Space → Space :=
    fun s => { s with children := s.children.insert name t.spaces.length }
  have keeps (s : Space) : (change s).key = s.key := rfl
  show ((t.spaces ++ [_]).modify parent change).map Space.key = _
  rw [map_modify_of_keeps keeps]
  simp [spaceKeys, Space.key]

@[simp] theorem length_spaces_withChild (t : Table) (parent : Nat) (name : String) :
    (t.withChild parent name).spaces.length = t.spaces.length + 1 := by
  simp [withChild]

section

variable {t : Table} {parent : Nat} (inside : parent < t.spaces.length) (name : String)
include inside name

/-- The new space comes last, and only the one around it changes. -/
theorem getElem?_spaces_withChild (i : Nat) : (t.withChild parent name).spaces[i]? =
      if i = t.spaces.length then some ⟨name, some parent, .empty, .empty⟩
      else if i = parent then t.spaces[i]?.map
        fun s => { s with children := s.children.insert name t.spaces.length }
      else t.spaces[i]? := by
  simp only [withChild, spaces_modifySpace, getElem?_modify, getElem?_append_singleton]
  by_cases last : i = t.spaces.length
  · subst last
    simp [Nat.ne_of_lt inside]
  · by_cases here : i = parent
    · subst here
      simp [last]
    · simp [last, here, Ne.symm here]

/-- A new space declares nothing. -/
theorem find_withChild (key : Nat × String) : (t.withChild parent name).find key = t.find key := by
  unfold find lookup
  rw [getElem?_spaces_withChild inside]
  by_cases last : key.1 = t.spaces.length
  · simp [last]
  · rw [if_neg last]
    by_cases here : key.1 = parent
    · simp [here, Option.bind_map, Function.comp_def]
    · simp [here]

/-- A new space is known to the one around it, and the others are known as before. -/
theorem childSpace_withChild (space : Nat) (other : String) :
    (t.withChild parent name).childSpace space other =
      if space = parent ∧ other = name then some t.spaces.length
      else t.childSpace space other := by
  unfold childSpace
  rw [getElem?_spaces_withChild inside]
  by_cases last : space = t.spaces.length
  · have elsewhere : space ≠ parent := by omega
    simp [last, last ▸ elsewhere]
  · rw [if_neg last]
    by_cases here : space = parent
    · have present : t.spaces[parent]? = some t.spaces[parent] := getElem?_eq_getElem inside
      simp [here, present, NameMap.find?_insert]
    · simp [here]

end

/-! ### Names of spaces and names of declarations -/

/-- No space has a name that is both that of a space below it and that of a declaration. -/
def Apart (t : Table) : Prop :=
  ∀ space name, t.lookup space name = none ∨ t.childSpace space name = none

theorem Apart.of_spaces (apart : t.Apart) (same : t.spaces = t'.spaces) : t'.Apart := by
  intro space name
  unfold lookup childSpace
  rw [← same]
  exact apart space name

/-- The spaces below a space are seen in the frames alone. -/
theorem childSpace_of_frames (same : t'.spaces.map Space.frame = t.spaces.map Space.frame)
    (space : Nat) (name : String) : t'.childSpace space name = t.childSpace space name := by
  have frames := congrArg (fun l => l[space]?) same
  simp at frames
  unfold childSpace
  cases found : t.spaces[space]? <;> cases found' : t'.spaces[space]? <;>
    simp_all [Space.frame]

theorem childSpace_modifySpace (t : Table) (space : Nat)
    (keeps : ∀ s, (change s).frame = s.frame) (other : Nat) (name : String) :
    (t.modifySpace space change).childSpace other name = t.childSpace other name :=
  childSpace_of_frames (map_modify_of_keeps keeps t.spaces space) other name

/-- Opening a space keeps the tree. -/
theorem TreeShaped.withChild (tree : t.TreeShaped)
    (inside : parent < t.spaces.length) (name : String) :
    (t.withChild parent name).TreeShaped where
  root := by
    obtain ⟨s, found, noName, noParent⟩ := tree.root
    have notLast : 0 ≠ t.spaces.length := by omega
    rw [getElem?_spaces_withChild inside, if_neg notLast, found]
    split
    · exact ⟨_, rfl, noName, noParent⟩
    · exact ⟨s, rfl, noName, noParent⟩
  parent := by
    intro i s found
    rw [getElem?_spaces_withChild inside] at found
    split at found
    · cases found
      exact ⟨parent, rfl, by omega⟩
    · split at found
      · obtain ⟨old, found', rfl⟩ := Option.map_eq_some_iff.1 found
        obtain ⟨q, isParent, below⟩ := tree.parent found'
        exact ⟨q, isParent, below⟩
      · exact tree.parent found
  children := by
    intro p s found
    rw [spaceKeys_withChild, childNames_append_singleton]
    have length : t.spaceKeys.length = t.spaces.length := by simp [spaceKeys]
    rw [getElem?_spaces_withChild inside] at found
    split at found
    · cases found
      have different : parent ≠ p := by omega
      have none : childNames p t.spaceKeys = [] := by
        apply childNames_eq_nil
        intro key member isParent
        obtain ⟨old, inOld, rfl⟩ := mem_map.1 member
        have := tree.parent_lt inOld isParent
        omega
      simp [none, different, NameMap.ofList]
    · split at found
      · rename_i here
        obtain ⟨old, found', rfl⟩ := Option.map_eq_some_iff.1 found
        simp [here, tree.children found', NameMap.ofList_append_singleton, length]
      · rename_i elsewhere
        have different : parent ≠ p := fun same => elsewhere same.symm
        simp [different, tree.children found]

end Table

end Linkage
