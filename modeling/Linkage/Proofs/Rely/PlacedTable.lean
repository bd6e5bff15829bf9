/-
Purpose: What the table of a surface holds: its entries, its tree of spaces, and the names
  that lead to its entries.
-/
import Linkage.Proofs.Rely.Placed
import Linkage.Proofs.Table.Spaces

namespace Linkage.Surface

open List

variable {ρ : Placement} {s : Surface} {index : Nat} {t : Table} {key : Nat × String}

/-! ### Entries -/

/-- Declaring the names of the entries changes nothing else. -/
theorem tableAt_keeps {γ : Type} (view : Table → γ)
    (keeps : ∀ t space name d, view (t.declare space name d) = view t) :
    view (s.tableAt ρ) = view (s.bareAt ρ) := by
  unfold tableAt
  generalize Linkup.entries (s.bareAt ρ) = entries
  generalize s.bareAt ρ = t
  induction entries generalizing t with
  | nil => rfl
  | cons entry rest ih => rw [foldl_cons, ih, keeps]

@[simp] theorem name_tableAt : (s.tableAt ρ).name = s.name :=
  tableAt_keeps Table.name fun _ _ _ _ => rfl

@[simp] theorem home_tableAt : (s.tableAt ρ).home = ρ .own :=
  tableAt_keeps Table.home fun _ _ _ _ => rfl

@[simp] theorem classes_tableAt :
    (s.tableAt ρ).classes = s.classes.mapIdx fun i c => c.at ρ i :=
  tableAt_keeps Table.classes fun _ _ _ _ => rfl

@[simp] theorem interfaces_tableAt :
    (s.tableAt ρ).interfaces = s.interfaces.mapIdx fun i x => x.at ρ i :=
  tableAt_keeps Table.interfaces fun _ _ _ _ => rfl

theorem class_tableAt_iff {d : ClassDef} : (s.tableAt ρ).classes[index]? = some d ↔
      ∃ c, s.classes[index]? = some c ∧ c.at ρ index = d := by
  rw [classes_tableAt, getElem?_mapIdx, Option.map_eq_some_iff]

theorem interface_tableAt_iff {d : InterfaceDef} :
    (s.tableAt ρ).interfaces[index]? = some d ↔
      ∃ x, s.interfaces[index]? = some x ∧ x.at ρ index = d := by
  rw [interfaces_tableAt, getElem?_mapIdx, Option.map_eq_some_iff]

@[simp] theorem delegates_tableAt : (s.tableAt ρ).delegates = s.delegates.map (·.at ρ) :=
  tableAt_keeps Table.delegates fun _ _ _ _ => rfl

@[simp] theorem coroutines_tableAt : (s.tableAt ρ).coroutines = s.coroutines.map (·.at ρ) :=
  tableAt_keeps Table.coroutines fun _ _ _ _ => rfl

@[simp] theorem globals_tableAt : (s.tableAt ρ).globals = s.globals.map (·.at ρ) :=
  tableAt_keeps Table.globals fun _ _ _ _ => rfl

@[simp] theorem methods_tableAt : (s.tableAt ρ).methods = s.methods.map (·.at ρ) :=
  tableAt_keeps Table.methods fun _ _ _ _ => rfl

@[simp] theorem natives_tableAt : (s.tableAt ρ).natives = s.natives.map (·.at ρ) :=
  tableAt_keeps Table.natives fun _ _ _ _ => rfl

/-- The table has as many types of each kind as the surface; value types are counted as
classes there. -/
theorem typeCount_tableAt (kind : TypeKind) : (s.tableAt ρ).typeCount kind =
      if kind = .struct then s.classes.length else s.typeCount kind := by
  cases kind <;> simp [Table.typeCount, typeCount]

/-! ### Spaces -/

/-- The parents and names of the spaces, as the table will have them. -/
def spaceKeys (s : Surface) : List (Option Nat × String) :=
  (none, "") :: s.below.map fun x => (x.parent, x.name)

/-- Entering spaces into those around them, one after the other. -/
private theorem getElem?_foldl_enter (entered : List (Nat × String × Nat)) (spaces : List Space)
    (p : Nat) :
    (entered.foldl (fun spaces e => spaces.modify e.1 fun parent =>
      { parent with children := parent.children.insert e.2.1 e.2.2 }) spaces)[p]? =
      spaces[p]?.map fun space =>
        { space with
          children := (entered.filter fun e => e.1 = p).foldl
            (fun children e => children.insert e.2.1 e.2.2) space.children } := by
  induction entered generalizing spaces with
  | nil => simp
  | cons e rest ih =>
    rw [foldl_cons, ih]
    by_cases here : e.1 = p <;> simp [here, Function.comp_def]

private theorem childNames_spaceKeys (p : Nat) :
    childNames p s.spaceKeys = s.below.zipIdx.filterMap fun (x, i) =>
      if x.parent = some p then some (x.name, i + 1) else none := by
  unfold childNames spaceKeys
  rw [zipIdx_cons, zipIdx_map, zipIdx_eq_map_add, map_map, filterMap_cons]
  simp [Function.comp_def, Nat.add_comm]

/-- Each space of a surface with parents knows exactly those right below it. -/
theorem getElem?_emptySpaces
    (parents : ∀ x ∈ s.below, ∃ p, x.parent = some p ∧ p < s.spaces.length) (p : Nat) :
    s.emptySpaces[p]? = s.spaceKeys[p]?.map fun key =>
      ⟨key.2, key.1, .ofList (childNames p s.spaceKeys), .empty⟩ := by
  let entered := s.below.zipIdx.map fun (x, i) => (x.parent.getD Table.rootSpace, x.name, i + 1)
  have names : (entered.filter fun e => e.1 = p).map (·.2) = childNames p s.spaceKeys := by
    rw [childNames_spaceKeys, filter_map, map_map, ← filterMap_eq_map,
      filterMap_filter]
    apply filterMap_congr
    rintro ⟨x, i⟩ member
    obtain ⟨q, has, _⟩ := parents x (fst_mem_of_mem_zipIdx member)
    simp [has, Function.comp_def]
  have spaces : s.emptySpaces = entered.foldl (fun spaces e => spaces.modify e.1 fun parent =>
      { parent with children := parent.children.insert e.2.1 e.2.2 })
      (Space.root :: s.below.map fun x => ⟨x.name, x.parent, .empty, .empty⟩) := by
    rw [emptySpaces, foldl_map]
  have bare : (Space.root :: s.below.map fun x => (⟨x.name, x.parent, .empty, .empty⟩ : Space)) =
      s.spaceKeys.map fun key => ⟨key.2, key.1, .empty, .empty⟩ := by
    simp [spaceKeys, Space.root]
  rw [spaces, getElem?_foldl_enter, bare, getElem?_map, Option.map_map]
  congr 1
  rw [← names, NameMap.ofList, foldl_map]
  rfl

/-- The frames of the spaces: each with its name, its parent and the spaces below it. -/
theorem frames_tableAt (parents : ∀ x ∈ s.below, ∃ p, x.parent = some p ∧ p < s.spaces.length) :
    (s.tableAt ρ).spaces.map Space.frame =
      s.spaceKeys.mapIdx fun p key => (key.2, key.1, .ofList (childNames p s.spaceKeys)) := by
  have same : (s.tableAt ρ).spaces.map Space.frame = s.emptySpaces.map Space.frame :=
    tableAt_keeps (fun t => t.spaces.map Space.frame) fun t space name d =>
      map_modify_of_keeps (fun _ => by rfl) t.spaces space
  rw [same]
  apply ext_getElem?
  intro p
  rw [getElem?_map, getElem?_emptySpaces parents, getElem?_mapIdx, Option.map_map]
  rfl

/-! ### Names -/

/-- What is found after a declaration was stored was found before, or is that
declaration. -/
private theorem find_declare_cases {space : Nat} {name : String} {d d' : Declaration}
    (found : (t.declare space name d).find key = some d') :
    t.find key = some d' ∨ key = (space, name) ∧ d' = d := by
  by_cases inside : space < t.spaces.length
  · rw [Table.find_declare inside] at found
    split at found
    · rename_i same
      cases found
      exact .inr ⟨same, rfl⟩
    · exact .inl found
  · have nothing : (t.declare space name d).find key = t.find key := by
      unfold Table.declare Table.find Table.lookup
      rw [Table.spaces_modifySpace, getElem?_modify]
      split
      · have outside : t.spaces[key.1]? = none := getElem?_eq_none (by omega)
        simp [outside]
      · simp
    exact .inl (nothing ▸ found)

private theorem find_foldl_declare {home : Home} {entries : List (Nat × String × Entity)}
    {d : Declaration} (found : (entries.foldl (fun t entry =>
      t.declare entry.1 entry.2.1 ⟨home, .public_, entry.2.2⟩) t).find key = some d) :
    t.find key = some d ∨ ∃ e, (key.1, key.2, e) ∈ entries ∧ d = ⟨home, .public_, e⟩ := by
  induction entries generalizing t with
  | nil => exact .inl found
  | cons entry rest ih =>
    rcases ih found with early | ⟨e, later, same⟩
    · rcases find_declare_cases early with old | ⟨rfl, rfl⟩
      · exact .inl old
      · exact .inr ⟨entry.2.2, mem_cons_self .., rfl⟩
    · exact .inr ⟨e, mem_cons_of_mem _ later, same⟩

section

variable {key : Nat × String} {d : Declaration}
    (spaced : ∀ x ∈ s.below, ∃ p, x.parent = some p ∧ p < s.spaces.length)
    (found : (s.tableAt ρ).find key = some d)
include spaced found

/-- Every name of the table leads to an entry of it that bears the name, which is public. -/
theorem exists_entry_tableAt :
    ∃ e, d = ⟨ρ .own, .public_, e⟩ ∧ (s.tableAt ρ).entryAt e = some key := by
  have entries (e : Entity) : (s.tableAt ρ).entryAt e = (s.bareAt ρ).entryAt e :=
    tableAt_keeps (fun t => t.entryAt e) fun t space name d => Table.entryAt_modifySpace t space _ e
  rcases find_foldl_declare found with bare | ⟨e, member, rfl⟩
  · obtain ⟨space, inside, declared⟩ := Option.bind_eq_some_iff.1 bare
    have empty : (s.bareAt ρ).spaces[key.1]? = _ := getElem?_emptySpaces spaced key.1
    rw [empty] at inside
    obtain ⟨_, _, rfl⟩ := Option.map_eq_some_iff.1 inside
    cases declared
  · exact ⟨e, rfl, (entries e).trans (Table.mem_entries.1 member)⟩

theorem sound_tableAt : d.home = ρ .own ∧ (s.tableAt ρ).entryAt d.entity = some key := by
  obtain ⟨e, rfl, stands⟩ := exists_entry_tableAt spaced found
  exact ⟨rfl, stands⟩

end

end Linkage.Surface
