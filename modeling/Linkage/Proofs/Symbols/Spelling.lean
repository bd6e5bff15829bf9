/-
Purpose: The names in the table of a compiled library are identifiers, and a method of a class is
  not named as the class.
-/
import Linkage.Proofs.Compile.Outcome
import Linkage.Proofs.Reorder.Gathering

namespace Linkage

open List

/-! ### Tables -/

/-- The members of a class have identifiers as names, and a method has another name than the
class. -/
structure ClassDef.Spelled (c : ClassDef) : Prop where
  fields : ∀ v ∈ c.fields, isIdentifier v.name = true
  methods : ∀ m ∈ c.methods, isIdentifier m.name = true ∧ m.name ≠ c.name

/-- The methods of an interface have identifiers as names. -/
def InterfaceDef.Spelled (i : InterfaceDef) : Prop := ∀ m ∈ i.methods, isIdentifier m.name = true

/-- Spaces below others, entries of spaces and members of types have identifiers as names. -/
structure Table.Spelled (t : Table) : Prop where
  spaces : ∀ {p name}, (some p, name) ∈ t.spaceKeys → isIdentifier name = true
  entries : ∀ {e space name}, t.entryAt e = some (space, name) → isIdentifier name = true
  classes : ∀ c ∈ t.classes, c.Spelled
  interfaces : ∀ i ∈ t.interfaces, i.Spelled

/-- An entry of a space and its members have identifiers as names. -/
structure NewEntry.Spelled (n : NewEntry) : Prop where
  name : isIdentifier n.key.2 = true
  classDef : ∀ {c}, n = .classDef c → c.Spelled
  interface : ∀ {i}, n = .interface i → i.Spelled

namespace Table.Spelled

variable {t : Table}

theorem empty (name : String) : (Table.empty name .here).Spelled where
  spaces := by simp [Table.empty, spaceKeys, Space.key, Space.root]
  entries := by
    intro e space name stands
    cases e <;> cases stands
  classes := forall_mem_nil _
  interfaces := forall_mem_nil _

theorem openSpace (spelled : t.Spelled) (space : Nat) {name : String}
    (named : isIdentifier name = true) : (t.openSpace space name).2.Spelled := by
  cases known : t.childSpace space name with
  | some child =>
    rw [openSpace_of_childSpace_eq_some known]
    exact spelled
  | none =>
    rw [openSpace_of_childSpace_eq_none known]
    refine ⟨fun {p name'} member => ?_, fun {e s n} stands => ?_, spelled.classes,
      spelled.interfaces⟩
    · rw [spaceKeys_withChild] at member
      rcases mem_append.1 member with old | new
      · exact spelled.spaces old
      · cases mem_singleton.1 new
        exact named
    · have before : t.entryAt e = some (s, n) := by
        rw [← stands]
        cases e <;> rfl
      exact spelled.entries before

theorem register (spelled : t.Spelled) {n : NewEntry} (entry : n.Spelled) (v : Visibility) :
    (t.register n v).Spelled where
  spaces := by
    rw [spaceKeys_register]
    exact spelled.spaces
  entries := by
    intro e space name stands
    rw [Table.register, declare, entryAt_modifySpace, n.entryAt_addTo] at stands
    split at stands
    · have key : n.key = (space, name) := Option.some.inj stands
      have named := entry.name
      rwa [key] at named
    · exact spelled.entries stands
  classes := by
    cases n with
    | classDef c =>
      refine forall_mem_append.2 ⟨spelled.classes, ?_⟩
      exact forall_mem_singleton.2 (entry.classDef rfl)
    | _ => exact spelled.classes
  interfaces := by
    cases n with
    | interface i =>
      refine forall_mem_append.2 ⟨spelled.interfaces, ?_⟩
      exact forall_mem_singleton.2 (entry.interface rfl)
    | _ => exact spelled.interfaces

theorem overload (spelled : t.Spelled) (kind : MethodKind) (space method : Nat) (name : String)
    (f : Function) : (t.overload kind space method name f).Spelled where
  spaces := by
    rw [spaceKeys_overload]
    exact spelled.spaces
  entries := by
    intro e space name stands
    rw [Table.overload, entryAt_modifySpace, kind.entryAt_append] at stands
    exact spelled.entries stands
  classes := by cases kind <;> exact spelled.classes
  interfaces := by cases kind <;> exact spelled.interfaces

theorem of_skeleton {t' : Table} (same : t.skeleton = t'.skeleton) (spelled : t.Spelled) :
    t'.Spelled where
  spaces := by
    intro p name member
    rw [spaceKeys, ← spaces_eq_of_skeleton same] at member
    exact spelled.spaces member
  entries := by
    intro e space name stands
    rw [← entryAt_eq_of_skeleton same] at stands
    exact spelled.entries stands
  classes := by
    refine forall_mem_of_map_eq (fun c c' equal named => ?_) (congrArg Table.classes same :)
      spelled.classes
    have name : c.name = c'.name := (congrArg ClassDef.name equal :)
    constructor
    · refine forall_mem_of_map_eq (fun v v' alike named => ?_) (congrArg ClassDef.fields equal :)
        named.fields
      exact (congrArg MemberVariable.name alike :) ▸ named
    · rw [← name]
      refine forall_mem_of_map_eq (fun m m' alike named => ?_) (congrArg ClassDef.methods equal :)
        named.methods
      exact (congrArg Method.name alike :) ▸ named
  interfaces := by
    refine forall_mem_of_map_eq (fun i i' equal named => ?_) (congrArg Table.interfaces same :)
      spelled.interfaces
    refine forall_mem_of_map_eq (fun m m' alike named => ?_)
      (congrArg InterfaceDef.methods equal :) named
    exact (congrArg Method.name alike :) ▸ named

end Table.Spelled

/-! ### Entries that are read -/

theorem Item.Spelled.name {item : Item} (spelled : item.Spelled) :
    isIdentifier item.name = true := by
  cases item with
  | space => exact spelled.1
  | classDecl decl => exact ClassDecl.Spelled.name spelled
  | interfaceDecl decl => exact InterfaceDecl.Spelled.name spelled
  | _ => exact spelled.1

namespace Merge

variable (m : Merge)

theorem exists_of_mem_methodsOf {space : Nat} {read : FunctionDecl → Function}
    {decls : List FunctionDecl} {method : Method} (member : method ∈ methodsOf space read decls) :
    ∃ decl ∈ decls, decl.name = method.name := by
  obtain ⟨first, inside, same⟩ := mem_map.1 (Method.key_of_mem_gather member)
  obtain ⟨decl, isDecl, rfl⟩ := mem_map.1 inside
  exact ⟨decl, isDecl, congrArg Prod.snd same⟩

theorem classEntry_spelled (v : Visibility) (index space : Nat) {decl : ClassDecl}
    (spelled : decl.Spelled) : (m.classEntry v index space decl).value.Spelled := by
  obtain ⟨s, accounts⟩ := m.classEntry_accounts v index space decl
  refine ⟨?_, ?_⟩
  · rw [accounts.storedFields]
    refine forall_mem_map.2 fun field kept => ?_
    exact (spelled.fields field (accounts.fields.free_of_mem kept).1).1
  · rw [accounts.storedMethods]
    intro method member
    obtain ⟨f, kept, same⟩ := exists_of_mem_methodsOf member
    obtain ⟨inside, _, free⟩ := accounts.functions.free_of_mem kept
    have other : f.name ≠ decl.name := by
      intro isOwner
      rw [functionClash, if_pos isOwner] at free
      cases free
    rw [← same]
    exact ⟨(spelled.functions f inside).1, other⟩

theorem interfaceEntry_spelled (v : Visibility) (index space : Nat) {decl : InterfaceDecl}
    (spelled : decl.Spelled) : (m.interfaceEntry v index space decl).value.Spelled := by
  unfold InterfaceDef.Spelled
  rw [m.methods_interfaceEntry]
  intro method member
  obtain ⟨f, inside, same⟩ := exists_of_mem_methodsOf member
  exact same ▸ (spelled.functions f inside).1

theorem read_spelled (index space : Nat) {leaf : Leaf} (spelled : leaf.item.Spelled) :
    (m.read index space leaf).Spelled := by
  refine ⟨?_, fun {c} isClass => ?_, fun {i} isInterface => ?_⟩
  · rw [m.key_read, ← leaf.name_item]
    exact spelled.name
  · cases leaf with
    | classDecl decl =>
      cases isClass
      exact m.classEntry_spelled _ index space spelled
    | functionDecl kind decl => cases kind <;> cases isClass
    | _ => cases isClass
  · cases leaf with
    | interfaceDecl decl =>
      cases isInterface
      exact m.interfaceEntry_spelled _ index space spelled
    | functionDecl kind decl => cases kind <;> cases isInterface
    | _ => cases isInterface

/-- A visit to a spelled item keeps the table spelled. -/
theorem spelled_step : KeptByVisits fun past t _ => (∀ v ∈ past, v.item.Spelled) → t.Spelled := by
  intro past notes v made inside held all
  obtain ⟨before, last⟩ := forall_mem_append.1 all
  have spelled := forall_mem_singleton.1 last
  have table := held before
  cases isRefused : v.refused with
  | true =>
    rw [(v.passed_over isRefused).unchanged]
    exact table
  | false =>
    cases (v.accepted made isRefused).1 with
    | @space name span items isSpace opened nothing =>
      rw [isSpace] at spelled
      rw [opened]
      exact table.openSpace v.space spelled.1
    | @entry leaf n shown isLeaf free isEntry key stored =>
      rw [isLeaf] at spelled
      rw [Visit.added, isRefused, isLeaf, leaf.leaf?_item] at isEntry
      cases isEntry
      rw [stored]
      exact table.register (v.merge.read_spelled _ _ spelled) shown
    | @overload kind decl method f isFunction group isEntry joined =>
      rw [joined]
      exact table.overload kind v.space method decl.name f

end Merge

/-- Files whose names are identifiers make up a table of such names. -/
theorem Draft.merge_spelled (name : String) {files : List (SourceFile × Outline)}
    (spelled : ∀ p ∈ files, Item.AllSpelled p.2.items) :
    (Draft.merge name files).value.table.Spelled := by
  refine visits_run Merge.spelled_step name files (fun _ => .empty name) ?_
  refine forall_visits (P := fun _ item => item.Spelled) name (fun isFile => ?_) fun spelled => ?_
  · exact Item.allSpelled_iff.1 (spelled _ (mem_of_getElem? isFile))
  · exact Item.allSpelled_iff.1 spelled.2

/-! ### Products -/

theorem Table.DistinctSpaces.of_skeleton {t t' : Table} (same : t.skeleton = t'.skeleton)
    (distinct : t.DistinctSpaces) : t'.DistinctSpaces := by
  intro i j p name one other
  rw [spaceKeys, ← spaces_eq_of_skeleton same] at one other
  exact distinct one other

theorem Draft.merge_distinctSpaces (name : String) (files : List (SourceFile × Outline)) :
    (Draft.merge name files).value.table.DistinctSpaces := by
  have empty : (Table.empty name .here).DistinctSpaces := by
    intro i j p name key
    have root := mem_singleton.1 (mem_of_getElem? key)
    cases root
  obtain ⟨_, distinct, _⟩ := (merge_grows name files).spaces (wellMade_empty name) empty
  exact @distinct

namespace Job.Passes

variable {job : Job} {p : Products} {merged linked : Draft} (passes : job.Passes p merged linked)
include passes

theorem spelled : p.draft.table.Spelled :=
  Table.Spelled.of_skeleton passes.skeleton_merged
    (passes.of_merge (P := (·.table.Spelled)) fun _ read _ => Draft.merge_spelled job.name
      fun q member => ((Outline.ofSource_ends _).of_ok (read q member)).2)

theorem distinctSpaces : p.draft.table.DistinctSpaces :=
  @Table.DistinctSpaces.of_skeleton _ _ passes.skeleton_merged
    (passes.of_merge (P := (·.table.DistinctSpaces)) fun files _ _ =>
      @Draft.merge_distinctSpaces job.name files)

theorem namedOnce : p.draft.table.NamedOnce :=
  Table.NamedOnce.of_skeleton passes.skeleton_merged
    (passes.of_merge (P := (·.table.NamedOnce)) fun _ _ => Draft.namedOnce_merge)

end Job.Passes

end Linkage
