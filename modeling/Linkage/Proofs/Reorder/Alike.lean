/-
Purpose: Tables that differ in the numbers of their spaces and entries, and in nothing else
  that a name, a type or a message can show.
-/
import Linkage.Proofs.Reorder.Numbering
import Linkage.Proofs.Reorder.Reindexed
import Linkage.Proofs.Table.Layout

namespace Linkage

open List Linkage.Numbering

/-- Whether this is a variable or a method of a type. -/
def Entity.isMember : Entity → Bool
  | memberVariable .. | memberMethod .. | interfaceMethod .. => true
  | _ => false

/-- Methods of one name with the same functions, which may come in another order. -/
structure Method.Alike (n : Numbering) (home : Home) (m m' : Method) : Prop where
  name : m'.name = m.name
  space : m'.space = (n.within home).spaces m.space
  functions : m'.functions.Perm (m.functions.map n.function)

theorem Method.alike_method (n : Numbering) (home : Home) (m : Method) :
    m.Alike n home (n.method home m) :=
  ⟨rfl, rfl, .refl _⟩

/-- The entries of the second table are those of the first under new numbers.  The functions
that share a name in a space may come in another order, and variables may have other
addresses. -/
structure Table.SameEntries (n : Numbering) (home : Home) (t t' : Table) : Prop where
  classes : ∀ i, t'.classes[(n.within home).classes i]? = t.classes[i]?.map (n.classDef home)
  interfaces : ∀ i, t'.interfaces[(n.within home).interfaces i]? =
    t.interfaces[i]?.map (n.interfaceDef home)
  delegates : ∀ i, t'.delegates[(n.within home).delegates i]? =
    t.delegates[i]?.map (n.delegateDef home)
  coroutines : ∀ i, t'.coroutines[(n.within home).coroutines i]? =
    t.coroutines[i]?.map (n.coroutineDef home)
  globals : ∀ i, t'.globals[(n.within home).globals i]?.map VariableDef.unplaced =
    t.globals[i]?.map fun v => (n.variableDef home v).unplaced
  methods : Reindexed (n.within home).methods (Method.Alike n home) t.methods t'.methods
  natives : Reindexed (n.within home).natives (Method.Alike n home) t.natives t'.natives

/-- The second table is the first one under new numbers. -/
structure Table.Alike (n : Numbering) (home : Home) (t t' : Table) : Prop
    extends Table.SameEntries n home t t' where
  name : t'.name = t.name
  stands : t.home = home
  stands' : t'.home = home
  kinds : ∀ c ∈ t.classes, c.kind.isDefinition = true
  classMembers : ∀ c ∈ t.classes, ∀ {name d}, c.members.find? name = some d →
    d.entity.isMember = true
  interfaceMembers : ∀ i ∈ t.interfaces, ∀ {name d}, i.members.find? name = some d →
    d.entity.isMember = true
  root : (n.within home).spaces Table.rootSpace = Table.rootSpace
  child : ∀ space name, t'.childSpace ((n.within home).spaces space) name =
    (t.childSpace space name).map (n.within home).spaces
  found : ∀ space name, t'.lookup ((n.within home).spaces space) name =
    (t.lookup space name).map n.declaration
  parent : ∀ space, t'.parentSpace ((n.within home).spaces space) =
    (t.parentSpace space).map (n.within home).spaces
  label : ∀ space,
    (t'.spaces[(n.within home).spaces space]?.bind fun s => s.parent.map fun _ => s.name) =
      t.spaces[space]?.bind fun s => s.parent.map fun _ => s.name

namespace Table.Alike

variable {n : Numbering} {home : Home} {t t' : Table}

/-! ### Spaces -/

/-- The way from a space to the root leads through the same spaces. -/
theorem spaceChain (alike : t.Alike n home t') (space : Nat) :
    t'.spaceChain ((n.within home).spaces space) =
      (t.spaceChain space).map (n.within home).spaces := by
  have known {t : Table} {s p : Nat} (isParent : t.parentSpace s = some p) :
      p ∈ t.spaces.filterMap (·.parent) := by
    obtain ⟨x, inside, same⟩ := Option.bind_eq_some_iff.1 isParent
    exact mem_filterMap.2 ⟨x, mem_of_getElem? inside, same⟩
  -- The walks meet only spaces that are in both rooms.
  refine Walk.chain_map (D := fun s => s ∈ space :: t.spaces.filterMap (·.parent) ∧
      (n.within home).spaces s ∈ (n.within home).spaces space :: t'.spaces.filterMap (·.parent))
    (fun s _ => alike.parent s) ?_
    ⟨fun _ _ _ _ equal => (n.within home).spaces.injective equal,
      fun s met => ⟨fun _ => met.1, fun _ => met.2⟩⟩
    ⟨mem_cons_self .., mem_cons_self ..⟩
  intro s p _ isParent
  have isParent' : t'.parentSpace ((n.within home).spaces s) = some ((n.within home).spaces p) := by
    rw [alike.parent, isParent]
    rfl
  exact ⟨mem_cons_of_mem _ (known isParent), mem_cons_of_mem _ (known isParent')⟩

theorem spaceContains (alike : t.Alike n home t') (outer inner : Nat) :
    t'.spaceContains ((n.within home).spaces outer) ((n.within home).spaces inner) =
      t.spaceContains outer inner := by
  simp only [Table.spaceContains, alike.spaceChain,
    mem_map_of_injective (n.within home).spaces.injective]

theorem spacePath (alike : t.Alike n home t') (space : Nat) :
    t'.spacePath ((n.within home).spaces space) = t.spacePath space := by
  simp only [Table.spacePath, alike.spaceChain, ← map_reverse, filterMap_map,
    Function.comp_def, alike.label]

/-! ### Types -/

theorem typeName {x : TypeId} (alike : t.Alike n x.home t') : t'.typeName (n.type x) =
      (t.typeName x).map fun entry => (entry.1, (n.within x.home).spaces entry.2) := by
  obtain ⟨home, kind, index⟩ := x
  cases kind with
  | invalid => rfl
  | struct | handle =>
    simp [Table.typeName, type, ofKind, alike.classes, Function.comp_def,
      classDef]
  | interface =>
    simp [Table.typeName, type, ofKind, alike.interfaces,
      Function.comp_def, interfaceDef]
  | delegate =>
    simp [Table.typeName, type, ofKind, alike.delegates, Function.comp_def,
      delegateDef]
  | coroutine =>
    simp [Table.typeName, type, ofKind, alike.coroutines,
      Function.comp_def, coroutineDef]

theorem type_classDef (alike : t.Alike n home t') {i : Nat} {c : ClassDef}
    (found : t.classes[i]? = some c) :
    n.type ⟨home, c.kind, i⟩ = ⟨home, c.kind, (n.within home).classes i⟩ := by
  have definition := alike.kinds c (mem_of_getElem? found)
  cases kind : c.kind with
  | struct | handle => rfl
  | _ =>
    rw [kind] at definition
    cases definition

theorem classType (alike : t.Alike n home t') (i : Nat) :
    (t'.classes[(n.within home).classes i]?.map fun c =>
      (⟨t'.home, c.kind, (n.within home).classes i⟩ : TypeId)) =
      (t.classes[i]?.map fun c => (⟨t.home, c.kind, i⟩ : TypeId)).map n.type := by
  rw [alike.classes, alike.stands, alike.stands']
  cases found : t.classes[i]? with
  | none => rfl
  | some c => simp [alike.type_classDef found, classDef]

section

variable {d : Declaration} (alike : t.Alike n d.home t')
include alike

theorem declaredType : t'.declaredType (n.declaration d) = (t.declaredType d).map n.type := by
  obtain ⟨home, v, e⟩ := d
  cases e with
  | classDef i => exact alike.classType i
  | interface i | delegate i | coroutine i =>
    simp [Table.declaredType, declaration, entity, alike.stands, alike.stands',
      type, ofKind]
  | _ => rfl

theorem ownerType : t'.ownerType (n.declaration d) = (t.ownerType d).map n.type := by
  obtain ⟨home, v, e⟩ := d
  cases e with
  | memberVariable c | memberMethod c | memberFunction c | constructor c => exact alike.classType c
  | interfaceMethod i | interfaceFunction i =>
    simp [Table.ownerType, declaration, entity, alike.stands, alike.stands',
      type, ofKind]
  | _ => rfl

/-! ### Methods -/

theorem method : Option.Rel (Method.Alike n d.home) (t.method d) (t'.method (n.declaration d)) := by
  have exact_ {ms : List Method} (k : Nat) : Option.Rel (Method.Alike n d.home) ms[k]?
      (ms.map (n.method d.home))[k]? := by
    rw [getElem?_map]
    cases ms[k]? with
    | none => exact .none
    | some m => exact .some (Method.alike_method n d.home m)
  obtain ⟨home, v, e⟩ := d
  cases e with
  | memberMethod c m | memberFunction c m =>
    simp only [Table.method, declaration, entity, Entity.group, alike.classes]
    cases t.classes[c]? with
    | none => exact .none
    | some x => exact exact_ m
  | interfaceMethod i m | interfaceFunction i m =>
    simp only [Table.method, declaration, entity, Entity.group,
      alike.interfaces]
    cases t.interfaces[i]? with
    | none => exact .none
    | some x => exact exact_ m
  | globalMethod m | globalFunction m => exact alike.methods m
  | nativeMethod m | nativeFunction m => exact alike.natives m
  | _ => exact .none

/-- The functions of a method of a type come in the same order. -/
theorem overloads_of_isMember (isMember : d.entity.isMember = true) :
    t'.overloads (n.declaration d) = (t.overloads d).map (map n.function) := by
  obtain ⟨home, v, e⟩ := d
  cases e with
  | memberVariable => rfl
  | memberMethod c m =>
    simp only [Table.overloads, Table.method, declaration, entity,
      Entity.group, alike.classes]
    cases t.classes[c]? with
    | none => rfl
    | some x => simp [Numbering.classDef, Numbering.method, Function.comp_def]
  | interfaceMethod i m =>
    simp only [Table.overloads, Table.method, declaration, entity,
      Entity.group, alike.interfaces]
    cases t.interfaces[i]? with
    | none => rfl
    | some x => simp [Numbering.interfaceDef, Numbering.method, Function.comp_def]
  | _ => cases isMember

/-- The functions of a method are the same, in some order. -/
theorem overloads : Option.Rel (fun fs fs' => fs'.Perm (fs.map n.function)) (t.overloads d)
      (t'.overloads (n.declaration d)) := by
  have ofMethod : Option.Rel (fun fs fs' => fs'.Perm (fs.map n.function))
      ((t.method d).map (·.functions)) ((t'.method (n.declaration d)).map (·.functions)) :=
    rel_map alike.method fun _ _ _ related => related.functions
  obtain ⟨home, v, e⟩ := d
  cases e with
  | classDef i | constructor i =>
    simp only [Table.overloads, declaration, entity, alike.classes]
    cases t.classes[i]? with
    | none => exact .none
    | some x => exact .some (.refl _)
  | _ => exact ofMethod

end

/-! ### Names and places -/

/-- What does not look at addresses is the same for corresponding variables. -/
theorem globals_map {γ : Type} (alike : t.Alike n home t') (view : VariableDef → γ)
    (blind : ∀ v, view v.unplaced = view v) (i : Nat) :
    t'.globals[(n.within home).globals i]?.map view =
      t.globals[i]?.map fun v => view (n.variableDef home v) := by
  have same := congrArg (Option.map view) (alike.globals i)
  simpa only [Option.map_map, Function.comp_def, blind] using same

section

variable {d : Declaration} (alike : t.Alike n d.home t')
include alike

theorem declarationName : t'.declarationName (n.declaration d) = t.declarationName d := by
  have ofMethod : (t'.method (n.declaration d)).map (·.name) = (t.method d).map (·.name) := by
    have related := alike.method
    revert related
    generalize t.method d = m, t'.method (n.declaration d) = m'
    rintro (⟨⟨same, _, _⟩⟩ | _)
    · exact congrArg some same
    · rfl
  obtain ⟨home, v, e⟩ := d
  cases e with
  | classDef | constructor | interface | delegate | coroutine =>
    simp [Table.declarationName, declaration, entity, alike.classes,
      alike.interfaces, alike.delegates, alike.coroutines, Function.comp_def, classDef,
      interfaceDef, delegateDef, coroutineDef]
  | memberVariable c i =>
    simp only [Table.declarationName, declaration, entity, alike.classes]
    cases t.classes[c]? with
    | none => rfl
    | some x => simp [classDef, field, Function.comp_def]
  | globalVariable i => exact alike.globals_map VariableDef.name (fun _ => rfl) i
  | invalid | lambda | localVariable => rfl
  | _ => exact ofMethod

theorem declarationSpace : t'.declarationSpace (n.declaration d) =
      (t.declarationSpace d).map (n.within d.home).spaces := by
  have ofMethod : (t'.method (n.declaration d)).map (·.space) =
      ((t.method d).map (·.space)).map (n.within d.home).spaces := by
    have related := alike.method
    revert related
    generalize t.method d = m, t'.method (n.declaration d) = m'
    rintro (⟨⟨_, same, _⟩⟩ | _)
    · exact congrArg some same
    · rfl
  obtain ⟨home, v, e⟩ := d
  cases e with
  | classDef | interface | delegate | coroutine =>
    simp [Table.declarationSpace, declaration, entity, alike.classes,
      alike.interfaces, alike.delegates, alike.coroutines, Function.comp_def, classDef,
      interfaceDef, delegateDef, coroutineDef]
  | globalVariable i =>
    refine (alike.globals_map VariableDef.space (fun _ => rfl) i).trans ?_
    simp [Table.declarationSpace, variableDef, Function.comp_def]
  | globalMethod | globalFunction | nativeMethod | nativeFunction => exact ofMethod
  | _ => rfl

theorem declaringSpace : t'.declaringSpace (n.declaration d) =
      (t.declaringSpace d).map (n.within d.home).spaces := by
  unfold Table.declaringSpace
  rw [alike.ownerType]
  cases found : t.ownerType d with
  | none => exact alike.declarationSpace
  | some owner =>
    have stands : owner.home = d.home := (home_of_ownerType found).trans alike.stands
    have named := typeName (stands ▸ alike)
    simp only [Option.map_some, named, Option.map_map, Function.comp_def, stands]

end

end Table.Alike

end Linkage
