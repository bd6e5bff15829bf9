/-
Purpose: What a catalog answers about types, members and inheritance when the library being
  compiled is numbered anew.
-/
import Linkage.Draft.Check
import Linkage.Proofs.Reorder.Alike

namespace Linkage

open List Linkage.Numbering

/-- Catalogs of the same other libraries and of a library under two numberings. -/
structure Catalog.Alike (n : Numbering) (c c' : Catalog) : Prop where
  tables : ∀ home, Option.Rel (Table.Alike n home) (c.table? home) (c'.table? home)
  relies : c'.relies = c.relies
  away : ∀ t ∈ c.relies, t.home ≠ .here

/-- A chain of types above a type is carried over. -/
theorem Catalog.Embedding.ancestors {φ : TypeId → TypeId} {D : TypeId → Prop} {c c' : Catalog}
    (embedding : Catalog.Embedding φ D c c') {x : TypeId} (inside : D x) :
    c'.ancestors (φ x) = (c.ancestors x).map φ := by
  unfold Catalog.ancestors
  rw [embedding.nextParent inside]
  cases next : c.nextParent x with
  | none => rfl
  | some parent =>
    have next' : c'.nextParent (φ x) = some (φ parent) := by
      rw [embedding.nextParent inside, next]
      rfl
    refine Walk.chain_map (D := fun y => D y ∧ y ∈ c.parents ∧ φ y ∈ c'.parents)
      (fun y met => embedding.nextParent met.1) ?_
      ⟨fun y z one other => embedding.injective y z one.1 other.1,
        fun y met => ⟨fun _ => met.2.1, fun _ => met.2.2⟩⟩
      ⟨embedding.nextParent_inside inside next, mem_parents_of_nextParent next,
        mem_parents_of_nextParent next'⟩
    intro y z met above
    have above' : c'.nextParent (φ y) = some (φ z) := by
      rw [embedding.nextParent met.1, above]
      rfl
    exact ⟨embedding.nextParent_inside met.1 above, mem_parents_of_nextParent above,
      mem_parents_of_nextParent above'⟩

namespace Catalog.Alike

variable {n : Numbering} {c c' : Catalog} {d : Declaration}

section

variable (alike : c.Alike n c') (x : TypeId)

include alike

/-- What corresponding tables answer alike, the catalogs answer alike. -/
theorem bind_table {γ δ : Type} (home : Home) {f : Table → Option γ}
    {f' : Table → Option δ} {g : γ → δ} (each : ∀ t t', t.Alike n home t' → f' t' = (f t).map g) :
    (c'.table? home).bind f' = ((c.table? home).bind f).map g := by
  have related := alike.tables home
  revert related
  generalize c.table? home = t, c'.table? home = t'
  rintro (⟨related⟩ | _)
  · exact each _ _ related
  · rfl

/-! ### Definitions -/

theorem classDef? : c'.classDef? (n.type x) = (c.classDef? x).map (n.classDef x.home) := by
  unfold Catalog.classDef?
  rw [kind_type]
  by_cases definition : x.kind.isDefinition = true
  · rw [if_pos definition, if_pos definition]
    refine alike.bind_table x.home fun t t' related => ?_
    rw [← related.classes]
    unfold type
    cases kind : x.kind with
    | struct | handle => rfl
    | _ =>
      rw [kind] at definition
      cases definition
  · rw [if_neg definition, if_neg definition]
    rfl

theorem interfaceDef? :
    c'.interfaceDef? (n.type x) = (c.interfaceDef? x).map (n.interfaceDef x.home) := by
  unfold Catalog.interfaceDef?
  rw [kind_type]
  by_cases kind : x.kind = .interface
  · rw [if_pos kind, if_pos kind]
    refine alike.bind_table x.home fun t t' related => ?_
    rw [← related.interfaces]
    simp only [type, kind, ofKind]
  · rw [if_neg kind, if_neg kind]
    rfl

theorem delegateDef? :
    c'.delegateDef? (n.type x) = (c.delegateDef? x).map (n.delegateDef x.home) := by
  unfold Catalog.delegateDef?
  rw [kind_type]
  by_cases kind : x.kind = .delegate
  · rw [if_pos kind, if_pos kind]
    refine alike.bind_table x.home fun t t' related => ?_
    rw [← related.delegates]
    simp only [type, kind, ofKind]
  · rw [if_neg kind, if_neg kind]
    rfl

theorem declaredType (d : Declaration) :
    c'.declaredType (n.declaration d) = (c.declaredType d).map n.type :=
  alike.bind_table d.home fun _ _ related => related.declaredType

theorem ownerType (d : Declaration) : c'.ownerType (n.declaration d) = (c.ownerType d).map n.type :=
  alike.bind_table d.home fun _ _ related => related.ownerType

/-! ### Members -/

theorem findMember (name : String) :
    c'.findMember (n.type x) name = (c.findMember x name).map n.declaration := by
  unfold Catalog.findMember
  rw [alike.classDef?, alike.interfaceDef?]
  cases c.classDef? x with
  | some definition => exact n.find?_members definition.members name
  | none =>
    cases c.interfaceDef? x with
    | none => rfl
    | some i => exact n.find?_members i.members name

end

theorem filter_isMethod (n : Numbering) (x : Option Declaration) :
    (x.map n.declaration).filter (fun d => d.entity.isMethod) =
      (x.filter fun d => d.entity.isMethod).map n.declaration := by
  cases x with
  | none => rfl
  | some d =>
    have same : (n.declaration d).entity.isMethod = d.entity.isMethod :=
      isMethod_entity _ _
    by_cases isMethod : d.entity.isMethod = true <;> simp [Option.filter, same, isMethod]

section

variable (alike : c.Alike n c') (x : TypeId)

include alike

theorem findMethod (name : String) :
    c'.findMethod (n.type x) name = (c.findMethod x name).map n.declaration := by
  unfold Catalog.findMethod
  rw [alike.findMember, filter_isMethod]

/-- What a type has as a member is a variable or a method of a type. -/
theorem isMember_of_findMember {x : TypeId} {name : String} (found : c.findMember x name = some d)
    : d.entity.isMember = true := by
  unfold Catalog.findMember at found
  split at found
  · rename_i definition isClass
    obtain ⟨_, t, atHome, inside⟩ := classDef?_eq_some.1 isClass
    obtain ⟨t', _, related⟩ := (exists_of_rel (alike.tables x.home)).1 t atHome
    exact related.classMembers definition (mem_of_getElem? inside) found
  · obtain ⟨i, isInterface, hit⟩ := Option.bind_eq_some_iff.1 found
    obtain ⟨_, t, atHome, inside⟩ := interfaceDef?_eq_some.1 isInterface
    obtain ⟨t', _, related⟩ := (exists_of_rel (alike.tables x.home)).1 t atHome
    exact related.interfaceMembers i (mem_of_getElem? inside) hit

theorem overloads (d : Declaration) :
    Option.Rel (fun fs fs' => fs'.Perm (fs.map n.function)) (c.overloads d)
      (c'.overloads (n.declaration d)) := by
  unfold Catalog.overloads
  have related := alike.tables d.home
  revert related
  show Option.Rel _ _ (c'.table? d.home) → Option.Rel _ _ ((c'.table? d.home).bind _)
  generalize c.table? d.home = t, c'.table? d.home = t'
  rintro (⟨related⟩ | _)
  · exact related.overloads
  · exact .none

theorem overloads_of_isMember (isMember : d.entity.isMember = true) :
    c'.overloads (n.declaration d) = (c.overloads d).map (List.map n.function) :=
  alike.bind_table d.home fun _ _ related => related.overloads_of_isMember isMember

/-! ### Inheritance -/

/-- New numbers change no inheritance. -/
theorem embedding : Catalog.Embedding n.type (fun _ => True) c c' where
  injective := fun _ _ _ _ equal => n.type_injective equal
  kind := n.kind_type
  kernel := n.type_kernel
  kernelInside := fun _ _ => trivial
  links := by
    intro x _
    refine alike.bind_table x.home fun t t' related => ?_
    obtain ⟨home, kind, index⟩ := x
    cases kind with
    | struct | handle =>
      simp [Table.links, type, ofKind, related.classes,
        classDef, Function.comp_def]
    | interface =>
      simp [Table.links, type, ofKind, related.interfaces,
        interfaceDef, Function.comp_def]
    | _ => rfl
  linksInside := fun _ _ _ _ _ _ => trivial

theorem typeChain : c'.typeChain (n.type x) = (c.typeChain x).map n.type :=
  alike.embedding.typeChain trivial

theorem ancestors : c'.ancestors (n.type x) = (c.ancestors x).map n.type :=
  alike.embedding.ancestors trivial

theorem interfaceClosure : c'.interfaceClosure (n.type x) = (c.interfaceClosure x).map n.type := by
  have carried := alike.embedding
  unfold Catalog.interfaceClosure
  rw [carried.ownInterfaces trivial, carried.interfaceLevels fun _ _ => trivial, map_map,
    map_map]
  rfl

/-! ### Implementations -/

theorem zipIdx_overloads (isMember : d.entity.isMember = true) :
    ((c'.overloads (n.declaration d)).getD []).zipIdx =
      ((c.overloads d).getD []).zipIdx.map fun entry => (n.function entry.1, entry.2) := by
  rw [alike.overloads_of_isMember isMember]
  cases c.overloads d with
  | none => rfl
  | some fs => exact zipIdx_map ..

theorem findImplementation (owner : TypeId) (name : String) (required : Function) :
    c'.findImplementation (n.type owner) name (n.function required) =
      (c.findImplementation owner name required).map fun found =>
        (n.declaration found.1, n.function found.2) := by
  unfold Catalog.findImplementation
  rw [alike.typeChain, findSome?_map, map_findSome?]
  congr 1
  funext x
  simp only [Function.comp_apply, alike.findMethod]
  cases found : c.findMethod x name with
  | none => rfl
  | some group =>
    have isMember := alike.isMember_of_findMember (Option.filter_eq_some_iff.1 found).1
    simp only [Option.map_some, Option.bind_some, alike.zipIdx_overloads isMember,
      List.find?_map, Function.comp_def, n.sameParams_function]
    cases ((c.overloads group).getD []).zipIdx.find? fun entry => entry.1.sameParams required with
    | none => rfl
    | some entry =>
      simp only [Option.map_some, Option.bind_some, n.overload?_declaration, Option.map_map]
      rfl

theorem inheritedVariable (owner : TypeId) (name : String) :
    Draft.inheritedVariable c' (n.type owner) name =
      (Draft.inheritedVariable c owner name).map n.type := by
  unfold Draft.inheritedVariable
  rw [alike.ancestors, List.find?_map]
  congr 2
  funext x
  rw [Function.comp_apply, alike.classDef?]
  cases c.classDef? x with
  | none => rfl
  | some definition =>
    show (definition.fields.map n.field).any _ = _
    rw [any_map]
    rfl

end

/-! ### Overridden methods -/

/-- The types that an interface inherits, whatever they are. -/
def inheritedIds (c : Catalog) (x : TypeId) : List TypeId :=
  ((c.interfaceDef? x).map fun i => i.inherits.map (·.id)).getD []

/-- The types that can be reached from an interface through what is inherited. -/
def inheritedLevels (c : Catalog) (x : TypeId) : List (TypeId × Nat) :=
  Walk.levels (inheritedIds c) (inheritedIds c x ++ c.inherited)
    ((inheritedIds c x).map fun id => (id, 0))

theorem overriddenMethod_of_interface {owner : TypeId} (kind : owner.kind = .interface)
    (name : String) :
    c.overriddenMethod owner name = (inheritedLevels c owner).findSome? fun entry =>
        (c.interfaceDef? entry.1).bind fun i =>
          (i.members.find? name).filter fun d => d.entity.isMethod := by
  unfold Catalog.overriddenMethod
  rw [kind]
  rfl

theorem mem_inherited_of_mem_inheritedIds {x y : TypeId} (member : y ∈ inheritedIds c x) :
    y ∈ c.inherited := by
  unfold inheritedIds at member
  cases found : c.interfaceDef? x with
  | none =>
    rw [found] at member
    cases member
  | some i =>
    rw [found] at member
    obtain ⟨_, t, atHome, inside⟩ := interfaceDef?_eq_some.1 found
    exact mem_flatMap.2 ⟨t, mem_tables_of_table? atHome,
      mem_flatMap.2 ⟨i, mem_of_getElem? inside, member⟩⟩

theorem inheritedIds_type (alike : c.Alike n c') (x : TypeId) :
    inheritedIds c' (n.type x) = (inheritedIds c x).map n.type := by
  unfold inheritedIds
  rw [alike.interfaceDef?]
  cases c.interfaceDef? x with
  | none => rfl
  | some i => simp [interfaceDef, Function.comp_def]

theorem inheritedLevels_type (alike : c.Alike n c') (x : TypeId) : inheritedLevels c' (n.type x) =
      (inheritedLevels c x).map fun entry => (n.type entry.1, entry.2) := by
  have queue : ((inheritedIds c x).map n.type).map (fun id => (id, 0)) =
      ((inheritedIds c x).map fun id => (id, 0)).map fun entry => (n.type entry.1, entry.2) := by
    simp [Function.comp_def]
  have met {y z : TypeId} (member : z ∈ inheritedIds c y) :
      z ∈ c.inherited ∧ n.type z ∈ c'.inherited :=
    ⟨mem_inherited_of_mem_inheritedIds member, mem_inherited_of_mem_inheritedIds
      (alike.inheritedIds_type y ▸ mem_map_of_mem member)⟩
  unfold inheritedLevels
  rw [alike.inheritedIds_type, queue]
  refine Walk.levels_map
    (fun y _ => alike.inheritedIds_type y) (fun _ _ _ member => met member)
    ⟨fun y z _ _ equal => n.type_injective equal, fun y inside => ?_⟩ ?_
  · exact ⟨fun _ => mem_append_right _ inside.1, fun _ => mem_append_right _ inside.2⟩
  · intro entry member
    obtain ⟨y, isBase, rfl⟩ := mem_map.1 member
    exact met isBase

theorem overriddenMethod (alike : c.Alike n c') (owner : TypeId) (name : String) :
    c'.overriddenMethod (n.type owner) name =
      (c.overriddenMethod owner name).map n.declaration := by
  cases kind : owner.kind with
  | handle =>
    unfold Catalog.overriddenMethod
    simp only [n.kind_type, kind, searchAncestors_eq_findSome?]
    rw [alike.ancestors, findSome?_map, map_findSome?]
    congr 1
    funext x
    simp only [Function.comp_apply, n.kind_type, apply_ite (Option.map n.declaration),
      alike.findMethod, Option.map_none]
  | interface =>
    rw [overriddenMethod_of_interface kind, overriddenMethod_of_interface (n.kind_type _ ▸ kind),
      alike.inheritedLevels_type, findSome?_map, map_findSome?]
    congr 1
    funext entry
    simp only [Function.comp_apply, alike.interfaceDef?]
    cases c.interfaceDef? entry.1 with
    | none => rfl
    | some i =>
      simp only [Option.map_some, Option.bind_some, interfaceDef, n.find?_members,
        filter_isMethod]
  | invalid | struct | delegate | coroutine =>
    simp only [Catalog.overriddenMethod, n.kind_type, kind, Option.map_none]

/-- The methods above a type, found one after the other, are the same as long as the owners
that have not been passed are. -/
theorem overriddenFrom (alike : c.Alike n c') (name : String)
    {room room' : List TypeId} (rooms : ∀ x, n.type x ∈ room' ↔ x ∈ room) (above : TypeId) :
    c'.overriddenFrom name room' (n.type above) =
      (c.overriddenFrom name room above).map n.declaration := by
  fun_induction Catalog.overriddenFrom c name room above generalizing room' with
  | case1 room above none =>
    rw [Catalog.overriddenFrom, alike.overriddenMethod, none]
    rfl
  | case2 room above group found noOwner =>
    rw [Catalog.overriddenFrom, alike.overriddenMethod, found]
    simp only [Option.map_some, alike.ownerType, noOwner]
    rfl
  | case3 room above group found base isOwner goes ih =>
    have goes' : n.type base ≠ n.type above ∧ n.type base ∈ room' :=
      ⟨n.type_injective.ne goes.1, (rooms base).2 goes.2⟩
    have rooms' (x : TypeId) :
        n.type x ∈ Walk.without room' (n.type base) ↔ x ∈ Walk.without room base := by
      rw [Walk.mem_without, Walk.mem_without, rooms, n.type_injective.ne_iff]
    rw [Catalog.overriddenFrom, alike.overriddenMethod, found]
    simp only [Option.map_some, alike.ownerType, isOwner]
    rw [if_pos goes', ih rooms']
    rfl
  | case4 room above group found base isOwner stays =>
    have stays' : ¬(n.type base ≠ n.type above ∧ n.type base ∈ room') := by
      rwa [n.type_injective.ne_iff, rooms]
    rw [Catalog.overriddenFrom, alike.overriddenMethod, found]
    simp only [Option.map_some, alike.ownerType, isOwner]
    rw [if_neg stays']
    rfl

/-- Where tables stand at their places and classes are of a kind that classes have, the classes
of a catalog are those with a definition of their kind. -/
theorem mem_classIds_iff (stands : ∀ {home t}, c.table? home = some t →
      t.home = home ∧ ∀ d ∈ t.classes, d.kind.isDefinition = true) {x : TypeId} :
    x ∈ c.classIds ↔ ∃ d, c.classDef? x = some d ∧ d.kind = x.kind := by
  simp only [classIds, mem_flatMap, mem_mapIdx, classDef?_eq_some]
  constructor
  · rintro ⟨t, member, i, inside, rfl⟩
    obtain ⟨home, atHome⟩ : ∃ home, c.table? home = some t := by
      rcases mem_cons.1 member with rfl | member
      · exact ⟨.kernel, rfl⟩
      · rcases mem_cons.1 member with rfl | member
        · exact ⟨.here, rfl⟩
        · obtain ⟨i, found⟩ := mem_iff_getElem?.1 member
          exact ⟨.rely i, found⟩
    obtain ⟨rfl, kinds⟩ := stands atHome
    exact ⟨_, ⟨kinds _ (getElem_mem inside), t, atHome, getElem?_eq_getElem inside⟩, rfl⟩
  · rintro ⟨d, ⟨_, t, atHome, found⟩, sameKind⟩
    obtain ⟨inside, rfl⟩ := List.getElem?_eq_some_iff.1 found
    refine ⟨t, mem_tables_of_table? atHome, x.index, inside, ?_⟩
    rw [(stands atHome).1, sameKind]

theorem mem_classIds (alike : c.Alike n c') (x : TypeId) :
    n.type x ∈ c'.classIds ↔ x ∈ c.classIds := by
  rw [mem_classIds_iff, mem_classIds_iff, alike.classDef?]
  · simp [classDef]
  · intro home t atHome
    obtain ⟨t', _, related⟩ := (exists_of_rel (alike.tables home)).1 t atHome
    exact ⟨related.stands, related.kinds⟩
  · intro home t' atHome
    obtain ⟨t, _, related⟩ := (exists_of_rel (alike.tables home)).2 t' atHome
    refine ⟨related.stands', fun d' member => ?_⟩
    obtain ⟨_, d, found, _, rfl⟩ := (Reindexed.of_map related.classes).exists_of_mem member
    exact related.kinds d (mem_of_getElem? found)

theorem overriddenMethods (alike : c.Alike n c') (owner : TypeId) (name : String) :
    c'.overriddenMethods (n.type owner) name = (c.overriddenMethods owner name).map n.declaration :=
  alike.overriddenFrom name (alike.mem_classIds) owner

end Catalog.Alike

end Linkage
