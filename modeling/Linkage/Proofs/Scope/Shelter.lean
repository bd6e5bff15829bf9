/-
Purpose: Imports and further libraries do not change what a name near by stands for.
-/
import Linkage.Proofs.Export.Subtyping
import Linkage.Proofs.Link.Rooted
import Linkage.Proofs.Rely.Mentions

namespace Linkage

open List Scope

variable {t : Table} {d : Declaration}

/-- A table that stands at a place says so, and so do the members of its types. -/
structure Table.Stationed (place : Home) (t : Table) : Prop where
  home : t.home = place
  classes : ∀ c ∈ t.classes, ∀ {name d}, c.members.find? name = some d → d.home = place
  interfaces : ∀ i ∈ t.interfaces, ∀ {name d}, i.members.find? name = some d → d.home = place

theorem Table.Regular.stationed {place : Home} (regular : t.Regular place) :
    t.Stationed place where
  home := regular.home
  classes := fun _ member _ _ found =>
    (regular.classes (getElem?_of_mem member).choose_spec).names.sound found |>.1
  interfaces := fun _ member _ _ found =>
    (regular.interfaces (getElem?_of_mem member).choose_spec).names.sound found |>.1

theorem Table.WellMade.stationed (made : t.WellMade) : t.Stationed .here where
  home := made.home
  classes := fun _ member _ _ found =>
    (made.classes (getElem?_of_mem member).choose_spec).names.sound found |>.1
  interfaces := fun _ member _ _ found =>
    (made.interfaces (getElem?_of_mem member).choose_spec).names.sound found |>.1

/-- Types inherit from types that stand in their table. -/
theorem Table.mem_types_of_links {kind : TypeKind} {index : Nat} {ls : List TypeRef}
    (found : t.links kind index = some ls) {x : TypeRef} (member : x ∈ ls) : x ∈ t.types := by
  have ofClass (found : (t.classes[index]?.map fun c => c.parent :: c.interfaces) = some ls) :
      x ∈ t.types := by
    obtain ⟨c, inside, rfl⟩ := Option.map_eq_some_iff.1 found
    have among : x ∈ c.types := by
      rcases mem_cons.1 member with rfl | interface
      · exact mem_cons_self ..
      · simp [ClassDef.types, interface]
    have atAll := mem_flatMap.2 ⟨c, mem_of_getElem? inside, among⟩
    simp [types, atAll]
  cases kind with
  | struct | handle => exact ofClass found
  | interface =>
    obtain ⟨i, inside, rfl⟩ := Option.map_eq_some_iff.1 found
    have among : x ∈ i.types := mem_append_left _ member
    have atAll := mem_flatMap.2 ⟨i, mem_of_getElem? inside, among⟩
    simp [types, atAll]
  | invalid | delegate | coroutine => cases found

instance (t : Table) (kind : TypeKind) (index : Nat) : Decidable (t.HasType kind index) :=
  decidable_of_iff (index < t.typeCount kind ∧ (kind.isDefinition = true →
      ∀ c ∈ t.classes[index]?, c.kind = kind))
    ⟨fun has => ⟨has.1, has.2⟩, fun has => ⟨has.counted, has.fits⟩⟩

namespace Catalog

instance (c : Catalog) (id : TypeId) : Decidable (c.HasType id) :=
  decidable_of_iff (∃ t ∈ c.table? id.home, t.HasType id.kind id.index) Iff.rfl

/-- All tables know where they stand, and inheritance stays inside the catalog. -/
structure SelfContained (c : Catalog) : Prop where
  tables : ∀ {home t}, c.table? home = some t → t.Stationed home
  names : ∀ {space name d}, c.own.lookup space name = some d → d.home = .here
  links : ∀ {x ls}, c.links x = some ls → ∀ y ∈ ls, (c.table? y.id.home).isSome = true

/-- The catalog with more libraries at the end of its list. -/
def beside (c : Catalog) (more : List Table) : Catalog := ⟨c.own, c.relies ++ more⟩

variable {c : Catalog} (more : List Table)

theorem table?_beside {home : Home} (known : (c.table? home).isSome = true) :
    (c.beside more).table? home = c.table? home := by
  cases home with
  | kernel | here => rfl
  | rely i =>
    obtain ⟨t, found⟩ := Option.isSome_iff_exists.1 known
    exact getElem?_append_left (lt_of_getElem? found)

/-- A catalog stands inside one with more libraries. -/
theorem SelfContained.embedding (contained : c.SelfContained) :
    Embedding id (fun x => (c.table? x.home).isSome = true) c (c.beside more) where
  injective := fun _ _ _ _ same => same
  kind := fun _ => rfl
  kernel := fun _ _ => rfl
  kernelInside := fun _ _ => rfl
  links := by
    intro x inside
    have same : TypeRef.rename id = id := rfl
    rw [same, map_id_fun, Option.map_id_fun]
    exact congrArg (fun found : Option Table => found.bind fun t => t.links x.kind x.index)
      (table?_beside more inside)
  linksInside := fun x _ ls found y member => contained.links found y member

theorem SelfContained.home_of_findMember (contained : c.SelfContained) {owner : TypeId}
    {name : String} (found : c.findMember owner name = some d) : d.home = owner.home := by
  unfold findMember at found
  split at found
  · rename_i definition isClass
    obtain ⟨_, t, atHome, inside⟩ := classDef?_eq_some.1 isClass
    exact (contained.tables atHome).classes _ (mem_of_getElem? inside) found
  · obtain ⟨i, isInterface, named⟩ := Option.bind_eq_some_iff.1 found
    obtain ⟨_, t, atHome, inside⟩ := interfaceDef?_eq_some.1 isInterface
    exact (contained.tables atHome).interfaces _ (mem_of_getElem? inside) named

end Catalog

namespace Scope

variable {s : Scope} (imports : List SpaceRef) (more : List Table)

/-- The same position with other imports and with more libraries at the end of the list. -/
def beside (s : Scope) (imports : List SpaceRef) (more : List Table) : Scope :=
  { s with catalog := s.catalog.beside more, imports := imports }

section

variable (contained : s.catalog.SelfContained)
  (inside : ∀ owner ∈ s.type, (s.catalog.table? owner.home).isSome = true)

include contained inside

theorem isVisible_beside (known : (s.catalog.table? d.home).isSome = true) :
    (s.beside imports more).isVisible d = s.isVisible d := by
  obtain ⟨t, atHome⟩ := Option.isSome_iff_exists.1 known
  have same : (s.catalog.beside more).table? d.home = some t :=
    (Catalog.table?_beside more known).trans atHome
  simp only [isVisible, beside, same, atHome, Option.any_some, admits]
  cases d.visibility with
  | protected_ =>
    dsimp only
    cases owned : t.ownerType d with
    | none => rfl
    | some owner =>
      cases enclosing : s.type with
      | none => rfl
      | some current =>
        have ownerInside : (s.catalog.table? owner.scalar.id.home).isSome = true := by
          rw [show owner.scalar.id.home = d.home from Table.home_of_ownerType owned ▸
            (contained.tables atHome).home, atHome]
          rfl
        have currentInside : (s.catalog.table? current.scalar.id.home).isSome = true :=
          inside current enclosing
        exact congrArg Option.isSome
          ((contained.embedding more).inheritDepth ownerInside currentInside)
  | _ => rfl

theorem isAccessible_beside (known : (s.catalog.table? d.home).isSome = true) :
    (s.beside imports more).isAccessible d = s.isAccessible d := by
  have overloads : (s.catalog.beside more).overloads d = s.catalog.overloads d :=
    congrArg (fun found : Option Table => found.bind fun t => t.overloads d)
      (Catalog.table?_beside more known)
  unfold isAccessible
  split
  · refine any_congr (congrArg (fun fs : Option (List Function) => (fs.getD []).zipIdx)
      overloads) ?_
    rintro ⟨f, i⟩
    cases part : d.overload? i with
    | none => simp only [part, Option.any_none]
    | some overload =>
      obtain ⟨_, _, rfl⟩ := Option.map_eq_some_iff.1 part
      simp only [part, Option.any_some]
      exact isVisible_beside imports more contained inside known
  · exact isVisible_beside imports more contained inside known

/-- The types whose members are in scope are the same, and they stand in the catalog. -/
theorem typeChain_beside : (s.beside imports more).typeChain = s.typeChain ∧
    ∀ owner ∈ s.typeChain, (s.catalog.table? owner.home).isSome = true := by
  have embedding := contained.embedding more
  simp only [typeChain, beside]
  cases enclosing : s.type with
  | none => exact ⟨rfl, forall_mem_nil _⟩
  | some owner =>
    have ownerInside := inside owner enclosing
    have startInside := embedding.ownInterfaces_inside ownerInside
    dsimp only
    split
    · have own := embedding.ownInterfaces ownerInside
      have levels := embedding.interfaceLevels startInside
      rw [id] at own
      rw [map_id_fun, id] at levels
      constructor
      · simp [Catalog.interfaceClosure, own, levels]
      · intro x member
        rcases mem_append.1 member with reached | root
        · obtain ⟨entry, among, rfl⟩ := mem_map.1 reached
          exact embedding.interfaceLevels_inside startInside entry among
        · simp at root
          rcases root with rfl | rfl <;> rfl
    · have chain := embedding.typeChain ownerInside
      rw [map_id_fun] at chain
      exact ⟨chain, embedding.typeChain_inside ownerInside⟩

/-- What a name near by stands for does not depend on imports, nor on libraries behind those that
the catalog has. -/
theorem nearby_beside (name : String) : (s.beside imports more).nearby name = s.nearby name := by
  obtain ⟨chain, known⟩ := typeChain_beside imports more contained inside
  have members : (s.beside imports more).memberHits name = s.memberHits name := by
    unfold memberHits
    rw [chain]
    apply filterMap_congr
    intro owner member
    simp only [beside, Catalog.findMember, Catalog.classDef?, Catalog.interfaceDef?,
      Catalog.table?_beside more (known owner member)]
  rw [← find?_near, ← find?_near, members]
  apply find?_congr
  intro d hit
  apply isAccessible_beside imports more contained inside
  rcases mem_append.1 hit with hit | hit
  · obtain ⟨owner, member, found⟩ := mem_filterMap.1 hit
    rw [contained.home_of_findMember found]
    exact known owner member
  · obtain ⟨space, _, found⟩ := mem_filterMap.1 hit
    rw [contained.names found]
    rfl

end

end Scope

/-! ### Linked libraries -/

namespace Draft

variable {library : String} {files : List (SourceFile × Outline)} {relies : List Table}

/-- A linked library and the libraries it relies on are self-contained if their types exist. -/
theorem selfContained_link
    (stationed : ∀ {i : Nat} {t : Table}, relies[i]? = some t → t.Stationed (.rely i))
    (existing : ∀ t ∈ (linkedCatalog library files relies).own :: relies, ∀ x ∈ t.types,
      (linkedCatalog library files relies).Fits x) :
    (linkedCatalog library files relies).SelfContained := by
  have made : (linkedCatalog library files relies).own.WellMade :=
    link_wellMade (merge_wellMade library files)
  have known {x : TypeRef} (fits : (linkedCatalog library files relies).Fits x) :
      ((linkedCatalog library files relies).table? x.id.home).isSome = true := by
    rcases fits with rfl | ⟨t, atHome, _⟩
    · rfl
    · exact Option.isSome_of_eq_some atHome
  constructor
  · intro home t atHome
    cases home with
    | kernel =>
      cases atHome
      exact Kernel.regular_table.stationed
    | here =>
      cases atHome
      exact made.stationed
    | rely i => exact stationed atHome
  · intro space name d found
    exact (made.names.sound (k := (space, name)) found).1
  · intro x ls found y member
    obtain ⟨t, atHome, links⟩ := Option.bind_eq_some_iff.1 found
    have among := Table.mem_types_of_links links member
    cases home : x.home with
    | kernel =>
      rw [home] at atHome
      cases atHome
      rw [Kernel.links_kernel links y member]
      rfl
    | here =>
      rw [home] at atHome
      cases atHome
      exact known (existing _ (mem_cons_self ..) y among)
    | rely i =>
      rw [home] at atHome
      exact known (existing t (mem_cons_of_mem _ (mem_of_getElem? atHome)) y among)

/-- Other libraries take no name away.  In a linked library whose types exist, as do those of the
libraries it relies on, what a name near by stands for is found without a report whatever the file
imports, and whatever libraries are added at the end of the rely list. -/
theorem near_names_stay
    (stationed : ∀ {i : Nat} {t : Table}, relies[i]? = some t → t.Stationed (.rely i))
    (existing : ∀ t ∈ (linkedCatalog library files relies).own :: relies, ∀ x ∈ t.types,
      (linkedCatalog library files relies).Fits x)
    {s : Scope} (linked : s.catalog = linkedCatalog library files relies)
    (enclosing : ∀ owner ∈ s.type, s.catalog.HasType owner) {name : String} {d : Declaration}
    (near : s.nearby name = some d) (imports : List SpaceRef) (more : List Table) (span : Span) :
    (s.find name span).value = some d ∧ ((s.beside imports more).find name span).value = some d ∧
      ((s.beside imports more).find name span).notes = [] := by
  have contained : s.catalog.SelfContained := linked ▸ selfContained_link stationed existing
  have inside (owner : TypeId) (current : owner ∈ s.type) :
      (s.catalog.table? owner.home).isSome = true := by
    obtain ⟨t, atHome, _⟩ := enclosing owner current
    exact Option.isSome_of_eq_some atHome
  have stays := (nearby_beside imports more contained inside name).trans near
  rw [find_of_resolve (resolve_of_nearby near),
    find_of_resolve (resolve_of_nearby stays)]
  exact ⟨rfl, rfl, rfl⟩

end Draft

namespace Sample

/-- In a class that derives from one of another library. -/
def insideTile : Scope where
  catalog := Draft.linkedCatalog "Tiles" knots [shapesRely.table]
  space := Table.rootSpace
  type := some ⟨.here, .handle, 2⟩
  imports := []
  path := "knots"

/-- A library that declares the name of a method of that class. -/
def areas : Table :=
  { Surface.empty "Areas" with interfaces := [⟨"Area", 0, [], []⟩] }.tableAt fun _ => .rely 1

end Sample

/-- A method inherited from another library is found under its name although a third library
declares something of that name, which is imported. -/
theorem Draft.near_names_stay_tile :
    Sample.areas.lookup Table.rootSpace "Area" = some ⟨.rely 1, .public_, .interface 0⟩ ∧
      ((Sample.insideTile.beside [⟨.rely 1, Table.rootSpace⟩] [Sample.areas]).find "Area"
        ⟨1, 0, 4⟩).value = some ⟨.rely 0, .public_, .memberMethod 0 0⟩ ∧
      ((Sample.insideTile.beside [⟨.rely 1, Table.rootSpace⟩] [Sample.areas]).find "Area"
        ⟨1, 0, 4⟩).notes = [] := by
  have loaded := RelyGraph.loaded_of_load Sample.tiles_loads
  obtain ⟨existing, enclosing, near⟩ :
      (∀ t ∈ [Sample.insideTile.catalog.own, Sample.shapesRely.table],
        ∀ x ∈ t.types, x = .invalid ∨ Sample.insideTile.catalog.HasType x.id) ∧
      (∀ owner ∈ Sample.insideTile.type, Sample.insideTile.catalog.HasType owner) ∧
      Sample.insideTile.nearby "Area" = some ⟨.rely 0, .public_, .memberMethod 0 0⟩ := by
    decide +kernel
  refine ⟨by decide +kernel, ?_⟩
  refine (near_names_stay (s := Sample.insideTile) ?_ existing rfl enclosing near _ _ _).2
  intro i t found
  obtain ⟨s, atIndex, rfl, _⟩ := loaded.surface_of_table found
  exact (loaded.regular_tableAt atIndex
    (Sample.tiles_published s (mem_of_getElem? atIndex)).regular).stationed

end Linkage
