/-
Purpose: Going up from any class of a linked library, or of a library it relies on, one comes to
  the root of all handles.
-/
import Linkage.Proofs.Catalog.Depth
import Linkage.Proofs.Export.Published

namespace Linkage

open List Catalog

variable {d : ClassDef} {t : Table} {index i : Nat}

/-! ### Catalogs with a root -/

/-- A class outside the kernel derives from the root of all handles or from another class outside
the kernel, and no type is its own ancestor. -/
structure Catalog.Rooted (c : Catalog) : Prop where
  kind : ∀ {x d}, c.classDef? x = some d → x.home ≠ .kernel → d.kind = .handle
  above : ∀ {x d}, c.classDef? x = some d → x.home ≠ .kernel → d.parent.id.kind = .handle ∧
      (d.parent.id = .handle ∨ d.parent.id.home ≠ .kernel ∧ ∃ d', c.classDef? d.parent.id = some d')
  ends : ∀ x, Acc (Walk.Onward c.nextParent) x

namespace Catalog

namespace Rooted

variable {c : Catalog} (rooted : c.Rooted)
include rooted

theorem exists_steps {x : TypeId} (isClass : c.classDef? x = some d)
    (outside : x.home ≠ .kernel) : ∃ n, Walk.steps c.nextParent n x = some .handle := by
  induction rooted.ends x generalizing d with
  | intro x _ ih =>
    obtain ⟨kind, above⟩ := rooted.above isClass outside
    have next : c.nextParent x = some d.parent.id :=
      nextParent_of_classDef? isClass (by simp [TypeId.isValid, kind])
    rcases above with root | ⟨outside', d', isClass'⟩
    · exact ⟨1, by rw [Walk.steps, next, root]; rfl⟩
    · obtain ⟨n, path⟩ := ih d.parent.id next isClass' outside'
      exact ⟨n + 1, by rw [Walk.steps, next]; exact path⟩

end Rooted

end Catalog

/-! ### Linked libraries -/

theorem Catalog.exists_classDef? {c : Catalog} {home : Home} (atHome : c.table? home = some t)
    (counted : index < t.classes.length) : ∃ d, c.classDef? ⟨home, .handle, index⟩ = some d :=
  ⟨_, classDef?_eq_some.2 ⟨rfl, t, atHome, getElem?_eq_getElem counted⟩⟩

section

variable {g : RelyGraph} {built : List Rely} (loaded : g.Loaded built)
include loaded

/-- A class that a surface of a loaded list mentions is there. -/
theorem RelyGraph.Loaded.exists_classDef? (own : Table) {s : Surface}
    (atIndex : g.libraries[i]? = some s) {x : SurfaceType} (has : g.Has s x)
    (handle : x.kind = .handle) :
    ∃ d, (Catalog.mk own (built.map (·.table))).classDef?
      ⟨g.placement s i x.origin, .handle, x.index⟩ = some d := by
  have valid : x.kind ≠ .invalid := by simp [handle]
  have counted := has.resolve_left valid
  rw [handle] at counted
  cases origin : x.origin with
  | kernel =>
    rw [origin] at counted
    exact Catalog.exists_classDef? rfl counted
  | own =>
    rw [origin] at counted
    have atHome : (Catalog.mk own (built.map (·.table))).table? (.rely i) = some _ :=
      loaded.table atIndex
    refine Catalog.exists_classDef? atHome ?_
    rw [Surface.classes_tableAt, length_mapIdx]
    exact counted
  | dependency e =>
    obtain ⟨name, k, named, atNode, place, _⟩ :=
      loaded.placement_dependency atIndex has valid origin
    obtain ⟨s', atK, _⟩ := exists_of_node? atNode
    rw [place]
    have atHome : (Catalog.mk own (built.map (·.table))).table? (.rely k) = some _ :=
      loaded.table atK
    refine Catalog.exists_classDef? atHome ?_
    simpa [origin, available, named, countOf, atNode, atK, Surface.typeCount] using counted

theorem RelyGraph.Loaded.kind_of_class (atIndex : (built.map (·.table))[i]? = some t)
    (inside : t.classes[index]? = some d) : d.kind = .handle := by
  obtain ⟨s, _, rfl, _⟩ := loaded.surface_of_table atIndex
  obtain ⟨c, _, rfl⟩ := Surface.class_tableAt_iff.1 inside
  rfl

/-- Classes of a loaded list of regular surfaces derive from the root or from classes outside the
kernel. -/
theorem RelyGraph.Loaded.above (regular : ∀ s ∈ g.libraries, s.Regular) (own : Table)
    (atIndex : (built.map (·.table))[i]? = some t) (inside : t.classes[index]? = some d) :
    d.parent.id.kind = .handle ∧ (d.parent.id = .handle ∨ d.parent.id.home ≠ .kernel ∧
      ∃ d', (Catalog.mk own (built.map (·.table))).classDef? d.parent.id = some d') := by
  obtain ⟨s, isLibrary, rfl, all, _⟩ := loaded.surface_of_table atIndex
  obtain ⟨c, found, rfl⟩ := Surface.class_tableAt_iff.1 inside
  have member := mem_of_getElem? found
  have held := (regular s (mem_of_getElem? isLibrary)).classes c member
  have has := all c.parent (Surface.class_types_subset member mem_cons_self)
  have parent : (c.at (g.placement s i) index).parent.id =
      ⟨g.placement s i c.parent.origin, .handle, c.parent.index⟩ := by
    simp [SurfaceClass.at, SurfaceType.at, held.kind]
  have exists_ := loaded.exists_classDef? own isLibrary has held.kind
  rw [parent]
  refine ⟨rfl, ?_⟩
  cases origin : c.parent.origin with
  | kernel =>
    rw [held.root origin]
    exact .inl rfl
  | own => exact .inr ⟨by simp [RelyGraph.placement], origin ▸ exists_⟩
  | dependency e =>
    have valid : c.parent.kind ≠ .invalid := by simp [held.kind]
    obtain ⟨_, k, _, _, place, _⟩ := loaded.placement_dependency isLibrary has valid origin
    rw [origin] at exists_
    exact .inr ⟨by simp [place], exists_⟩

/-- The catalog of a linked library has a root, if the libraries it relies on are regular. -/
theorem Draft.rooted_link (regular : ∀ s ∈ g.libraries, s.Regular) {d : Draft}
    (made : d.table.WellMade) (unlinked : d.table.Settled IsOpen) :
    ((d.link (built.map (·.table))).value.catalog (built.map (·.table))).Rooted := by
  have settled := link_settled made unlinked loaded.sound_table
  have parents : ∀ c ∈ (d.link (built.map (·.table))).value.table.classes,
      c.parent = .invalid ∨ c.parent.canBeParent = true :=
    fun c member => .inr (settled.classes c member).canBeParent
  refine ⟨?_, ?_, loaded.acc_catalog regular parents (acc_ownParent_of_link d _)⟩
  · rintro ⟨home, kind, index⟩ definition isClass outside
    obtain ⟨_, t, atHome, inside⟩ := classDef?_eq_some.1 isClass
    cases home with
    | kernel => exact absurd rfl outside
    | rely i => exact loaded.kind_of_class atHome inside
    | here =>
      cases atHome
      exact ((link_wellMade made).classes inside).kind
  · rintro ⟨home, kind, index⟩ definition isClass outside
    obtain ⟨_, t, atHome, inside⟩ := classDef?_eq_some.1 isClass
    cases home with
    | kernel => exact absurd rfl outside
    | rely i => exact loaded.above regular _ atHome inside
    | here =>
      cases atHome
      have held := settled.classes definition (mem_of_getElem? inside)
      obtain ⟨_, isHandle, place⟩ := TypeRef.canBeParent_iff.1 held.canBeParent
      refine ⟨isHandle, ?_⟩
      rcases place with elsewhere | root
      · refine .inr ⟨elsewhere, ?_⟩
        rcases held.parent with unresolved | ⟨t, atHome, has⟩
        · rw [unresolved] at isHandle
          cases isHandle
        · have counted := has.counted
          rw [isHandle] at counted
          obtain ⟨d', isClass'⟩ := exists_classDef? atHome counted
          rw [← isHandle] at isClass'
          exact ⟨d', isClass'⟩
      · exact .inl root

end

/-- All that a library sees when its files have been merged and linked beside some libraries. -/
def Draft.linkedCatalog (name : String) (files : List (SourceFile × Outline))
    (relies : List Table) : Catalog :=
  ((Draft.merge name files).value.link relies).value.catalog relies

/-- Inheritance ends at the root.  Whatever the files of a library say, and whether or not linking
them is complained about, going up from parent to parent from a class of the library, or of a
published library it relies on, meets no type twice and comes to the root of all handles; the
number of steps is the depth of the root. -/
theorem Draft.parent_chain_ends {name : String} {surfaces : List Surface} {relies : List Rely}
    (published : ∀ s ∈ surfaces, s.Published)
    (loads : (RelyGraph.mk name surfaces).load = .ok relies)
    (files : List (SourceFile × Outline)) {home : Home} (outside : home ≠ .kernel) {t : Table}
    (atHome : (linkedCatalog name files (relies.map (·.table))).table? home = some t)
    {index : Nat} {definition : ClassDef} (isClass : t.classes[index]? = some definition) :
    let next := (linkedCatalog name files (relies.map (·.table))).nextParent
    let id : TypeId := ⟨home, definition.kind, index⟩
    ∃ n, Walk.steps next n id = some .handle ∧
      (∀ i j, i < j → j ≤ n → Walk.steps next i id ≠ Walk.steps next j id) ∧
      (linkedCatalog name files (relies.map (·.table))).inheritDepth TypeId.handle.scalar
        id.scalar = some n := by
  intro next id
  have loaded := RelyGraph.loaded_of_load loads
  have rooted : (linkedCatalog name files (relies.map (·.table))).Rooted :=
    rooted_link loaded (fun s member => (published s member).regular)
      (merge_wellMade name files) (merge_settled name files)
  have isDefinition {kind : TypeKind} (handle : kind = .handle) :
      (linkedCatalog name files (relies.map (·.table))).classDef? ⟨home, kind, index⟩ =
        some definition :=
    Catalog.classDef?_eq_some.2 ⟨by rw [handle]; rfl, t, atHome, isClass⟩
  have handle : definition.kind = .handle := rooted.kind (isDefinition rfl) outside
  obtain ⟨n, path⟩ := rooted.exists_steps (isDefinition handle) outside
  have other : TypeId.handle ≠ id := fun root => outside (congrArg TypeId.home root).symm
  refine ⟨n, path, fun i j less small => ?_, Catalog.inheritDepth_root handle other path⟩
  -- The later of the two places is on the way to the root, so there is one.
  obtain ⟨x, later⟩ : ∃ x, Walk.steps next j id = some x := by
    rw [show n = j + (n - j) by omega, Walk.steps_add] at path
    obtain ⟨x, reached, _⟩ := Option.bind_eq_some_iff.1 path
    exact ⟨x, reached⟩
  rw [later]
  exact Walk.steps_ne_of_lt (rooted.ends id) less later

/-- Two classes that derive from each other, and one that derives from a class of another
library. -/
def Sample.knots : List (SourceFile × Outline) :=
  (readFiles [⟨"knots", "class Loop : Ring\nclass Ring : Loop\nclass Tile : Shapes.Square\n"⟩]).value

/-- A cycle of classes is complained about, and going up from them still ends at the root. -/
theorem Draft.parent_chain_ends_knots :
    ((Draft.merge "Tiles" Sample.knots).value.link [Sample.shapesRely.table]).notes ≠ [] ∧
      ∃ n, Walk.steps (linkedCatalog "Tiles" Sample.knots [Sample.shapesRely.table]).nextParent n
        ⟨.here, .handle, 1⟩ = some .handle ∧
        (linkedCatalog "Tiles" Sample.knots [Sample.shapesRely.table]).inheritDepth
          TypeId.handle.scalar (TypeId.scalar ⟨.here, .handle, 1⟩) = some n := by
  have ⟨complains, isClass⟩ : ((Draft.merge "Tiles" Sample.knots).value.link
        [Sample.shapesRely.table]).notes.isEmpty = false ∧
      ((linkedCatalog "Tiles" Sample.knots [Sample.shapesRely.table]).own.classes[1]?.map
        (·.kind)) = some .handle := by
    decide +kernel
  obtain ⟨ring, atIndex, kind⟩ := Option.map_eq_some_iff.1 isClass
  refine ⟨fun none => by simp [none] at complains, ?_⟩
  have outside : Home.here ≠ .kernel := nofun
  obtain ⟨n, path, _, depth⟩ := Draft.parent_chain_ends Sample.tiles_published Sample.tiles_loads
    Sample.knots outside rfl atIndex
  rw [kind] at path depth
  exact ⟨n, path, depth⟩

end Linkage
