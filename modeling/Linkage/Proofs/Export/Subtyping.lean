/-
Purpose: Inheritance and conversions between the types that two compilations share are the same
  in both.
-/
import Linkage.Proofs.Export.RoundTrip

namespace Linkage

open List Table Renumbering

variable {t : Table} {kind : TypeKind} {index number i : Nat} {ls : List TypeRef} {x : TypeId}
  {s : Surface}

/-! ### Links of surfaces -/

/-- The types that a type of a surface names in its inheritance. -/
def Surface.links (s : Surface) (kind : TypeKind) (index : Nat) : Option (List SurfaceType) :=
  match kind with
  | .struct | .handle => s.classes[index]?.map fun c => c.parent :: c.interfaces
  | .interface => s.interfaces[index]?.map (·.inherits)
  | .invalid | .delegate | .coroutine => none

theorem Surface.links_tableAt (s : Surface) (ρ : Placement) (kind : TypeKind) (index : Nat) :
    (s.tableAt ρ).links kind index = (s.links kind index).map (List.map (·.at ρ)) := by
  cases kind <;> simp [Table.links, Surface.links, Function.comp_def, SurfaceClass.at,
    SurfaceInterface.at]

/-- The surface has the links of the exported types. -/
theorem Table.links_surfaceOf
    (exported : t.exportIndex? kind index = some number) (dependencies : List String) :
    (t.surfaceOf dependencies).links kind number =
        (t.links kind index).map (map t.surfaceType) ∧
      t.shown.links kind number = t.links kind index := by
  have ofClass
      (kept : keptIndex? (fun c => c.visibility = .public_) t.classes index = some number) :
      (t.surfaceOf dependencies).classes[number]? =
          (t.classes[index]?).map (fun c => t.surfaceClass c.shown) ∧
        t.shown.classes[number]? = t.classes[index]?.map ClassDef.shown := by
    obtain ⟨c, found, _, there⟩ := getElem?_filter_of_keptIndex? kept
    simp [surfaceOf, shown, found, there]
  cases kind with
  | struct | handle =>
    obtain ⟨surface, shown⟩ := ofClass exported
    simp [Surface.links, links, surface, shown, Function.comp_def, surfaceClass, ClassDef.shown]
  | interface =>
    obtain ⟨i, found, _, there⟩ := getElem?_filter_of_keptIndex? exported
    simp [Surface.links, links, surfaceOf, shown, found, there, surfaceInterface]
  | invalid | delegate | coroutine => exact ⟨rfl, rfl⟩

/-- Links of a table lead to types that it mentions. -/
theorem Table.Settled.links {P : TypeRef → Prop} (settled : t.Settled P)
    (found : t.links kind index = some ls) : ∀ y ∈ ls, P y := by
  have ofClass (found : (t.classes[index]?.map fun c => c.parent :: c.interfaces) = some ls) :
      ∀ y ∈ ls, P y := by
    obtain ⟨c, inside, rfl⟩ := Option.map_eq_some_iff.1 found
    have held := settled.classes c (mem_of_getElem? inside)
    exact forall_mem_cons.2 ⟨held.parent, fun i member => (held.interfaces i member).1⟩
  cases kind with
  | struct | handle => exact ofClass found
  | interface =>
    obtain ⟨i, inside, rfl⟩ := Option.map_eq_some_iff.1 found
    exact fun y member => ((settled.interfaces i (mem_of_getElem? inside)).inherits y member).1
  | invalid | delegate | coroutine => cases found

/-- The kernel links only to itself. -/
theorem Kernel.links_kernel
    (found : Kernel.table.links kind index = some ls) : ∀ y ∈ ls, y.id.home = .kernel := by
  have classes : ∀ c ∈ Kernel.table.classes, ∀ y ∈ c.parent :: c.interfaces,
      y.id.home = .kernel := by decide
  have ofClass (found : (Kernel.table.classes[index]?.map fun c => c.parent :: c.interfaces) =
      some ls) : ∀ y ∈ ls, y.id.home = .kernel := by
    obtain ⟨c, inside, rfl⟩ := Option.map_eq_some_iff.1 found
    exact classes c (mem_of_getElem? inside)
  cases kind with
  | struct | handle => exact ofClass found
  | interface | invalid | delegate | coroutine => cases found

/-! ### Shared types -/

/-- The types that a library shares with those that rely on it: the kernel's, its own that are
exported, and those of the first `count` libraries that it relied on itself. -/
def Renumbering.Shared (φ : Renumbering) (count : Nat) (x : TypeId) : Prop :=
  match x.home with
  | .kernel => True
  | .here => (φ.table.exportIndex? x.kind x.index).isSome = true
  | .rely i => i < count

/-- The links of a type correspond in two catalogs, and they lead to shared types. -/
def Renumbering.LinksAgree (φ : Renumbering) (count : Nat) (c c' : Catalog) (x : TypeId) : Prop :=
  c'.links (φ.typeId x) = (c.links x).map (map (TypeRef.rename φ.typeId)) ∧
    ∀ ls, c.links x = some ls → ∀ y ∈ ls, φ.Shared count y.id

namespace Renumbering

variable {φ : Renumbering} {count : Nat}

theorem Covers.shared {x : TypeRef} (covered : φ.Covers count x) : φ.Shared count x.id := by
  unfold Shared
  cases home : x.id.home with
  | kernel => trivial
  | here => exact covered.exported home
  | rely i => exact covered.inside i home

theorem kind_typeId (x : TypeId) : (φ.typeId x).kind = x.kind := by
  obtain ⟨home, kind, index⟩ := x
  cases home <;> rfl

theorem typeId_of_kernel (kernel : x.home = .kernel) : φ.typeId x = x := by
  obtain ⟨home, kind, index⟩ := x
  obtain rfl : home = .kernel := kernel
  rfl

/-- The renumbering tells shared types apart if it tells libraries apart. -/
theorem typeId_injective (libraries : ∀ i < count, ∀ j < count, φ.relies i = φ.relies j → i = j)
    (apart : ∀ i < count, φ.relies i ≠ φ.position) (x y : TypeId) (one : φ.Shared count x)
    (other : φ.Shared count y) (same : φ.typeId x = φ.typeId y) : x = y := by
  obtain ⟨home, kind, index⟩ := x
  obtain ⟨home', kind', index'⟩ := y
  cases home with
  | kernel =>
    cases home' with
    | kernel => exact same
    | here | rely j => cases same
  | here =>
    cases home' with
    | kernel => cases same
    | here =>
      obtain ⟨number, isNumber⟩ := Option.isSome_iff_exists.1 one
      obtain ⟨number', isNumber'⟩ := Option.isSome_iff_exists.1 other
      simp only [typeId, TypeId.mk.injEq, true_and, publicBefore_of_exportIndex? isNumber,
        publicBefore_of_exportIndex? isNumber'] at same
      obtain ⟨rfl, rfl⟩ := same
      have equal : index = index' := exportIndex?_inj isNumber isNumber'
      rw [equal]
    | rely j =>
      simp only [typeId, TypeId.mk.injEq, Home.rely.injEq] at same
      exact absurd same.1.symm (apart j other)
  | rely i =>
    cases home' with
    | kernel => cases same
    | here =>
      simp only [typeId, TypeId.mk.injEq, Home.rely.injEq] at same
      exact absurd same.1 (apart i one)
    | rely j =>
      simp only [typeId, TypeId.mk.injEq, Home.rely.injEq] at same
      obtain ⟨position, rfl, rfl⟩ := same
      rw [libraries i one j other position]

end Renumbering

namespace Job.Relied

variable {job : Job} {p : Products} {merged linked : Draft} {position : Nat} {relies : Nat → Nat}
  {g : RelyGraph} {built : List Rely}

section

variable (relied : job.Relied p position relies g) (passes : job.Passes p merged linked)
include relied passes

theorem relies_injective {j : Nat} (iInside : i < job.surfaces.length)
    (jInside : j < job.surfaces.length) (same : relies i = relies j) : i = j := by
  have atI := getElem?_eq_getElem iInside
  have atJ := getElem?_eq_getElem jInside
  have equal : job.surfaces[i] = job.surfaces[j] := by
    have one := relied.others.present atI
    rw [same, relied.others.present atJ] at one
    exact (Option.some.inj one).symm
  have node := passes.loaded.named atI
  rw [equal, passes.loaded.named atJ] at node
  cases node
  rfl

/-- The library does not stand in the place of one that it relied on. -/
theorem relies_ne_position (inside : i < job.surfaces.length) : relies i ≠ position := by
  intro same
  have atI := getElem?_eq_getElem inside
  have equal : job.surfaces[i] = p.surface := by
    have one := relied.others.present atI
    rw [same, relied.own] at one
    exact (Option.some.inj one).symm
  -- Otherwise it would be among its own dependencies.
  refine passes.loaded.not_needs_self i ⟨_, job.surfaces[i].name, atI, ?_, passes.loaded.named atI⟩
  have dependency := (relied.node?_dependency passes atI).1
  rw [← equal] at dependency
  exact mem_of_getElem? dependency

/-- A type of a library that was relied on, placed in both compilations. -/
theorem rename_at (atIndex : job.surfaces[i]? = some s) (type : SurfaceType) :
    (type.at (job.graph.placement s i)).rename (p.renumbering position relies).typeId =
        type.at (g.placement s (relies i)) ∧
      (p.renumbering position relies).Shared job.surfaces.length
        (type.at (job.graph.placement s i)).id := by
  unfold SurfaceType.at
  split
  · exact ⟨rfl, trivial⟩
  · have resolved := passes.loaded.resolved s (mem_of_getElem? atIndex)
    rcases relied.others.placement atIndex resolved type.origin with
      ⟨before, after⟩ | ⟨k, inside, before, after⟩
    · rw [before, after]
      exact ⟨rfl, trivial⟩
    · rw [before, after]
      exact ⟨rfl, inside⟩

end

/-- The links of kernel types stay in the kernel. -/
theorem links_kernel (φ : Renumbering) (count : Nat) (c c' : Catalog) (kind : TypeKind)
    (index : Nat) : φ.LinksAgree count c c' ⟨.kernel, kind, index⟩ := by
  show Kernel.table.links kind index = (Kernel.table.links kind index).map _ ∧
    ∀ ls, Kernel.table.links kind index = some ls → _
  cases found : Kernel.table.links kind index with
  | none => exact ⟨rfl, nofun⟩
  | some ls =>
    have kernel := Kernel.links_kernel found
    have same : ls.map (TypeRef.rename φ.typeId) = ls := by
      conv_rhs => rw [← map_id ls]
      apply map_congr_left
      intro y member
      rw [TypeRef.rename, typeId_of_kernel (kernel y member)]
      rfl
    refine ⟨by rw [Option.map_some, same], ?_⟩
    rintro _ ⟨⟩ y member
    rw [Renumbering.Shared, kernel y member]
    trivial

section

variable (relied : job.Relied p position relies g) (passes : job.Passes p merged linked)
    (loaded : g.Loaded built) (own : Table)
include relied passes loaded own

/-- The links of exported types are exported with them. -/
theorem links_here (isNumber : p.draft.table.exportIndex? kind index = some number) :
    (p.renumbering position relies).LinksAgree job.surfaces.length (p.draft.catalog p.tables)
      ⟨own, built.map (·.table)⟩ ⟨.here, kind, index⟩ := by
  obtain ⟨surface, exported⟩ := passes.surface_eq
  have covered : p.draft.table.shown.Settled
      ((p.renumbering position relies).Covers job.surfaces.length) :=
    (passes.settled.shown.and exported).imp fun y held =>
      passes.covers position relies held.1 held.2
  obtain ⟨written, shown⟩ := links_surfaceOf isNumber (job.surfaces.map (·.name))
  have linksCovered : ∀ ls, p.draft.table.links kind index = some ls → ∀ y ∈ ls,
      (p.renumbering position relies).Covers job.surfaces.length y := by
    intro ls found
    rw [← shown] at found
    exact covered.links found
  have placed : Catalog.links ⟨own, built.map (·.table)⟩
      ((p.renumbering position relies).typeId ⟨.here, kind, index⟩) =
      ((p.draft.table.links kind index).map (map p.draft.table.surfaceType)).map
        (map (·.at (g.placement p.surface position))) := by
    show ((built.map (·.table))[position]?).bind
      (fun t => t.links kind (p.draft.table.publicBefore kind index)) = _
    rw [loaded.table relied.own, Option.bind_some, Surface.links_tableAt,
      publicBefore_of_exportIndex? isNumber, ← written, ← surface]
  refine ⟨?_, fun ls found y member => (linksCovered ls found y member).shared⟩
  rw [placed]
  show _ = (p.draft.table.links kind index).map _
  cases found : p.draft.table.links kind index with
  | none => rfl
  | some ls =>
    exact congrArg some (at_surfaceTypes (relied.places passes) (linksCovered ls found))

/-- The links of a library that was relied on are the same wherever it stands. -/
theorem links_rely (atIndex : job.surfaces[i]? = some s) (kind : TypeKind) (index : Nat) :
    (p.renumbering position relies).LinksAgree job.surfaces.length (p.draft.catalog p.tables)
      ⟨own, built.map (·.table)⟩ ⟨.rely i, kind, index⟩ := by
  have before : (p.draft.catalog p.tables).links ⟨.rely i, kind, index⟩ =
      (s.links kind index).map (map (·.at (job.graph.placement s i))) := by
    simp [Catalog.links, Draft.catalog, Catalog.table?, passes.table atIndex, Surface.links_tableAt]
  have after : Catalog.links ⟨own, built.map (·.table)⟩
      ((p.renumbering position relies).typeId ⟨.rely i, kind, index⟩) =
      (s.links kind index).map (map (·.at (g.placement s (relies i)))) := by
    show ((built.map (·.table))[relies i]?).bind (fun t => t.links kind index) = _
    rw [loaded.table (relied.others.present atIndex), Option.bind_some, Surface.links_tableAt]
  refine ⟨?_, ?_⟩
  · rw [before, after, Option.map_map]
    congr 1
    funext ls
    rw [Function.comp_apply, map_map]
    exact map_congr_left fun type _ => (relied.rename_at passes atIndex type).1.symm
  · intro ls found y member
    rw [before] at found
    obtain ⟨types, _, rfl⟩ := Option.map_eq_some_iff.1 found
    obtain ⟨type, _, rfl⟩ := mem_map.1 member
    exact (relied.rename_at passes atIndex type).2

theorem linksAgree (shared : (p.renumbering position relies).Shared job.surfaces.length x) :
    (p.renumbering position relies).LinksAgree job.surfaces.length (p.draft.catalog p.tables)
      ⟨own, built.map (·.table)⟩ x := by
  obtain ⟨home, kind, index⟩ := x
  cases home with
  | kernel => exact links_kernel _ _ _ _ kind index
  | here =>
    obtain ⟨number, isNumber⟩ := Option.isSome_iff_exists.1 shared
    exact relied.links_here passes loaded own isNumber
  | rely i =>
    have atIndex := getElem?_eq_getElem (show i < job.surfaces.length from shared)
    exact relied.links_rely passes loaded own atIndex kind index

/-- The catalog of a compilation stands inside that of a later one. -/
theorem embedding : Catalog.Embedding (p.renumbering position relies).typeId
      ((p.renumbering position relies).Shared job.surfaces.length) (p.draft.catalog p.tables)
      ⟨own, built.map (·.table)⟩ where
  injective := typeId_injective
    (fun _ iInside _ jInside same => relied.relies_injective passes iInside jInside same)
    (fun _ inside => relied.relies_ne_position passes inside)
  kind := kind_typeId
  kernel := fun _ _ => rfl
  kernelInside := fun _ _ => trivial
  links := fun _ shared => (relied.linksAgree passes loaded own shared).1
  linksInside := fun _ shared => (relied.linksAgree passes loaded own shared).2

end

end Job.Relied

/-! ### Conversions survive separate compilation -/

/-- Between types of the kernel, exported types of a library and types of the libraries that it
relied on, inheritance and conversions are the same in the compilation of the library and in any
later one that relies on it. -/
theorem Builder.conversions_survive {b : Builder} {p : Products} (completes : b.Completes p)
    {g : RelyGraph} {position : Nat} {relies : Nat → Nat} {built : List Rely}
    (own : g.libraries[position]? = some p.surface)
    (others : ∀ i s, b.job.surfaces[i]? = some s → g.libraries[relies i]? = some s)
    (loads : g.load = .ok built) (table : Table) (base sub : TypeRef)
    (baseShared : (p.renumbering position relies).Shared b.job.surfaces.length base.id)
    (subShared : (p.renumbering position relies).Shared b.job.surfaces.length sub.id) :
    (Catalog.mk table (built.map (·.table))).inheritDepth
        ((p.renumbering position relies).type base) ((p.renumbering position relies).type sub) =
      (p.draft.catalog p.tables).inheritDepth base sub ∧
    (Catalog.mk table (built.map (·.table))).conversionCost
        ((p.renumbering position relies).type base) ((p.renumbering position relies).type sub) =
      (p.draft.catalog p.tables).conversionCost base sub := by
  obtain ⟨merged, linked, passes⟩ := Job.passes_of_completes completes
  have loaded := RelyGraph.loaded_of_load loads
  have relied : b.job.Relied p position relies g := ⟨own, loaded.named, fun {i s} => others i s⟩
  have embedding := relied.embedding passes loaded table
  exact ⟨embedding.inheritDepth baseShared subShared, embedding.conversionCost baseShared subShared⟩

namespace Sample

/-- A rely list with tiles in front of the shapes that they rely on. -/
def floor : RelyGraph := ⟨"Floor", [tilesSurface, shapesSurface]⟩

/-- The libraries of that list. -/
def floorRelies : List Rely :=
  [⟨tilesSurface.tableAt (floor.placement tilesSurface 0), [.rely 1]⟩,
   ⟨shapesSurface.tableAt (floor.placement shapesSurface 1), []⟩]

theorem load_floor : floor.load = .ok floorRelies := by
  cbv

end Sample

/-- A tile is a shape also where tiles are relied on, and at the same distance. -/
theorem Builder.conversions_survive_tiles :
    ∃ p, (Builder.mk Sample.tiles .unstarted [] none).Completes p ∧
      (Catalog.mk (.empty "Floor" .here) (Sample.floorRelies.map (·.table))).inheritDepth
          ⟨⟨.rely 1, .interface, 0⟩, 0⟩ ⟨⟨.rely 0, .handle, 0⟩, 0⟩ =
        (p.draft.catalog p.tables).inheritDepth
          ⟨⟨.rely 0, .interface, 0⟩, 0⟩ ⟨⟨.here, .handle, 0⟩, 0⟩ ∧
      (Catalog.mk (.empty "Floor" .here) (Sample.floorRelies.map (·.table))).conversionCost
          ⟨⟨.rely 1, .interface, 0⟩, 0⟩ ⟨⟨.rely 0, .handle, 0⟩, 0⟩ =
        (p.draft.catalog p.tables).conversionCost
          ⟨⟨.rely 0, .interface, 0⟩, 0⟩ ⟨⟨.here, .handle, 0⟩, 0⟩ := by
  obtain ⟨p, completes, surface, tile⟩ :
      ∃ p, (Builder.mk Sample.tiles .unstarted [] none).Completes p ∧
        p.surface = Sample.tilesSurface ∧ (p.draft.table.exportIndex? .handle 0).isSome = true :=
    Sample.completes_of_compile (by decide +kernel)
  have own : Sample.floor.libraries[0]? = some p.surface := by rw [surface]; rfl
  have others : ∀ (i : Nat) (s : Surface), Sample.tiles.surfaces[i]? = some s →
      Sample.floor.libraries[1]? = some s := by
    intro i s found
    rw [Sample.tiles_surfaces found]
    rfl
  exact ⟨p, completes, Builder.conversions_survive completes own others Sample.load_floor
    (.empty "Floor" .here) ⟨⟨.rely 0, .interface, 0⟩, 0⟩ ⟨⟨.here, .handle, 0⟩, 0⟩
    Nat.zero_lt_one tile⟩

end Linkage
