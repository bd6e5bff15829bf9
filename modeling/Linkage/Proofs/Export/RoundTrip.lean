/-
Purpose: A library that was compiled comes back, where others rely on it, as what it shows of
  itself.
-/
import Linkage.Proofs.Compile.Stages
import Linkage.Proofs.Export.Renumbering

namespace Linkage

open List

variable {x : TypeRef} {i : Nat} {s : Surface}

/-! ### Types and spaces of what was written down -/

namespace Table

variable {t : Table} {dependencies : List String}

theorem types_surfaceOf : (t.surfaceOf dependencies).types = t.shown.types.map t.surfaceType := by
  simp [Surface.types, surfaceOf, types, map_flatMap, flatMap_map, SurfaceClass.types,
    surfaceClass, ClassDef.types, surfaceMember, SurfaceInterface.types, surfaceInterface,
    InterfaceDef.types, SurfaceDelegate.types, surfaceDelegate, DelegateDef.types,
    surfaceCoroutine, surfaceVariable, SurfaceMethod.types, surfaceMethod, Method.types,
    SurfaceFunction.types, surfaceFunction, Function.types, Function.paramTypes, surfaceParameter,
    Function.comp_def]

/-- What holds of the types that are shown holds of the surface, if writing them down keeps
it. -/
theorem all_surfaceOf {P : TypeRef → Prop} {Q : SurfaceType → Prop}
    (keeps : ∀ x, P x → Q (t.surfaceType x)) (shown : t.shown.Settled P) :
    (t.surfaceOf dependencies).All Q := by
  rw [Surface.All, types_surfaceOf]
  exact forall_mem_map.2 fun x member => keeps x ((settled_iff_types.1 shown).2 x member)

theorem length_spaces_surfaceOf (tree : t.TreeShaped) :
    (t.surfaceOf dependencies).spaces.length = t.spaces.length := by
  have keys := congrArg length (spaceKeys_surfaceOf tree dependencies)
  simpa [Surface.spaceKeys, Surface.below, spaceKeys, surfaceOf] using keys

/-- The entries of the surface stand in its spaces. -/
theorem spaced_surfaceOf (made : t.WellMade) : (t.surfaceOf dependencies).Spaced := by
  have stands {e : Entity} {space : Nat} {name : String}
      (entry : t.entryAt e = some (space, name)) :
      (t.surfaceOf dependencies).HasSpace space :=
    .inr (length_spaces_surfaceOf made.tree ▸ made.space_lt entry)
  have methods {keep : Function → Bool} {ms : List Method} (entity : Nat → Entity)
      (entries : ∀ i, t.entryAt (entity i) = ms[i]?.map fun m => (m.space, m.name)) :
      ∀ m ∈ restrictMethods keep ms, (t.surfaceOf dependencies).HasSpace m.space := by
    intro m member
    obtain ⟨old, written, rfl⟩ := mem_map.1 (mem_filter.1 member).1
    obtain ⟨i, found⟩ := mem_iff_getElem?.1 written
    exact stands (by rw [entries, found]; rfl)
  refine ⟨parents_surfaceOf made.tree dependencies, ?_, ?_, ?_, ?_, ?_, ?_, ?_⟩ <;>
    refine forall_mem_map.2 fun x member => ?_
  · obtain ⟨old, kept, rfl⟩ := mem_map.1 member
    obtain ⟨i, found⟩ := mem_iff_getElem?.1 (mem_filter.1 kept).1
    exact stands (by rw [entryAt, found]; rfl)
  · obtain ⟨i, found⟩ := mem_iff_getElem?.1 (mem_filter.1 member).1
    exact stands (e := .interface i) (by rw [entryAt, found]; rfl)
  · obtain ⟨i, found⟩ := mem_iff_getElem?.1 (mem_filter.1 member).1
    exact stands (e := .delegate i) (by rw [entryAt, found]; rfl)
  · obtain ⟨i, found⟩ := mem_iff_getElem?.1 (mem_filter.1 member).1
    exact stands (e := .coroutine i) (by rw [entryAt, found]; rfl)
  · obtain ⟨i, found⟩ := mem_iff_getElem?.1 (mem_filter.1 member).1
    exact stands (e := .globalVariable i) (by rw [entryAt, found]; rfl)
  · exact methods .globalMethod (fun _ => rfl) x member
  · exact methods .nativeMethod (fun _ => rfl) x member

/-- The number of an exported type counts exported types of its kind. -/
theorem exportIndex?_lt (made : t.WellMade) {kind : TypeKind} {index number : Nat}
    (has : t.HasType kind index) (exported : t.exportIndex? kind index = some number) :
    number < (t.surfaceOf dependencies).typeCount kind := by
  cases kind with
  | invalid => cases exported
  | struct =>
    -- Source text declares no value types.
    obtain ⟨c, found, _⟩ := getElem?_filter_of_keptIndex? exported
    have other := has.fits rfl c found
    rw [(made.classes found).kind] at other
    cases other
  | _ =>
    obtain ⟨_, _, _, there⟩ := getElem?_filter_of_keptIndex? exported
    simpa [surfaceOf, shown, Surface.typeCount] using (lt_of_getElem? there)

end Table

/-! ### Relying on a library that was compiled -/

/-- The renumbering of a library that stands at a position of a rely list, beside the libraries
that it relied on. -/
def Products.renumbering (p : Products) (position : Nat) (relies : Nat → Nat) : Renumbering :=
  ⟨p.draft.table, position, relies⟩

/-- A rely list holds the result of a job at a position, and what the job relied on at the
positions that `relies` says. -/
structure Job.Relied (job : Job) (p : Products) (position : Nat) (relies : Nat → Nat)
    (g : RelyGraph) : Prop where
  own : g.libraries[position]? = some p.surface
  others : RelyGraph.Embeds relies job.graph g

theorem Job.Passes.covers {job : Job} {p : Products} {merged linked : Draft}
    (passes : job.Passes p merged linked) (position : Nat) (relies : Nat → Nat)
    (fits : (p.draft.catalog p.tables).Fits x) (exported : p.draft.table.Exports x) :
    (p.renumbering position relies).Covers job.surfaces.length x := by
  refine ⟨fits.proper, fun i home => ?_, exported⟩
  rcases fits with rfl | ⟨t, atHome, _⟩
  · cases home
  · rw [home] at atHome
    exact passes.length_tables ▸ (lt_of_getElem? atHome)

namespace Job.Relied

variable {job : Job} {p : Products} {merged linked : Draft} {position : Nat} {relies : Nat → Nat}
  {g : RelyGraph}

section

variable (relied : job.Relied p position relies g) (passes : job.Passes p merged linked)
include relied passes

theorem node?_dependency (atIndex : job.surfaces[i]? = some s) :
    p.surface.dependencies[i]? = some s.name ∧ g.node? s.name = some (.rely (relies i)) := by
  refine ⟨?_, relied.others.node? (passes.loaded.named atIndex)⟩
  rw [passes.surface_eq.1]
  simp [Table.surfaceOf, atIndex]

theorem places : (p.renumbering position relies).Places job.surfaces.length
      (g.placement p.surface position) := by
  refine ⟨rfl, rfl, fun i inside => ?_⟩
  obtain ⟨dependency, node⟩ := relied.node?_dependency passes (getElem?_eq_getElem inside)
  simp [RelyGraph.placement, dependency, RelyGraph.homeOf, node, Products.renumbering]

/-- All types that the surface mentions are there. -/
theorem has (fits : (p.draft.catalog p.tables).Fits x)
    (exported : p.draft.table.Exports x) : g.Has p.surface (p.draft.table.surfaceType x) := by
  rcases fits with rfl | ⟨t, atHome, has⟩
  · exact .inl rfl
  · obtain ⟨⟨home, kind, index⟩, dimension⟩ := x
    right
    cases home with
    | kernel =>
      cases atHome
      have counted := has.counted
      cases kind <;> exact counted
    | here =>
      cases atHome
      obtain ⟨number, isNumber⟩ := Option.isSome_iff_exists.1 (exported rfl)
      rw [Table.surfaceType_here isNumber, passes.surface_eq.1]
      exact Table.exportIndex?_lt passes.wellMade has isNumber
    | rely i =>
      obtain ⟨s, atIndex, rfl, _⟩ := passes.surface_of_table atHome
      obtain ⟨dependency, node⟩ := relied.node?_dependency passes atIndex
      have counted := has.counted
      rw [Surface.typeCount_tableAt] at counted
      simpa [Table.surfaceType, RelyGraph.available, dependency, RelyGraph.countOf, node,
        relied.others.present atIndex] using counted

/-- The surface is instantiated at its position, as the image of the library. -/
theorem mirrors : ∃ r, g.settled[position]? = some (.built r) ∧
      r.table = p.surface.tableAt (g.placement p.surface position) ∧
      (p.renumbering position relies).Mirrors r.table := by
  have ready : g.Ready g.settled p.surface := by
    intro name member
    obtain ⟨i, found⟩ := mem_iff_getElem?.1 member
    rw [passes.surface_eq.1, Table.surfaceOf, getElem?_map] at found
    obtain ⟨s, atIndex, rfl⟩ := Option.map_eq_some_iff.1 found
    exact ⟨relies i, (relied.node?_dependency passes atIndex).2,
      relied.others.placed passes.loaded atIndex⟩
  obtain ⟨surface, exported⟩ := passes.surface_eq
  have types := passes.settled.shown.and exported
  have all : p.surface.All (g.Has p.surface) := by
    have keeps := fun x (held : (p.draft.catalog p.tables).Fits x ∧ p.draft.table.Exports x) =>
      relied.has passes held.1 held.2
    rw [surface] at keeps ⊢
    exact Table.all_surfaceOf keeps types
  have spaced : p.surface.Spaced := surface ▸ Table.spaced_surfaceOf passes.wellMade
  obtain ⟨s, r, atPosition, built, table⟩ := RelyGraph.placed_of_ready relied.own ready all spaced
  rw [relied.own] at atPosition
  cases atPosition
  refine ⟨r, built, table, ?_⟩
  have covered : p.draft.table.shown.Settled
      ((p.renumbering position relies).Covers job.surfaces.length) :=
    types.imp fun x held => passes.covers position relies held.1 held.2
  have places := relied.places passes
  rw [surface] at places
  rw [table, surface]
  exact Renumbering.mirrors_tableAt passes.wellMade covered _ places

end

end Job.Relied

/-! ### Tiles, which rely on shapes -/

namespace Sample

/-- A class that derives from one of another library. -/
def tiles : Job where
  name := "Tiles"
  files := [⟨"tiles", "public class Tile : Shapes.Square, Shapes.Shape\n    public real Area()\n"⟩]
  surfaces := [shapesSurface]

/-- The library of shapes where tiles rely on it. -/
def shapesRely : Rely := ⟨shapesSurface.tableAt (tiles.graph.placement shapesSurface 0), []⟩

def tilesMerged : Draft := (Draft.merge tiles.name (readFiles tiles.files).value).value

/-- What the library of tiles shows. -/
def tilesSurface : Surface :=
  { Surface.empty "Tiles" with
    dependencies := ["Shapes"]
    classes := [⟨"Tile", 0, ⟨.dependency 0, .handle, 0, 0⟩, [⟨.dependency 0, .interface, 0, 0⟩], [],
      [area], []⟩] }

theorem tiles_surfaces (found : tiles.surfaces[i]? = some s) : s = shapesSurface :=
  mem_singleton.1 (mem_of_getElem? found)

theorem tiles_loads : tiles.graph.load = .ok [shapesRely] := by cbv

end Sample

/-! ### The round trip -/

/-- Separate compilation is a round trip.  A library whose compilation ended well names the
libraries that it relied on.  Wherever it stands in a rely list beside those, all under different
names, it is built, as the image of what it shows of itself. -/
theorem Builder.instantiate_mirrors {b : Builder} {p : Products} (completes : b.Completes p)
    {g : RelyGraph} {position : Nat} {relies : Nat → Nat}
    (own : g.libraries[position]? = some p.surface)
    (others : ∀ i s, b.job.surfaces[i]? = some s → g.libraries[relies i]? = some s)
    (distinct : (g.current :: g.libraries.map (·.name)).Nodup) :
    p.surface.dependencies = b.job.surfaces.map (·.name) ∧
    ∃ r, (g.settle (g.libraries.map fun _ => .pending)).value[position]? = some (.built r) ∧
      (p.renumbering position relies).Mirrors r.table ∧
      ∀ built, g.instantiate = .ok built → built[position]? = some r := by
  obtain ⟨merged, linked, passes⟩ := Job.passes_of_completes completes
  have relied : b.job.Relied p position relies g :=
    ⟨own, RelyGraph.named_of_nodup distinct, fun {i s} => others i s⟩
  refine ⟨by rw [passes.surface_eq.1]; rfl, ?_⟩
  obtain ⟨r, found, _, mirrors⟩ := relied.mirrors passes
  refine ⟨r, found, mirrors, fun built builds => ?_⟩
  rw [RelyGraph.settled_of_instantiate builds, getElem?_map] at found
  obtain ⟨r', there, same⟩ := Option.map_eq_some_iff.1 found
  cases same
  exact there

/-- Tiles come back where they are relied on in front of shapes. -/
theorem Builder.instantiate_mirrors_tiles :
    ∃ p, (Builder.mk Sample.tiles .unstarted [] none).Completes p ∧
      ∃ r, ((RelyGraph.mk "Floor" [Sample.tilesSurface, Sample.shapesSurface]).settle
        [.pending, .pending]).value[0]? = some (.built r) ∧
        (p.renumbering 0 fun _ => 1).Mirrors r.table := by
  obtain ⟨p, completes, surface⟩ : ∃ p, (Builder.mk Sample.tiles .unstarted [] none).Completes p ∧
      p.surface = Sample.tilesSurface := Sample.completes_of_compile (by decide +kernel)
  have own : (RelyGraph.mk "Floor" [Sample.tilesSurface, Sample.shapesSurface]).libraries[0]? =
      some p.surface := by rw [surface]; rfl
  have others : ∀ (i : Nat) (s : Surface), Sample.tiles.surfaces[i]? = some s →
      (RelyGraph.mk "Floor" [Sample.tilesSurface, Sample.shapesSurface]).libraries[1]? =
        some s := by
    intro i s found
    rw [Sample.tiles_surfaces found]
    rfl
  obtain ⟨_, r, built, mirrors, _⟩ := Builder.instantiate_mirrors completes own others (by decide)
  exact ⟨p, completes, r, built, mirrors⟩

end Linkage
