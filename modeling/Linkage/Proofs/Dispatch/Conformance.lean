/-
Purpose: What a class owes to an interface that it has from a class above is there and returns
  what it should, and is private only where a class on the way down says so.
-/
import Linkage.Proofs.Catalog.Depth
import Linkage.Proofs.Dispatch.Overrides

namespace Linkage

open List Catalog

variable {x i owner base id : TypeId} {n m o : Nat} {name : String} {f required : Function}
  {own : Table}

namespace Catalog

/-- A function that an interface asks for under a name. -/
def Requires (c : Catalog) (i : TypeId) (name : String) (required : Function) : Prop :=
  ∃ d method, c.interfaceDef? i = some d ∧ method ∈ d.methods ∧ method.name = name ∧
    required ∈ method.functions

/-- The first type on the way up from a class that implements an interface itself or belongs to
another library.  It is `n` steps above the class. -/
structure Entrance (c : Catalog) (owner i : TypeId) (n : Nat) (base : TypeId) : Prop where
  path : Walk.steps c.nextParent n owner = some base
  enters : i ∈ c.interfaceClosure base ∨ base.home ≠ .here
  below : ∀ k < n, ∀ x, Walk.steps c.nextParent k owner = some x →
    x.home = .here ∧ i ∉ c.interfaceClosure x

variable {c : Catalog}

theorem classDef?_of_implements (noInterface : x.kind ≠ .interface)
    (implements : i ∈ c.interfaceClosure x) : ∃ d, c.classDef? x = some d := by
  cases isClass : c.classDef? x with
  | some d => exact ⟨d, rfl⟩
  | none =>
    have nothing : c.ownInterfaces x = [] := by simp [ownInterfaces, noInterface, isClass]
    rw [interfaceClosure, interfaceLevels, nothing, map_nil, Walk.levels] at implements
    cases implements

/-- An interface that can be reached going up a chain is implemented by a type of it. -/
theorem exists_implements_of_chainDepth (isInterface : i.kind = .interface)
    {chain : List TypeId} (classes : ∀ x ∈ chain, x.kind ≠ .interface)
    (reached : (c.chainDepth i chain).isSome = true) : ∃ x ∈ chain, i ∈ c.interfaceClosure x := by
  induction chain with
  | nil => cases reached
  | cons x above ih =>
    have other : x ≠ i := by
      rintro rfl
      exact classes x (mem_cons_self ..) isInterface
    rw [chainDepth, if_neg other] at reached
    dsimp only at reached
    split at reached
    · rename_i implemented
      simp at implemented
      obtain ⟨_, depth, found, _⟩ := implemented
      obtain ⟨before, after, levels, _⟩ := lookup_eq_some_iff.1 found
      refine ⟨x, mem_cons_self .., ?_⟩
      rw [interfaceClosure, levels]
      simp
    · rw [Option.isSome_map] at reached
      obtain ⟨y, member, implements⟩ :=
        ih (fun y member => classes y (mem_cons_of_mem _ member)) reached
      exact ⟨y, mem_cons_of_mem _ member, implements⟩

/-- Above a type that is met going up, the first match is that of the type. -/
theorem FirstMatch.eq_of_above (path : Walk.steps c.nextParent n owner = some base)
    {types : List TypeRef} {id' : TypeId} {m' o' : Nat} {g : Function}
    (above : c.FirstMatch base name types id m o f)
    (first : c.FirstMatch owner name types id' m' o' g)
    (notBelow : ∀ k < n, Walk.steps c.nextParent k owner ≠ some id') :
    id' = id ∧ m' = m ∧ o' = o ∧ g = f := by
  obtain ⟨j, reaches, noneBefore⟩ := above.first
  obtain ⟨k, reaches', noneBefore'⟩ := first.first
  have shifted (l : Nat) :
      Walk.steps c.nextParent (n + l) owner = Walk.steps c.nextParent l base := by
    rw [Walk.steps_add, path]
    rfl
  have late : n ≤ k := by
    by_contra early
    exact notBelow k (by omega) reaches'
  obtain ⟨l, rfl⟩ := Nat.exists_eq_add_of_le late
  have same : l = j := by
    rcases lt_trichotomy l j with less | equal | more
    · exact absurd first.params (noneBefore l less id' (shifted l ▸ reaches') _ _ _ first.member)
    · exact equal
    · exact absurd above.params
        (noneBefore' (n + j) (by omega) id ((shifted j).trans reaches) _ _ _ above.member)
  subst same
  rw [shifted, reaches] at reaches'
  cases reaches'
  exact ⟨rfl, above.unique _ _ _ first.member first.params⟩

namespace Regular

variable (regular : c.Regular)
include regular

/-- An interface above a class comes in somewhere. -/
theorem exists_entrance (handle : owner.kind = .handle) (isInterface : i.kind = .interface)
    (subtype : c.isSubtype i owner = true) : ∃ n base, c.Entrance owner i n base := by
  have valid : owner.isValid = true := by simp [TypeId.isValid, handle]
  have different : i ≠ owner := by
    rintro rfl
    rw [isInterface] at handle
    cases handle
  rw [isSubtype, inheritDepth_of_class (by simp [TypeId.isValid, isInterface]) different handle]
    at subtype
  have classes : ∀ x ∈ c.typeChain owner, x.kind ≠ .interface := by
    intro x member
    obtain ⟨n, atN⟩ := mem_iff_getElem?.1 member
    rw [regular.getElem?_typeChain valid] at atN
    rw [regular.kind_of_steps handle atN]
    decide
  obtain ⟨x, member, implements⟩ := exists_implements_of_chainDepth isInterface classes subtype
  obtain ⟨n, atN⟩ := mem_iff_getElem?.1 member
  rw [regular.getElem?_typeChain valid] at atN
  -- The nearest type of the two kinds is the entrance.
  have some_enters : ∃ n base, Walk.steps c.nextParent n owner = some base ∧
      (i ∈ c.interfaceClosure base ∨ base.home ≠ .here) := ⟨n, x, atN, .inl implements⟩
  obtain ⟨base, path, enters⟩ := Nat.find_spec some_enters
  refine ⟨_, base, path, enters, fun k below y stepped => ?_⟩
  have neither := Nat.find_min some_enters below
  constructor
  · by_contra elsewhere
    exact neither ⟨y, stepped, .inr elsewhere⟩
  · intro early
    exact neither ⟨y, stepped, .inl early⟩

/-- Where a class above has a function that matches, an implementation is found. -/
theorem exists_findImplementation (handle : owner.kind = .handle)
    (path : Walk.steps c.nextParent n owner = some id) (member : c.MemberFunction id name m o f)
    (params : f.paramTypes = required.paramTypes) :
    ∃ declaration g, c.findImplementation owner name required = some (declaration, g) := by
  have valid : owner.isValid = true := by simp [TypeId.isValid, handle]
  have noInterface : id.kind ≠ .interface := by
    rw [regular.kind_of_steps handle path]
    decide
  have offered := (regular.implementationIn_eq_some noInterface).2 ⟨m, o, member, params, rfl⟩
  have found : ((c.typeChain owner).findSome? (c.implementationIn name required)).isSome := by
    rw [findSome?_isSome_iff]
    refine ⟨id, mem_iff_getElem?.2 ⟨n, ?_⟩, by rw [offered]; rfl⟩
    rw [regular.getElem?_typeChain valid, path]
  obtain ⟨⟨declaration, g⟩, isFound⟩ := Option.isSome_iff_exists.1 found
  exact ⟨declaration, g, isFound⟩

end Regular

end Catalog

/-! ### Functions of other libraries -/

/-- The functions of the classes that a published library shows are not private. -/
theorem Surface.Published.visible {s : Surface} (published : s.Published) {c : SurfaceClass}
    (isClass : c ∈ s.classes) {m : SurfaceMethod} (isMethod : m ∈ c.methods) {f : SurfaceFunction}
    (isFunction : f ∈ m.functions) : f.visibility ≠ .private_ := by
  obtain ⟨b, p, completes, rfl⟩ := published
  obtain ⟨_, _, passes⟩ := Job.passes_of_completes completes
  rw [passes.surface_eq.1] at isClass
  obtain ⟨shown, isShown, rfl⟩ := mem_map.1 isClass
  obtain ⟨c, _, rfl⟩ := mem_map.1 isShown
  obtain ⟨kept, isKept, rfl⟩ := mem_map.1 isMethod
  obtain ⟨method, _, rfl⟩ := mem_map.1 (mem_filter.1 isKept).1
  obtain ⟨g, isKept', rfl⟩ := mem_map.1 isFunction
  have exported := (mem_filter.1 isKept').2
  intro hidden
  change g.visibility = .private_ at hidden
  simp [hidden, Visibility.isShown] at exported

section

variable {g : RelyGraph} {built : List Rely} (loaded : g.Loaded built) {x y : TypeId}
    (elsewhere : x.home ≠ .here)
include loaded elsewhere

/-- Going up from a type of another library does not lead back into the library. -/
theorem RelyGraph.Loaded.elsewhere_of_nextParent
    (next : (Catalog.mk own (built.map (·.table))).nextParent x = some y) : y.home ≠ .here := by
  obtain ⟨valid, ⟨d, isClass, rfl⟩ | ⟨_, rfl | rfl | rfl⟩⟩ := nextParent_cases next
  · obtain ⟨_, t, atHome, inside⟩ := classDef?_eq_some.1 isClass
    cases home : x.home with
    | here => exact absurd home elsewhere
    | kernel =>
      rw [home] at atHome
      cases atHome
      obtain ⟨i, _, rfl⟩ := mem_mapIdx.1 (mem_of_getElem? inside)
      unfold Kernel.classDef
      split <;> nofun
    | rely i =>
      rw [home] at atHome
      obtain ⟨s, _, rfl, _⟩ := loaded.surface_of_table atHome
      obtain ⟨c, _, rfl⟩ := Surface.class_tableAt_iff.1 inside
      show (c.parent.at (g.placement s i)).id.home ≠ .here
      unfold SurfaceType.at
      split
      · nofun
      · exact g.placement_ne_here s i c.parent.origin
  all_goals nofun

theorem RelyGraph.Loaded.elsewhere_of_steps
    (path : Walk.steps (Catalog.mk own (built.map (·.table))).nextParent n x = some y) :
    y.home ≠ .here :=
  Walk.steps_keep (P := fun x => x.home ≠ .here)
    (fun _ _ elsewhere next => loaded.elsewhere_of_nextParent elsewhere next) elsewhere path

end

namespace Job.Passes

variable {job : Job} {p : Products} {merged linked : Draft} (passes : job.Passes p merged linked)
include passes

/-- Functions of classes of other libraries are not private, if the libraries are published. -/
theorem visible_of_elsewhere (published : ∀ s ∈ job.surfaces, s.Published)
    (elsewhere : id.home ≠ .here)
    (member : (p.draft.catalog p.tables).MemberFunction id name m o f) :
    f.visibility ≠ .private_ := by
  obtain ⟨d, method, isClass, isMethod, _, isFunction⟩ := member
  obtain ⟨_, t, atHome, inside⟩ := classDef?_eq_some.1 isClass
  cases home : id.home with
  | here => exact absurd home elsewhere
  | kernel =>
    rw [home] at atHome
    cases atHome
    obtain ⟨i, _, rfl⟩ := mem_mapIdx.1 (mem_of_getElem? inside)
    obtain ⟨entry, _, rfl⟩ := mem_map.1 (mem_of_getElem? isMethod)
    have isOnly : f = Kernel.function [] entry.2 :=
      mem_singleton.1 (mem_of_getElem? isFunction)
    rw [isOnly]
    nofun
  | rely i =>
    rw [home] at atHome
    obtain ⟨s, atIndex, rfl, _⟩ := passes.surface_of_table atHome
    obtain ⟨c, isShown, rfl⟩ := Surface.class_tableAt_iff.1 inside
    obtain ⟨shown, isShownMethod, rfl⟩ := mem_map.1 (mem_of_getElem? isMethod)
    obtain ⟨g, isShownFunction, rfl⟩ := mem_map.1 (mem_of_getElem? isFunction)
    exact (published s (mem_of_getElem? atIndex)).visible (mem_of_getElem? isShown)
      isShownMethod isShownFunction

/-- A class of the library between a class and a type above it, which has a function that is not
private, has no function of the same name and parameter types with other returns. -/
theorem returns_of_below (regular : (p.draft.catalog p.tables).Regular) (here : x.home = .here)
    (handle : x.kind = .handle)
    (above : Walk.steps (p.draft.catalog p.tables).nextParent (n + 1) x = some id) {k l : Nat}
    {g : Function} (member : (p.draft.catalog p.tables).MemberFunction x name m o f)
    (inherited : (p.draft.catalog p.tables).MemberFunction id name k l g)
    (params : g.paramTypes = f.paramTypes) (visible : g.visibility ≠ .private_) :
    g.returns = f.returns := by
  obtain ⟨home, kind, index⟩ := x
  subst here handle
  have ⟨definition, _, isClass, _⟩ := member
  obtain ⟨_, t, atHome, inside⟩ := classDef?_eq_some.1 isClass
  cases atHome
  have kind := (passes.wellMade.classes inside).kind
  have overrides : (p.draft.catalog p.tables).Overrides ⟨.here, definition.kind, index⟩ m o f id k l
      g := by
    rw [kind]
    exact ⟨⟨name, member, inherited⟩, ⟨n, above⟩, params, visible⟩
  exact passes.returns_of_overrides regular inside overrides

/-- What the first type that implements an interface has for it, or a type of another library if
it has something with the required returns, returns what it should and is not private. -/
theorem firstMatch_of_entrance (regular : (p.draft.catalog p.tables).Regular)
    (published : ∀ s ∈ job.surfaces, s.Published) (handle : owner.kind = .handle)
    (entrance : (p.draft.catalog p.tables).Entrance owner i n base)
    (requires : (p.draft.catalog p.tables).Requires i name required)
    (elsewhere : base.home ≠ .here → ∃ declaration f,
      (p.draft.catalog p.tables).findImplementation base name required = some (declaration, f) ∧
        f.returns = required.returns) :
    ∃ id m o f, (p.draft.catalog p.tables).FirstMatch base name required.paramTypes id m o f ∧
      f.returns = required.returns ∧ f.visibility ≠ .private_ := by
  have baseHandle := regular.kind_of_steps handle entrance.path
  by_cases here : base.home = .here
  · -- The class was checked for the interfaces that it implements itself.
    have implements := entrance.enters.resolve_right (not_not_intro here)
    obtain ⟨d, method, isInterface, isMethod, rfl, isFunction⟩ := requires
    obtain ⟨home, kind, index⟩ := base
    subst here baseHandle
    have noInterface : TypeKind.handle ≠ .interface := nofun
    obtain ⟨definition, isClass⟩ := classDef?_of_implements noInterface implements
    obtain ⟨_, t, atHome, inside⟩ := classDef?_eq_some.1 isClass
    cases atHome
    have kind := (passes.wellMade.classes inside).kind
    obtain ⟨declaration, f, found, returns, visible⟩ :=
      passes.implementation inside (kind ▸ implements) isInterface isMethod isFunction
    rw [kind] at found
    obtain ⟨id, m, o, first, _⟩ := regular.firstMatch_of_findImplementation rfl found
    exact ⟨id, m, o, f, first, returns, visible⟩
  · obtain ⟨declaration, f, found, returns⟩ := elsewhere here
    obtain ⟨id, m, o, first, _⟩ := regular.firstMatch_of_findImplementation baseHandle found
    obtain ⟨k, path, _⟩ := first.first
    have outside := passes.loaded.elsewhere_of_steps here path
    exact ⟨id, m, o, f, first, returns, passes.visible_of_elsewhere published outside first.member⟩

end Job.Passes

/-! ### Conformance -/

/-- Conformance to an interface is inherited.  In a compilation that ended well and relied on
published libraries only, let an interface be above a class, and look for the first type on the way
up from the class that implements the interface itself or belongs to another library.  If it
belongs to another library, let an implementation with the required returns be found from there.
Then the class has an implementation of what the interface requires, with exactly the required
returns, and it is not private unless a class of the library strictly below that type declares it
so. -/
theorem Builder.conformance_inherited {b : Builder} {p : Products} (completes : b.Completes p)
    (published : ∀ s ∈ b.job.surfaces, s.Published) {index : Nat} {definition : ClassDef}
    (isClass : p.draft.table.classes[index]? = some definition) {i : TypeId}
    (subtype : (p.draft.catalog p.tables).isSubtype i ⟨.here, definition.kind, index⟩ = true)
    {name : String} {required : Function}
    (requires : (p.draft.catalog p.tables).Requires i name required) :
    ∃ n base, (p.draft.catalog p.tables).Entrance ⟨.here, definition.kind, index⟩ i n base ∧
      ((base.home ≠ .here → ∃ declaration f,
          (p.draft.catalog p.tables).findImplementation base name required = some (declaration, f) ∧
          f.returns = required.returns) →
        ∃ id m o f, (p.draft.catalog p.tables).findImplementation ⟨.here, definition.kind, index⟩
            name required = some (id.function m o f, f) ∧
          f.returns = required.returns ∧
          (f.visibility = .private_ → ∃ k < n, Walk.steps (p.draft.catalog p.tables).nextParent k
            ⟨.here, definition.kind, index⟩ = some id)) := by
  obtain ⟨merged, linked, passes⟩ := Job.passes_of_completes completes
  have regular := passes.regular_catalog published
  have handle := (passes.wellMade.classes isClass).kind
  have ⟨_, _, isInterface, _⟩ := requires
  have kind := (interfaceDef?_eq_some.1 isInterface).1
  obtain ⟨n, base, entrance⟩ := regular.exists_entrance handle kind subtype
  refine ⟨n, base, entrance, fun elsewhere => ?_⟩
  obtain ⟨id, m, o, f, above, returns, visible⟩ := passes.firstMatch_of_entrance regular published
    handle entrance requires elsewhere
  obtain ⟨j, reaches, _⟩ := above.first
  have path : Walk.steps (p.draft.catalog p.tables).nextParent (n + j)
      ⟨.here, definition.kind, index⟩ = some id := by
    rw [Walk.steps_add, entrance.path]
    exact reaches
  obtain ⟨declaration, g, found⟩ :=
    regular.exists_findImplementation handle path above.member above.params
  obtain ⟨id', m', o', first, rfl⟩ := regular.firstMatch_of_findImplementation handle found
  refine ⟨id', m', o', g, found, ?_⟩
  by_cases below : ∃ k < n, Walk.steps (p.draft.catalog p.tables).nextParent k
      ⟨.here, definition.kind, index⟩ = some id'
  · -- A class on the way up declares it, so it overrides what is found from the entrance.
    obtain ⟨k, early, stepped⟩ := below
    have onward : Walk.steps (p.draft.catalog p.tables).nextParent (n + j - k - 1 + 1) id' =
        some id := by
      rw [show n + j = k + (n + j - k - 1 + 1) by omega, Walk.steps_add, stepped] at path
      exact path
    have same := passes.returns_of_below regular (entrance.below k early id' stepped).1
      (regular.kind_of_steps handle stepped) onward first.member above.member
      (above.params.trans first.params.symm) visible
    exact ⟨same.symm.trans returns, fun _ => ⟨k, early, stepped⟩⟩
  · have notBelow : ∀ k < n, Walk.steps (p.draft.catalog p.tables).nextParent k
        ⟨.here, definition.kind, index⟩ ≠ some id' :=
      fun k early stepped => below ⟨k, early, stepped⟩
    obtain ⟨_, _, _, rfl⟩ := Catalog.FirstMatch.eq_of_above entrance.path above first notBelow
    exact ⟨returns, fun hidden => absurd hidden visible⟩

/-! ### Where conformance is lost -/

namespace Sample

/-- A class that hides the area that it has from a class of another library. -/
def masks : Job where
  name := "Masks"
  files := [⟨"masks", "class Tile : Shapes.Square\n    private real Area()\n"⟩]
  surfaces := [shapesSurface]

/-- An interface, and a class whose implementation other libraries do not see. -/
def veils : Job where
  name := "Veils"
  files := [⟨"veils", "public interface Shape\n    real Area()\npublic class Square : Shape\n" ++
    "    internal real Area()\n"⟩]
  surfaces := []

/-- The library shows the interface and the class, and not how the class implements it. -/
def veilsSurface : Surface :=
  { Surface.empty "Veils" with
    classes := [⟨"Square", 0, ⟨.kernel, .handle, 10, 0⟩, [⟨.own, .interface, 0, 0⟩], [], [], []⟩]
    interfaces := [⟨"Shape", 0, [], [area]⟩] }

/-- A class that derives from the one whose implementation is not seen. -/
def panes : Job where
  name := "Panes"
  files := [⟨"panes", "class Pane : Veils.Square\n"⟩]
  surfaces := [veilsSurface]

/-- What the interface of shapes requires. -/
def requiredArea : Function := ⟨.public_, [], [TypeId.real.scalar], none⟩

theorem requires_area {c : Catalog} (declared : ∃ i ∈ c.interfaceDef? ⟨.rely 0, .interface, 0⟩,
    ∃ m ∈ i.methods, m.name = "Area" ∧ requiredArea ∈ m.functions) :
    c.Requires ⟨.rely 0, .interface, 0⟩ "Area" requiredArea := by
  obtain ⟨i, isInterface, m, isMethod, named, required⟩ := declared
  exact ⟨i, m, isInterface, isMethod, named, required⟩

theorem masks_completes : ∃ p, (Builder.mk masks .unstarted [] none).Completes p ∧
    (∃ i ∈ (p.draft.catalog p.tables).interfaceDef? ⟨.rely 0, .interface, 0⟩,
      ∃ m ∈ i.methods, m.name = "Area" ∧ requiredArea ∈ m.functions) ∧
    (p.draft.catalog p.tables).isSubtype ⟨.rely 0, .interface, 0⟩ ⟨.here, .handle, 0⟩ = true ∧
    ((p.draft.catalog p.tables).findImplementation ⟨.here, .handle, 0⟩ "Area" requiredArea).map
      (·.2.visibility) = some .private_ ∧
    ((p.draft.catalog p.tables).findImplementation ⟨.rely 0, .handle, 0⟩ "Area" requiredArea).map
      (·.2.returns) = some requiredArea.returns ∧
    (p.draft.catalog p.tables).nextParent ⟨.here, .handle, 0⟩ = some ⟨.rely 0, .handle, 0⟩ ∧
    p.draft.table.classes[0]?.map (·.kind) = some .handle :=
  completes_of_compile (by decide +kernel)

theorem panes_published : ∀ s ∈ panes.surfaces, s.Published := by
  obtain ⟨p, completes, surface⟩ : ∃ p, (Builder.mk veils .unstarted [] none).Completes p ∧
      p.surface = veilsSurface := completes_of_compile (by decide +kernel)
  exact forall_mem_singleton.2 ⟨_, p, completes, surface⟩

end Sample

/-- A class of the library can hide what it has from a class above, and a class of another library
need not show it.  Neither is complained about. -/
theorem Builder.conformance_lost : (∃ p, (Builder.mk Sample.masks .unstarted [] none).Completes p ∧
      (∀ s ∈ Sample.masks.surfaces, s.Published) ∧
      (p.draft.catalog p.tables).Requires ⟨.rely 0, .interface, 0⟩ "Area" Sample.requiredArea ∧
      (p.draft.catalog p.tables).isSubtype ⟨.rely 0, .interface, 0⟩ ⟨.here, .handle, 0⟩ = true ∧
      ∃ declaration f, (p.draft.catalog p.tables).findImplementation ⟨.here, .handle, 0⟩ "Area"
        Sample.requiredArea = some (declaration, f) ∧ f.visibility = .private_) ∧
    ∃ p, (Builder.mk Sample.panes .unstarted [] none).Completes p ∧
      (∀ s ∈ Sample.panes.surfaces, s.Published) ∧
      (p.draft.catalog p.tables).Requires ⟨.rely 0, .interface, 0⟩ "Area" Sample.requiredArea ∧
      (p.draft.catalog p.tables).isSubtype ⟨.rely 0, .interface, 0⟩ ⟨.here, .handle, 0⟩ = true ∧
      (p.draft.catalog p.tables).findImplementation ⟨.here, .handle, 0⟩ "Area"
        Sample.requiredArea = none := by
  constructor
  · obtain ⟨p, completes, declared, subtype, hidden, _⟩ := Sample.masks_completes
    obtain ⟨⟨declaration, f⟩, found, isPrivate⟩ := Option.map_eq_some_iff.1 hidden
    exact ⟨p, completes, Sample.tiles_published, Sample.requires_area declared, subtype,
      declaration, f, found, isPrivate⟩
  · obtain ⟨p, completes, declared, lost⟩ :
        ∃ p, (Builder.mk Sample.panes .unstarted [] none).Completes p ∧
          (∃ i ∈ (p.draft.catalog p.tables).interfaceDef? ⟨.rely 0, .interface, 0⟩,
            ∃ m ∈ i.methods, m.name = "Area" ∧ Sample.requiredArea ∈ m.functions) ∧
          (p.draft.catalog p.tables).isSubtype ⟨.rely 0, .interface, 0⟩ ⟨.here, .handle, 0⟩ =
            true ∧
          (p.draft.catalog p.tables).findImplementation ⟨.here, .handle, 0⟩ "Area"
            Sample.requiredArea = none :=
      Sample.completes_of_compile (by decide +kernel)
    exact ⟨p, completes, Sample.panes_published, Sample.requires_area declared, lost⟩

/-- The hidden area of a tile is found all the same and returns what it should. -/
theorem Builder.conformance_inherited_masks :
    ∃ p, (Builder.mk Sample.masks .unstarted [] none).Completes p ∧ ∃ n base,
      (p.draft.catalog p.tables).Entrance ⟨.here, .handle, 0⟩ ⟨.rely 0, .interface, 0⟩ n base ∧
      ∃ id m o f, (p.draft.catalog p.tables).findImplementation ⟨.here, .handle, 0⟩ "Area"
          Sample.requiredArea = some (id.function m o f, f) ∧
        f.returns = Sample.requiredArea.returns ∧
        (f.visibility = .private_ → ∃ k < n, Walk.steps (p.draft.catalog p.tables).nextParent k
          ⟨.here, .handle, 0⟩ = some id) := by
  obtain ⟨p, completes, declared, subtype, _, above, parent, isClass⟩ := Sample.masks_completes
  obtain ⟨⟨declaration, g⟩, found, returns⟩ := Option.map_eq_some_iff.1 above
  obtain ⟨definition, isClass, kind⟩ := Option.map_eq_some_iff.1 isClass
  have inherited := Builder.conformance_inherited completes Sample.tiles_published isClass
    (by rwa [kind]) (Sample.requires_area declared)
  rw [kind] at inherited
  obtain ⟨n, base, entrance, conforms⟩ := inherited
  refine ⟨p, completes, n, base, entrance, conforms fun elsewhere => ?_⟩
  -- The class above the tile is the first of another library.
  have one : Walk.steps (p.draft.catalog p.tables).nextParent 1 ⟨.here, .handle, 0⟩ =
      some ⟨.rely 0, .handle, 0⟩ := by
    rw [Walk.steps, parent]
    rfl
  obtain _ | _ | n := n
  · cases entrance.path
    exact absurd rfl elsewhere
  · have path := entrance.path
    rw [one] at path
    cases path
    exact ⟨declaration, g, found, returns⟩
  · cases (entrance.below 1 (by omega) _ one).1

end Linkage
