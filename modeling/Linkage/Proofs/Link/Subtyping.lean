/-
Purpose: Among the types that a linked library sees, to be usable in the place of another is a
  partial order, but for the root of all interfaces.
-/
import Linkage.Proofs.Catalog.Accepts
import Linkage.Proofs.Link.Bases
import Linkage.Proofs.Link.Rooted
import Linkage.Proofs.Loops

namespace Linkage

open Walk

namespace Catalog

variable {n m : Nat} {a b : TypeRef}

open Walk (Path)

variable {c : Catalog}

/-! ### A partial order -/

/-- Classes lead up to the root of all handles, and no interface inherits itself. -/
structure Ordered (c : Catalog) : Prop where
  rooted : c.Rooted
  bases : ∀ x, Acc (fun y x => y ∈ c.baseInterfaces x) x

theorem Rooted.isClass_of_steps (rooted : c.Rooted) {x y : TypeId} (isClass : x.kind = .handle)
    (up : steps c.nextParent n x = some y) : y.kind = .handle := by
  refine steps_keep (P := fun x => x.kind = .handle) (fun x y isClass next => ?_) isClass up
  have definition : x.kind.isDefinition = true := by rw [isClass]; rfl
  by_cases home : x.home = .kernel
  · rw [eq_root_of_next home definition next]
    rfl
  · obtain ⟨d, found, _, rfl⟩ := (nextParent_eq_some_of_isDefinition definition).1 next
    exact (rooted.above found home).1

/-- A class that names an interface, or is below one that does, is below the root of all
handles. -/
theorem Rooted.exists_steps_of_named (rooted : c.Rooted) {sub id i : TypeId}
    (isClass : sub.kind = .handle) (outside : sub.home ≠ .kernel)
    (up : steps c.nextParent n sub = some id) (definition : id.kind.isDefinition = true)
    (named : i ∈ c.ownInterfaces id) : ∃ k, steps c.nextParent k sub = some .handle := by
  obtain ⟨d, found⟩ : ∃ d, c.classDef? sub = some d := by
    cases n with
    | zero =>
      cases up
      obtain ⟨d, found, _⟩ := (mem_ownInterfaces_of_isDefinition definition).1 named
      exact ⟨d, found⟩
    | succ n =>
      obtain ⟨z, next, _⟩ := Option.bind_eq_some_iff.1 up
      have definition : sub.kind.isDefinition = true := by rw [isClass]; rfl
      obtain ⟨d, found, _⟩ := (nextParent_eq_some_of_isDefinition definition).1 next
      exact ⟨d, found⟩
  exact rooted.exists_steps found outside

namespace Ordered

variable (ordered : c.Ordered)
include ordered

theorem eq_of_steps {a b : TypeId} (up : steps c.nextParent n b = some a)
    (back : steps c.nextParent m a = some b) : a = b := by
  cases n with
  | zero => exact (Option.some.inj up).symm
  | succ n =>
    have round : steps c.nextParent (n + 1 + m) b = some b := by
      rw [steps_add, up]
      exact back
    rw [add_right_comm] at round
    exact absurd round (steps_succ_ne_self (ordered.rooted.ends b) _)

theorem eq_of_path {a b : TypeId} (isBase : a.kind = .interface) (isInterface : b.kind = .interface)
    (path : Path c.Link n b a) (back : Path c.Link m a b) : a = b := by
  rw [path_of_interface isInterface] at path
  rw [path_of_interface isBase] at back
  rcases Relation.reflTransGen_iff_eq_or_transGen.1 (exists_path_iff.1 ⟨n, path⟩) with
    same | onward
  · exact same
  · have round := onward.trans_left (exists_path_iff.1 ⟨m, back⟩)
    exact absurd round (not_transGen_self_of_acc (ordered.bases b))

/-- Two types that are accepted for each other are the same. -/
theorem antisymm (ab : c.Accepts a b) (ba : c.Accepts b a) : a = b := by
  cases ab with
  | same _ => rfl
  | array _ isArray _ =>
    cases ba with
    | same _ => rfl
    | array _ isArray' _ => cases isArray'
    | _ => cases isArray
  | @parent a b n isClass up =>
    have isBase := ordered.rooted.isClass_of_steps isClass up
    cases ba with
    | same _ => rfl
    | array _ isArray _ => cases isArray
    | parent _ back => rw [ordered.eq_of_steps up back]
    | implements _ _ _ named path =>
      cases isClass.symm.trans (kind_of_path (kind_of_mem_ownInterfaces named) path)
    | inherits isInterface _ => cases isBase.symm.trans isInterface
    | root _ other _ =>
      rw [isBase] at other
      cases other
  | implements isClass up definition named path =>
    have isBase := kind_of_path (kind_of_mem_ownInterfaces named) path
    have outside := outside_of_implements isClass up definition named path
    cases ba with
    | same _ => rfl
    | array _ isArray _ => cases isArray
    | parent isClass' _ | implements isClass' => cases isBase.symm.trans isClass'
    | inherits isInterface path' => cases isClass.symm.trans (kind_of_path isInterface path')
    | root valid other isRoot => exact absurd (kernel_of_root valid other isRoot).1 outside
  | inherits isInterface path =>
    have isBase := kind_of_path isInterface path
    cases ba with
    | same _ => rfl
    | array _ isArray _ => cases isArray
    | parent isClass _ | implements isClass => cases isBase.symm.trans isClass
    | inherits _ back => rw [ordered.eq_of_path isBase isInterface path back]
    | root valid other isRoot => cases isInterface.symm.trans (kernel_of_root valid other isRoot).2
  | root valid other isRoot =>
    obtain ⟨home, isBase⟩ := kernel_of_root valid other isRoot
    rcases ba.of_kernel home isBase with same | same
    · exact same.symm
    · cases same
      cases other

/-- What is accepted for what is accepted is accepted, but for a class in the place of the root of
all interfaces. -/
theorem trans {d : TypeRef} (ab : c.Accepts a b) (bd : c.Accepts b d)
    (notRoot : a ≠ TypeId.interface.scalar) : c.Accepts a d := by
  cases bd with
  | same _ => exact ab
  | @array b _ valid isArray isRoot =>
    have ⟨home, isClass⟩ : b.home = .kernel ∧ b.kind = .handle := by
      rcases isRoot with rfl | rfl <;> decide
    rcases ab.of_kernel home isClass with rfl | rfl
    · exact .array valid isArray isRoot
    · exact .array valid isArray (.inr rfl)
  | @parent b d m isClass up =>
    have isClass' := ordered.rooted.isClass_of_steps isClass up
    have onward {n : Nat} {x : TypeId} (up' : steps c.nextParent n b = some x) :
        steps c.nextParent (m + n) d = some x := by
      rw [steps_add, up]
      exact up'
    cases ab with
    | same _ => exact .parent isClass up
    | array _ isArray _ => cases isArray
    | parent _ up' => exact .parent isClass (onward up')
    | implements _ up' definition named path =>
      exact .implements isClass (onward up') definition named path
    | inherits isInterface _ => cases isClass'.symm.trans isInterface
    | root _ noClass _ =>
      rw [isClass'] at noClass
      cases noClass
  | implements isClass up definition named path =>
    have isInterface := kind_of_path (kind_of_mem_ownInterfaces named) path
    cases ab with
    | same _ => exact .implements isClass up definition named path
    | array _ isArray _ => cases isArray
    | parent isClass' _ | implements isClass' => cases isInterface.symm.trans isClass'
    | inherits _ path' => exact .implements isClass up definition named (path.append path')
    | root _ _ isRoot =>
      rcases isRoot with rfl | rfl
      · rw [parent, isInterface] at notRoot
        exact absurd rfl notRoot
      · have outside := outside_of_implements isClass up definition named path
        obtain ⟨k, toRoot⟩ :=
          ordered.rooted.exists_steps_of_named isClass outside up definition named
        exact .parent isClass toRoot
  | inherits isInterface path =>
    have isBase := kind_of_path isInterface path
    cases ab with
    | same _ => exact .inherits isInterface path
    | array _ isArray _ => cases isArray
    | parent isClass _ | implements isClass => cases isBase.symm.trans isClass
    | inherits _ path' => exact .inherits isInterface (path.append path')
    | root _ _ isRoot =>
      refine .root (by simp [TypeId.isValid, isInterface]) (by rw [isInterface]; rfl) ?_
      rw [parent, isInterface]
      rwa [parent, isBase] at isRoot
  | root valid noClass isRoot =>
    obtain ⟨home, isClass⟩ := kernel_of_root valid noClass isRoot
    rcases ab.of_kernel home isClass with rfl | rfl
    · exact .root valid noClass isRoot
    · exact .root valid noClass (.inr rfl)

end Ordered

end Catalog

/-! ### Linked libraries -/

/-- The catalog of a linked library is ordered, if the libraries it relies on are published. -/
theorem Draft.ordered_link {g : RelyGraph} {built : List Rely} (loaded : g.Loaded built)
    (published : ∀ s ∈ g.libraries, s.Published) {d : Draft} (made : d.table.WellMade)
    (unlinked : d.table.Settled IsOpen) :
    ((d.link (built.map (·.table))).value.catalog (built.map (·.table))).Ordered where
  rooted := rooted_link loaded (fun s member => (published s member).regular) made unlinked
  bases := loaded.acc_baseInterfaces (fun s member => (published s member).acc_ownBases)
    (acc_ownBases_of_link d _)

/-- Usability in the place of another type is a partial order up to the root of interfaces.
Whatever the files of a library say, and whether or not linking them is complained about: every
type is zero steps above itself, two types above each other are the same, and what is above what is
above a type is above it, but for the root of all interfaces.  The library may rely on published
ones. -/
theorem Draft.subtyping_partial_order {name : String} {surfaces : List Surface} {relies : List Rely}
    (published : ∀ s ∈ surfaces, s.Published)
    (loads : (RelyGraph.mk name surfaces).load = .ok relies) (files : List (SourceFile × Outline)) :
    let depth := (linkedCatalog name files (relies.map (·.table))).inheritDepth
    (∀ a : TypeRef, a.isValid = true → depth a a = some 0) ∧
      (∀ a b, (depth a b).isSome = true → (depth b a).isSome = true → a = b) ∧
      ∀ a b c, (depth a b).isSome = true → (depth b c).isSome = true →
        a ≠ TypeId.interface.scalar → (depth a c).isSome = true := by
  have ordered : (linkedCatalog name files (relies.map (·.table))).Ordered :=
    ordered_link (RelyGraph.loaded_of_load loads) published (merge_wellMade name files)
      (merge_settled name files)
  refine ⟨fun a valid => Catalog.inheritDepth_self valid, fun a b ab ba => ?_,
    fun a b c ab bc notRoot => ?_⟩
  · rw [Catalog.inheritDepth_isSome_iff] at ab ba
    exact ordered.antisymm ab ba
  · rw [Catalog.inheritDepth_isSome_iff] at ab bc ⊢
    exact ordered.trans ab bc notRoot

/-- Among classes on a cycle, one that derives from a class of another library which implements an
interface: it is below that interface and below the root of handles, and not below the root of
interfaces. -/
theorem Draft.subtyping_partial_order_knots :
    let depth := (linkedCatalog "Tiles" Sample.knots [Sample.shapesRely.table]).inheritDepth
    let shape := TypeId.scalar ⟨.rely 0, .interface, 0⟩
    let tile := TypeId.scalar ⟨.here, .handle, 2⟩
    (depth shape tile).isSome = true ∧ depth tile shape = none ∧
      (depth TypeId.handle.scalar tile).isSome = true ∧
      (depth TypeId.interface.scalar shape).isSome = true ∧
      depth TypeId.interface.scalar tile = none := by
  intro depth shape tile
  have ⟨up, named, isHandle, isInterface, apart⟩ :
      Walk.steps (linkedCatalog "Tiles" Sample.knots [Sample.shapesRely.table]).nextParent 1
        ⟨.here, .handle, 2⟩ = some ⟨.rely 0, .handle, 0⟩ ∧
      (⟨.rely 0, .interface, 0⟩ : TypeId) ∈ (linkedCatalog "Tiles" Sample.knots
        [Sample.shapesRely.table]).ownInterfaces ⟨.rely 0, .handle, 0⟩ ∧
      (depth TypeId.handle.scalar shape).isSome = true ∧
      (depth TypeId.interface.scalar shape).isSome = true ∧
      depth TypeId.interface.scalar tile = none := by
    decide +kernel
  have implements : (depth shape tile).isSome = true :=
    Catalog.inheritDepth_isSome_iff.2 (.implements rfl up rfl named (.nil _))
  obtain ⟨_, antisymm, trans⟩ := Draft.subtyping_partial_order Sample.tiles_published
    Sample.tiles_loads Sample.knots
  refine ⟨implements, ?_, trans _ _ _ isHandle implements (by decide), isInterface, apart⟩
  by_contra back
  have different : shape ≠ tile := by decide
  exact different (antisymm _ _ implements (Option.isSome_iff_ne_none.2 back))

end Linkage
