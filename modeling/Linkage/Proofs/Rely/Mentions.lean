/-
Purpose: The types that a table mentions, and that a library which is accepted mentions nothing
  that is not there.
-/
import Linkage.Proofs.Rely.Regular
import Linkage.Proofs.Table.Types

namespace Linkage

open List Surface Table Option

variable {l : Linkup} {t : Table} {space i : Nat} {name : String}

/-! ### The types of a table and of its surface -/

section At

variable (ρ : Placement)

@[simp] theorem SurfaceFunction.types_at (f : SurfaceFunction) :
    (f.at ρ).types = f.types.map (·.at ρ) := by
  simp [SurfaceFunction.at, SurfaceFunction.types, Function.types, Function.paramTypes,
    SurfaceParameter.at]

@[simp] theorem SurfaceMethod.types_at (m : SurfaceMethod) :
    (m.at ρ).types = m.types.map (·.at ρ) := by
  simp [SurfaceMethod.at, SurfaceMethod.types, Method.types, flatMap_map, map_flatMap]

@[simp] theorem SurfaceClass.types_at (c : SurfaceClass) (index : Nat) :
    (c.at ρ index).types = c.types.map (·.at ρ) := by
  simp [SurfaceClass.at, SurfaceClass.types, ClassDef.types, SurfaceMember.at, flatMap_map,
    map_flatMap]

@[simp] theorem SurfaceInterface.types_at (i : SurfaceInterface) (index : Nat) :
    (i.at ρ index).types = i.types.map (·.at ρ) := by
  simp [SurfaceInterface.at, SurfaceInterface.types, InterfaceDef.types, flatMap_map,
    map_flatMap]

@[simp] theorem SurfaceDelegate.types_at (d : SurfaceDelegate) :
    (d.at ρ).types = d.types.map (·.at ρ) := by
  simp [SurfaceDelegate.at, SurfaceDelegate.types, DelegateDef.types, SurfaceParameter.at]

/-- The table of a surface mentions what the surface mentions, in place. -/
theorem Surface.types_tableAt (s : Surface) : (s.tableAt ρ).types = s.types.map (·.at ρ) := by
  have numbered {α β : Type} {place : Nat → α → β} {types : β → List TypeRef}
      {written : α → List SurfaceType} (same : ∀ i a, types (place i a) = (written a).map (·.at ρ))
      (xs : List α) : (xs.mapIdx place).flatMap types = (xs.flatMap written).map (·.at ρ) := by
    rw [mapIdx_eq_zipIdx_map, flatMap_map]
    simp only [same]
    conv_rhs => rw [← zipIdx_map_fst 0 xs, flatMap_map, map_flatMap]
  simp only [Table.types, Surface.types, classes_tableAt, interfaces_tableAt, delegates_tableAt,
    coroutines_tableAt, globals_tableAt, methods_tableAt, natives_tableAt, map_append]
  rw [numbered fun i c => SurfaceClass.types_at ρ c i,
    numbered fun i c => SurfaceInterface.types_at ρ c i]
  simp [flatMap_map, map_flatMap, SurfaceCoroutine.at, SurfaceVariable.at]

end At

/-! ### Where a type comes from -/

/-- The libraries that a library may take types from: the kernel, itself and the dependencies that
were found. -/
def Linkup.libraries (l : Linkup) (own : Table) : List Table :=
  Kernel.table :: own :: l.dependencies.filterMap id

theorem Linkup.mem_libraries {own : Table} :
    t ∈ l.libraries own ↔ t = Kernel.table ∨ t = own ∨ some t ∈ l.dependencies := by
  simp [libraries]

theorem Table.isSome_typeName {id : TypeId} :
    (t.typeName id).isSome = true ↔ id.index < t.typeCount id.kind := by
  unfold typeName typeCount
  cases id.kind <;> simp

/-- A type that is there stands in a library at the place of its origin. -/
theorem Linkup.exists_library {y : SurfaceType} (has : l.Has y)
    (resolved : y.kind ≠ .invalid) : ∃ t ∈ l.libraries (l.surface.tableAt l.places),
      t.home = l.places y.origin ∧ y.index < t.typeCount y.kind := by
  have counted : y.index < l.available y.kind y.origin := has.resolve_left resolved
  cases origin : y.origin with
  | kernel =>
    refine ⟨Kernel.table, mem_libraries.2 (.inl rfl), rfl, ?_⟩
    rw [origin] at counted
    cases kind : y.kind with
    | struct | handle =>
      rw [kind] at counted
      exact counted
    | _ =>
      rw [kind] at counted
      exact absurd counted (Nat.not_lt_zero _)
  | own =>
    refine ⟨l.surface.tableAt l.places, mem_libraries.2 (.inr (.inl rfl)), home_tableAt, ?_⟩
    rw [origin] at counted
    rw [typeCount_tableAt]
    split
    · rename_i isStruct
      rw [isStruct] at counted
      exact absurd counted (Nat.not_lt_zero _)
    · exact counted
  | dependency d =>
    rw [origin] at counted
    cases found : l.dependencies[d]?.join with
    | none => simp [available, found] at counted
    | some t =>
      have matched : some t ∈ l.dependencies :=
        mem_of_getElem? (join_eq_some_iff.1 found)
      refine ⟨t, mem_libraries.2 (.inr (.inr matched)), ?_, ?_⟩
      · simp [places, found]
      · simpa [available, found] using counted

/-! ### Spaces and names -/

namespace Surface

variable {ρ : Placement} {s : Surface}

/-- The parents of the spaces of a table are those that the surface gives. -/
theorem map_parent_spaces_tableAt
    (parents : ∀ x ∈ s.below, ∃ p, x.parent = some p ∧ p < s.spaces.length) :
    (s.tableAt ρ).spaces.map (·.parent) = none :: s.below.map (·.parent) := by
  apply ext_getElem?
  intro p
  have frame := congrArg (fun frames => frames[p]?.map (·.2.1)) (frames_tableAt (ρ := ρ) parents)
  simp at frame
  have keys : none :: s.below.map (·.parent) = s.spaceKeys.map (·.1) := by simp [spaceKeys]
  rw [keys, getElem?_map, getElem?_map]
  exact frame

theorem length_spaces_tableAt
    (parents : ∀ x ∈ s.below, ∃ p, x.parent = some p ∧ p < s.spaces.length) :
    (s.tableAt ρ).spaces.length = s.spaces.length - 1 + 1 := by
  have lengths := congrArg length (map_parent_spaces_tableAt (ρ := ρ) parents)
  simpa [below] using lengths

theorem HasSpace.lt_length (has : s.HasSpace space)
    (parents : ∀ x ∈ s.below, ∃ p, x.parent = some p ∧ p < s.spaces.length) :
    space < (s.tableAt ρ).spaces.length := by
  rw [length_spaces_tableAt parents]
  rcases has with rfl | inside
  · exact Nat.succ_pos _
  · omega

theorem exists_parent_tableAt
    (parents : ∀ x ∈ s.below, ∃ p, x.parent = some p ∧ p < s.spaces.length)
    {space : Space} (found : (s.tableAt ρ).spaces[i]? = some space) (below : i ≠ rootSpace) :
    ∃ p, space.parent = some p ∧ p < (s.tableAt ρ).spaces.length := by
  have parent : ((s.tableAt ρ).spaces.map (·.parent))[i]? = some space.parent := by
    rw [getElem?_map, found]
    rfl
  obtain ⟨i, rfl⟩ := Nat.exists_eq_succ_of_ne_zero below
  rw [map_parent_spaces_tableAt parents, getElem?_cons_succ, getElem?_map] at parent
  obtain ⟨x, listed, same⟩ := map_eq_some_iff.1 parent
  obtain ⟨p, isParent, inside⟩ := parents x (mem_of_getElem? listed)
  exact ⟨p, same ▸ isParent, HasSpace.lt_length (.inr inside) parents⟩

/-- Every entry of the table stands in a space. -/
theorem Spaced.hasSpace (spaced : s.Spaced) {e : Entity} {key : Nat × String}
    (stands : (s.tableAt ρ).entryAt e = some key) : s.HasSpace key.1 := by
  have listed {α β : Type} {ys : List β} {xs : List α} {f : α → β} {place : β → Nat × String}
      {i : Nat} (same : ys = xs.map f) (found : ys[i]?.map place = some key)
      (holds : ∀ x ∈ xs, s.HasSpace (place (f x)).1) : s.HasSpace key.1 := by
    rw [same, getElem?_map, Option.map_map] at found
    obtain ⟨x, inside, rfl⟩ := map_eq_some_iff.1 found
    exact holds x (mem_of_getElem? inside)
  have numbered {α β : Type} {ys : List β} {xs : List α} {f : Nat → α → β}
      {place : β → Nat × String} {i : Nat} (same : ys = xs.mapIdx f)
      (found : ys[i]?.map place = some key)
      (holds : ∀ i, ∀ x ∈ xs, s.HasSpace (place (f i x)).1) : s.HasSpace key.1 := by
    rw [same, getElem?_mapIdx, Option.map_map] at found
    obtain ⟨x, inside, rfl⟩ := map_eq_some_iff.1 found
    exact holds i x (mem_of_getElem? inside)
  cases e with
  | classDef i => exact numbered classes_tableAt stands fun _ => spaced.classes
  | interface i => exact numbered interfaces_tableAt stands fun _ => spaced.interfaces
  | delegate i => exact listed delegates_tableAt stands spaced.delegates
  | coroutine i => exact listed coroutines_tableAt stands spaced.coroutines
  | globalVariable i => exact listed globals_tableAt stands spaced.globals
  | globalMethod i => exact listed methods_tableAt stands spaced.methods
  | nativeMethod i => exact listed natives_tableAt stands spaced.natives
  | _ => cases stands

end Surface

/-! ### What is accepted is closed -/

namespace Linkup

/-- Whatever a table mentions is there: its types in the libraries of the linkup, its spaces and
what its names lead to in the table itself. -/
structure Closed (l : Linkup) (t : Table) : Prop where
  types : ∀ x ∈ t.types, x = .invalid ∨
    ∃ t' ∈ l.libraries t, t'.home = x.id.home ∧ (t'.typeName x.id).isSome = true
  parents : ∀ i space, t.spaces[i]? = some space → i ≠ rootSpace →
    ∃ p, space.parent = some p ∧ p < t.spaces.length
  spaces : ∀ entry ∈ entries t, entry.1 < t.spaces.length
  declarations : ∀ space name d, t.lookup space name = some d →
    d.home = t.home ∧ t.declarationName d = some name ∧ t.declarationSpace d = some space
  classMembers : ∀ i c, t.classes[i]? = some c → ∀ name d, c.members.find? name = some d →
    d.home = t.home ∧ t.declarationName d = some name ∧ t.ownerType d = some ⟨t.home, c.kind, i⟩
  interfaceMembers : ∀ i c, t.interfaces[i]? = some c → ∀ name d, c.members.find? name = some d →
    d.home = t.home ∧ t.declarationName d = some name ∧ t.ownerType d = some ⟨t.home, .interface, i⟩

/-- A library that is accepted has no loose ends, whatever its surface says and whatever tables its
dependencies were matched to. -/
theorem closed_of_instantiate {l : Linkup} {r : Rely} (accepted : l.instantiate = .ok r) :
    l.Closed r.table := by
  obtain ⟨⟨all, spaced⟩, rfl⟩ := instantiate_eq_ok.1 accepted
  have here : l.places .own = (l.surface.tableAt l.places).home := home_tableAt.symm
  constructor
  · intro x member
    rw [types_tableAt] at member
    obtain ⟨y, mentioned, rfl⟩ := mem_map.1 member
    unfold SurfaceType.at
    by_cases unresolved : y.kind = .invalid
    · exact .inl (if_pos unresolved)
    · rw [if_neg unresolved]
      obtain ⟨t, library, home, counted⟩ := exists_library (all y mentioned) unresolved
      exact .inr ⟨t, library, home, isSome_typeName.2 counted⟩
  · exact fun i space found below => exists_parent_tableAt spaced.parents found below
  · rintro ⟨space, name, e⟩ member
    exact (spaced.hasSpace (mem_entries.1 member)).lt_length spaced.parents
  · intro space name d found
    have finds : (l.surface.tableAt l.places).find (space, name) = some d := found
    obtain ⟨home, stands⟩ := sound_tableAt spaced.parents finds
    exact ⟨home.trans here, declarationName_of_entryAt stands⟩
  · intro i c found name d member
    have placed := found
    obtain ⟨x, _, rfl⟩ := class_tableAt_iff.1 placed
    obtain ⟨home, stands⟩ := memberAt_of_mem_classMemberList (NameMap.mem_of_find?_ofList member)
    exact ⟨home.trans here, declarationName_of_memberAt found stands⟩
  · intro i c found name d member
    have placed := found
    obtain ⟨x, _, rfl⟩ := interface_tableAt_iff.1 placed
    obtain ⟨m, method, inside, named, rfl⟩ :=
      mem_interfaceMemberList.1 (NameMap.mem_of_find?_ofList member)
    refine ⟨here, declarationName_of_interfaceMemberAt found ?_⟩
    rw [InterfaceDef.memberAt, interfaceMemberAt, if_pos rfl]
    exact Option.map_eq_some_iff.2 ⟨method, inside, named⟩

/-- A library that is accepted comes to the table of its surface. -/
theorem exists_of_isOk (accepted : l.instantiate.isOk = true) :
    ∃ r, l.instantiate = .ok r ∧ r.table = l.surface.tableAt l.places := by
  cases outcome : l.instantiate with
  | ok r => exact ⟨r, rfl, by rw [(instantiate_eq_ok.1 outcome).2]⟩
  | error _ => simp [outcome, Except.isOk, Except.toBool] at accepted

end Linkup

namespace Sample

/-- A library with a class and an interface, in the first place. -/
def orchard : Linkup where
  surface :=
    { Surface.empty "Orchard" with
      classes := [⟨"Plot", 0, ⟨.kernel, .handle, 10, 0⟩, [], [], [], []⟩]
      interfaces := [⟨"Bounded", 0, [], []⟩] }
  own := .rely 0
  dependencies := []

/-- A library that relies on one that was found and on one that was not.  A variable bears the name
of a class, a field that of a method, and an interface inherits itself. -/
def annex : Linkup where
  surface :=
    { Surface.empty "Annex" with
      dependencies := ["Cellar", "Orchard"]
      spaces := [⟨"", none⟩, ⟨"hall", some 2⟩, ⟨"nook", some 0⟩]
      classes := [⟨"Room", 1, ⟨.dependency 1, .handle, 0, 0⟩, [⟨.dependency 1, .interface, 0, 0⟩],
        [⟨"Enter", .public_, ⟨.kernel, .struct, 3, 2⟩⟩],
        [⟨"Enter", 1, [⟨.public_, [⟨"by", ⟨.own, .handle, 0, 0⟩⟩], [⟨.own, .delegate, 0, 1⟩]⟩]⟩],
        [⟨.public_, [], []⟩]⟩]
      interfaces := [⟨"Lock", 2, [⟨.own, .interface, 0, 0⟩],
        [⟨"Turn", 2, [⟨.public_, [], [⟨.kernel, .invalid, 7, 0⟩]⟩]⟩]⟩]
      delegates := [⟨"Visit", 0, [⟨"room", ⟨.own, .handle, 0, 0⟩⟩], []⟩]
      globals := [⟨"Room", 1, true, ⟨.own, .handle, 0, 0⟩⟩] }
  own := .rely 1
  dependencies := [none, some (orchard.surface.tableAt orchard.places)]

end Sample

/-- In the annex an interface comes from the library that was found, and the name of the room leads
to the variable that came last. -/
theorem Linkup.closed_of_instantiate_annex :
    ∃ r, Sample.annex.instantiate = .ok r ∧ Sample.annex.Closed r.table ∧
      TypeId.scalar ⟨.rely 0, .interface, 0⟩ ∈ r.table.types ∧
      r.table.lookup 1 "Room" = some ⟨.rely 1, .public_, .globalVariable 0⟩ := by
  obtain ⟨r, result, table⟩ := exists_of_isOk (l := Sample.annex) (by decide +kernel)
  refine ⟨r, result, closed_of_instantiate result, ?_⟩
  rw [table]
  decide +kernel

end Linkage
