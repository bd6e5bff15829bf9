/-
Purpose: How the types of a library are numbered where others rely on it, and that placing its
  surface there gives its shown part in that numbering.
-/
import Linkage.Proofs.Export.Surface
import Linkage.Proofs.Rely.PlacedTable

namespace Linkage

open List Surface

/-- A class without the index of its names. -/
def ClassDef.unindexed (c : ClassDef) : ClassDef := { c with members := .empty }

/-- An interface without the index of its names. -/
def InterfaceDef.unindexed (i : InterfaceDef) : InterfaceDef := { i with members := .empty }

/-- How many public types of a kind come before an index. -/
def Table.publicBefore (t : Table) (kind : TypeKind) (index : Nat) : Nat :=
  match kind with
  | .struct | .handle => (t.classes.take index).countP fun c => c.visibility = .public_
  | .interface => (t.interfaces.take index).countP fun i => i.visibility = .public_
  | .delegate => (t.delegates.take index).countP fun d => d.visibility = .public_
  | .coroutine => (t.coroutines.take index).countP fun c => c.visibility = .public_
  | .invalid => 0

/-- Public types are exported under their position among the public types of their kind. -/
theorem Table.publicBefore_of_exportIndex? {t : Table} {kind : TypeKind} {index number : Nat}
    (exported : t.exportIndex? kind index = some number) : t.publicBefore kind index = number := by
  have kept {α : Type} {keep : α → Bool} {xs : List α}
      (found : keptIndex? keep xs index = some number) : (xs.take index).countP keep = number := by
    obtain ⟨x, _, same⟩ := Option.bind_eq_some_iff.1 found
    split at same
    · exact Option.some.inj same
    · cases same
  cases kind with
  | invalid => cases exported
  | struct | handle | interface | delegate | coroutine => exact kept exported

/-- The passage from the numbering of one compilation to that of another one that relies on its
result. -/
structure Renumbering where
  /-- The table of the library. -/
  table : Table
  /-- The position of the library in the other rely list. -/
  position : Nat
  /-- The positions there of the libraries that the library relied on. -/
  relies : Nat → Nat

namespace Renumbering

variable (φ : Renumbering)

/-- Kernel types stay, own types are counted among the public ones, and types of other libraries
move with their library. -/
def typeId : TypeId → TypeId
  | ⟨.kernel, kind, index⟩ => ⟨.kernel, kind, index⟩
  | ⟨.here, kind, index⟩ => ⟨.rely φ.position, kind, φ.table.publicBefore kind index⟩
  | ⟨.rely i, kind, index⟩ => ⟨.rely (φ.relies i), kind, index⟩

/-- Array brackets stay. -/
def type (x : TypeRef) : TypeRef := ⟨φ.typeId x.id, x.dimension⟩

def parameter (p : Parameter) : Parameter := ⟨p.name, φ.type p.type⟩

def function (f : Function) : Function :=
  ⟨f.visibility, f.params.map φ.parameter, f.returns.map φ.type, none⟩

def method (m : Method) : Method := ⟨m.name, m.space, m.functions.map φ.function⟩

def member (v : MemberVariable) : MemberVariable := ⟨v.name, v.visibility, φ.type v.type, 0, none⟩

def classDef (c : ClassDef) : ClassDef where
  name := c.name
  space := c.space
  visibility := c.visibility
  kind := c.kind
  parent := φ.type c.parent
  interfaces := c.interfaces.map φ.type
  fields := c.fields.map φ.member
  methods := c.methods.map φ.method
  constructors := c.constructors.map φ.function
  members := .empty
  size := 0
  source := none

def interfaceDef (i : InterfaceDef) : InterfaceDef :=
  ⟨i.name, i.space, i.visibility, i.inherits.map φ.type, i.methods.map φ.method, .empty, none⟩

def delegateDef (d : DelegateDef) : DelegateDef :=
  ⟨d.name, d.space, d.visibility, d.params.map φ.parameter, d.returns.map φ.type, none⟩

def coroutineDef (c : CoroutineDef) : CoroutineDef :=
  ⟨c.name, c.space, c.visibility, c.returns.map φ.type, none⟩

def variableDef (v : VariableDef) : VariableDef :=
  ⟨v.name, v.space, v.visibility, v.constant, φ.type v.type, none, 0, none⟩

/-- A table is the image of the library: it has the same tree of spaces and, entry by entry, what
the library shows, with every type renumbered.  Sources, addresses and initializers stay
behind. -/
structure Mirrors (r : Table) : Prop where
  name : r.name = φ.table.name
  home : r.home = .rely φ.position
  spaces : r.spaces.map Space.frame = φ.table.spaces.map Space.frame
  classes : r.classes.map ClassDef.unindexed = φ.table.shown.classes.map φ.classDef
  interfaces : r.interfaces.map InterfaceDef.unindexed = φ.table.shown.interfaces.map φ.interfaceDef
  delegates : r.delegates = φ.table.shown.delegates.map φ.delegateDef
  coroutines : r.coroutines = φ.table.shown.coroutines.map φ.coroutineDef
  globals : r.globals = φ.table.shown.globals.map φ.variableDef
  methods : r.methods = φ.table.shown.methods.map φ.method
  natives : r.natives = φ.table.shown.natives.map φ.method

/-! ### Placing what was written down -/

/-- A placement puts the first `count` dependencies, the library and the kernel where the
renumbering has them. -/
structure Places (count : Nat) (ρ : Placement) : Prop where
  kernel : ρ .kernel = .kernel
  own : ρ .own = .rely φ.position
  dependency : ∀ i < count, ρ (.dependency i) = .rely (φ.relies i)

/-- A type that comes from the kernel, from the exported ones of the library or from one of the
first `count` others. -/
structure Covers (count : Nat) (x : TypeRef) : Prop where
  proper : x.Proper
  inside : ∀ i, x.id.home = .rely i → i < count
  exported : φ.table.Exports x

variable {φ : Renumbering} {count : Nat} {ρ : Placement}

section

variable (places : φ.Places count ρ)
include places

/-- A type that is written down and then placed has been renumbered. -/
theorem at_surfaceType {x : TypeRef} (known : φ.Covers count x) :
    (φ.table.surfaceType x).at ρ = φ.type x := by
  obtain ⟨⟨home, kind, index⟩, dimension⟩ := x
  rcases known.proper with unresolved | valid
  · cases unresolved
    rfl
  · cases home with
    | kernel => simp [Table.surfaceType, SurfaceType.at, valid, type, typeId, places.kernel]
    | here =>
      obtain ⟨number, isNumber⟩ := Option.isSome_iff_exists.1 (known.exported rfl)
      rw [Table.surfaceType_here isNumber]
      simp [SurfaceType.at, valid, type, typeId, places.own,
        Table.publicBefore_of_exportIndex? isNumber]
    | rely i =>
      simp [Table.surfaceType, SurfaceType.at, valid, type, typeId,
        places.dependency i (known.inside i rfl)]

theorem at_surfaceTypes {xs : List TypeRef} (known : ∀ x ∈ xs, φ.Covers count x) :
    (xs.map φ.table.surfaceType).map (·.at ρ) = xs.map φ.type := by
  rw [map_map]
  exact map_congr_left fun x member => at_surfaceType places (known x member)

theorem at_surfaceParameters {params : List Parameter}
    (known : ∀ p ∈ params, φ.Covers count p.type) :
    (params.map φ.table.surfaceParameter).map (·.at ρ) = params.map φ.parameter := by
  rw [map_map]
  apply map_congr_left
  intro p member
  exact congrArg (Parameter.mk p.name) (at_surfaceType places (known p member))

theorem at_surfaceFunction {f : Function} (known : f.Settled (φ.Covers count)) :
    (φ.table.surfaceFunction f).at ρ = φ.function f := by
  simp only [SurfaceFunction.at, Table.surfaceFunction, function,
    at_surfaceParameters places known.params, at_surfaceTypes places known.returns]

theorem at_surfaceFunctions {fs : List Function} (known : ∀ f ∈ fs, f.Settled (φ.Covers count)) :
    (fs.map φ.table.surfaceFunction).map (·.at ρ) = fs.map φ.function := by
  rw [map_map]
  exact map_congr_left fun f member => at_surfaceFunction places (known f member)

theorem at_surfaceMethods {ms : List Method} (known : ∀ m ∈ ms, m.Settled (φ.Covers count)) :
    (ms.map φ.table.surfaceMethod).map (·.at ρ) = ms.map φ.method := by
  rw [map_map]
  apply map_congr_left
  intro m member
  exact congrArg (Method.mk m.name m.space) (at_surfaceFunctions places (known m member))

/-- A public class of source is placed as its image. -/
theorem at_surfaceClass {c : ClassDef} (known : c.Settled (φ.Covers count))
    (public_ : c.visibility = .public_) (kind : c.kind = .handle) (index : Nat) :
    ((φ.table.surfaceClass c).at ρ index).unindexed = φ.classDef c := by
  have fields : (c.fields.map φ.table.surfaceMember).map (·.at ρ) = c.fields.map φ.member := by
    rw [map_map]
    apply map_congr_left
    intro v member
    exact congrArg (fun type => MemberVariable.mk v.name v.visibility type 0 none)
      (at_surfaceType places (known.fields v member))
  simp only [SurfaceClass.at, Table.surfaceClass, ClassDef.unindexed, classDef,
    at_surfaceType places known.parent,
    at_surfaceTypes places fun i member => (known.interfaces i member).1, fields,
    at_surfaceMethods places known.methods, at_surfaceFunctions places known.constructors, public_,
    kind]

theorem at_surfaceInterface {i : InterfaceDef}
    (known : i.Settled (φ.Covers count)) (public_ : i.visibility = .public_) (index : Nat) :
    ((φ.table.surfaceInterface i).at ρ index).unindexed = φ.interfaceDef i := by
  simp only [SurfaceInterface.at, Table.surfaceInterface, InterfaceDef.unindexed, interfaceDef,
    at_surfaceTypes places fun x member => (known.inherits x member).1,
    at_surfaceMethods places known.methods, public_]

end

end Renumbering

/-! ### The shown part -/

theorem Table.WellMade.class_of_shown {t : Table} (made : t.WellMade) {c : ClassDef}
    (member : c ∈ t.shown.classes) : c.visibility = .public_ ∧ c.kind = .handle := by
  obtain ⟨old, kept, rfl⟩ := mem_map.1 member
  obtain ⟨written, public_⟩ := mem_filter.1 kept
  obtain ⟨i, found⟩ := mem_iff_getElem?.1 written
  exact ⟨of_decide_eq_true public_, (made.classes found).kind⟩

section

variable {t : Table} (tree : t.TreeShaped) (dependencies : List String)
include tree dependencies

theorem Table.spaceKeys_surfaceOf : (t.surfaceOf dependencies).spaceKeys = t.spaceKeys := by
  obtain ⟨root, atRoot, unnamed, outermost⟩ := tree.root
  unfold Surface.spaceKeys Surface.below Table.surfaceOf Table.spaceKeys
  cases spaces : t.spaces with
  | nil =>
    rw [spaces] at atRoot
    cases atRoot
  | cons first rest =>
    rw [spaces] at atRoot
    cases atRoot
    simp [Space.key, unnamed, outermost, Function.comp_def]

theorem Table.parents_surfaceOf : ∀ x ∈ (t.surfaceOf dependencies).below,
      ∃ p, x.parent = some p ∧ p < (t.surfaceOf dependencies).spaces.length := by
  intro x member
  have first := tree.root_lt
  have sameLength : (t.surfaceOf dependencies).spaces.length = t.spaces.length := by
    simp only [surfaceOf, length_cons, length_map, length_drop]
    omega
  obtain ⟨s, inside, rfl⟩ := mem_map.1 member
  obtain ⟨k, found⟩ := mem_iff_getElem?.1 inside
  rw [getElem?_drop, Nat.add_comm] at found
  obtain ⟨p, isParent, _⟩ := tree.parent found
  rw [sameLength]
  exact ⟨p, isParent, tree.parent_lt (mem_of_getElem? found) isParent⟩

/-- A surface that is placed has the tree of spaces of its table. -/
theorem Table.frames_surfaceOf (ρ : Placement) :
    ((t.surfaceOf dependencies).tableAt ρ).spaces.map Space.frame = t.spaces.map Space.frame := by
  rw [frames_tableAt (parents_surfaceOf tree dependencies), spaceKeys_surfaceOf tree]
  apply ext_getElem?
  intro p
  rw [getElem?_mapIdx, spaceKeys, getElem?_map, getElem?_map]
  cases found : t.spaces[p]? with
  | none => rfl
  | some s => simp [Space.frame, Space.key, tree.children found, spaceKeys]

end

namespace Renumbering

variable {φ : Renumbering} {count : Nat} {ρ : Placement}

/-- Placing the surface of a library gives the image of the library. -/
theorem mirrors_tableAt (made : φ.table.WellMade) (shown : φ.table.shown.Settled (φ.Covers count))
    (dependencies : List String) (places : φ.Places count ρ) :
    φ.Mirrors ((φ.table.surfaceOf dependencies).tableAt ρ) := by
  refine ⟨name_tableAt, home_tableAt.trans places.own, ?_, ?_, ?_, ?_, ?_, ?_, ?_,
    ?_⟩
  · exact Table.frames_surfaceOf made.tree dependencies ρ
  · rw [classes_tableAt]
    apply ext_getElem?
    intro k
    simp only [getElem?_map, getElem?_mapIdx, Table.surfaceOf]
    cases found : φ.table.shown.classes[k]? with
    | none => rfl
    | some c =>
      have member := mem_of_getElem? found
      obtain ⟨public_, kind⟩ := made.class_of_shown member
      exact congrArg some (at_surfaceClass places (shown.classes c member) public_ kind k)
  · rw [interfaces_tableAt]
    apply ext_getElem?
    intro k
    simp only [getElem?_map, getElem?_mapIdx, Table.surfaceOf]
    cases found : φ.table.shown.interfaces[k]? with
    | none => rfl
    | some i =>
      have member := mem_of_getElem? found
      have public_ := of_decide_eq_true (mem_filter.1 member).2
      exact congrArg some (at_surfaceInterface places (shown.interfaces i member) public_ k)
  · rw [delegates_tableAt, Table.surfaceOf, map_map]
    apply map_congr_left
    intro d member
    have public_ := of_decide_eq_true (mem_filter.1 member).2
    have types := shown.delegates d member
    simp only [Function.comp_apply, SurfaceDelegate.at, Table.surfaceDelegate, delegateDef,
      at_surfaceParameters places types.params, at_surfaceTypes places types.returns, public_]
  · rw [coroutines_tableAt, Table.surfaceOf, map_map]
    apply map_congr_left
    intro c member
    have public_ := of_decide_eq_true (mem_filter.1 member).2
    simp only [Function.comp_apply, SurfaceCoroutine.at, Table.surfaceCoroutine, coroutineDef,
      at_surfaceTypes places (shown.coroutines c member), public_]
  · rw [globals_tableAt, Table.surfaceOf, map_map]
    apply map_congr_left
    intro v member
    have public_ := of_decide_eq_true (mem_filter.1 member).2
    simp only [Function.comp_apply, SurfaceVariable.at, Table.surfaceVariable, variableDef,
      at_surfaceType places (shown.globals v member), public_]
  · rw [methods_tableAt]
    exact at_surfaceMethods places shown.methods
  · rw [natives_tableAt]
    exact at_surfaceMethods places shown.natives

end Renumbering

end Linkage
