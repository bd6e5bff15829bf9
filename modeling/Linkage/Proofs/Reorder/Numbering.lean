/-
Purpose: Another numbering of the files, spaces and entries of a library, carried through
  everything that mentions them.
-/
import Linkage.Draft.Basic
import Linkage.Proofs.Catalog.Embedding
import Mathlib.Logic.Equiv.Basic

namespace Linkage

/-- New numbers for the files, the spaces and the entries of a library. -/
structure Numbering where
  files : Equiv.Perm Nat
  spaces : Equiv.Perm Nat
  classes : Equiv.Perm Nat
  interfaces : Equiv.Perm Nat
  delegates : Equiv.Perm Nat
  coroutines : Equiv.Perm Nat
  globals : Equiv.Perm Nat
  methods : Equiv.Perm Nat
  natives : Equiv.Perm Nat

namespace Numbering

/-- Every number stays. -/
protected def id : Numbering :=
  ⟨.refl _, .refl _, .refl _, .refl _, .refl _, .refl _, .refl _, .refl _, .refl _⟩

/-- The numbers of a library.  Only those of the library being compiled are new. -/
def within (n : Numbering) : Home → Numbering
  | .here => n
  | .kernel | .rely _ => .id

@[simp] theorem within_here (n : Numbering) : n.within .here = n := rfl

/-- Libraries other than the one being compiled keep their numbers. -/
theorem within_of_ne {n : Numbering} {home : Home} (away : home ≠ .here) : n.within home = .id := by
  cases home with
  | here => exact absurd rfl away
  | kernel | rely => rfl

/-! ### Types -/

/-- The new number of a type of some kind. -/
def ofKind (n : Numbering) : TypeKind → Equiv.Perm Nat
  | .struct | .handle => n.classes
  | .interface => n.interfaces
  | .delegate => n.delegates
  | .coroutine => n.coroutines
  | .invalid => .refl _

/-- A type under its new number. -/
def type (n : Numbering) (x : TypeId) : TypeId :=
  { x with index := (n.within x.home).ofKind x.kind x.index }

/-- A type reference with the new number of its type. -/
abbrev ref (n : Numbering) (x : TypeRef) : TypeRef := x.rename n.type

@[simp] theorem home_type (n : Numbering) (x : TypeId) : (n.type x).home = x.home := rfl

@[simp] theorem kind_type (n : Numbering) (x : TypeId) : (n.type x).kind = x.kind := rfl

@[simp] theorem type_kernel (n : Numbering) (kind : TypeKind) (index : Nat) :
    n.type ⟨.kernel, kind, index⟩ = ⟨.kernel, kind, index⟩ := by
  cases kind <;> rfl

theorem type_of_home_ne {n : Numbering} {x : TypeId} (away : x.home ≠ .here) : n.type x = x := by
  obtain ⟨home, kind, index⟩ := x
  rw [type, within_of_ne away]
  cases kind <;> rfl

theorem ref_of_home_ne {n : Numbering} {x : TypeRef} (away : x.id.home ≠ .here) : n.ref x = x := by
  rw [ref, TypeRef.rename, type_of_home_ne away]

theorem type_injective (n : Numbering) : Function.Injective n.type := by
  rintro ⟨home, kind, i⟩ ⟨home', kind', j⟩ equal
  simp only [type, TypeId.mk.injEq] at equal
  obtain ⟨rfl, rfl, equal⟩ := equal
  rw [Equiv.injective _ equal]

theorem ref_injective (n : Numbering) : Function.Injective n.ref := by
  rintro ⟨x, dimension⟩ ⟨y, dimension'⟩ equal
  simp only [ref, TypeRef.rename, TypeRef.mk.injEq] at equal
  rw [n.type_injective equal.1, equal.2]

/-! ### Declarations -/

/-- An entity under the new number of its entry. -/
def entity (n : Numbering) : Entity → Entity
  | .invalid => .invalid
  | .classDef i => .classDef (n.classes i)
  | .memberVariable c i => .memberVariable (n.classes c) i
  | .memberMethod c m => .memberMethod (n.classes c) m
  | .memberFunction c m o => .memberFunction (n.classes c) m o
  | .constructor c o => .constructor (n.classes c) o
  | .delegate i => .delegate (n.delegates i)
  | .coroutine i => .coroutine (n.coroutines i)
  | .interface i => .interface (n.interfaces i)
  | .interfaceMethod i m => .interfaceMethod (n.interfaces i) m
  | .interfaceFunction i m o => .interfaceFunction (n.interfaces i) m o
  | .globalVariable i => .globalVariable (n.globals i)
  | .globalMethod m => .globalMethod (n.methods m)
  | .globalFunction m o => .globalFunction (n.methods m) o
  | .nativeMethod m => .nativeMethod (n.natives m)
  | .nativeFunction m o => .nativeFunction (n.natives m) o
  | .lambda i => .lambda i
  | .localVariable i => .localVariable i

/-- A declaration of an entity under its new number. -/
def declaration (n : Numbering) (d : Declaration) : Declaration :=
  { d with entity := (n.within d.home).entity d.entity }

/-- A space under its new number. -/
def spaceRef (n : Numbering) (ref : SpaceRef) : SpaceRef :=
  { ref with space := (n.within ref.home).spaces ref.space }

@[simp] theorem home_declaration (n : Numbering) (d : Declaration) :
    (n.declaration d).home = d.home := rfl

@[simp] theorem visibility_declaration (n : Numbering) (d : Declaration) :
    (n.declaration d).visibility = d.visibility := rfl

@[simp] theorem entity_id (e : Entity) : Numbering.id.entity e = e := by
  cases e <;> rfl

@[simp] theorem isMethod_entity (n : Numbering) (e : Entity) :
    (n.entity e).isMethod = e.isMethod := by
  cases e <;> rfl

theorem group_entity (n : Numbering) (e : Entity) : (n.entity e).group = n.entity e.group := by
  cases e <;> rfl

theorem overload?_entity (n : Numbering) (e : Entity) (overload : Nat) :
    (n.entity e).overload? overload = (e.overload? overload).map n.entity := by
  cases e <;> rfl

theorem declaration_of_home_ne {n : Numbering} {d : Declaration} (away : d.home ≠ .here) :
    n.declaration d = d := by
  rw [declaration, within_of_ne away, entity_id]

theorem spaceRef_of_home_ne {n : Numbering} {ref : SpaceRef} (away : ref.home ≠ .here) :
    n.spaceRef ref = ref := by
  rw [spaceRef, within_of_ne away]
  rfl

theorem group_declaration (n : Numbering) (d : Declaration) :
    (n.declaration d).group = n.declaration d.group := by
  simp only [Declaration.group, declaration, group_entity]

theorem overload?_declaration (n : Numbering) (d : Declaration) (overload : Nat) :
    (n.declaration d).overload? overload = (d.overload? overload).map n.declaration := by
  simp only [Declaration.overload?, declaration, overload?_entity, Option.map_map]
  rfl

theorem entity_injective (n : Numbering) : Function.Injective n.entity := by
  intro e e' equal
  cases e <;> cases e' <;> simp_all [entity]

theorem declaration_injective (n : Numbering) : Function.Injective n.declaration := by
  rintro ⟨home, v, e⟩ ⟨home', v', e'⟩ equal
  simp only [declaration, Declaration.mk.injEq] at equal
  obtain ⟨rfl, rfl, equal⟩ := equal
  rw [entity_injective _ equal]

theorem spaceRef_injective (n : Numbering) : Function.Injective n.spaceRef := by
  rintro ⟨home, i⟩ ⟨home', j⟩ equal
  simp only [spaceRef, SpaceRef.mk.injEq] at equal
  obtain ⟨rfl, equal⟩ := equal
  rw [Equiv.injective _ equal]

/-! ### Entries -/

/-- A place in a file under the new number of the file. -/
def anchor (n : Numbering) (a : Anchor) : Anchor := { a with file := n.files a.file }

def typeSource (n : Numbering) (s : TypeSource) : TypeSource :=
  { s with anchor := n.anchor s.anchor }

def functionSource (n : Numbering) (s : FunctionSource) : FunctionSource :=
  { s with anchor := n.anchor s.anchor }

def variableSource (n : Numbering) (s : VariableSource) : VariableSource :=
  { s with anchor := n.anchor s.anchor }

def parameter (n : Numbering) (p : Parameter) : Parameter := { p with type := n.ref p.type }

/-- A function with the new numbers of its types and of its file. -/
def function (n : Numbering) (f : Function) : Function :=
  { f with
    params := f.params.map n.parameter
    returns := f.returns.map n.ref
    source := f.source.map n.functionSource }

/-- A method of a library with its functions. -/
def method (n : Numbering) (home : Home) (m : Method) : Method :=
  { m with space := (n.within home).spaces m.space, functions := m.functions.map n.function }

def field (n : Numbering) (v : MemberVariable) : MemberVariable :=
  { v with type := n.ref v.type, source := v.source.map n.variableSource }

/-- The members of a type under their new numbers. -/
def members (n : Numbering) (names : NameMap Declaration) : NameMap Declaration :=
  ⟨names.entries.map fun entry => (entry.1, n.declaration entry.2)⟩

/-- A class of a library with its members. -/
def classDef (n : Numbering) (home : Home) (c : ClassDef) : ClassDef :=
  { c with
    space := (n.within home).spaces c.space
    parent := n.ref c.parent
    interfaces := c.interfaces.map n.ref
    fields := c.fields.map n.field
    methods := c.methods.map (n.method home)
    constructors := c.constructors.map n.function
    members := n.members c.members
    source := c.source.map n.typeSource }

/-- An interface of a library with its members. -/
def interfaceDef (n : Numbering) (home : Home) (i : InterfaceDef) : InterfaceDef :=
  { i with
    space := (n.within home).spaces i.space
    inherits := i.inherits.map n.ref
    methods := i.methods.map (n.method home)
    members := n.members i.members
    source := i.source.map n.typeSource }

def delegateDef (n : Numbering) (home : Home) (d : DelegateDef) : DelegateDef :=
  { d with
    space := (n.within home).spaces d.space
    params := d.params.map n.parameter
    returns := d.returns.map n.ref
    source := d.source.map n.functionSource }

def coroutineDef (n : Numbering) (home : Home) (c : CoroutineDef) : CoroutineDef :=
  { c with
    space := (n.within home).spaces c.space
    returns := c.returns.map n.ref
    source := c.source.map n.functionSource }

/-- A variable of a space of a library. -/
def variableDef (n : Numbering) (home : Home) (v : VariableDef) : VariableDef :=
  { v with
    space := (n.within home).spaces v.space
    type := n.ref v.type
    source := v.source.map n.variableSource }

section

variable (n : Numbering)
include n

theorem find?_members (names : NameMap Declaration) (name : String) :
    (n.members names).find? name = (names.find? name).map n.declaration := by
  obtain ⟨entries⟩ := names
  show (entries.map _).lookup name = (entries.lookup name).map n.declaration
  induction entries with
  | nil => rfl
  | cons entry rest ih =>
    rw [List.map_cons, List.lookup_cons, List.lookup_cons, ih]
    split <;> rfl

theorem paramTypes_function (f : Function) :
    (n.function f).paramTypes = f.paramTypes.map n.ref := by
  simp [Function.paramTypes, function, parameter]

theorem map_ref_inj {xs ys : List TypeRef} : xs.map n.ref = ys.map n.ref ↔ xs = ys :=
  (List.map_injective_iff.2 n.ref_injective).eq_iff

theorem sameParams_function (f g : Function) :
    (n.function f).sameParams (n.function g) = f.sameParams g := by
  simp only [Function.sameParams, paramTypes_function, n.map_ref_inj]

@[simp] theorem visibility_function (f : Function) :
    (n.function f).visibility = f.visibility := rfl

@[simp] theorem returns_function (f : Function) :
    (n.function f).returns = f.returns.map n.ref := rfl

/-- Storage is a matter of the kind of a type and of the kernel alone. -/
theorem slotSize_ref (x : TypeRef) : (n.ref x).slotSize = x.slotSize := by
  by_cases own : x.id.home = .here
  · simp [TypeRef.slotSize, own]
  · rw [ref_of_home_ne own]

end

end Numbering

end Linkage
