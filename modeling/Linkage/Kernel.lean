/-
Purpose: The built-in library, visible everywhere without an import.
-/
import Linkage.Table.Spaces

namespace Linkage.Kernel

def name : String := "kernel"

/-- Parameters with names that tell only their position. -/
def unnamed (types : List TypeId) : List Parameter :=
  types.mapIdx fun i type => ⟨s!"arg{i}", type.scalar⟩

/-- A public function of the kernel. -/
def function (params returns : List TypeId) : Function :=
  ⟨.public_, unnamed params, returns.map TypeId.scalar, none⟩

/-- A kernel type: its name and kind, its components, and its methods with what they
return. -/
structure Entry where
  name : String
  kind : TypeKind
  components : List String := []
  methods : List (String × List TypeId) := []

/-- The kernel types in the order of their indices. -/
def entries : List Entry :=
  [{ name := "bool", kind := .struct }, { name := "byte", kind := .struct },
   { name := "char", kind := .struct },
   { name := "integer", kind := .struct },
   { name := "real", kind := .struct },
   { name := "real2", kind := .struct, components := ["x", "y"] },
   { name := "real3", kind := .struct, components := ["x", "y", "z"] },
   { name := "real4", kind := .struct, components := ["x", "y", "z", "w"] },
   { name := "string", kind := .struct, methods := [("GetLength", [.integer])] },
   { name := "entity", kind := .struct },
   { name := "handle", kind := .handle,
     methods := [("GetHashCode", [.integer]), ("ToString", [.string])] },
   { name := "interface", kind := .handle },
   { name := "delegate", kind := .handle },
   { name := "coroutine", kind := .handle,
     methods := [("Start", []), ("Abort", []), ("IsRunning", [.bool])] },
   { name := "array", kind := .handle, methods := [("GetLength", [.integer])] },
   { name := "null", kind := .handle }]

/-- The definition of a kernel type.  Components are reals, one after the other, and the
root of all handles is the parent of every other handle. -/
def classDef (index : Nat) (e : Entry) : ClassDef where
  name := e.name
  space := Table.rootSpace
  visibility := .public_
  kind := e.kind
  parent :=
    if e.kind = .handle ∧ index ≠ TypeId.handle.index then TypeId.handle.scalar
    else TypeRef.invalid
  interfaces := []
  fields := e.components.mapIdx fun i component =>
    ⟨component, .public_, TypeId.real.scalar, i * TypeId.real.scalar.slotSize, none⟩
  methods := e.methods.map fun (method, returns) => ⟨method, Table.rootSpace, [function [] returns]⟩
  constructors := []
  members :=
    ⟨e.components.mapIdx (fun i component =>
        (component, ⟨.kernel, .public_, .memberVariable index i⟩)) ++
      e.methods.mapIdx (fun i (method, _) => (method, ⟨.kernel, .public_, .memberMethod index i⟩))⟩
  size := e.components.length * TypeId.real.scalar.slotSize
  source := none

/-- The kernel functions by name, each overload with its parameters and returns. -/
def globals : List (String × List (List TypeId × List TypeId)) :=
  -- Scalars
  [("Abs", [([.integer], [.integer]), ([.real], [.real])]),
   ("Sign", [([.integer], [.integer]), ([.real], [.integer])]),
   ("Max", [([.integer, .integer], [.integer]), ([.real, .real], [.real])]),
   ("Min", [([.integer, .integer], [.integer]), ([.real, .real], [.real])]),
   ("Clamp", [([.integer, .integer, .integer], [.integer]), ([.real, .real, .real], [.real])]),
   ("Clamp01", [([.real], [.real])]),
   ("Lerp", [([.real, .real, .real], [.real])]),
   ("Sqrt", [([.real], [.real])]),
   ("Sin", [([.real], [.real])]),
   ("Cos", [([.real], [.real])]),
   ("Tan", [([.real], [.real])]),
   ("Asin", [([.real], [.real])]),
   ("Acos", [([.real], [.real])]),
   ("Atan", [([.real], [.real])]),
   ("Atan2", [([.real, .real], [.real])]),
   ("Exp", [([.real], [.real])]),
   ("Ln", [([.real], [.real])]),
   ("Log", [([.real, .real], [.real])]),
   ("Pow", [([.real, .real], [.real])]),
   ("Floor", [([.real], [.integer])]),
   ("Ceil", [([.real], [.integer])]),
   ("Round", [([.real], [.integer])]),
   -- Vectors
   ("Dot", [([.real2, .real2], [.real]), ([.real3, .real3], [.real]), ([.real4, .real4], [.real])]),
   ("Cross", [([.real3, .real3], [.real3])]),
   ("Length", [([.real2], [.real]), ([.real3], [.real]), ([.real4], [.real])]),
   ("Normalize", [([.real2], [.real2]), ([.real3], [.real3]), ([.real4], [.real4])]),
   ("Angle", [([.real2, .real2], [.real])]),
   -- The running program
   ("Collect", [([], [])]),
   ("HeapTotalMemory", [([], [.integer])]),
   ("CountHandle", [([], [.integer])]),
   ("GetRandomInt", [([], [.integer])]),
   ("GetRandomReal", [([], [.real])]),
   ("SetRandomSeed", [([.integer], [])]),
   ("Print", [([.string], [])])]

/-- The kernel constants with the text of their values. -/
def constants : List (String × String) :=
  [("PI", "3.14159265358979323846"), ("E", "2.71828182845904523536")]

/-- The root space of the kernel.  The type of null is the last one and has no name that
source text could use. -/
def root : Space :=
  { Space.root with
    declarations :=
      ⟨(entries.mapIdx fun i e => (e.name, ⟨.kernel, .public_, .classDef i⟩)).dropLast ++
        globals.mapIdx (fun i (name, _) => (name, ⟨.kernel, .public_, .globalMethod i⟩)) ++
        constants.mapIdx (fun i (name, _) => (name, ⟨.kernel, .public_, .globalVariable i⟩))⟩ }

def table : Table :=
  { Table.empty name .kernel with
    spaces := [root]
    classes := entries.mapIdx classDef
    globals := constants.map fun (name, value) =>
      ⟨name, Table.rootSpace, .public_, true, TypeId.real.scalar, some value, 0, none⟩
    methods := globals.map fun (name, overloads) =>
      ⟨name, Table.rootSpace, overloads.map fun (params, returns) => function params returns⟩ }

end Linkage.Kernel
