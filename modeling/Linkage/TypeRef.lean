/-
Purpose: Resolved references to types, and the storage a value of a type takes.
-/

namespace Linkage

/-- The library in which something lives, seen from one compilation. -/
inductive Home where
  /-- The built-in library. -/
  | kernel
  /-- The library being compiled. -/
  | here
  /-- The library at a position of the rely list. -/
  | rely (index : Nat)
deriving DecidableEq, Repr, Inhabited

inductive TypeKind where
  /-- No type: the mark of a reference that could not be resolved. -/
  | invalid
  /-- The value types of the kernel. -/
  | struct
  /-- Classes, and the reference roots of the kernel. -/
  | handle
  | interface
  | delegate
  | coroutine
deriving DecidableEq, Repr, Inhabited

namespace TypeKind

def all : List TypeKind := [invalid, struct, handle, interface, delegate, coroutine]

/-- The name of a kind in messages and in written surfaces. -/
def text : TypeKind → String
  | invalid => "Invalid"
  | struct => "Struct"
  | handle => "Handle"
  | interface => "Interface"
  | delegate => "Delegate"
  | coroutine => "Coroutine"

def ofText? (name : String) : Option TypeKind := all.find? fun kind => kind.text = name

/-- Whether types of this kind are stored among the class definitions of a table. -/
def isDefinition : TypeKind → Bool
  | struct | handle => true
  | _ => false

end TypeKind

/-- A type of a particular library.  The index counts the library's types of that kind. -/
structure TypeId where
  home : Home
  kind : TypeKind
  index : Nat
deriving DecidableEq, Repr, Inhabited

namespace TypeId

def kernel (kind : TypeKind) (index : Nat) : TypeId := ⟨.kernel, kind, index⟩

/-- No type: what a reference that could not be resolved names. -/
def invalid : TypeId := kernel .invalid 0
def bool : TypeId := kernel .struct 0
def byte : TypeId := kernel .struct 1
def char : TypeId := kernel .struct 2
def integer : TypeId := kernel .struct 3
def real : TypeId := kernel .struct 4
def real2 : TypeId := kernel .struct 5
def real3 : TypeId := kernel .struct 6
def real4 : TypeId := kernel .struct 7
def string : TypeId := kernel .struct 8
def entity : TypeId := kernel .struct 9
/-- The root of all reference types. -/
def handle : TypeId := kernel .handle 10
/-- The root of all interfaces. -/
def interface : TypeId := kernel .handle 11
/-- The root of all delegates. -/
def delegate : TypeId := kernel .handle 12
/-- The root of all coroutines. -/
def coroutine : TypeId := kernel .handle 13
/-- The root of all arrays. -/
def array : TypeId := kernel .handle 14
/-- The type of the null literal, which source text cannot name. -/
def null : TypeId := kernel .handle 15

/-- Whether this names a type at all. -/
def isValid (id : TypeId) : Bool := id.kind ≠ .invalid

end TypeId

/-- A type as it stands in a signature: a named type under some array brackets. -/
structure TypeRef where
  id : TypeId
  /-- The number of array brackets; 0 for the type itself. -/
  dimension : Nat
deriving DecidableEq, Repr, Inhabited

/-- The type itself, with no array brackets. -/
def TypeId.scalar (id : TypeId) : TypeRef := ⟨id, 0⟩

namespace TypeRef

/-- The reference that could not be resolved. -/
def invalid : TypeRef := TypeId.invalid.scalar

/-- Whether the reference was resolved. -/
def isValid (type : TypeRef) : Bool := type.id.isValid

def isArray (type : TypeRef) : Bool := 0 < type.dimension

/-- Whether values of the type are references, and so may be null. -/
def isReference (type : TypeRef) : Bool :=
  type.isArray ||
    match type.id.kind with
    | .handle | .interface | .delegate | .coroutine => true
    | .invalid | .struct => false

/-- The bytes that a slot holding a value of the type takes. -/
def slotSize (type : TypeRef) : Nat :=
  if type.isReference || type.id.home ≠ .kernel then 4
  else match type.id.index with
    | 0 | 1 => 1
    | 2 => 2
    | 3 | 4 => 8
    | 5 => 16
    | 6 => 24
    | 7 => 32
    | _ => 4

end TypeRef

end Linkage
