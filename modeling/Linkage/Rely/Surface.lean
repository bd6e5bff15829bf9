/-
Purpose: What a compiled library shows to the libraries that rely on it.
-/
import Linkage.TypeRef
import Linkage.Visibility

/-!
A surface is flat and addressed by index.  Its types say where they come from as the
exporting library saw it: the kernel, that library itself, or one of its dependencies by
its position in the list of dependencies.  All entries of spaces are public.
-/

namespace Linkage

/-- Where a type comes from, seen from the exporting library. -/
inductive SurfaceOrigin where
  | kernel
  | own
  | dependency (index : Nat)
deriving DecidableEq, Repr

/-- A type under array brackets, by origin, kind and position. -/
structure SurfaceType where
  origin : SurfaceOrigin
  kind : TypeKind
  index : Nat
  dimension : Nat
deriving DecidableEq, Repr

def SurfaceType.invalid : SurfaceType := ⟨.kernel, .invalid, 0, 0⟩

/-- A space, by its name and the space around it. -/
structure SurfaceSpace where
  name : String
  parent : Option Nat
deriving DecidableEq, Repr

structure SurfaceParameter where
  name : String
  type : SurfaceType
deriving DecidableEq, Repr

/-- One overload of a method, or a constructor. -/
structure SurfaceFunction where
  visibility : Visibility
  params : List SurfaceParameter
  returns : List SurfaceType
deriving DecidableEq, Repr

/-- The exported functions that share a name in one place. -/
structure SurfaceMethod where
  name : String
  space : Nat
  functions : List SurfaceFunction
deriving DecidableEq, Repr

structure SurfaceMember where
  name : String
  visibility : Visibility
  type : SurfaceType
deriving DecidableEq, Repr

/-- A class with its exported members. -/
structure SurfaceClass where
  name : String
  space : Nat
  parent : SurfaceType
  interfaces : List SurfaceType
  fields : List SurfaceMember
  methods : List SurfaceMethod
  constructors : List SurfaceFunction
deriving DecidableEq, Repr

structure SurfaceInterface where
  name : String
  space : Nat
  inherits : List SurfaceType
  methods : List SurfaceMethod
deriving DecidableEq, Repr

structure SurfaceDelegate where
  name : String
  space : Nat
  params : List SurfaceParameter
  returns : List SurfaceType
deriving DecidableEq, Repr

structure SurfaceCoroutine where
  name : String
  space : Nat
  returns : List SurfaceType
deriving DecidableEq, Repr

structure SurfaceVariable where
  name : String
  space : Nat
  constant : Bool
  type : SurfaceType
deriving DecidableEq, Repr

/-- The exported part of a library. -/
structure Surface where
  name : String
  /-- The names of the libraries that its types may come from. -/
  dependencies : List String
  /-- The first space is the root. -/
  spaces : List SurfaceSpace
  classes : List SurfaceClass
  interfaces : List SurfaceInterface
  delegates : List SurfaceDelegate
  coroutines : List SurfaceCoroutine
  globals : List SurfaceVariable
  methods : List SurfaceMethod
  natives : List SurfaceMethod
deriving DecidableEq, Repr

namespace Surface

/-- The surface of a library that exports nothing. -/
def empty (name : String) : Surface := ⟨name, [], [⟨"", none⟩], [], [], [], [], [], [], []⟩

def typeCount (s : Surface) : TypeKind → Nat
  | .handle => s.classes.length
  | .interface => s.interfaces.length
  | .delegate => s.delegates.length
  | .coroutine => s.coroutines.length
  | .struct | .invalid => 0

end Surface

end Linkage
