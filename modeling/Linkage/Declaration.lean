/-
Purpose: Identities of everything that can be declared.
-/
import Linkage.TypeRef
import Linkage.Visibility

namespace Linkage

/-- What is declared, by its place in the table of its library.  A method is a group of
functions that share a name; a function is one overload of such a group. -/
inductive Entity where
  | invalid
  | classDef (index : Nat)
  | memberVariable (owner index : Nat)
  | memberMethod (owner method : Nat)
  | memberFunction (owner method overload : Nat)
  | constructor (owner overload : Nat)
  | delegate (index : Nat)
  | coroutine (index : Nat)
  | interface (index : Nat)
  | interfaceMethod (owner method : Nat)
  | interfaceFunction (owner method overload : Nat)
  | globalVariable (index : Nat)
  | globalMethod (method : Nat)
  | globalFunction (method overload : Nat)
  | nativeMethod (method : Nat)
  | nativeFunction (method overload : Nat)
  | lambda (index : Nat)
  | localVariable (index : Nat)
deriving DecidableEq, Repr, Inhabited

namespace Entity

/-- The words for an entity in messages. -/
def describe : Entity → String
  | invalid => "invalid"
  | classDef _ => "class"
  | memberVariable .. => "member variable"
  | memberMethod .. => "member method"
  | memberFunction .. => "member function"
  | constructor .. => "constructor"
  | delegate _ => "delegate"
  | coroutine _ => "coroutine"
  | interface _ => "interface"
  | interfaceMethod .. => "interface method"
  | interfaceFunction .. => "interface function"
  | globalVariable _ => "variable"
  | globalMethod _ => "method"
  | globalFunction .. => "function"
  | nativeMethod _ => "native method"
  | nativeFunction .. => "native function"
  | lambda _ => "lambda"
  | localVariable _ => "local"

/-- The tag of an entity in written artifacts, with its named indices in order. -/
def tagged : Entity → String × List (String × Nat)
  | invalid => ("Invalid", [])
  | classDef i => ("Definition", [("index", i)])
  | memberVariable c i => ("MemberVariable", [("definition", c), ("index", i)])
  | memberMethod c m => ("MemberMethod", [("definition", c), ("method", m)])
  | memberFunction c m o => ("MemberFunction", [("definition", c), ("method", m), ("overload", o)])
  | constructor c o => ("Constructor", [("definition", c), ("overload", o)])
  | delegate i => ("Delegate", [("index", i)])
  | coroutine i => ("Coroutine", [("index", i)])
  | interface i => ("Interface", [("index", i)])
  | interfaceMethod i m => ("InterfaceMethod", [("interface", i), ("method", m)])
  | interfaceFunction i m o =>
    ("InterfaceFunction", [("interface", i), ("method", m), ("overload", o)])
  | globalVariable i => ("GlobalVariable", [("index", i)])
  | globalMethod m => ("GlobalMethod", [("method", m)])
  | globalFunction m o => ("GlobalFunction", [("method", m), ("overload", o)])
  | nativeMethod m => ("NativeMethod", [("method", m)])
  | nativeFunction m o => ("NativeFunction", [("method", m), ("overload", o)])
  | lambda i => ("Lambda", [("index", i)])
  | localVariable i => ("Local", [("index", i)])

/-- The entity with a given tag and indices. -/
def ofTagged? : String → List Nat → Option Entity
  | "Invalid", [] => some invalid
  | "Definition", [i] => some (classDef i)
  | "MemberVariable", [c, i] => some (memberVariable c i)
  | "MemberMethod", [c, m] => some (memberMethod c m)
  | "MemberFunction", [c, m, o] => some (memberFunction c m o)
  | "Constructor", [c, o] => some (constructor c o)
  | "Delegate", [i] => some (delegate i)
  | "Coroutine", [i] => some (coroutine i)
  | "Interface", [i] => some (interface i)
  | "InterfaceMethod", [i, m] => some (interfaceMethod i m)
  | "InterfaceFunction", [i, m, o] => some (interfaceFunction i m o)
  | "GlobalVariable", [i] => some (globalVariable i)
  | "GlobalMethod", [m] => some (globalMethod m)
  | "GlobalFunction", [m, o] => some (globalFunction m o)
  | "NativeMethod", [m] => some (nativeMethod m)
  | "NativeFunction", [m, o] => some (nativeFunction m o)
  | "Lambda", [i] => some (lambda i)
  | "Local", [i] => some (localVariable i)
  | _, _ => none

/-- Whether this is a method, the thing that overload selection starts from. -/
def isMethod : Entity → Bool
  | memberMethod .. | interfaceMethod .. | globalMethod _ | nativeMethod _ => true
  | _ => false

/-- The method that a function belongs to; anything else stands for itself. -/
def group : Entity → Entity
  | memberFunction c m _ => memberMethod c m
  | interfaceFunction i m _ => interfaceMethod i m
  | globalFunction m _ => globalMethod m
  | nativeFunction m _ => nativeMethod m
  | other => other

def overload? (overload : Nat) : Entity → Option Entity
  | memberMethod c m => some (memberFunction c m overload)
  | interfaceMethod i m => some (interfaceFunction i m overload)
  | globalMethod m => some (globalFunction m overload)
  | nativeMethod m => some (nativeFunction m overload)
  | _ => none

end Entity

/-- An entity together with the library it lives in and who may refer to it. -/
structure Declaration where
  home : Home
  visibility : Visibility
  entity : Entity
deriving DecidableEq, Repr, Inhabited

namespace Declaration

def isValid (d : Declaration) : Bool := d.entity ≠ .invalid

/-- The method that a function declaration belongs to, or the declaration itself. -/
def group (d : Declaration) : Declaration := { d with entity := d.entity.group }

/-- One function of a method declaration; it keeps the visibility of the method. -/
def overload? (d : Declaration) (overload : Nat) : Option Declaration :=
  (d.entity.overload? overload).map fun entity => { d with entity }

end Declaration

/-- A space of some library. -/
structure SpaceRef where
  home : Home
  space : Nat
deriving DecidableEq, Repr, Inhabited

end Linkage
