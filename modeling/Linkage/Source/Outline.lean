/-
Purpose: The declarations of a source file, with types by name and bodies as raw text.
-/
import Linkage.Diagnostic.Basic

namespace Linkage

/-- A type as it is written: a dotted name and array brackets. -/
structure TypeExpr where
  path : List String
  dimension : Nat
  span : Span
deriving DecidableEq, Repr

namespace TypeExpr

/-- Whether this is a name alone, with neither dots nor brackets. -/
def isSimple (e : TypeExpr) : Bool := e.path.length == 1 && e.dimension == 0

/-- Whether two type expressions are written alike, wherever they stand. -/
def sameText (e f : TypeExpr) : Bool := e.path = f.path && e.dimension = f.dimension

def text (e : TypeExpr) : String :=
  String.intercalate "." e.path ++ String.join (List.replicate e.dimension "[]")

end TypeExpr

/-- The lines under a function, untouched. -/
structure Body where
  firstLine : Nat
  lastLine : Nat
  text : String
deriving DecidableEq, Repr

/-- A parameter, whose name may be left out. -/
structure ParameterDecl where
  name : Option String
  type : TypeExpr
  span : Span
deriving DecidableEq, Repr

/-- A function, a native function or a constructor. -/
structure FunctionDecl where
  visibility : Option Visibility
  name : String
  span : Span
  params : List ParameterDecl
  returns : List TypeExpr
  body : Option Body
deriving DecidableEq, Repr

/-- A variable of a space or of a class. -/
structure VariableDecl where
  visibility : Option Visibility
  constant : Bool
  name : String
  span : Span
  type : TypeExpr
  /-- The text after `=`. -/
  initializer : Option String
deriving DecidableEq, Repr

/-- A class with its members, sorted by what they are. -/
structure ClassDecl where
  visibility : Option Visibility
  name : String
  span : Span
  inherits : List TypeExpr
  fields : List VariableDecl
  functions : List FunctionDecl
  constructors : List FunctionDecl
deriving DecidableEq, Repr

structure InterfaceDecl where
  visibility : Option Visibility
  name : String
  span : Span
  inherits : List TypeExpr
  functions : List FunctionDecl
deriving DecidableEq, Repr

/-- A delegate: the name of a signature. -/
structure DelegateDecl where
  visibility : Option Visibility
  name : String
  span : Span
  params : List ParameterDecl
  returns : List TypeExpr
deriving DecidableEq, Repr

/-- A coroutine: a name with the types it returns. -/
structure CoroutineDecl where
  visibility : Option Visibility
  name : String
  span : Span
  returns : List TypeExpr
deriving DecidableEq, Repr

/-- A declaration of a space. -/
inductive Item where
  | space (name : String) (span : Span) (items : List Item)
  | classDecl (decl : ClassDecl)
  | interfaceDecl (decl : InterfaceDecl)
  | delegateDecl (decl : DelegateDecl)
  | coroutineDecl (decl : CoroutineDecl)
  | variableDecl (decl : VariableDecl)
  | functionDecl (decl : FunctionDecl)
  | nativeDecl (decl : FunctionDecl)

/-- A request to see the declarations of another space without naming it. -/
structure ImportDecl where
  path : List String
  span : Span
deriving DecidableEq, Repr

/-- One source file: its imports, and what it declares in the root space. -/
structure Outline where
  imports : List ImportDecl
  items : List Item

end Linkage
