/-
Purpose: The declarations of one library, as flat lists addressed by index.
-/
import Linkage.Declaration
import Linkage.NameMap
import Linkage.Source.Outline

/-!
The kernel, every library that is relied on and the library being compiled have tables of
one shape.  Spaces form a tree by the index of their parent.  Entries of the library
being compiled also carry their source: where they were written, and the type
expressions that linking has to resolve.
-/

namespace Linkage

/-- Where something was written: a file of the library and a place in it. -/
structure Anchor where
  file : Nat
  span : Span
deriving DecidableEq, Repr

/-- Where a class or an interface was written, and its inheritance list. -/
structure TypeSource where
  anchor : Anchor
  inherits : List TypeExpr
deriving DecidableEq, Repr

/-- Where a function was written, with its signature and body as written. -/
structure FunctionSource where
  anchor : Anchor
  params : List TypeExpr
  returns : List TypeExpr
  body : Option Body
deriving DecidableEq, Repr

/-- Where a variable was written, and its type as written. -/
structure VariableSource where
  anchor : Anchor
  type : TypeExpr
deriving DecidableEq, Repr

/-- A space: its name, its place in the tree and what is declared in it. -/
structure Space where
  name : String
  /-- The space around this one; the root has none. -/
  parent : Option Nat
  children : NameMap Nat
  declarations : NameMap Declaration
deriving DecidableEq

/-- The root space before anything is declared in it. -/
def Space.root : Space := ⟨"", none, .empty, .empty⟩

structure Parameter where
  name : String
  type : TypeRef
deriving DecidableEq, Repr

/-- One overload of a method, or a constructor. -/
structure Function where
  visibility : Visibility
  params : List Parameter
  returns : List TypeRef
  source : Option FunctionSource
deriving DecidableEq, Repr

namespace Function

def paramTypes (f : Function) : List TypeRef := f.params.map (·.type)

/-- Whether two functions take the same types. -/
def sameParams (f g : Function) : Bool := f.paramTypes = g.paramTypes

/-- Whether a body was written for the function. -/
def hasBody (f : Function) : Bool := (f.source.bind (·.body)).isSome

end Function

/-- The functions that share a name in one place. -/
structure Method where
  name : String
  /-- The declaring space; for members, that of their owner. -/
  space : Nat
  functions : List Function
deriving DecidableEq, Repr

structure MemberVariable where
  name : String
  visibility : Visibility
  type : TypeRef
  /-- Place among the bytes of the class itself. -/
  offset : Nat
  source : Option VariableSource
deriving DecidableEq, Repr

/-- A class, or a value type of the kernel. -/
structure ClassDef where
  name : String
  space : Nat
  visibility : Visibility
  kind : TypeKind
  /-- Invalid for value types and for the root of all handles. -/
  parent : TypeRef
  interfaces : List TypeRef
  fields : List MemberVariable
  methods : List Method
  constructors : List Function
  /-- Variables and methods by name. -/
  members : NameMap Declaration
  /-- The bytes of the variables of the class itself. -/
  size : Nat
  source : Option TypeSource
deriving DecidableEq

structure InterfaceDef where
  name : String
  space : Nat
  visibility : Visibility
  inherits : List TypeRef
  methods : List Method
  members : NameMap Declaration
  source : Option TypeSource
deriving DecidableEq

/-- A delegate: the name of a signature. -/
structure DelegateDef where
  name : String
  space : Nat
  visibility : Visibility
  params : List Parameter
  returns : List TypeRef
  source : Option FunctionSource
deriving DecidableEq, Repr

/-- A coroutine: a name with the types it returns. -/
structure CoroutineDef where
  name : String
  space : Nat
  visibility : Visibility
  returns : List TypeRef
  source : Option FunctionSource
deriving DecidableEq, Repr

structure VariableDef where
  name : String
  space : Nat
  visibility : Visibility
  constant : Bool
  type : TypeRef
  initializer : Option String
  /-- Place in the region of constants or of data. -/
  address : Nat
  source : Option VariableSource
deriving DecidableEq, Repr

/-- Everything that one library declares. -/
structure Table where
  name : String
  home : Home
  /-- The first space is the root. -/
  spaces : List Space
  classes : List ClassDef
  interfaces : List InterfaceDef
  delegates : List DelegateDef
  coroutines : List CoroutineDef
  globals : List VariableDef
  methods : List Method
  natives : List Method
deriving DecidableEq

/-- The table of a library that declares nothing. -/
def Table.empty (name : String) (home : Home) : Table :=
  ⟨name, home, [.root], [], [], [], [], [], [], []⟩

def Table.rootSpace : Nat := 0

end Linkage
