/-
Purpose: What a completed compilation hands to the machine that runs it.
-/
import Linkage.Compile.Linked
import Linkage.Draft.Layout
import Linkage.Text.Order

/-!
Everything in an artifact is resolved: types are in the numbering of the compilation, in
which the rely libraries stand in the order of the dependencies, and addresses are final.
-/

namespace Linkage

/-- A function or constructor, by the types it takes and returns. -/
structure FunctionEntry where
  visibility : Visibility
  params : List TypeRef
  returns : List TypeRef
  hasBody : Bool
deriving DecidableEq

/-- The functions of one name. -/
structure MethodEntry where
  name : String
  functions : List FunctionEntry
deriving DecidableEq

/-- A variable of a class with its place among the bytes of the class. -/
structure FieldEntry where
  name : String
  type : TypeRef
  offset : Nat
deriving DecidableEq

/-- A class with its own members; inherited ones stay with its ancestors. -/
structure ClassEntry where
  name : String
  parent : TypeRef
  interfaces : List TypeRef
  /-- The bytes of the fields of the class itself. -/
  size : Nat
  fields : List FieldEntry
  methods : List MethodEntry
  constructors : List FunctionEntry
deriving DecidableEq

/-- An interface with its own functions. -/
structure InterfaceEntry where
  name : String
  inherits : List TypeRef
  methods : List MethodEntry
deriving DecidableEq

/-- The signature of a delegate or of a coroutine, which has no parameters. -/
structure SignatureEntry where
  name : String
  params : List TypeRef
  returns : List TypeRef
deriving DecidableEq

/-- A variable of a space with its address in the region it lives in. -/
structure VariableEntry where
  name : String
  constant : Bool
  type : TypeRef
  address : Nat
deriving DecidableEq

/-- A declaration by its full name. -/
structure Symbol where
  name : String
  declaration : Declaration
deriving DecidableEq

/-- The lines of the body of a function. -/
structure DebugEntry where
  function : String
  declaration : Declaration
  path : String
  firstLine : Nat
  lastLine : Nat
deriving DecidableEq

/-- The result of a completed compilation. -/
structure Artifact where
  name : String
  dependencies : List String
  code : List UInt8
  strings : List String
  layout : Layout
  /-- Whether functions return at their end without saying so. -/
  implicitExit : Bool
  classes : List ClassEntry
  interfaces : List InterfaceEntry
  delegates : List SignatureEntry
  coroutines : List SignatureEntry
  globals : List VariableEntry
  methods : List MethodEntry
  natives : List MethodEntry
  bindings : List Binding
  symbols : Option (List Symbol)
  debug : Option (List DebugEntry)
deriving DecidableEq

/-- A fault of the compiler itself. -/
inductive Accident where
  /-- A compilation was started inside another. -/
  | reentered
  /-- Containers of the pool were not given back. -/
  | imbalance (outstanding : Nat)
  /-- Something was written in a file that does not exist. -/
  | unknownFile (index : Nat)
  /-- A line that its file does not have. -/
  | unknownLine (path : String) (line lineCount : Nat)
deriving DecidableEq, Repr

namespace FunctionEntry

def ofFunction (f : Function) : FunctionEntry := ⟨f.visibility, f.paramTypes, f.returns, f.hasBody⟩

end FunctionEntry

def MethodEntry.ofMethod (m : Method) : MethodEntry :=
  ⟨m.name, m.functions.map FunctionEntry.ofFunction⟩

def ClassEntry.ofClass (c : ClassDef) : ClassEntry :=
  ⟨c.name, c.parent, c.interfaces, c.size, c.fields.map fun v => ⟨v.name, v.type, v.offset⟩,
    c.methods.map MethodEntry.ofMethod, c.constructors.map FunctionEntry.ofFunction⟩

namespace LinkedLibrary

/-- The declarations that symbols stand for: those of spaces and classes that are not
methods, and each function of every group. -/
def symbolDeclarations (t : Table) : List Declaration :=
  (t.spaces.flatMap fun s => s.declarations.values.filter fun d => !d.entity.isMethod) ++
  (t.classes.flatMap fun c => c.members.values.filter fun d => !d.entity.isMethod) ++
  (functions t).map (·.1)

/-- The symbols, in the order of their names. -/
def symbols (l : LinkedLibrary) : List Symbol :=
  ((symbolDeclarations l.draft.table).map fun d => ⟨l.catalog.fullName d, d⟩).mergeSort
    fun a b => Text.notAfter a.name.toList b.name.toList

/-- Whether one entry may stand before another: by path, then by first line. -/
def debugOrder (a b : DebugEntry) : Bool :=
  if a.path = b.path then a.firstLine ≤ b.firstLine
  else Text.notAfter a.path.toList b.path.toList

/-- The lines of one body.  They have to lie in the file. -/
def debugEntry (l : LinkedLibrary) (d : Declaration) (source : FunctionSource) (body : Body) :
    Except Accident DebugEntry :=
  match l.draft.files[source.anchor.file]? with
  | none => .error (.unknownFile source.anchor.file)
  | some file =>
    let line :=
      if body.lastLine < source.anchor.span.line then source.anchor.span.line else body.lastLine
    if file.lineCount < line ∨ body.lastLine < body.firstLine then
      .error (.unknownLine file.path line file.lineCount)
    else
      .ok ⟨l.catalog.fullName d, d, file.path, body.firstLine, body.lastLine⟩

/-- The lines of all bodies, in the order of their places. -/
def debugEntries (l : LinkedLibrary) : Except Accident (List DebugEntry) := do
  let entries ← l.bodies.mapM fun (d, source, body) => l.debugEntry d source body
  return entries.mergeSort debugOrder

end LinkedLibrary

/-- The artifact of a linked library with its generated code. -/
def Artifact.build (l : LinkedLibrary) (layout : Layout) (generated : Generated) :
    Except Accident Artifact := do
  let t := l.draft.table
  let debug ← if l.options.debugTable then some <$> l.debugEntries else pure none
  return {
    name := t.name
    dependencies := l.relies.map (·.name)
    code := generated.code
    strings := generated.strings
    layout
    implicitExit := !l.options.ignoreImplicitExit
    classes := t.classes.map ClassEntry.ofClass
    interfaces := t.interfaces.map fun i => ⟨i.name, i.inherits, i.methods.map MethodEntry.ofMethod⟩
    delegates := t.delegates.map fun x => ⟨x.name, x.params.map (·.type), x.returns⟩
    coroutines := t.coroutines.map fun x => ⟨x.name, [], x.returns⟩
    globals := t.globals.map fun v => ⟨v.name, v.constant, v.type, v.address⟩
    methods := t.methods.map MethodEntry.ofMethod
    natives := t.natives.map MethodEntry.ofMethod
    bindings := l.bindings
    symbols := if l.options.symbolTable then some l.symbols else none
    debug }

end Linkage
