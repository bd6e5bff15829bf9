/-
Purpose: Artifacts as JSON values.
-/
import Linkage.Artifact.Basic
import Linkage.Rely.Codec

namespace Linkage

namespace Home

def toJson : Home → Json
  | kernel => .string "Kernel"
  | here => .string "Local"
  | rely index => .object [("Rely", .natural index)]

end Home

def TypeId.toJson (id : TypeId) : Json :=
  .object [("library", id.home.toJson), ("code", id.kind.toJson), ("index", .natural id.index)]

def TypeRef.toJson (t : TypeRef) : Json :=
  .object [("definition", t.id.toJson), ("dimension", .natural t.dimension)]

/-- An entity is written as its tag with its indices, or as its tag alone. -/
def Entity.toJson (e : Entity) : Json :=
  match e.tagged with
  | (tag, []) => .string tag
  | (tag, indices) => .object [(tag, .object (indices.map fun (name, i) => (name, .natural i)))]

def Declaration.toJson (d : Declaration) : Json :=
  .object [("library", d.home.toJson), ("visibility", d.visibility.toJson),
    ("kind", d.entity.toJson)]

def FunctionEntry.toJson (f : FunctionEntry) : Json :=
  .object [("visibility", f.visibility.toJson), ("params", .ofList TypeRef.toJson f.params),
    ("returns", .ofList TypeRef.toJson f.returns), ("has_body", .bool f.hasBody)]

def MethodEntry.toJson (m : MethodEntry) : Json :=
  .object [("name", .string m.name), ("functions", .ofList FunctionEntry.toJson m.functions)]

def FieldEntry.toJson (f : FieldEntry) : Json :=
  .object [("name", .string f.name), ("ty", f.type.toJson), ("offset", .natural f.offset)]

def ClassEntry.toJson (c : ClassEntry) : Json :=
  .object [("name", .string c.name), ("parent", c.parent.toJson),
    ("interfaces", .ofList TypeRef.toJson c.interfaces), ("size", .natural c.size),
    ("fields", .ofList FieldEntry.toJson c.fields),
    ("methods", .ofList MethodEntry.toJson c.methods),
    ("constructors", .ofList FunctionEntry.toJson c.constructors)]

def InterfaceEntry.toJson (i : InterfaceEntry) : Json :=
  .object [("name", .string i.name), ("inherits", .ofList TypeRef.toJson i.inherits),
    ("methods", .ofList MethodEntry.toJson i.methods)]

def SignatureEntry.toJson (s : SignatureEntry) : Json :=
  .object [("name", .string s.name), ("params", .ofList TypeRef.toJson s.params),
    ("returns", .ofList TypeRef.toJson s.returns)]

def VariableEntry.toJson (v : VariableEntry) : Json :=
  .object [("name", .string v.name), ("constant", .bool v.constant), ("ty", v.type.toJson),
    ("address", .natural v.address)]

def Binding.toJson (b : Binding) : Json :=
  .object [("definition", b.type.toJson), ("base", b.base.toJson),
    ("implementation", b.implementation.toJson)]

def Symbol.toJson (s : Symbol) : Json :=
  .object [("name", .string s.name), ("declaration", s.declaration.toJson)]

def DebugEntry.toJson (e : DebugEntry) : Json :=
  .object [("function", .string e.function), ("declaration", e.declaration.toJson),
    ("path", .string e.path), ("first_line", .natural e.firstLine),
    ("last_line", .natural e.lastLine)]

def Layout.toJson (l : Layout) : Json :=
  .object [("constant_size", .natural l.constantSize), ("data_size", .natural l.dataSize)]

/-- A field that is left out when there is no value for it. -/
def Json.optionalField {α : Type} (name : String) (f : α → Json) : Option α → List (String × Json)
  | none => []
  | some value => [(name, f value)]

/-- An artifact as a JSON value.  The tables that were not asked for are left out. -/
def Artifact.toJson (a : Artifact) : Json :=
  .object ([("name", .string a.name), ("dependencies", .ofList .string a.dependencies),
    ("code", .ofList (fun byte => .natural byte.toNat) a.code),
    ("strings", .ofList .string a.strings), ("layout", a.layout.toJson),
    ("implicit_exit", .bool a.implicitExit),
    ("definitions", .ofList ClassEntry.toJson a.classes),
    ("interfaces", .ofList InterfaceEntry.toJson a.interfaces),
    ("delegates", .ofList SignatureEntry.toJson a.delegates),
    ("coroutines", .ofList SignatureEntry.toJson a.coroutines),
    ("variables", .ofList VariableEntry.toJson a.globals),
    ("methods", .ofList MethodEntry.toJson a.methods),
    ("natives", .ofList MethodEntry.toJson a.natives),
    ("relocations", .ofList Binding.toJson a.bindings)] ++
    Json.optionalField "symbols" (Json.ofList Symbol.toJson) a.symbols ++
    Json.optionalField "debug" (Json.ofList DebugEntry.toJson) a.debug)

end Linkage
