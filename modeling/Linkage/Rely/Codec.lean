/-
Purpose: Surfaces as JSON values.
-/
import Linkage.Json.Basic
import Linkage.Rely.Surface

namespace Linkage

/-! ### Words -/

namespace Visibility

/-- The name of a visibility in written surfaces and artifacts. -/
def variant : Visibility → String
  | public_ => "Public"
  | internal => "Internal"
  | space => "Space"
  | protected_ => "Protected"
  | private_ => "Private"

/-- The visibility with a given name. -/
def ofVariant? (name : String) : Option Visibility := all.find? fun v => v.variant = name

def toJson (v : Visibility) : Json := .string v.variant

def ofJson? (j : Json) : Option Visibility := j.plainVariant?.bind ofVariant?

end Visibility

namespace TypeKind

def toJson (kind : TypeKind) : Json := .string kind.text

def ofJson? (j : Json) : Option TypeKind := j.plainVariant?.bind ofText?

end TypeKind

namespace SurfaceOrigin

def toJson : SurfaceOrigin → Json
  | kernel => .string "Kernel"
  | own => .string "Own"
  | dependency index => .object [("Dependency", .natural index)]

def ofJson? (j : Json) : Option SurfaceOrigin :=
  match j.variant? with
  | some ("Kernel", none) | some ("Kernel", some .null) => some kernel
  | some ("Own", none) | some ("Own", some .null) => some own
  | some ("Dependency", some index) => index.natural?.map dependency
  | _ => none

end SurfaceOrigin

/-! ### Records -/

namespace SurfaceType

def layout : List Json.Field := Json.required ["library", "code", "index", "dimension"]

def toJson (t : SurfaceType) : Json :=
  .object [("library", t.origin.toJson), ("code", t.kind.toJson), ("index", .natural t.index),
    ("dimension", .natural t.dimension)]

def ofJson? (j : Json) : Option SurfaceType := do
  match ← j.record? layout with
  | [origin, kind, index, dimension] =>
    return ⟨← SurfaceOrigin.ofJson? origin, ← TypeKind.ofJson? kind, ← index.natural?,
      ← dimension.natural?⟩
  | _ => none

end SurfaceType

namespace SurfaceSpace

/-- A space with no parent may leave the field out. -/
def layout : List Json.Field := [⟨"name", false⟩, ⟨"parent", true⟩]

def toJson (s : SurfaceSpace) : Json :=
  .object [("name", .string s.name), ("parent", .ofOption .natural s.parent)]

def ofJson? (j : Json) : Option SurfaceSpace := do
  match ← j.record? layout with
  | [name, parent] => return ⟨← name.string?, ← parent.option? Json.natural?⟩
  | _ => none

end SurfaceSpace

namespace SurfaceParameter

def layout : List Json.Field := Json.required ["name", "ty"]

def toJson (p : SurfaceParameter) : Json :=
  .object [("name", .string p.name), ("ty", p.type.toJson)]

def ofJson? (j : Json) : Option SurfaceParameter := do
  match ← j.record? layout with
  | [name, type] => return ⟨← name.string?, ← SurfaceType.ofJson? type⟩
  | _ => none

end SurfaceParameter

namespace SurfaceFunction

def layout : List Json.Field := Json.required ["visibility", "params", "returns"]

def toJson (f : SurfaceFunction) : Json :=
  .object [("visibility", f.visibility.toJson),
    ("params", .ofList SurfaceParameter.toJson f.params),
    ("returns", .ofList SurfaceType.toJson f.returns)]

def ofJson? (j : Json) : Option SurfaceFunction := do
  match ← j.record? layout with
  | [visibility, params, returns] =>
    return ⟨← Visibility.ofJson? visibility, ← params.list? SurfaceParameter.ofJson?,
      ← returns.list? SurfaceType.ofJson?⟩
  | _ => none

end SurfaceFunction

namespace SurfaceMethod

def layout : List Json.Field := Json.required ["name", "space", "functions"]

def toJson (m : SurfaceMethod) : Json :=
  .object [("name", .string m.name), ("space", .natural m.space),
    ("functions", .ofList SurfaceFunction.toJson m.functions)]

def ofJson? (j : Json) : Option SurfaceMethod := do
  match ← j.record? layout with
  | [name, space, functions] =>
    return ⟨← name.string?, ← space.natural?, ← functions.list? SurfaceFunction.ofJson?⟩
  | _ => none

end SurfaceMethod

namespace SurfaceMember

def layout : List Json.Field := Json.required ["name", "visibility", "ty"]

def toJson (m : SurfaceMember) : Json :=
  .object [("name", .string m.name), ("visibility", m.visibility.toJson), ("ty", m.type.toJson)]

def ofJson? (j : Json) : Option SurfaceMember := do
  match ← j.record? layout with
  | [name, visibility, type] =>
    return ⟨← name.string?, ← Visibility.ofJson? visibility, ← SurfaceType.ofJson? type⟩
  | _ => none

end SurfaceMember

namespace SurfaceClass

def layout : List Json.Field :=
  Json.required ["name", "space", "parent", "interfaces", "variables", "methods", "constructors"]

def toJson (c : SurfaceClass) : Json :=
  .object [("name", .string c.name), ("space", .natural c.space), ("parent", c.parent.toJson),
    ("interfaces", .ofList SurfaceType.toJson c.interfaces),
    ("variables", .ofList SurfaceMember.toJson c.fields),
    ("methods", .ofList SurfaceMethod.toJson c.methods),
    ("constructors", .ofList SurfaceFunction.toJson c.constructors)]

def ofJson? (j : Json) : Option SurfaceClass := do
  match ← j.record? layout with
  | [name, space, parent, interfaces, fields, methods, constructors] =>
    return ⟨← name.string?, ← space.natural?, ← SurfaceType.ofJson? parent,
      ← interfaces.list? SurfaceType.ofJson?, ← fields.list? SurfaceMember.ofJson?,
      ← methods.list? SurfaceMethod.ofJson?, ← constructors.list? SurfaceFunction.ofJson?⟩
  | _ => none

end SurfaceClass

namespace SurfaceInterface

def layout : List Json.Field := Json.required ["name", "space", "inherits", "methods"]

def toJson (i : SurfaceInterface) : Json :=
  .object [("name", .string i.name), ("space", .natural i.space),
    ("inherits", .ofList SurfaceType.toJson i.inherits),
    ("methods", .ofList SurfaceMethod.toJson i.methods)]

def ofJson? (j : Json) : Option SurfaceInterface := do
  match ← j.record? layout with
  | [name, space, inherits, methods] =>
    return ⟨← name.string?, ← space.natural?, ← inherits.list? SurfaceType.ofJson?,
      ← methods.list? SurfaceMethod.ofJson?⟩
  | _ => none

end SurfaceInterface

namespace SurfaceDelegate

def layout : List Json.Field := Json.required ["name", "space", "params", "returns"]

def toJson (d : SurfaceDelegate) : Json :=
  .object [("name", .string d.name), ("space", .natural d.space),
    ("params", .ofList SurfaceParameter.toJson d.params),
    ("returns", .ofList SurfaceType.toJson d.returns)]

def ofJson? (j : Json) : Option SurfaceDelegate := do
  match ← j.record? layout with
  | [name, space, params, returns] =>
    return ⟨← name.string?, ← space.natural?, ← params.list? SurfaceParameter.ofJson?,
      ← returns.list? SurfaceType.ofJson?⟩
  | _ => none

end SurfaceDelegate

namespace SurfaceCoroutine

def layout : List Json.Field := Json.required ["name", "space", "returns"]

def toJson (c : SurfaceCoroutine) : Json :=
  .object [("name", .string c.name), ("space", .natural c.space),
    ("returns", .ofList SurfaceType.toJson c.returns)]

def ofJson? (j : Json) : Option SurfaceCoroutine := do
  match ← j.record? layout with
  | [name, space, returns] =>
    return ⟨← name.string?, ← space.natural?, ← returns.list? SurfaceType.ofJson?⟩
  | _ => none

end SurfaceCoroutine

namespace SurfaceVariable

def layout : List Json.Field := Json.required ["name", "space", "constant", "ty"]

def toJson (v : SurfaceVariable) : Json :=
  .object [("name", .string v.name), ("space", .natural v.space), ("constant", .bool v.constant),
    ("ty", v.type.toJson)]

def ofJson? (j : Json) : Option SurfaceVariable := do
  match ← j.record? layout with
  | [name, space, constant, type] =>
    return ⟨← name.string?, ← space.natural?, ← constant.bool?, ← SurfaceType.ofJson? type⟩
  | _ => none

end SurfaceVariable

namespace Surface

def layout : List Json.Field :=
  Json.required ["name", "dependencies", "spaces", "definitions", "interfaces", "delegates",
    "coroutines", "variables", "methods", "natives"]

def toJson (s : Surface) : Json :=
  .object [("name", .string s.name), ("dependencies", .ofList .string s.dependencies),
    ("spaces", .ofList SurfaceSpace.toJson s.spaces),
    ("definitions", .ofList SurfaceClass.toJson s.classes),
    ("interfaces", .ofList SurfaceInterface.toJson s.interfaces),
    ("delegates", .ofList SurfaceDelegate.toJson s.delegates),
    ("coroutines", .ofList SurfaceCoroutine.toJson s.coroutines),
    ("variables", .ofList SurfaceVariable.toJson s.globals),
    ("methods", .ofList SurfaceMethod.toJson s.methods),
    ("natives", .ofList SurfaceMethod.toJson s.natives)]

def ofJson? (j : Json) : Option Surface := do
  match ← j.record? layout with
  | [name, dependencies, spaces, classes, interfaces, delegates, coroutines, globals, methods,
      natives] =>
    return ⟨← name.string?, ← dependencies.list? Json.string?, ← spaces.list? SurfaceSpace.ofJson?,
      ← classes.list? SurfaceClass.ofJson?, ← interfaces.list? SurfaceInterface.ofJson?,
      ← delegates.list? SurfaceDelegate.ofJson?, ← coroutines.list? SurfaceCoroutine.ofJson?,
      ← globals.list? SurfaceVariable.ofJson?, ← methods.list? SurfaceMethod.ofJson?,
      ← natives.list? SurfaceMethod.ofJson?⟩
  | _ => none

end Surface

end Linkage
