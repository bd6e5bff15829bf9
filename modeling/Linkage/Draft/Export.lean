/-
Purpose: The surface of a library, for the libraries that will rely on it.
-/
import Linkage.Draft.Basic
import Linkage.Rely.Surface

/-!
The public declarations of spaces are exported, and of their members the public and the
protected ones.  All spaces are kept, so the numbers of spaces stay.  Types are numbered
anew in the order of export, and a signature may not mention a type that is not
exported.
-/

namespace Linkage

/-- The position of an entry among those that are kept, if it is kept itself. -/
def keptIndex? {α : Type} (keep : α → Bool) (entries : List α) (index : Nat) : Option Nat :=
  entries[index]?.bind fun entry =>
    if keep entry then some ((entries.take index).countP keep) else none

/-- The number that a type of a library has in its surface, if it is exported. -/
def Table.exportIndex? (t : Table) (kind : TypeKind) (index : Nat) : Option Nat :=
  match kind with
  | .struct | .handle => keptIndex? (fun c => c.visibility = .public_) t.classes index
  | .interface => keptIndex? (fun i => i.visibility = .public_) t.interfaces index
  | .delegate => keptIndex? (fun x => x.visibility = .public_) t.delegates index
  | .coroutine => keptIndex? (fun x => x.visibility = .public_) t.coroutines index
  | .invalid => none

/-- A type of a library by its spaces and name. -/
def Table.localName (t : Table) (id : TypeId) : String :=
  match t.typeName id with
  | some (name, space) => String.intercalate "." (t.spacePath space ++ [name])
  | none => "<invalid>"

namespace Draft

/-- What mentions a type: its name, and where it was written. -/
structure User where
  name : String
  anchor : Option Anchor

/-- A type as the surface writes it. -/
def exportType (d : Draft) (user : User) (type : TypeRef) : Reported SurfaceType :=
  match type.id.home with
  | .kernel => pure ⟨.kernel, type.id.kind, type.id.index, type.dimension⟩
  | .rely i => pure ⟨.dependency i, type.id.kind, type.id.index, type.dimension⟩
  | .here =>
    if type.id.kind = .invalid then pure .invalid
    else
      match d.table.exportIndex? type.id.kind type.id.index with
      | some index => pure ⟨.own, type.id.kind, index, type.dimension⟩
      | none => do
        match user.anchor with
        | none => pure ()
        | some anchor => d.reportAt anchor (.unexportedType user.name (d.table.localName type.id))
        return .invalid

def exportTypes (d : Draft) (user : User) (types : List TypeRef) : Reported (List SurfaceType) :=
  Noted.traverse (d.exportType user) types

def exportParams (d : Draft) (user : User) (params : List Parameter) :
    Reported (List SurfaceParameter) :=
  Noted.traverse (fun p => do return ⟨p.name, ← d.exportType user p.type⟩) params

/-- A function under the name that complaints about it use. -/
def exportFunction (d : Draft) (name : String) (f : Function) : Reported SurfaceFunction := do
  let user : User := ⟨name, f.source.map (·.anchor)⟩
  let params ← d.exportParams user f.params
  let returns ← d.exportTypes user f.returns
  return ⟨f.visibility, params, returns⟩

/-- The functions of a method that are kept.  A method that keeps none is left out. -/
def exportMethods (d : Draft) (qualifier : String) (keep : Function → Bool)
    (methods : List Method) : Reported (List SurfaceMethod) := do
  let exported ← Noted.traverse (fun m => do
    let functions ← Noted.traverse (d.exportFunction (qualifier ++ m.name))
      (m.functions.filter keep)
    return (⟨m.name, m.space, functions⟩ : SurfaceMethod)) methods
  return exported.filter fun m => !m.functions.isEmpty

/-- Whether a member is shown to dependent libraries. -/
def keepsMember (f : Function) : Bool := f.visibility.isExportedMember

/-- A class with the members that dependent libraries may see. -/
def exportClass (d : Draft) (c : ClassDef) : Reported SurfaceClass := do
  let user : User := ⟨c.name, c.source.map (·.anchor)⟩
  let parent ← d.exportType user c.parent
  let interfaces ← d.exportTypes user c.interfaces
  let fields ← Noted.traverse (fun v => do
    let user : User := ⟨s!"{c.name}.{v.name}", v.source.map (·.anchor)⟩
    return (⟨v.name, v.visibility, ← d.exportType user v.type⟩ : SurfaceMember))
    (c.fields.filter fun v => v.visibility.isExportedMember)
  let methods ← d.exportMethods (c.name ++ ".") keepsMember c.methods
  let constructors ← Noted.traverse (d.exportFunction c.name) (c.constructors.filter keepsMember)
  return ⟨c.name, c.space, parent, interfaces, fields, methods, constructors⟩

/-- An interface with all its functions. -/
def exportInterface (d : Draft) (i : InterfaceDef) : Reported SurfaceInterface := do
  let inherits ← d.exportTypes ⟨i.name, i.source.map (·.anchor)⟩ i.inherits
  let methods ← d.exportMethods (i.name ++ ".") (fun _ => true) i.methods
  return ⟨i.name, i.space, inherits, methods⟩

def exportDelegate (d : Draft) (x : DelegateDef) : Reported SurfaceDelegate := do
  let user : User := ⟨x.name, x.source.map (·.anchor)⟩
  let params ← d.exportParams user x.params
  let returns ← d.exportTypes user x.returns
  return ⟨x.name, x.space, params, returns⟩

def exportCoroutine (d : Draft) (x : CoroutineDef) : Reported SurfaceCoroutine := do
  return ⟨x.name, x.space, ← d.exportTypes ⟨x.name, x.source.map (·.anchor)⟩ x.returns⟩

/-- A variable of a space, without its initializer. -/
def exportVariable (d : Draft) (v : VariableDef) : Reported SurfaceVariable := do
  return ⟨v.name, v.space, v.constant, ← d.exportType ⟨v.name, v.source.map (·.anchor)⟩ v.type⟩

def exportSurface (d : Draft) (relies : List Table) : Reported Surface := do
  let t := d.table
  let spaces := ⟨"", none⟩ :: (t.spaces.drop 1).map fun s => ⟨s.name, s.parent⟩
  let classes ← Noted.traverse d.exportClass (t.classes.filter fun c => c.visibility = .public_)
  let interfaces ← Noted.traverse d.exportInterface
    (t.interfaces.filter fun i => i.visibility = .public_)
  let delegates ← Noted.traverse d.exportDelegate
    (t.delegates.filter fun x => x.visibility = .public_)
  let coroutines ← Noted.traverse d.exportCoroutine
    (t.coroutines.filter fun x => x.visibility = .public_)
  let globals ← Noted.traverse d.exportVariable (t.globals.filter fun v => v.visibility = .public_)
  let methods ← d.exportMethods "" (fun f => f.visibility = .public_) t.methods
  let natives ← d.exportMethods "" (fun f => f.visibility = .public_) t.natives
  return {
    name := t.name, dependencies := relies.map (·.name)
    spaces, classes, interfaces, delegates, coroutines, globals, methods, natives }

end Draft

end Linkage
