/-
Purpose: What has to hold of a linked library beyond its names.
-/
import Linkage.Catalog.Conversion
import Linkage.Draft.Basic
import Linkage.Text.Blank
import Linkage.Text.Letters

namespace Linkage

/-! ### Initializers -/

/-- Whether a text can be the name of a function in an initializer. -/
def isFunctionName (text : List Char) : Bool :=
  (text.head?.any fun c => Text.isLetter c || c == '_') &&
    text.all (fun c => Text.isLetterOrNumber c || c == '_') &&
    !(["null", "true", "false"].contains (String.ofList text))

/-- The pieces of a text between dots. -/
def splitDots : List Char → List (List Char)
  | [] => [[]]
  | c :: rest =>
    if c = '.' then [] :: splitDots rest
    else
      match splitDots rest with
      | piece :: others => (c :: piece) :: others
      | [] => [[c]]

/-- The dotted name that an initializer consists of, if it is nothing else. -/
def functionPath? (initializer : String) : Option (List String) :=
  let pieces := splitDots (Text.trim initializer.toList)
  if pieces.all isFunctionName then some (pieces.map String.ofList) else none

namespace Draft

/-! ### Overloads -/

/-- Report the functions of a group that take the same types as an earlier one. -/
def checkGroup (d : Draft) (c : Catalog) (group : Declaration) : Reported Unit :=
  let functions := (d.table.overloads group).getD []
  .noteAll (functions.zipIdx.filterMap fun (f, i) =>
    if (functions.take i).any fun earlier => earlier.sameParams f then
      f.source.map fun source =>
        let name := ((d.table.overloadDeclaration group i).map c.fullName).getD ""
        ⟨d.path source.anchor, source.anchor.span, .duplicateOverload name⟩
    else none)

/-- No two functions of a group take the same types. -/
def checkOverloads (d : Draft) (c : Catalog) : Reported Unit :=
  d.table.overloadGroups.forM (d.checkGroup c)

/-! ### Hidden variables -/

/-- The nearest type above a type that has a variable of a name. -/
def inheritedVariable (c : Catalog) (owner : TypeId) (name : String) : Option TypeId :=
  (c.ancestors owner).find? fun id =>
    (c.classDef? id).any fun definition => definition.fields.any fun v => v.name = name

/-- Report the variables of a class that hide inherited ones. -/
def checkHidden (d : Draft) (c : Catalog) (definition : ClassDef) (index : Nat) : Reported Unit :=
  .noteAll (definition.fields.filterMap fun v =>
    v.source.bind fun source =>
      (inheritedVariable c ⟨.here, definition.kind, index⟩ v.name).map fun ancestor =>
        ⟨d.path source.anchor, source.anchor.span,
          .hiddenVariable definition.name v.name (c.typeFullName ancestor.scalar)⟩)

/-- No variable of a class has the name of an inherited one. -/
def checkVariables (d : Draft) (c : Catalog) : Reported Unit :=
  d.table.classes.zipIdx.forM fun (definition, i) => d.checkHidden c definition i

/-! ### Interfaces -/

/-- A function of an interface in messages. -/
def requiredName (c : Catalog) (i : InterfaceDef) (m : Method) (overload : Nat) : String :=
  match (i.members.find? m.name).bind fun group => group.overload? overload with
  | some d => c.fullName d
  | none => m.name

/-- What is wrong with the implementation of a function in a class, and where. -/
def implementationProblem (c : Catalog) (owner : TypeId) (definition : ClassDef)
    (anchor : Anchor) (i : InterfaceDef) (m : Method) (required : Function) (overload : Nat) :
    Option (Anchor × Problem) :=
  let name := requiredName c i m overload
  match c.findImplementation owner m.name required with
  | none => some (anchor, .notImplemented definition.name name)
  | some (_, found) =>
    let place := (found.source.map (·.anchor)).getD anchor
    if found.returns ≠ required.returns then
      some (place, .wrongReturns name definition.name (c.typeListName found.returns)
        (c.typeListName required.returns))
    else if found.visibility = .private_ then
      some (place, .privateImplementation name definition.name)
    else none

/-- Report the functions of interfaces that a class does not implement as it has to. -/
def checkImplementations (d : Draft) (c : Catalog) (definition : ClassDef) (index : Nat) :
    Reported Unit :=
  match definition.source with
  | none => pure ()
  | some source =>
    let owner : TypeId := ⟨.here, definition.kind, index⟩
    (c.interfaceClosure owner).forM fun id =>
      match c.interfaceDef? id with
      | none => pure ()
      | some i =>
        i.methods.forM fun m =>
          m.functions.zipIdx.forM fun (required, overload) =>
            match implementationProblem c owner definition source.anchor i m required overload with
            | none => pure ()
            | some (anchor, problem) => d.reportAt anchor problem

/-- Every function of every interface of a class has an implementation in the class or
above it that is not private and has exactly its parameters and returns. -/
def checkInterfaces (d : Draft) (c : Catalog) : Reported Unit :=
  d.table.classes.zipIdx.forM fun (definition, i) => d.checkImplementations c definition i

/-! ### Delegates -/

/-- A variable that holds a delegate and is initialized by the name of a method needs an
accessible function of that method with exactly the signature of the delegate. -/
def checkDelegate (d : Draft) (relies : List Table) (v : VariableDef) : Reported Unit :=
  let c := d.catalog relies
  let delegate? := if v.type.isArray then none else c.delegateDef? v.type.id
  match v.source, delegate?, v.initializer.bind functionPath? with
  | some source, some delegate, some path => do
    let s := d.scope relies v.space none source.anchor
    match ← s.findPath path source.anchor.span with
    | none => pure ()
    | some group =>
      if group.entity.isMethod then
        let bound := c.selectFunctionWhere s.isAccessible group (delegate.params.map (·.type))
          (some delegate.returns)
        if bound.isNone then
          d.reportAt source.anchor
            (.delegateMismatch (String.intercalate "." path) (c.typeFullName v.type))
        else pure ()
      else pure ()
  | _, _, _ => pure ()

def check (d : Draft) (relies : List Table) : Reported Unit := do
  let c := d.catalog relies
  d.checkOverloads c
  d.checkVariables c
  d.checkInterfaces c
  d.table.globals.forM (d.checkDelegate relies)

end Draft

end Linkage
