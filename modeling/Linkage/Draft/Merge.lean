/-
Purpose: Collecting the declarations of all files in one table.
-/
import Linkage.Draft.Basic
import Linkage.Text.Lines

/-!
Each declaration gets its place in the table here.  Types stay open until they are linked.
A name that is taken already is reported and the newcomer is passed over, so the table is
consistent whatever the files say.
-/

namespace Linkage

/-- The file whose declarations are being added. -/
structure Merge where
  file : Nat
  path : String

namespace Merge

def anchor (m : Merge) (span : Span) : Anchor := ⟨m.file, span⟩

def note (m : Merge) (span : Span) (problem : Problem) : Reported Unit := report m.path span problem

/-- A space in messages. -/
def scopeName (t : Table) (space : Nat) : String :=
  let path := t.spacePath space
  if path.isEmpty then s!"library `{t.name}`"
  else "space `" ++ String.intercalate "." path ++ "`"

/-- What a name is taken by in a space. -/
def takenBy (t : Table) (space : Nat) (name : String) : Option String :=
  match t.lookup space name with
  | some d => some d.entity.describe
  | none => (t.childSpace space name).map fun _ => "space"

/-- Add a declaration unless its name is taken. -/
def register (m : Merge) (space : Nat) (name : String) (span : Span) (t : Table)
    (add : Reported Table) : Reported Table :=
  match takenBy t space name with
  | none => add
  | some kind => do
    m.note span (.alreadyDeclared name kind (scopeName t space))
    return t

/-- The visibility of a declaration in a space, which is the space if nothing else is
said. -/
def spaceVisibility (m : Merge) (visibility : Option Visibility) (span : Span) :
    Reported Visibility :=
  match visibility with
  | none => pure .space
  | some .protected_ => do
    m.note span .protectedInSpace
    return .space
  | some v => pure v

/-! ### Signatures -/

/-- Report the parameters whose names were used before. -/
def reportRepeated (m : Merge) (seen : List String) : List ParameterDecl → Reported Unit
  | [] => pure ()
  | p :: rest =>
    match p.name with
    | none => m.reportRepeated seen rest
    | some name =>
      if name ∈ seen then do
        m.note p.span (.repeatedParameter name)
        m.reportRepeated seen rest
      else m.reportRepeated (name :: seen) rest

/-- The parameters with their types open.  One without a name is named for its position. -/
def params (m : Merge) (ps : List ParameterDecl) : Reported (List Parameter) := do
  m.reportRepeated [] ps
  return ps.mapIdx fun i p => ⟨p.name.getD s!"arg{i}", .invalid⟩

/-- As many open types as there are type expressions. -/
def openTypes (exprs : List TypeExpr) : List TypeRef := exprs.map fun _ => .invalid

/-- What linking needs to know of a signature. -/
def source (m : Merge) (span : Span) (ps : List ParameterDecl) (returns : List TypeExpr)
    (body : Option Body) : FunctionSource :=
  ⟨m.anchor span, ps.map (·.type), returns, body⟩

/-- A function with its types open. -/
def function (m : Merge) (decl : FunctionDecl) (visibility : Visibility) : Reported Function := do
  let params ← m.params decl.params
  return ⟨visibility, params, openTypes decl.returns,
    some (m.source decl.span decl.params decl.returns decl.body)⟩

/-! ### Declarations of spaces -/

def addVariable (m : Merge) (space : Nat) (decl : VariableDecl) (t : Table) : Reported Table := do
  let visibility ← m.spaceVisibility decl.visibility decl.span
  m.register space decl.name decl.span t do
    let entry : VariableDef :=
      ⟨decl.name, space, visibility, decl.constant, .invalid, decl.initializer, 0,
        some ⟨m.anchor decl.span, decl.type⟩⟩
    let d : Declaration := ⟨.here, visibility, .globalVariable t.globals.length⟩
    return { t with globals := t.globals ++ [entry] }.declare space decl.name d

def addDelegate (m : Merge) (space : Nat) (decl : DelegateDecl) (t : Table) : Reported Table := do
  let visibility ← m.spaceVisibility decl.visibility decl.span
  m.register space decl.name decl.span t do
    let params ← m.params decl.params
    let entry : DelegateDef :=
      ⟨decl.name, space, visibility, params, openTypes decl.returns,
        some (m.source decl.span decl.params decl.returns none)⟩
    let d : Declaration := ⟨.here, visibility, .delegate t.delegates.length⟩
    return { t with delegates := t.delegates ++ [entry] }.declare space decl.name d

def addCoroutine (m : Merge) (space : Nat) (decl : CoroutineDecl) (t : Table) : Reported Table := do
  let visibility ← m.spaceVisibility decl.visibility decl.span
  m.register space decl.name decl.span t do
    let entry : CoroutineDef :=
      ⟨decl.name, space, visibility, openTypes decl.returns,
        some (m.source decl.span [] decl.returns none)⟩
    let d : Declaration := ⟨.here, visibility, .coroutine t.coroutines.length⟩
    return { t with coroutines := t.coroutines ++ [entry] }.declare space decl.name d

/-- A method with its first function. -/
def newMethod (name : String) (space : Nat) (f : Function) : Method := ⟨name, space, [f]⟩

def appendFunction (f : Function) (method : Method) : Method :=
  { method with functions := method.functions ++ [f] }

/-- Widen the visibility of the method of a name. -/
def widen (visibility : Visibility) (d : Declaration) : Declaration :=
  { d with visibility := d.visibility.widest visibility }

/-- Add a function to the method of its name, or as the first of a new one. -/
def addFunction (m : Merge) (space : Nat) (decl : FunctionDecl) (t : Table) : Reported Table := do
  let visibility ← m.spaceVisibility decl.visibility decl.span
  match (t.lookup space decl.name).map Declaration.entity with
  | some (.globalMethod method) =>
    let f ← m.function decl visibility
    return { t with methods := t.methods.modify method (appendFunction f) }.modifySpace space
      fun s => { s with declarations := s.declarations.modify decl.name (widen visibility) }
  | _ =>
    m.register space decl.name decl.span t do
      let f ← m.function decl visibility
      let d : Declaration := ⟨.here, visibility, .globalMethod t.methods.length⟩
      return { t with methods := t.methods ++ [newMethod decl.name space f] }.declare space
        decl.name d

/-- Add a native function to the native method of its name, or as the first of a new one. -/
def addNative (m : Merge) (space : Nat) (decl : FunctionDecl) (t : Table) : Reported Table := do
  let visibility ← m.spaceVisibility decl.visibility decl.span
  match (t.lookup space decl.name).map Declaration.entity with
  | some (.nativeMethod method) =>
    let f ← m.function decl visibility
    return { t with natives := t.natives.modify method (appendFunction f) }.modifySpace space
      fun s => { s with declarations := s.declarations.modify decl.name (widen visibility) }
  | _ =>
    m.register space decl.name decl.span t do
      let f ← m.function decl visibility
      let d : Declaration := ⟨.here, visibility, .nativeMethod t.natives.length⟩
      return { t with natives := t.natives ++ [newMethod decl.name space f] }.declare space
        decl.name d

/-! ### Members -/

/-- The members of a type, as far as they have been added. -/
structure Members where
  fields : List MemberVariable := []
  methods : List Method := []
  names : NameMap Declaration := .empty

/-- The visibility of a class member, which is private if nothing else is said. -/
def memberVisibility (visibility : Option Visibility) : Visibility := visibility.getD .private_

/-- Add a variable to a class unless its name is taken. -/
def addMemberVariable (m : Merge) (className : String) (index : Nat) (members : Members)
    (decl : VariableDecl) : Reported Members :=
  if members.names.contains decl.name then do
    m.note decl.span (.alreadyMember decl.name className)
    return members
  else
    let visibility := memberVisibility decl.visibility
    let entry : MemberVariable :=
      ⟨decl.name, visibility, .invalid, 0, some ⟨m.anchor decl.span, decl.type⟩⟩
    let d : Declaration := ⟨.here, visibility, .memberVariable index members.fields.length⟩
    pure { members with
      fields := members.fields ++ [entry]
      names := members.names.insert decl.name d }

/-- Add a function to a class, to the method of its name or as the first of a new one,
unless the name belongs to the class or to a variable. -/
def addMemberFunction (m : Merge) (className : String) (index space : Nat) (members : Members)
    (decl : FunctionDecl) : Reported Members :=
  if decl.name = className then do
    m.note decl.span (.memberNamedAsClass decl.name)
    return members
  else
    let visibility := memberVisibility decl.visibility
    match (members.names.find? decl.name).map Declaration.entity with
    | some (.memberMethod _ method) => do
      let f ← m.function decl visibility
      return { members with
        methods := members.methods.modify method (appendFunction f)
        names := members.names.modify decl.name (widen visibility) }
    | some _ => do
      m.note decl.span (.alreadyMember decl.name className)
      return members
    | none => do
      let f ← m.function decl visibility
      let d : Declaration := ⟨.here, visibility, .memberMethod index members.methods.length⟩
      return { members with
        methods := members.methods ++ [newMethod decl.name space f]
        names := members.names.insert decl.name d }

/-- Add a function to an interface.  Functions of interfaces are public. -/
def addInterfaceFunction (m : Merge) (index space : Nat) (members : Members)
    (decl : FunctionDecl) : Reported Members := do
  match decl.visibility with
  | none | some .public_ => pure ()
  | some v => m.note decl.span (.interfaceVisibility v decl.name)
  let f ← m.function decl .public_
  match (members.names.find? decl.name).map Declaration.entity with
  | some (.interfaceMethod _ method) =>
    return { members with methods := members.methods.modify method (appendFunction f) }
  | _ =>
    let d : Declaration := ⟨.here, .public_, .interfaceMethod index members.methods.length⟩
    return { members with
      methods := members.methods ++ [newMethod decl.name space f]
      names := members.names.insert decl.name d }

/-- Add a class with its members.  Its parent is the root of all handles until the
inheritance list is linked. -/
def addClass (m : Merge) (space : Nat) (decl : ClassDecl) (t : Table) : Reported Table := do
  let visibility ← m.spaceVisibility decl.visibility decl.span
  m.register space decl.name decl.span t do
    let index := t.classes.length
    let members ← decl.fields.foldlM (m.addMemberVariable decl.name index) {}
    let members ← decl.functions.foldlM (m.addMemberFunction decl.name index space) members
    let constructors ← Noted.traverse
      (fun f => m.function f (memberVisibility f.visibility)) decl.constructors
    let entry : ClassDef := {
      name := decl.name, space, visibility, kind := .handle, parent := TypeId.handle.scalar
      interfaces := [], fields := members.fields, methods := members.methods, constructors
      members := members.names, size := 0
      source := some ⟨m.anchor decl.span, decl.inherits⟩ }
    let d : Declaration := ⟨.here, visibility, .classDef index⟩
    return { t with classes := t.classes ++ [entry] }.declare space decl.name d

def addInterface (m : Merge) (space : Nat) (decl : InterfaceDecl) (t : Table) : Reported Table := do
  let visibility ← m.spaceVisibility decl.visibility decl.span
  m.register space decl.name decl.span t do
    let index := t.interfaces.length
    let members ← decl.functions.foldlM (m.addInterfaceFunction index space) {}
    let entry : InterfaceDef :=
      ⟨decl.name, space, visibility, [], members.methods, members.names,
        some ⟨m.anchor decl.span, decl.inherits⟩⟩
    let d : Declaration := ⟨.here, visibility, .interface index⟩
    return { t with interfaces := t.interfaces ++ [entry] }.declare space decl.name d

/-! ### Items -/

mutual
/-- Add one item of a space.  A space may be opened again, and only a declaration of its
name stands in its way. -/
def addItem (m : Merge) (space : Nat) : Item → Table → Reported Table
  | .space name span items, t =>
    match t.lookup space name with
    | some d => do
      m.note span (.alreadyDeclared name d.entity.describe (scopeName t space))
      return t
    | none =>
      let (child, t) := t.openSpace space name
      addItems m child items t
  | .classDecl decl, t => m.addClass space decl t
  | .interfaceDecl decl, t => m.addInterface space decl t
  | .delegateDecl decl, t => m.addDelegate space decl t
  | .coroutineDecl decl, t => m.addCoroutine space decl t
  | .variableDecl decl, t => m.addVariable space decl t
  | .functionDecl decl, t => m.addFunction space decl t
  | .nativeDecl decl, t => m.addNative space decl t

def addItems (m : Merge) (space : Nat) : List Item → Table → Reported Table
  | [], t => pure t
  | item :: rest, t => do
    let t ← addItem m space item t
    addItems m space rest t
end

end Merge

/-- Add the files from a given number on. -/
def Draft.mergeFiles : Nat → List (SourceFile × Outline) → Draft → Reported Draft
  | _, [], d => pure d
  | index, (file, outline) :: rest, d => do
    let table ← Merge.addItems ⟨index, file.path⟩ Table.rootSpace outline.items d.table
    let entry : DraftFile := ⟨file.path, outline.imports, [], (Text.lines file.text.toList).length⟩
    mergeFiles (index + 1) rest ⟨table, d.files ++ [entry]⟩

/-- The draft of a library with the declarations of all its files. -/
def Draft.merge (name : String) (files : List (SourceFile × Outline)) : Reported Draft :=
  mergeFiles 0 files ⟨.empty name .here, []⟩

end Linkage
