/-
Purpose: Turning the surface of a library into a table, numbered for this compilation.
-/
import Linkage.Kernel
import Linkage.Rely.Surface
import Linkage.Table.Entities

namespace Linkage

/-- A library that is relied on. -/
structure Rely where
  table : Table
  /-- The libraries that it relies on itself. -/
  dependencies : List Home
deriving DecidableEq

/-- What the types of a surface are resolved against: the surface itself, its place in
this compilation, and the tables of its dependencies as far as they were found. -/
structure Linkup where
  surface : Surface
  own : Home
  dependencies : List (Option Table)

namespace Linkup

/-- The complaint about a type that `target` does not have. -/
def unresolved (l : Linkup) (type : SurfaceType) (target : String) : RelyProblem :=
  .unresolvedType l.surface.name target type.kind type.index

/-- The library that a type comes from, with the number of types of its kind there and
the name to use in a complaint. -/
def origin (l : Linkup) (type : SurfaceType) : Except RelyProblem (Home × Nat × String) :=
  match type.origin with
  | .kernel =>
    .ok (.kernel, if type.kind.isDefinition then Kernel.table.classes.length else 0, Kernel.name)
  | .own => .ok (l.own, l.surface.typeCount type.kind, l.surface.name)
  | .dependency d =>
    match l.dependencies[d]?.join with
    | some table => .ok (table.home, table.typeCount type.kind, l.surface.name)
    | none => .error (l.unresolved type (l.surface.dependencies[d]?.getD s!"dependency #{d}"))

/-- A type in the numbering of this compilation. -/
def type (l : Linkup) (type : SurfaceType) : Except RelyProblem TypeRef :=
  if type.kind = .invalid then .ok .invalid
  else do
    let (home, available, target) ← l.origin type
    if type.index < available then return ⟨⟨home, type.kind, type.index⟩, type.dimension⟩
    else throw (l.unresolved type target)

/-- The types of a list in the numbering of this compilation. -/
def types (l : Linkup) (types : List SurfaceType) : Except RelyProblem (List TypeRef) :=
  types.mapM l.type

def params (l : Linkup) (params : List SurfaceParameter) : Except RelyProblem (List Parameter) :=
  params.mapM fun p => do return ⟨p.name, ← l.type p.type⟩

/-- A function with its types resolved.  It has no source here. -/
def function (l : Linkup) (f : SurfaceFunction) : Except RelyProblem Function := do
  return ⟨f.visibility, ← l.params f.params, ← l.types f.returns, none⟩

def method (l : Linkup) (m : SurfaceMethod) : Except RelyProblem Method := do
  return ⟨m.name, m.space, ← m.functions.mapM l.function⟩

/-- Refuse an entry in a space that does not exist. -/
def requireSpace (l : Linkup) (name : String) (space : Nat) : Except RelyProblem Unit :=
  -- The root is always there, whether the surface lists it or not.
  if space = Table.rootSpace ∨ space < l.surface.spaces.length then .ok ()
  else .error (.unknownSpace l.surface.name name space)

/-- Refuse a space that is not in the tree. -/
def requireParent (l : Linkup) (s : SurfaceSpace) : Except RelyProblem Unit :=
  match s.parent with
  | none => .error (.spaceWithoutParent l.surface.name s.name)
  | some parent =>
    if parent < l.surface.spaces.length then .ok ()
    else .error (.unknownParent l.surface.name s.name parent)

/-- The spaces, each with the names of those right below it.  The root has no name and no
parent, whatever the surface says. -/
def spaces (l : Linkup) : Except RelyProblem (List Space) := do
  let below := l.surface.spaces.drop 1
  let _ ← below.mapM l.requireParent
  let bare := Space.root :: below.map fun s => ⟨s.name, s.parent, .empty, .empty⟩
  return below.zipIdx.foldl (fun spaces (s, i) =>
    spaces.modify (s.parent.getD Table.rootSpace) fun parent =>
      { parent with children := parent.children.insert s.name (i + 1) }) bare

/-- The visibility of a method: the widest of its functions. -/
def methodVisibility (m : Method) : Visibility :=
  (Visibility.widestOf? (m.functions.map (·.visibility))).getD .public_

/-- The members of a class by name.  Where a name stands twice the later one counts. -/
def classMembers (l : Linkup) (index : Nat) (fields : List MemberVariable)
    (methods : List Method) : NameMap Declaration :=
  let fields := fields.mapIdx fun i v =>
    (v.name, (⟨l.own, v.visibility, .memberVariable index i⟩ : Declaration))
  let methods := methods.mapIdx fun i m =>
    (m.name, (⟨l.own, methodVisibility m, .memberMethod index i⟩ : Declaration))
  (fields ++ methods).foldl (fun members (name, d) => members.insert name d) .empty

/-- A class with its members.  Of two things that do not fit, the one that is met first
is complained about: variables, methods, parent, interfaces, constructors, space. -/
def classDef (l : Linkup) (c : SurfaceClass) (index : Nat) : Except RelyProblem ClassDef := do
  let fields ← c.fields.mapM fun v => do
    return (⟨v.name, v.visibility, ← l.type v.type, 0, none⟩ : MemberVariable)
  let methods ← c.methods.mapM l.method
  let parent ← l.type c.parent
  let interfaces ← l.types c.interfaces
  let constructors ← c.constructors.mapM l.function
  l.requireSpace c.name c.space
  return {
    name := c.name, space := c.space, visibility := .public_, kind := .handle
    parent, interfaces, fields, methods, constructors
    members := l.classMembers index fields methods, size := 0, source := none }

def interfaceDef (l : Linkup) (i : SurfaceInterface) (index : Nat) :
    Except RelyProblem InterfaceDef := do
  let methods ← i.methods.mapM l.method
  let inherits ← l.types i.inherits
  l.requireSpace i.name i.space
  let members := methods.zipIdx.foldl (fun members (m, position) =>
    members.insert m.name ⟨l.own, .public_, .interfaceMethod index position⟩) NameMap.empty
  return ⟨i.name, i.space, .public_, inherits, methods, members, none⟩

def delegateDef (l : Linkup) (d : SurfaceDelegate) : Except RelyProblem DelegateDef := do
  let params ← l.params d.params
  let returns ← l.types d.returns
  l.requireSpace d.name d.space
  return ⟨d.name, d.space, .public_, params, returns, none⟩

def coroutineDef (l : Linkup) (c : SurfaceCoroutine) : Except RelyProblem CoroutineDef := do
  let returns ← l.types c.returns
  l.requireSpace c.name c.space
  return ⟨c.name, c.space, .public_, returns, none⟩

/-- A variable of a space.  Its initializer and address stay with its own library. -/
def variableDef (l : Linkup) (v : SurfaceVariable) : Except RelyProblem VariableDef := do
  let type ← l.type v.type
  l.requireSpace v.name v.space
  return ⟨v.name, v.space, .public_, v.constant, type, none, 0, none⟩

def spaceMethod (l : Linkup) (m : SurfaceMethod) : Except RelyProblem Method := do
  let method ← l.method m
  l.requireSpace m.name m.space
  return method

/-- The entries of the spaces, each with its space, its name and what it is. -/
def entries (t : Table) : List (Nat × String × Entity) :=
  t.classes.mapIdx (fun i c => (c.space, c.name, .classDef i)) ++
  t.interfaces.mapIdx (fun i d => (d.space, d.name, .interface i)) ++
  t.delegates.mapIdx (fun i d => (d.space, d.name, .delegate i)) ++
  t.coroutines.mapIdx (fun i d => (d.space, d.name, .coroutine i)) ++
  t.globals.mapIdx (fun i d => (d.space, d.name, .globalVariable i)) ++
  t.methods.mapIdx (fun i m => (m.space, m.name, .globalMethod i)) ++
  t.natives.mapIdx (fun i m => (m.space, m.name, .nativeMethod i))

/-- The table of the library.  The first thing that does not fit is the complaint. -/
def table (l : Linkup) : Except RelyProblem Table := do
  let s := l.surface
  let spaces ← l.spaces
  let classes ← s.classes.zipIdx.mapM fun (c, i) => l.classDef c i
  let interfaces ← s.interfaces.zipIdx.mapM fun (c, i) => l.interfaceDef c i
  let delegates ← s.delegates.mapM l.delegateDef
  let coroutines ← s.coroutines.mapM l.coroutineDef
  let globals ← s.globals.mapM l.variableDef
  let methods ← s.methods.mapM l.spaceMethod
  let natives ← s.natives.mapM l.spaceMethod
  let bare : Table :=
    ⟨s.name, l.own, spaces, classes, interfaces, delegates, coroutines, globals, methods, natives⟩
  return (entries bare).foldl (fun t (space, name, entity) =>
    t.declare space name ⟨l.own, .public_, entity⟩) bare

/-- The library, with the dependencies that were found. -/
def instantiate (l : Linkup) : Except RelyProblem Rely := do
  return ⟨← l.table, l.dependencies.filterMap fun found => found.map (·.home)⟩

end Linkup

end Linkage
