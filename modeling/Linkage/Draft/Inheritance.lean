/-
Purpose: Linking the imports of files and the inheritance lists of types.
-/
import Linkage.Draft.Basic

namespace Linkage

namespace TypeRef

/-- Whether this is an interface, and not an array of them. -/
def isInterface (type : TypeRef) : Bool := !type.isArray && type.id.kind = .interface

/-- Whether a class may derive from this: another class or the root of all handles, but
none of the other types of the kernel. -/
def canBeParent (type : TypeRef) : Bool :=
  !type.isArray && type.id.kind = .handle && (type.id.home ≠ .kernel || type.id = .handle)

end TypeRef

/-- Append a type unless it is there. -/
def appendNew (types : List TypeRef) (type : TypeRef) : List TypeRef :=
  if type ∈ types then types else types ++ [type]

namespace Draft

/-! ### Imports -/

/-- The distinct spaces that some imports stand for. -/
def importedSpaces (s : Scope) (found : List SpaceRef) : List ImportDecl → Reported (List SpaceRef)
  | [] => pure found
  | decl :: rest =>
    match s.findSpace decl.path with
    | some ref => importedSpaces s (if ref ∈ found then found else found ++ [ref]) rest
    | none => do
      report s.path decl.span (.spaceNotFound (String.intercalate "." decl.path))
      importedSpaces s found rest

def linkImports (d : Draft) (relies : List Table) : Reported Draft := do
  let files ← Noted.traverse (fun file => do
    let scope : Scope := ⟨d.catalog relies, Table.rootSpace, none, [], file.path⟩
    return { file with spaces := ← importedSpaces scope [] file.imports }) d.files
  return { d with files }

/-! ### Inheritance lists -/

/-- Add the types of an inheritance list to a class.  Only the first entry may name a
parent class, the others have to be interfaces. -/
def addInherits (s : Scope) (first : Bool) : List TypeExpr → ClassDef → Reported ClassDef
  | [], c => pure c
  | e :: rest, c => do
    match ← s.findType e with
    | none => addInherits s false rest c
    | some type =>
      if type.isInterface then
        addInherits s false rest { c with interfaces := appendNew c.interfaces type }
      else if first && type.canBeParent then
        addInherits s false rest { c with parent := type }
      else
        report s.path e.span (if first then .invalidParent e.text c.name else .secondParent e.text)
        addInherits s false rest c

/-- Link the inheritance list of a class.  Without a parent class it derives from the root
of all handles. -/
def linkClass (d : Draft) (relies : List Table) (c : ClassDef) : Reported ClassDef :=
  match c.source with
  | none => pure c
  | some source =>
    addInherits (d.scope relies c.space none source.anchor) true source.inherits
      { c with parent := TypeId.handle.scalar, interfaces := [] }

/-- The distinct interfaces that an interface inherits. -/
def baseInterfaces (s : Scope) (name : String) (found : List TypeRef) :
    List TypeExpr → Reported (List TypeRef)
  | [] => pure found
  | e :: rest => do
    match ← s.findType e with
    | none => baseInterfaces s name found rest
    | some type =>
      if type.isInterface then baseInterfaces s name (appendNew found type) rest
      else
        report s.path e.span (.notAnInterface e.text name)
        baseInterfaces s name found rest

def linkInterface (d : Draft) (relies : List Table) (i : InterfaceDef) : Reported InterfaceDef :=
  match i.source with
  | none => pure i
  | some source => do
    let inherits ←
      baseInterfaces (d.scope relies i.space none source.anchor) i.name [] source.inherits
    return { i with inherits }

def linkInherits (d : Draft) (relies : List Table) : Reported Draft := do
  let classes ← Noted.traverse (d.linkClass relies) d.table.classes
  let interfaces ← Noted.traverse (d.linkInterface relies) d.table.interfaces
  return { d with table := { d.table with classes, interfaces } }

/-! ### Cycles of classes -/

/-- The index of the parent of a class, if it is a class of this library. -/
def ownParent (classes : List ClassDef) (index : Nat) : Option Nat :=
  classes[index]?.bind fun c =>
    if c.parent.id.home = .here ∧ c.parent.id.kind = .handle then some c.parent.id.index else none

/-- The classes from a class up through its parents back to it, if it is its own
ancestor. -/
def classCycle (classes : List ClassDef) (start : Nat) : Option (List Nat) :=
  let chain := Walk.chain (ownParent classes) (List.range classes.length) start
  if chain.getLast?.bind (ownParent classes) = some start then some (chain ++ [start]) else none

def className (d : Draft) (index : Nat) : String := (d.table.classes[index]?.map (·.name)).getD ""

/-- Report at the place where something was written, if it was written at all. -/
def reportAt? (d : Draft) (anchor : Option Anchor) (problem : Problem) : Reported Unit :=
  match anchor with
  | some anchor => d.reportAt anchor problem
  | none => pure ()

/-- A class that is its own ancestor gets the root of all handles as its parent, which
breaks the cycle for all its members. -/
def breakClassCycle (d : Draft) (index : Nat) : Reported Draft :=
  match classCycle d.table.classes index with
  | none => pure d
  | some cycle => do
    d.reportAt? (d.table.classes[index]?.bind fun c => c.source.map (·.anchor))
      (.circularInheritance (cycle.map d.className))
    let classes := d.table.classes.modify index fun c => { c with parent := TypeId.handle.scalar }
    return { d with table := { d.table with classes } }

/-- Break the cycles of classes, each at the first of its classes. -/
def breakClassCycles (d : Draft) : Reported Draft :=
  (List.range d.table.classes.length).foldlM breakClassCycle d

/-! ### Cycles of interfaces -/

/-- The interfaces of this library that one of them inherits. -/
def ownBases (interfaces : List InterfaceDef) (index : Nat) : List Nat :=
  ((interfaces[index]?.map (·.inherits)).getD []).filterMap fun type =>
    if type.id.home = .here ∧ type.id.kind = .interface then some type.id.index else none

/-- A route from one interface through inherited ones to another. -/
def interfaceRoute (interfaces : List InterfaceDef) (start goal : Nat) : Option (List Nat) :=
  (Walk.route (ownBases interfaces) goal (List.range interfaces.length) [start]).2

def interfaceName (d : Draft) (index : Nat) : String :=
  (d.table.interfaces[index]?.map (·.name)).getD ""

def setInherits (d : Draft) (index : Nat) (inherits : List TypeRef) : Draft :=
  { d with table := { d.table with
      interfaces := d.table.interfaces.modify index fun i => { i with inherits } } }

/-- Go through the inheritance list of an interface and drop each entry that leads back to
it.  `kept` holds the entries that stay. -/
def dropCycles (d : Draft) (index : Nat) (kept : List TypeRef) : List TypeRef → Reported Draft
  | [] => pure (d.setInherits index kept)
  | type :: rest =>
    let current := d.setInherits index (kept ++ type :: rest)
    let route :=
      if type.id.home = .here then
        interfaceRoute current.table.interfaces type.id.index index
      else none
    match route with
    | none => dropCycles d index (kept ++ [type]) rest
    | some route => do
      d.reportAt? (d.table.interfaces[index]?.bind fun i => i.source.map (·.anchor))
        (.circularInterfaces ((index :: route).map d.interfaceName))
      dropCycles d index kept rest

/-- Drop the entries of one interface that close a cycle. -/
def breakInterfaceCycle (d : Draft) (index : Nat) : Reported Draft :=
  d.dropCycles index [] ((d.table.interfaces[index]?.map (·.inherits)).getD [])

def breakInterfaceCycles (d : Draft) : Reported Draft :=
  (List.range d.table.interfaces.length).foldlM breakInterfaceCycle d

end Draft

end Linkage
