/-
Purpose: Finding what a name, a dotted path or a type expression stands for.
-/
import Linkage.Catalog.Names
import Linkage.Scope.Basic

/-!
A bare name is searched in three steps, and the first step that finds an accessible
declaration decides:

1. the members of the enclosing type and of the types it inherits from;
2. the space of the position and the spaces around it;
3. the root of the kernel, the imported spaces and the roots of the rely libraries.

Only in the third step can there be several answers.  All of them are reported, and the
first is still taken, so that later steps do not complain about the same name again.
-/

namespace Linkage

/-- What the search for a bare name comes to. -/
inductive Resolution where
  | found (d : Declaration)
  /-- Several declarations far away; the first of them is taken. -/
  | equivocal (first second : Declaration) (others : List Declaration)
  /-- Something of that name was met, but it may not be referred to. -/
  | hidden (d : Declaration)
  | absent
deriving DecidableEq, Repr

/-- The declaration that is taken. -/
def Resolution.declaration? : Resolution → Option Declaration
  | found d => some d
  | equivocal first _ _ => some first
  | hidden _ | absent => none

namespace Scope

/-- The members of a name along the type chain. -/
def memberHits (s : Scope) (name : String) : List Declaration :=
  s.typeChain.filterMap fun owner => s.catalog.findMember owner name

/-- The declarations of a name in the spaces around the position, innermost first. -/
def spaceHits (s : Scope) (name : String) : List Declaration :=
  (s.catalog.own.spaceChain s.space).filterMap fun space => s.catalog.own.lookup space name

/-- The spaces that are searched after those of the library itself. -/
def farSpaces (s : Scope) : List SpaceRef :=
  ⟨.kernel, Table.rootSpace⟩ :: s.imports ++ s.catalog.relies.map fun t => ⟨t.home, Table.rootSpace⟩

/-- The distinct declarations of a name in those spaces. -/
def farHits (s : Scope) (name : String) : List Declaration :=
  (s.farSpaces.filterMap fun ref =>
    (s.catalog.table? ref.home).bind fun t => t.lookup ref.space name).eraseDups

/-- Search for a bare name. -/
def resolve (s : Scope) (name : String) : Resolution :=
  let near := s.memberHits name ++ s.spaceHits name
  match near.find? s.isAccessible with
  | some d => .found d
  | none =>
    let far := s.farHits name
    match far.filter s.isAccessible with
    | [d] => .found d
    | first :: second :: others => .equivocal first second others
    | [] =>
      match (near ++ far).head? with
      | some d => .hidden d
      | none => .absent

/-- Report what is wrong with the outcome of a search. -/
def reportResolution (s : Scope) (name : String) (span : Span) : Resolution → Reported Unit
  | .found _ => pure ()
  | .equivocal first second others =>
    .noteAll ((first :: second :: others).map fun d =>
      ⟨s.path, span, .equivocal name (s.catalog.fullName d)⟩)
  | .hidden d => report s.path span (.inaccessible (s.catalog.fullName d) d.visibility)
  | .absent => report s.path span (.nameNotFound name)

/-- The declaration that a bare name stands for. -/
def find (s : Scope) (name : String) (span : Span) : Reported (Option Declaration) := do
  let resolution := s.resolve name
  s.reportResolution name span resolution
  return resolution.declaration?

/-! ### Spaces and dotted paths -/

/-- The space that the first part of a path stands for. -/
def spaceHead (s : Scope) (name : String) : Option SpaceRef :=
  let around := (s.catalog.own.spaceChain s.space).findSome? fun space =>
    (s.catalog.own.childSpace space name).map fun child => ⟨.here, child⟩
  let imported := s.imports.findSome? fun ref =>
    ((s.catalog.table? ref.home).bind fun t => t.childSpace ref.space name).map fun child =>
      ⟨ref.home, child⟩
  let kernel := if name = Kernel.name then some ⟨.kernel, Table.rootSpace⟩ else none
  let library := (s.catalog.relyNamed? name).map fun t => ⟨t.home, Table.rootSpace⟩
  let inLibrary := s.catalog.relies.findSome? fun t =>
    (t.childSpace Table.rootSpace name).map fun child => ⟨t.home, child⟩
  around <|> imported <|> kernel <|> library <|> inLibrary

/-- Follow a path of names down from a space. -/
def descend (s : Scope) : SpaceRef → List String → Option SpaceRef
  | ref, [] => some ref
  | ref, name :: rest =>
    ((s.catalog.table? ref.home).bind fun t => t.childSpace ref.space name).bind fun child =>
      s.descend ⟨ref.home, child⟩ rest

/-- The space that a path stands for. -/
def findSpace (s : Scope) : List String → Option SpaceRef
  | [] => none
  | head :: rest => (s.spaceHead head).bind fun ref => s.descend ref rest

/-- The declaration that a dotted path stands for.  All parts but the last name spaces,
and the last is looked up in that space alone. -/
def findPath (s : Scope) (path : List String) (span : Span) : Reported (Option Declaration) :=
  match path.getLast? with
  | none => pure none
  | some name =>
    let spaces := path.dropLast
    if spaces.isEmpty then s.find name span
    else
      match s.findSpace spaces with
      | none => do
        report s.path span (.spaceNotFound (String.intercalate "." spaces))
        return none
      | some ref =>
        match (s.catalog.table? ref.home).bind fun t => t.lookup ref.space name with
        | none => do
          report s.path span (.nameNotFound (String.intercalate "." path))
          return none
        | some d =>
          if s.isAccessible d then pure (some d)
          else do
            report s.path span (.inaccessible (s.catalog.fullName d) d.visibility)
            return none

def findType (s : Scope) (e : TypeExpr) : Reported (Option TypeRef) := do
  match ← s.findPath e.path e.span with
  | none => return none
  | some d =>
    match s.catalog.declaredType d with
    | some id => return some ⟨id, e.dimension⟩
    | none =>
      report s.path e.span (.notAType (String.intercalate "." e.path) d.entity.describe)
      return none

end Scope

end Linkage
