/-
Purpose: Positions in the source of a library, and what may be referred to there.
-/
import Linkage.Catalog.Inheritance

namespace Linkage

/-- A position in the source: the space it is in, the type whose members are in scope
there, and the spaces that its file imports. -/
structure Scope where
  catalog : Catalog
  space : Nat
  type : Option TypeId
  imports : List SpaceRef
  /-- The file, for reports. -/
  path : String

namespace Scope

/-- Whether the visibility of a declaration of table `t` admits this position. -/
def admits (s : Scope) (t : Table) (d : Declaration) : Bool :=
  match d.visibility with
  | .public_ => true
  | .internal => d.home = .here
  | .space => d.home = .here && (t.declaringSpace d).any fun space => t.spaceContains space s.space
  | .protected_ =>
    match t.ownerType d, s.type with
    | some owner, some current => s.catalog.isSubtype owner current
    | _, _ => false
  | .private_ =>
    match t.ownerType d with
    | some owner => s.type = some owner
    | none => d.home = .here && t.declaringSpace d = some s.space

/-- Whether a declaration by itself may be referred to from this position. -/
def isVisible (s : Scope) (d : Declaration) : Bool :=
  (s.catalog.table? d.home).any fun t => s.admits t d

/-- Whether a declaration may be referred to from this position.  Of a method it is
enough that one of its functions may be. -/
def isAccessible (s : Scope) (d : Declaration) : Bool :=
  if d.entity.isMethod then
    ((s.catalog.overloads d).getD []).zipIdx.any fun (f, i) =>
      (d.overload? i).any fun overload => s.isVisible { overload with visibility := f.visibility }
  else s.isVisible d

/-- The enclosing type and the types it inherits from, whose members can be named
alone. -/
def typeChain (s : Scope) : List TypeId :=
  match s.type with
  | none => []
  | some owner =>
    if owner.kind = .interface then
      s.catalog.interfaceClosure owner ++ [TypeId.interface, TypeId.handle]
    else s.catalog.typeChain owner

end Scope

end Linkage
