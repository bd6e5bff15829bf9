/-
Purpose: Full names of types and declarations.
-/
import Linkage.Catalog.Basic

namespace Linkage

/-- The library, the spaces and then some further names, with dots between. -/
def Table.qualified (t : Table) (space : Nat) (tail : List String) : String :=
  String.intercalate "." (t.name :: t.spacePath space ++ tail)

namespace Catalog

/-- The full name of a type.  Types of the kernel go by their name alone. -/
def typeFullName (c : Catalog) (type : TypeRef) : String :=
  let name :=
    match (c.table? type.id.home).bind fun t => (t.typeName type.id).map fun n => (t, n) with
    | none => "<invalid>"
    | some (t, name, space) => if t.home = .kernel then name else t.qualified space [name]
  name ++ String.join (List.replicate type.dimension "[]")

/-- The types of a list, in parentheses. -/
def typeListName (c : Catalog) (types : List TypeRef) : String :=
  "(" ++ String.intercalate ", " (types.map c.typeFullName) ++ ")"

/-- The full name of a declaration; functions show the types of their parameters. -/
def fullName (c : Catalog) (d : Declaration) : String :=
  match c.table? d.home with
  | none => "<invalid>"
  | some t =>
    match t.declarationName d with
    | none => "<" ++ d.entity.describe ++ ">"
    | some name =>
      let full :=
        match (t.ownerType d).bind fun owner => t.typeName owner with
        | some (owner, space) => t.qualified space [owner, name]
        | none => t.qualified ((t.declarationSpace d).getD Table.rootSpace) [name]
      match t.function d with
      | some f => full ++ c.typeListName f.paramTypes
      | none => full

end Catalog

end Linkage
