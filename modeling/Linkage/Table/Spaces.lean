/-
Purpose: The tree of spaces of a table.
-/
import Linkage.Table.Basic
import Linkage.Walk

namespace Linkage.Table

def parentSpace (t : Table) (space : Nat) : Option Nat := t.spaces[space]?.bind (·.parent)

/-- A space and the spaces around it, innermost first. -/
def spaceChain (t : Table) (space : Nat) : List Nat :=
  Walk.chain t.parentSpace (space :: t.spaces.filterMap (·.parent)) space

/-- Whether `inner` is `outer` or lies somewhere below it. -/
def spaceContains (t : Table) (outer inner : Nat) : Bool := outer ∈ t.spaceChain inner

/-- The names from the root down to a space.  The root has no name of its own. -/
def spacePath (t : Table) (space : Nat) : List String :=
  (t.spaceChain space).reverse.filterMap fun i =>
    t.spaces[i]?.bind fun s => s.parent.map fun _ => s.name

/-- The declaration of a name in a space. -/
def lookup (t : Table) (space : Nat) (name : String) : Option Declaration :=
  t.spaces[space]?.bind fun s => s.declarations.find? name

/-- The space of a name right below a space. -/
def childSpace (t : Table) (space : Nat) (name : String) : Option Nat :=
  t.spaces[space]?.bind fun s => s.children.find? name

def modifySpace (t : Table) (space : Nat) (f : Space → Space) : Table :=
  { t with spaces := t.spaces.modify space f }

/-- Store a declaration under a name in a space. -/
def declare (t : Table) (space : Nat) (name : String) (d : Declaration) : Table :=
  t.modifySpace space fun s => { s with declarations := s.declarations.insert name d }

/-- The space of a name right below a space, opened if there is none yet. -/
def openSpace (t : Table) (parent : Nat) (name : String) : Nat × Table :=
  match t.childSpace parent name with
  | some child => (child, t)
  | none =>
    let child := t.spaces.length
    let space : Space := { Space.root with name, parent := some parent }
    let t := { t with spaces := t.spaces ++ [space] }
    (child, t.modifySpace parent fun s => { s with children := s.children.insert name child })

end Linkage.Table
