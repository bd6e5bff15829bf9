/-
Purpose: The library being compiled: its table, and what its files import.
-/
import Linkage.Scope.Search

namespace Linkage

structure SourceFile where
  path : String
  text : String
deriving DecidableEq, Repr

/-- A file of the library being compiled. -/
structure DraftFile where
  path : String
  imports : List ImportDecl
  /-- The spaces that the imports stand for, once they are linked. -/
  spaces : List SpaceRef
  lineCount : Nat
deriving DecidableEq, Repr

/-- The library being compiled. -/
structure Draft where
  table : Table
  files : List DraftFile

namespace Draft

/-- The path of the file that something was written in. -/
def path (d : Draft) (anchor : Anchor) : String := (d.files[anchor.file]?.map (·.path)).getD ""

/-- The spaces that the file of something imports. -/
def imports (d : Draft) (anchor : Anchor) : List SpaceRef :=
  (d.files[anchor.file]?.map (·.spaces)).getD []

def catalog (d : Draft) (relies : List Table) : Catalog := ⟨d.table, relies⟩

/-- The position in the source at which something was written. -/
def scope (d : Draft) (relies : List Table) (space : Nat) (type : Option TypeId)
    (anchor : Anchor) : Scope :=
  ⟨d.catalog relies, space, type, d.imports anchor, d.path anchor⟩

/-- Report a problem where something was written. -/
def reportAt (d : Draft) (anchor : Anchor) (problem : Problem) : Reported Unit :=
  report (d.path anchor) anchor.span problem

end Draft

end Linkage
