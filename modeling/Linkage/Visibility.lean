/-
Purpose: Who may refer to a declaration.
-/

namespace Linkage

/-- The five visibilities, from the widest to the narrowest. -/
inductive Visibility where
  /-- Everywhere, also in dependent libraries. -/
  | public_
  /-- Anywhere in the library. -/
  | internal
  /-- In the declaring space and the spaces below it. -/
  | space
  /-- In the declaring type and the types derived from it. -/
  | protected_
  /-- In the declaring type, or in the declaring space itself. -/
  | private_
deriving DecidableEq, Repr, Inhabited

namespace Visibility

/-- All visibilities, widest first. -/
def all : List Visibility := [public_, internal, space, protected_, private_]

/-- The keyword that asks for a visibility. -/
def keyword : Visibility → String
  | public_ => "public"
  | internal => "internal"
  | space => "space"
  | protected_ => "protected"
  | private_ => "private"

def ofKeyword? (word : String) : Option Visibility := all.find? fun v => v.keyword = word

/-- Position on the scale from narrow to wide. -/
def breadth : Visibility → Nat
  | public_ => 4
  | internal => 3
  | space => 2
  | protected_ => 1
  | private_ => 0

def widest (v w : Visibility) : Visibility := if v.breadth < w.breadth then w else v

/-- The widest of a list of visibilities, if it has any. -/
def widestOf? : List Visibility → Option Visibility
  | [] => none
  | v :: rest => some (rest.foldl widest v)

/-- Whether a dependent library can ever see a member of this visibility. -/
def isExportedMember : Visibility → Bool
  | public_ | protected_ => true
  | _ => false

end Visibility

end Linkage
