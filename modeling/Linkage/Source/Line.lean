/-
Purpose: The lines of a source text that carry meaning, with their indentation.
-/
import Linkage.Text.Blank
import Linkage.Text.Lines

namespace Linkage

/-- A line of source text that is neither blank nor only a comment. -/
structure Line where
  /-- The line number, from 1. -/
  number : Nat
  /-- The spaces and tabs in front. -/
  margin : List Char
  /-- The line from its first character that is neither space nor tab. -/
  content : List Char
deriving DecidableEq, Repr

namespace Line

/-- The characters that indent a line. -/
def isMargin (c : Char) : Bool := c == ' ' || c == '\t'

/-- How far a character of the margin indents. -/
def marginWidth (c : Char) : Nat := if c = '\t' then 4 else 1

def indent (line : Line) : Nat := line.margin.foldr (fun c width => marginWidth c + width) 0

def isDeeper (indent : Nat) (line : Line) : Bool := indent < line.indent

/-- The line as it was written. -/
def text (line : Line) : List Char := line.margin ++ line.content

/-- Whether a comment starts here. -/
def startsComment : List Char → Bool
  | '/' :: '/' :: _ => true
  | _ => false

/-- The line with a given number and text, unless it is blank or only a comment. -/
def ofText? (number : Nat) (written : List Char) : Option Line :=
  let written := Text.dropReturn written
  let content := written.dropWhile isMargin
  if content.all Text.isBlank || startsComment content then none
  else some ⟨number, written.takeWhile isMargin, content⟩

/-- The lines of a source text that carry meaning. -/
def ofSource (source : List Char) : List Line :=
  ((Text.lines source).zipIdx 1).filterMap fun (written, number) => ofText? number written

end Line

end Linkage
