/-
Purpose: The tree that indentation gives to the lines of a source text.
-/
import Linkage.Source.Line
import Linkage.Source.Outline

namespace Linkage

/-- A line with the deeper lines right under it, as blocks again. -/
inductive Block where
  | mk (line : Line) (nested : List Block)

namespace Block

def line : Block → Line
  | mk line _ => line

/-- The blocks under the line that heads a block. -/
def nested : Block → List Block
  | mk _ nested => nested

mutual

def lines : Block → List Line
  | mk line nested => line :: linesOf nested

def linesOf : List Block → List Line
  | [] => []
  | b :: rest => b.lines ++ linesOf rest

end

/-- The blocks that a list of lines forms.  Each line takes the lines after it that are
indented deeper, up to the first that is not. -/
def forest (lines : List Line) : List Block :=
  match lines with
  | [] => []
  | line :: rest =>
    mk line (forest (rest.takeWhile (Line.isDeeper line.indent))) ::
      forest (rest.dropWhile (Line.isDeeper line.indent))
termination_by lines.length
decreasing_by
  · have := (List.takeWhile_prefix (l := rest) (Line.isDeeper line.indent)).length_le
    simp only [List.length_cons]
    omega
  · have := (List.dropWhile_suffix (l := rest) (Line.isDeeper line.indent)).length_le
    simp only [List.length_cons]
    omega

/-- The indentation of some blocks: that of their first line. -/
def indentOf : List Block → Nat
  | [] => 0
  | b :: _ => b.line.indent

/-- The lines under a function, as raw text. -/
def body (nested : List Block) : Option Body :=
  let lines := linesOf nested
  match lines.head?, lines.getLast? with
  | some first, some last =>
    some ⟨first.number, last.number,
      String.intercalate "\n" (lines.map fun line => String.ofList line.text)⟩
  | _, _ => none

/-- The fault of a line that is indented in a place where it must not be. -/
def stray (line : Line) : Fault :=
  ⟨⟨line.number, line.indent + 1, line.indent + 1 + line.content.length⟩, .unexpectedIndentation⟩

/-- Nothing may stand under a declaration that has no block of its own. -/
def refuseNested : List Block → Noted Fault Unit
  | [] => ⟨(), []⟩
  | b :: _ => .note (stray b.line)

/-- Read blocks that are meant to stand side by side.  One that is not at the common
indentation is reported and dropped, with everything under it. -/
def entries {α : Type} (read : Block → Noted Fault (Option α)) (indent : Nat) :
    List Block → Noted Fault (List α)
  | [] => ⟨[], []⟩
  | b :: rest =>
    let entry := if b.line.indent = indent then read b else ⟨none, [stray b.line]⟩
    let entries := entries read indent rest
    ⟨entry.value.toList ++ entries.value, entry.notes ++ entries.notes⟩

end Block

end Linkage
