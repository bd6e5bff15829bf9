/-
Purpose: Cutting a text into its lines.
-/

namespace Linkage.Text

/-- A line without the carriage return it ends in, if it ends in one. -/
def dropReturn (line : List Char) : List Char :=
  match line.getLast? with
  | some '\r' => line.dropLast
  | _ => line

/-- The lines of a text, without their endings.  A newline ends a line, together with a
carriage return right before it.  What follows the last newline is a line only if it
holds something. -/
def lines : List Char → List (List Char)
  | [] => []
  | '\n' :: rest => [] :: lines rest
  | '\r' :: '\n' :: rest => [] :: lines rest
  | c :: rest =>
    match lines rest with
    | [] => [[c]]
    | line :: others => (c :: line) :: others

end Linkage.Text
