/-
Purpose: Writing JSON text.
-/
import Linkage.Json.Basic

namespace Linkage.Json

/-- The hexadecimal digit of a number below 16. -/
def lowerHex (n : Nat) : Char :=
  if n < 10 then Char.ofNat ('0'.toNat + n) else Char.ofNat ('a'.toNat + (n - 10))

/-- A character as it stands inside a string.  Quotes, backslashes and the characters below
the space are escaped, and all others stand for themselves. -/
def escape (c : Char) : List Char :=
  match c with
  | '"' => ['\\', '"']
  | '\\' => ['\\', '\\']
  | '\x08' => ['\\', 'b']
  | '\x0c' => ['\\', 'f']
  | '\n' => ['\\', 'n']
  | '\r' => ['\\', 'r']
  | '\t' => ['\\', 't']
  | c =>
    if c.toNat < 0x20 then
      ['\\', 'u', '0', '0', lowerHex (c.toNat / 16), lowerHex (c.toNat % 16)]
    else [c]

def quoted (s : String) : String := String.ofList ('"' :: s.toList.flatMap escape ++ ['"'])

/-! ### On one line -/

mutual
/-- A value with no white space between its parts.  What was garbled is written as null. -/
def compact : Json → String
  | null | garbled => "null"
  | bool true => "true"
  | bool false => "false"
  | natural n => toString n
  | number text => text
  | string s => quoted s
  | array elements => "[" ++ compactElements elements ++ "]"
  | object fields => "\x7b" ++ compactFields fields ++ "\x7d"

def compactElements : List Json → String
  | [] => ""
  | [element] => compact element
  | element :: others => compact element ++ "," ++ compactElements others

def compactFields : List (String × Json) → String
  | [] => ""
  | [(name, value)] => quoted name ++ ":" ++ compact value
  | (name, value) :: others => quoted name ++ ":" ++ compact value ++ "," ++ compactFields others
end

/-! ### On many lines -/

/-- The start of a line inside `depth` brackets. -/
def newLine (depth : Nat) : String :=
  "\n" ++ String.join (List.replicate depth "  ")

mutual
/-- A value with each element and field on a line of its own, inside `depth` brackets. -/
def prettyAt (depth : Nat) : Json → String
  | null | garbled => "null"
  | bool true => "true"
  | bool false => "false"
  | natural n => toString n
  | number text => text
  | string s => quoted s
  | array [] => "[]"
  | array (element :: others) =>
    "[" ++ newLine (depth + 1) ++ prettyAt (depth + 1) element ++
      prettyElements (depth + 1) others ++ newLine depth ++ "]"
  | object [] => "\x7b\x7d"
  | object ((name, value) :: others) =>
    "\x7b" ++ newLine (depth + 1) ++ quoted name ++ ": " ++ prettyAt (depth + 1) value ++
      prettyFields (depth + 1) others ++ newLine depth ++ "\x7d"

/-- The elements after the first. -/
def prettyElements (depth : Nat) : List Json → String
  | [] => ""
  | element :: others =>
    "," ++ newLine depth ++ prettyAt depth element ++ prettyElements depth others

/-- The fields after the first. -/
def prettyFields (depth : Nat) : List (String × Json) → String
  | [] => ""
  | (name, value) :: others =>
    "," ++ newLine depth ++ quoted name ++ ": " ++ prettyAt depth value ++ prettyFields depth others
end

/-- A value on many lines, two blanks deeper inside each bracket. -/
def pretty (j : Json) : String := prettyAt 0 j

end Linkage.Json
