/-
Purpose: Reading JSON text.
-/
import Linkage.Json.Basic

namespace Linkage.Json

/-- White space between the parts of a value. -/
def isSpace (c : Char) : Bool := c = ' ' || c = '\n' || c = '\t' || c = '\r'

/-- The text without the white space in front. -/
def skip (cs : List Char) : List Char := cs.dropWhile isSpace

/-! ### Strings -/

/-- The value of a hexadecimal digit of either case. -/
def hexDigit? (c : Char) : Option Nat :=
  if '0'.toNat ≤ c.toNat ∧ c.toNat ≤ '9'.toNat then some (c.toNat - '0'.toNat)
  else if 'a'.toNat ≤ c.toNat ∧ c.toNat ≤ 'f'.toNat then some (c.toNat - 'a'.toNat + 10)
  else if 'A'.toNat ≤ c.toNat ∧ c.toNat ≤ 'F'.toNat then some (c.toNat - 'A'.toNat + 10)
  else none

/-- The number that four hexadecimal digits stand for. -/
def hexUnit? (a b c d : Char) : Option Nat :=
  match hexDigit? a, hexDigit? b, hexDigit? c, hexDigit? d with
  | some a, some b, some c, some d => some (((a * 16 + b) * 16 + c) * 16 + d)
  | _, _, _, _ => none

/-- Whether a unit has to be followed by a low surrogate. -/
def isHighSurrogate (u : Nat) : Bool := 0xD800 ≤ u && u < 0xDC00

/-- Whether a unit can only follow a high surrogate. -/
def isLowSurrogate (u : Nat) : Bool := 0xDC00 ≤ u && u < 0xE000

/-- The character that a pair of surrogates stands for. -/
def surrogatePair (high low : Nat) : Char :=
  Char.ofNat (0x10000 + (high - 0xD800) * 0x400 + (low - 0xDC00))

/-- What a letter after a backslash stands for. -/
def simpleEscape? : Char → Option Char
  | '"' => some '"'
  | '\\' => some '\\'
  | '/' => some '/'
  | 'b' => some '\x08'
  | 'f' => some '\x0c'
  | 'n' => some '\n'
  | 'r' => some '\r'
  | 't' => some '\t'
  | _ => none

/-- The code points of a string up to its closing quote, and what follows the quote.
Characters below the space have to be escaped.  An escape by number gives that number,
which may be a surrogate. -/
def stringTail? : List Char → Option (List Nat × List Char)
  | [] => none
  | '"' :: rest => some ([], rest)
  | '\\' :: 'u' :: a :: b :: c :: d :: rest =>
    (hexUnit? a b c d).bind fun unit =>
      (stringTail? rest).map fun (points, after) => (unit :: points, after)
  | '\\' :: e :: rest =>
    (simpleEscape? e).bind fun c =>
      (stringTail? rest).map fun (points, after) => (c.toNat :: points, after)
  | c :: rest =>
    if c.toNat < 0x20 ∨ c = '\\' then none
    else (stringTail? rest).map fun (points, after) => (c.toNat :: points, after)

/-- The text that code points spell.  Surrogates have to come in pairs, the high one
first. -/
def spelled? : List Nat → Option (List Char)
  | [] => some []
  | [point] =>
    if isHighSurrogate point || isLowSurrogate point then none else some [Char.ofNat point]
  | point :: next :: rest =>
    if isHighSurrogate point then
      if isLowSurrogate next then (spelled? rest).map fun cs => surrogatePair point next :: cs
      else none
    else if isLowSurrogate point then none
    else (spelled? (next :: rest)).map fun cs => Char.ofNat point :: cs

/-- The value of a string with some code points. -/
def ofPoints (points : List Nat) : Json :=
  match spelled? points with
  | some cs => string (String.ofList cs)
  | none => garbled

/-- The value of an object whose field names have some code points. -/
def ofFields (fields : List (List Nat × Json)) : Json :=
  match fields.mapM fun (points, value) =>
      (spelled? points).map fun cs => (String.ofList cs, value) with
  | some fields => object fields
  | none => garbled

/-! ### Numbers -/

def isDigit (c : Char) : Bool := '0'.toNat ≤ c.toNat && c.toNat ≤ '9'.toNat

def ofDigits (digits : List Char) : Nat :=
  digits.foldl (fun n c => n * 10 + (c.toNat - '0'.toNat)) 0

/-- The digits before the point: a zero alone, or digits that do not start with one. -/
def integerPart? : List Char → Option (List Char × List Char)
  | '0' :: rest => some (['0'], rest)
  | cs =>
    let digits := cs.takeWhile isDigit
    if digits.isEmpty then none else some (digits, cs.drop digits.length)

/-- The fraction with its point, if there is one. -/
def fraction? : List Char → Option (List Char × List Char)
  | '.' :: rest =>
    let digits := rest.takeWhile isDigit
    if digits.isEmpty then none else some ('.' :: digits, rest.drop digits.length)
  | cs => some ([], cs)

/-- The exponent with its letter, if there is one. -/
def exponent? : List Char → Option (List Char × List Char)
  | [] => some ([], [])
  | e :: rest =>
    if e = 'e' ∨ e = 'E' then
      let sign := match rest with
        | s :: _ => if s = '+' ∨ s = '-' then [s] else []
        | [] => []
      let rest := rest.drop sign.length
      let digits := rest.takeWhile isDigit
      if digits.isEmpty then none
      else some (e :: (sign ++ digits), rest.drop digits.length)
    else some ([], e :: rest)

/-- A number and what follows it. -/
def number? (cs : List Char) : Option (Json × List Char) := do
  let sign := if cs.head? = some '-' then ['-'] else []
  let (digits, rest) ← integerPart? (cs.drop sign.length)
  let (fraction, rest) ← fraction? rest
  let (exponent, rest) ← exponent? rest
  if sign.isEmpty ∧ fraction.isEmpty ∧ exponent.isEmpty then
    return (natural (ofDigits digits), rest)
  else
    return (number (String.ofList (sign ++ digits ++ fraction ++ exponent)), rest)

/-! ### Values -/

/-- What follows a word at the start of the text. -/
def after? (word : String) (cs : List Char) : Option (List Char) :=
  if word.toList.isPrefixOf cs then some (cs.drop word.length) else none

mutual
/-- A value and what follows it.  `depth` bounds how many calls may be nested. -/
def value? (depth : Nat) (cs : List Char) : Option (Json × List Char) :=
  match depth with
  | 0 => none
  | depth + 1 =>
    match skip cs with
    | [] => none
    | '"' :: rest => (stringTail? rest).map fun (points, rest) => (ofPoints points, rest)
    | '[' :: rest =>
      match skip rest with
      | ']' :: rest => some (array [], rest)
      | rest => (elements? depth rest).map fun (elements, rest) => (array elements, rest)
    | '\x7b' :: rest =>
      match skip rest with
      | '\x7d' :: rest => some (object [], rest)
      | rest => (fields? depth rest).map fun (fields, rest) => (ofFields fields, rest)
    | 'n' :: rest => (after? "ull" rest).map fun rest => (null, rest)
    | 't' :: rest => (after? "rue" rest).map fun rest => (bool true, rest)
    | 'f' :: rest => (after? "alse" rest).map fun rest => (bool false, rest)
    | cs => number? cs

/-- The elements of an array up to its closing bracket. -/
def elements? (depth : Nat) (cs : List Char) : Option (List Json × List Char) :=
  match depth with
  | 0 => none
  | depth + 1 =>
    (value? depth cs).bind fun (element, rest) =>
      match skip rest with
      | ']' :: rest => some ([element], rest)
      | ',' :: rest => (elements? depth rest).map fun (others, rest) => (element :: others, rest)
      | _ => none

/-- The fields of an object up to its closing brace, each with the code points of its
name. -/
def fields? (depth : Nat) (cs : List Char) : Option (List (List Nat × Json) × List Char) :=
  match depth with
  | 0 => none
  | depth + 1 =>
    match skip cs with
    | '"' :: rest =>
      (stringTail? rest).bind fun (name, rest) =>
        match skip rest with
        | ':' :: rest =>
          (value? depth rest).bind fun (value, rest) =>
            let field := (name, value)
            match skip rest with
            | '\x7d' :: rest => some ([field], rest)
            | ',' :: rest => (fields? depth rest).map fun (others, rest) => (field :: others, rest)
            | _ => none
        | _ => none
    | _ => none
end

/-- The value that a text is written for.  Every nested call consumes a character, so the
length of the text bounds their number. -/
def parse? (text : String) : Option Json :=
  let cs := text.toList
  (value? (cs.length + 1) cs).bind fun (value, rest) =>
    if (skip rest).isEmpty then some value else none

end Linkage.Json
