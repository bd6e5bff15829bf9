/-
Purpose: Cutting a line into tokens.
-/
import Linkage.Source.Line
import Linkage.Source.Token

namespace Linkage.Lexer

/-- The bytes that a stretch of text takes. -/
def byteLength (text : List Char) : Nat := text.foldr (fun c length => c.utf8Size + length) 0

/-- The first byte of a character's encoding, as the character with that number. -/
def leadByte (c : Char) : Char :=
  let n := c.toNat
  if n < 0x80 then c
  else if n < 0x800 then Char.ofNat (0xC0 + n / 0x40)
  else if n < 0x10000 then Char.ofNat (0xE0 + n / 0x1000)
  else Char.ofNat (0xF0 + n / 0x40000)

/-- Names start with a letter or an underscore, and letters are those of ASCII. -/
def isIdentStart (c : Char) : Bool := c.isAlpha || c == '_'

/-- Names go on with letters, digits and underscores. -/
def isIdentRest (c : Char) : Bool := c.isAlphanum || c == '_'

/-- The text of an initializer, read from a column on.  It reaches to the end of the
line or to a comment.  Inside quotes no comment starts, and a backslash takes the next
character with it.  The open quote, if any, is given with its column; one that is never
closed is an error, from that column to the end of the line. -/
def initializer (column : Nat) (quote : Option (Char × Nat)) :
    List Char → Except (Nat × Nat) (List Char)
  | [] =>
    match quote with
    | some (_, opened) => .error (opened, column)
    | none => .ok []
  | c :: rest =>
    match quote with
    | some (mark, opened) =>
      if c = '\\' then
        match rest with
        | [] => .error (opened, column + 1)
        | d :: rest =>
          (initializer (column + 1 + d.utf8Size) (some (mark, opened)) rest).map
            fun text => c :: d :: text
      else if c = mark then
        (initializer (column + 1) none rest).map fun text => c :: text
      else
        (initializer (column + c.utf8Size) (some (mark, opened)) rest).map fun text => c :: text
    | none =>
      if c = '"' ∨ c = '\'' then
        (initializer (column + 1) (some (c, column)) rest).map fun text => c :: text
      else if Line.startsComment (c :: rest) then .ok []
      else (initializer (column + c.utf8Size) none rest).map fun text => c :: text

/-- The token of a word: a keyword, or else a name. -/
def word (text : List Char) : TokenKind :=
  let name := String.ofList text
  match Keyword.ofSpelling? name with
  | some k => .keyword k
  | none => .ident name

/-- Put a token in front of the tokens of the rest of a line. -/
def prepend (token : Token) (line : TokenLine) : TokenLine :=
  { line with tokens := token :: line.tokens }

/-- The tokens of the rest of a line, read from a column on.  After `=` the rest is one
raw token, so nothing is left to cut there. -/
def tokens (line column : Nat) (text : List Char) : Except Fault TokenLine :=
  match text with
  | [] => .ok ⟨[], ⟨line, column, column⟩⟩
  | c :: rest =>
    if Line.isMargin c then tokens line (column + 1) rest
    else if Line.startsComment (c :: rest) then .ok ⟨[], ⟨line, column, column⟩⟩
    else if isIdentStart c then
      let name := c :: rest.takeWhile isIdentRest
      let stop := column + name.length
      (tokens line stop (rest.dropWhile isIdentRest)).map
        (prepend ⟨word name, ⟨line, column, stop⟩⟩)
    else
      match Mark.ofChar? c with
      | none => .error ⟨⟨line, column, column + 1⟩, .unexpectedCharacter (leadByte c)⟩
      | some .equals =>
        let start := column + 1 + (rest.takeWhile Line.isMargin).length
        match initializer start none (rest.dropWhile Line.isMargin) with
        | .error (opened, stop) => .error ⟨⟨line, opened, stop⟩, .unterminatedString⟩
        | .ok raw =>
          let stop := start + byteLength raw
          .ok ⟨[⟨.mark .equals, ⟨line, column, column + 1⟩⟩,
                ⟨.raw (String.ofList (Text.trimEnd raw)), ⟨line, start, stop⟩⟩],
               ⟨line, stop, stop⟩⟩
      | some mark =>
        (tokens line (column + 1) rest).map (prepend ⟨.mark mark, ⟨line, column, column + 1⟩⟩)
termination_by text.length
decreasing_by
  · simp
  · have := (List.dropWhile_suffix isIdentRest (l := rest)).length_le
    simp only [List.length_cons]
    omega
  · simp

end Linkage.Lexer

namespace Linkage

/-- The tokens of a line.  Columns count from the start of the line as written. -/
def TokenLine.ofLine (line : Line) : Except Fault TokenLine :=
  Lexer.tokens line.number (line.margin.length + 1) line.content

end Linkage
