/-
Purpose: The tokens of a declaration line.
-/
import Linkage.Diagnostic.Basic

namespace Linkage

/-- The reserved words. -/
inductive Keyword where
  | import_
  | space
  | class_
  | interface
  | delegate
  | coroutine
  | native
  | const
  | public_
  | internal
  | protected_
  | private_
deriving DecidableEq, Repr

namespace Keyword

def all : List Keyword :=
  [import_, space, class_, interface, delegate, coroutine, native, const,
   public_, internal, protected_, private_]

def spelling : Keyword → String
  | import_ => "import"
  | space => "space"
  | class_ => "class"
  | interface => "interface"
  | delegate => "delegate"
  | coroutine => "coroutine"
  | native => "native"
  | const => "const"
  | public_ => "public"
  | internal => "internal"
  | protected_ => "protected"
  | private_ => "private"

/-- The keyword that a word is, if it is reserved. -/
def ofSpelling? (word : String) : Option Keyword := all.find? fun k => k.spelling = word

/-- The visibility that a keyword asks for; `space` is one of them. -/
def visibility? : Keyword → Option Visibility
  | public_ => some .public_
  | internal => some .internal
  | space => some .space
  | protected_ => some .protected_
  | private_ => some .private_
  | _ => none

end Keyword

inductive Mark where
  | colon
  | comma
  | dot
  | openParen
  | closeParen
  | openBracket
  | closeBracket
  | equals
deriving DecidableEq, Repr

namespace Mark

def all : List Mark := [colon, comma, dot, openParen, closeParen, openBracket, closeBracket, equals]

def spelling : Mark → Char
  | colon => ':'
  | comma => ','
  | dot => '.'
  | openParen => '('
  | closeParen => ')'
  | openBracket => '['
  | closeBracket => ']'
  | equals => '='

def ofChar? (c : Char) : Option Mark := all.find? fun m => m.spelling = c

end Mark

inductive TokenKind where
  | ident (name : String)
  /-- Everything after `=`, as it was written, without blanks at its end. -/
  | raw (text : String)
  | keyword (word : Keyword)
  | mark (mark : Mark)
deriving DecidableEq, Repr

/-- A token in messages. -/
def TokenKind.describe : TokenKind → String
  | ident name => "`" ++ name ++ "`"
  | raw _ => "initializer"
  | keyword word => "`" ++ word.spelling ++ "`"
  | mark m => "`" ++ m.spelling.toString ++ "`"

/-- A token with the columns it covers, counted in bytes. -/
structure Token where
  kind : TokenKind
  span : Span
deriving DecidableEq, Repr

/-- The tokens of one line.  The end of the line is not a token: it is where the
list of tokens ends, at the place `finish`. -/
structure TokenLine where
  tokens : List Token
  finish : Span
deriving DecidableEq, Repr

/-- The words for the end of a line in messages. -/
def TokenLine.endWords : String := "end of line"

end Linkage
