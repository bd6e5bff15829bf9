/-
Purpose: What the tokens of one line can declare.
-/
import Linkage.Source.Outline
import Linkage.Source.Token

/-!
Every reader takes the tokens that are left on the line and the place where the line
ends, and gives what it read with the tokens it left.  A token list ends where its line
ends, so the empty list stands for the end of the line.
-/

namespace Linkage.Grammar

/-- The first token that is left, in words. -/
def found : List Token → String
  | [] => TokenLine.endWords
  | token :: _ => token.kind.describe

/-- The place of the first token that is left. -/
def place (finish : Span) : List Token → Span
  | [] => finish
  | token :: _ => token.span

/-- A token is missing here. -/
def missing (finish : Span) (wanted : String) (tokens : List Token) : Fault :=
  ⟨place finish tokens, .expected wanted (found tokens)⟩

def missingName (finish : Span) (tokens : List Token) : Fault :=
  ⟨place finish tokens, .expectedName (found tokens)⟩

/-- Nothing may be left on the line. -/
def endOfLine : List Token → Except Fault Unit
  | [] => .ok ()
  | tokens@(token :: _) => .error (missing token.span TokenLine.endWords tokens)

/-- The name that a type can start with.  Three keywords also name kernel types. -/
def typeHead? : TokenKind → Option String
  | .ident name => some name
  | .keyword .interface => some "interface"
  | .keyword .delegate => some "delegate"
  | .keyword .coroutine => some "coroutine"
  | _ => none

/-- The segments after the first of a dotted name, with the column where they end. -/
def segments (finish : Span) (stop : Nat) :
    List Token → Except Fault (List String × Nat × List Token)
  | ⟨.mark .dot, _⟩ :: ⟨.ident name, span⟩ :: tokens => do
    let (path, stop, rest) ← segments finish span.stop tokens
    return (name :: path, stop, rest)
  | ⟨.mark .dot, _⟩ :: tokens => .error (missingName finish tokens)
  | tokens => .ok ([], stop, tokens)

/-- Pairs of array brackets: how many, and the column where they end. -/
def brackets (finish : Span) (stop : Nat) : List Token → Except Fault (Nat × Nat × List Token)
  | ⟨.mark .openBracket, _⟩ :: ⟨.mark .closeBracket, span⟩ :: tokens => do
    let (count, stop, rest) ← brackets finish span.stop tokens
    return (count + 1, stop, rest)
  | ⟨.mark .openBracket, _⟩ :: tokens =>
    .error (missing finish (TokenKind.mark .closeBracket).describe tokens)
  | tokens => .ok (0, stop, tokens)

/-- A type: a dotted name, then array brackets. -/
def typeExpr (finish : Span) : List Token → Except Fault (TypeExpr × List Token)
  | [] => .error ⟨finish, .expectedType TokenLine.endWords⟩
  | token :: tokens =>
    match typeHead? token.kind with
    | none => .error ⟨token.span, .expectedType token.kind.describe⟩
    | some first => do
      let (path, stop, tokens) ← segments finish token.span.stop tokens
      let (dimension, stop, tokens) ← brackets finish stop tokens
      return (⟨first :: path, dimension, { token.span with stop }⟩, tokens)

theorem exists_of_bind {α β : Type} {x : Except Fault α} {f : α → Except Fault β} {b : β}
    (h : (x >>= f) = .ok b) : ∃ a, x = .ok a ∧ f a = .ok b := by
  cases x with
  | error fault => cases h
  | ok a => exact ⟨a, rfl, h⟩

theorem length_segments_le {finish : Span} {stop stop' : Nat} {tokens rest : List Token}
    {path : List String} (h : segments finish stop tokens = .ok (path, stop', rest)) :
    rest.length ≤ tokens.length := by
  fun_induction segments finish stop tokens generalizing path stop' with
  | case1 stop dot name span tokens ih =>
    obtain ⟨read, isRead, same⟩ := exists_of_bind h
    cases same
    have := ih isRead
    simp only [List.length_cons]
    omega
  | case2 => cases h
  | case3 =>
    cases h
    exact Nat.le_refl _

theorem length_brackets_le {finish : Span} {stop stop' count : Nat} {tokens rest : List Token}
    (h : brackets finish stop tokens = .ok (count, stop', rest)) :
    rest.length ≤ tokens.length := by
  fun_induction brackets finish stop tokens generalizing count stop' with
  | case1 stop dot span tokens ih =>
    obtain ⟨read, isRead, same⟩ := exists_of_bind h
    cases same
    have := ih isRead
    simp only [List.length_cons]
    omega
  | case2 => cases h
  | case3 =>
    cases h
    exact Nat.le_refl _

/-- A type takes at least one token. -/
theorem length_typeExpr_lt {finish : Span} {tokens rest : List Token} {type : TypeExpr}
    (h : typeExpr finish tokens = .ok (type, rest)) : rest.length < tokens.length := by
  cases tokens with
  | nil => cases h
  | cons token tokens =>
    unfold typeExpr at h
    dsimp only at h
    split at h
    · cases h
    · obtain ⟨⟨_, _, middle⟩, isPath, h⟩ := exists_of_bind h
      obtain ⟨⟨_, _, left⟩, isArray, same⟩ := exists_of_bind h
      cases same
      exact Nat.lt_succ_of_le
        (Nat.le_trans (length_brackets_le isArray) (length_segments_le isPath))

/-- Further types, each after a comma. -/
def moreTypes (finish : Span) (tokens : List Token) : Except Fault (List TypeExpr × List Token) :=
  match tokens with
  | ⟨.mark .comma, _⟩ :: tokens =>
    match _h : typeExpr finish tokens with
    | .error fault => .error fault
    | .ok (type, tokens) => do
      let (types, tokens) ← moreTypes finish tokens
      return (type :: types, tokens)
  | tokens => .ok ([], tokens)
termination_by tokens.length
decreasing_by
  have := length_typeExpr_lt _h
  simp only [List.length_cons]
  omega

/-- Parameters and the closing parenthesis.  A comma may stand after the last one. -/
def parameters (finish : Span) (tokens : List Token) :
    Except Fault (List ParameterDecl × List Token) :=
  match tokens with
  | ⟨.mark .closeParen, _⟩ :: tokens => .ok ([], tokens)
  | [] => .error (missing finish (TokenKind.mark .closeParen).describe [])
  | tokens =>
    match _h : typeExpr finish tokens with
    | .error fault => .error fault
    | .ok (type, ⟨.ident name, span⟩ :: ⟨.mark .comma, _⟩ :: tokens) => do
      let (params, tokens) ← parameters finish tokens
      return (⟨some name, type, span⟩ :: params, tokens)
    | .ok (type, ⟨.ident name, span⟩ :: ⟨.mark .closeParen, _⟩ :: tokens) =>
      .ok ([⟨some name, type, span⟩], tokens)
    | .ok (_, ⟨.ident _, _⟩ :: tokens) =>
      .error (missing finish (TokenKind.mark .closeParen).describe tokens)
    | .ok (type, ⟨.mark .comma, _⟩ :: tokens) => do
      let (params, tokens) ← parameters finish tokens
      return (⟨none, type, type.span⟩ :: params, tokens)
    | .ok (type, ⟨.mark .closeParen, _⟩ :: tokens) => .ok ([⟨none, type, type.span⟩], tokens)
    | .ok (_, tokens) => .error (missing finish (TokenKind.mark .closeParen).describe tokens)
termination_by tokens.length
decreasing_by all_goals
    have := length_typeExpr_lt _h
    simp only [List.length_cons] at this ⊢
    omega

/-- What a line can declare that is neither a space nor a type: a function or a variable. -/
inductive Head where
  | function (returns : List TypeExpr) (name : String) (span : Span) (params : List ParameterDecl)
  | plain (type : TypeExpr) (name : String) (span : Span) (initializer : Option String)
deriving DecidableEq, Repr

/-- The rest of a variable's line, after its name. -/
def initializer (span : Span) : List Token → Except Fault (Option String × List Token)
  | ⟨.mark .equals, _⟩ :: ⟨.raw text, _⟩ :: tokens =>
    if text.isEmpty then .error ⟨span, .expectedInitializer⟩ else .ok (some text, tokens)
  | ⟨.mark .equals, _⟩ :: _ => .error ⟨span, .expectedInitializer⟩
  | tokens => .ok (none, tokens)

/-- A function or a variable.  In `A, B name(...)` the types before the name are the
returns; without a name before the parenthesis, the last type is the name. -/
def head (finish : Span) (tokens : List Token) : Except Fault Head := do
  let (first, tokens) ← typeExpr finish tokens
  let (more, tokens) ← moreTypes finish tokens
  match tokens with
  | ⟨.mark .openParen, _⟩ :: tokens =>
    let name := more.getLast?.getD first
    if name.isSimple then
      let (params, tokens) ← parameters finish tokens
      endOfLine tokens
      return .function (first :: more).dropLast name.text name.span params
    else
      .error ⟨name.span, .notFunctionName name.text⟩
  | ⟨.ident name, span⟩ :: ⟨.mark .openParen, _⟩ :: tokens =>
    let (params, tokens) ← parameters finish tokens
    endOfLine tokens
    return .function (first :: more) name span params
  | ⟨.ident name, span⟩ :: tokens =>
    if more.isEmpty then
      let (text, tokens) ← initializer span tokens
      endOfLine tokens
      return .plain first name span text
    else
      .error ⟨span, .severalVariableTypes⟩
  | tokens => .error (missingName finish tokens)

/-- The types after a colon, if there is one. -/
def inherits (finish : Span) : List Token → Except Fault (List TypeExpr × List Token)
  | ⟨.mark .colon, _⟩ :: tokens => do
    let (first, tokens) ← typeExpr finish tokens
    let (more, tokens) ← moreTypes finish tokens
    return (first :: more, tokens)
  | tokens => .ok ([], tokens)

/-- The name of a class or interface and what it inherits, to the end of the line. -/
def typeHeader (finish : Span) : List Token → Except Fault (String × Span × List TypeExpr)
  | ⟨.ident name, span⟩ :: tokens => do
    let (types, tokens) ← inherits finish tokens
    endOfLine tokens
    return (name, span, types)
  | tokens => .error (missingName finish tokens)

/-- Whether the return types of a coroutine are over: a name comes next, and what
follows it cannot continue a type or a list of types. -/
def atCoroutineName : List Token → Bool
  | ⟨.ident _, _⟩ :: ⟨.mark .dot, _⟩ :: _ => false
  | ⟨.ident _, _⟩ :: ⟨.mark .openBracket, _⟩ :: _ => false
  | ⟨.ident _, _⟩ :: ⟨.mark .comma, _⟩ :: _ => false
  | ⟨.ident _, _⟩ :: ⟨.ident _, _⟩ :: _ => false
  | ⟨.ident _, _⟩ :: _ => true
  | _ => false

def coroutineReturns (finish : Span) (tokens : List Token) :
    Except Fault (List TypeExpr × List Token) :=
  if atCoroutineName tokens then .ok ([], tokens)
  else
    match _h : typeExpr finish tokens with
    | .error fault => .error fault
    | .ok (type, ⟨.mark .comma, _⟩ :: tokens) => do
      let (types, tokens) ← coroutineReturns finish tokens
      return (type :: types, tokens)
    | .ok (type, tokens) => .ok ([type], tokens)
termination_by tokens.length
decreasing_by
  have := length_typeExpr_lt _h
  simp only [List.length_cons] at this
  omega

/-- A coroutine's return types and name, to the end of the line. -/
def coroutine (finish : Span) (tokens : List Token) :
    Except Fault (List TypeExpr × String × Span) := do
  let (returns, tokens) ← coroutineReturns finish tokens
  match tokens with
  | ⟨.ident name, span⟩ :: tokens =>
    endOfLine tokens
    return (returns, name, span)
  | tokens => .error (missingName finish tokens)

/-- The dotted name after `import`, to the end of the line. -/
def importPath (finish : Span) : List Token → Except Fault (List String)
  | ⟨.ident name, span⟩ :: tokens => do
    let (path, _, tokens) ← segments finish span.stop tokens
    endOfLine tokens
    return name :: path
  | tokens => .error (missingName finish tokens)

/-- The visibility that a token asks for. -/
def visibility? (token : Token) : Option Visibility :=
  match token.kind with
  | .keyword word => word.visibility?
  | _ => none

/-- The visibility keywords after a first one.  Every one of them is a clash. -/
def clashes (first : Visibility) : List Token → Noted Fault (List Token)
  | [] => ⟨[], []⟩
  | token :: tokens =>
    match visibility? token with
    | none => ⟨token :: tokens, []⟩
    | some extra =>
      let rest := clashes first tokens
      ⟨rest.value, ⟨token.span, .visibilityClash extra first⟩ :: rest.notes⟩

/-- The visibility in front of a declaration, and the tokens after it. -/
def visibility : List Token → Noted Fault (Option Visibility × List Token)
  | [] => ⟨(none, []), []⟩
  | token :: tokens =>
    match visibility? token with
    | none => ⟨(none, token :: tokens), []⟩
    | some first =>
      let rest := clashes first tokens
      ⟨(some first, rest.value), rest.notes⟩

end Linkage.Grammar
