/-
Purpose: Giving the lines of a text other numbers changes nothing of what is read from them but
  these numbers.
-/
import Linkage.Proofs.Source.Reading

namespace Linkage

open List Grammar TokenLine

variable {fault fault' : Fault} {α : Type} {kind : TokenKind}

/-! ### Other line numbers -/

section Relined

variable (φ : Nat → Nat)

/-- The place on the line of another number, at the same columns. -/
def Span.relined (s : Span) : Span := { s with line := φ s.line }

def Fault.relined (fault : Fault) : Fault := { fault with span := fault.span.relined φ }

def Token.relined (token : Token) : Token := { token with span := token.span.relined φ }

def TokenLine.relined (line : TokenLine) : TokenLine :=
  ⟨line.tokens.map (·.relined φ), line.finish.relined φ⟩

def Line.relined (line : Line) : Line := { line with number := φ line.number }

def TypeExpr.relined (e : TypeExpr) : TypeExpr := { e with span := e.span.relined φ }

def Body.relined (body : Body) : Body :=
  { body with firstLine := φ body.firstLine, lastLine := φ body.lastLine }

def ParameterDecl.relined (p : ParameterDecl) : ParameterDecl :=
  { p with type := p.type.relined φ, span := p.span.relined φ }

def FunctionDecl.relined (f : FunctionDecl) : FunctionDecl :=
  { f with
    span := f.span.relined φ, params := f.params.map (·.relined φ)
    returns := f.returns.map (·.relined φ), body := f.body.map (·.relined φ) }

def VariableDecl.relined (v : VariableDecl) : VariableDecl :=
  { v with span := v.span.relined φ, type := v.type.relined φ }

def ClassDecl.relined (c : ClassDecl) : ClassDecl :=
  { c with
    span := c.span.relined φ, inherits := c.inherits.map (·.relined φ)
    fields := c.fields.map (·.relined φ), functions := c.functions.map (·.relined φ)
    constructors := c.constructors.map (·.relined φ) }

def InterfaceDecl.relined (i : InterfaceDecl) : InterfaceDecl :=
  { i with
    span := i.span.relined φ, inherits := i.inherits.map (·.relined φ)
    functions := i.functions.map (·.relined φ) }

def DelegateDecl.relined (d : DelegateDecl) : DelegateDecl :=
  { d with
    span := d.span.relined φ, params := d.params.map (·.relined φ)
    returns := d.returns.map (·.relined φ) }

def CoroutineDecl.relined (c : CoroutineDecl) : CoroutineDecl :=
  { c with span := c.span.relined φ, returns := c.returns.map (·.relined φ) }

mutual

def Item.relined : Item → Item
  | .space name span items => .space name (span.relined φ) (Item.relinedAll items)
  | .classDecl decl => .classDecl (decl.relined φ)
  | .interfaceDecl decl => .interfaceDecl (decl.relined φ)
  | .delegateDecl decl => .delegateDecl (decl.relined φ)
  | .coroutineDecl decl => .coroutineDecl (decl.relined φ)
  | .variableDecl decl => .variableDecl (decl.relined φ)
  | .functionDecl decl => .functionDecl (decl.relined φ)
  | .nativeDecl decl => .nativeDecl (decl.relined φ)

def Item.relinedAll : List Item → List Item
  | [] => []
  | item :: rest => item.relined :: Item.relinedAll rest

end

def ImportDecl.relined (decl : ImportDecl) : ImportDecl := { decl with span := decl.span.relined φ }

/-- The outline with other line numbers everywhere. -/
def Outline.relined (outline : Outline) : Outline :=
  ⟨outline.imports.map (·.relined φ), Item.relinedAll φ outline.items⟩

mutual

def Block.relined : Block → Block
  | .mk line nested => .mk (line.relined φ) (relinedAll nested)

def Block.relinedAll : List Block → List Block
  | [] => []
  | b :: rest => b.relined :: relinedAll rest

end

end Relined

variable {φ : Nat → Nat}

theorem Item.relinedAll_eq_map (items : List Item) :
    Item.relinedAll φ items = items.map (Item.relined φ) := by
  induction items with
  | nil => rfl
  | cons item rest ih => rw [Item.relinedAll, ih, map_cons]

/-! ### Readings that differ in line numbers -/

section Relines

variable {α α' β β' : Type} {h : α → α'} {k : β → β'}

/-- The second reading ends as the first does, on lines of other numbers. -/
def Relines (φ : Nat → Nat) (h : α → α') (x : Except Fault α) (y : Except Fault α') : Prop :=
  y = (x.map h).mapError (Fault.relined φ)

namespace Relines

theorem ok {a : α} {a' : α'} (same : a' = h a) : Relines φ h (.ok a) (.ok a') :=
  congrArg Except.ok same

theorem error (same : fault' = fault.relined φ) : Relines φ h (.error fault) (.error fault') :=
  congrArg Except.error same

theorem bind {x : Except Fault α} {y : Except Fault α'} {f : α → Except Fault β}
    {f' : α' → Except Fault β'} (first : Relines φ h x y)
    (second : ∀ a, Relines φ k (f a) (f' (h a))) : Relines φ k (x >>= f) (y >>= f') := by
  subst first
  cases x with
  | ok a => exact second a
  | error fault => rfl

section

variable {x : Except Fault α} {y : Except Fault α'} (relines : Relines φ h x y)
include relines

theorem of_ok {a : α} (works : x = .ok a) : y = .ok (h a) := by
  rw [relines, works]
  rfl

theorem of_error (fails : x = .error fault) : y = .error (fault.relined φ) := by
  rw [relines, fails]
  rfl

theorem map {f : α → β} {f' : α' → β'} (same : ∀ a, f' (h a) = k (f a)) :
    Relines φ k (x.map f) (y.map f') := by
  subst relines
  cases x with
  | ok a => exact ok (same a)
  | error fault => rfl

end

end Relines

/-- The second computation has the value and the notes of the first, on lines of other numbers. -/
def Noted.Relines (φ : Nat → Nat) (h : α → α') (x : Noted Fault α) (y : Noted Fault α') : Prop :=
  y = ⟨h x.value, x.notes.map (Fault.relined φ)⟩

namespace Noted.Relines

theorem mk {a : α} {a' : α'} {notes notes' : List Fault} (value : a' = h a)
    (noted : notes' = notes.map (Fault.relined φ)) : Noted.Relines φ h ⟨a, notes⟩ ⟨a', notes'⟩ := by
  rw [value, noted]
  rfl

protected theorem pure {a : α} {a' : α'} (same : a' = h a) : Noted.Relines φ h (pure a) (pure a') :=
  mk same rfl

theorem note (same : fault' = fault.relined φ) :
    Noted.Relines φ id (Noted.note fault) (Noted.note fault') :=
  mk rfl (congrArg (fun n => [n]) same)

theorem bind {x : Noted Fault α} {y : Noted Fault α'} {f : α → Noted Fault β}
    {f' : α' → Noted Fault β'} (first : Noted.Relines φ h x y)
    (second : ∀ a, Noted.Relines φ k (f a) (f' (h a))) :
    Noted.Relines φ k (x >>= f) (y >>= f') := by
  subst first
  apply Noted.ext
  · show (f' (h x.value)).value = k (f x.value).value
    rw [second x.value]
  · show x.notes.map _ ++ (f' (h x.value)).notes = _
    rw [second x.value, notes_bind, map_append]

/-- What is read of the first of several and of the others, put together. -/
theorem join {h : α → α} {entry entry' : Noted Fault (Option α)}
    {later later' : Noted Fault (List α)} (first : Noted.Relines φ (Option.map h) entry entry')
    (others : Noted.Relines φ (map h) later later') :
    Noted.Relines φ (map h) ⟨entry.value.toList ++ later.value, entry.notes ++ later.notes⟩
      ⟨entry'.value.toList ++ later'.value, entry'.notes ++ later'.notes⟩ := by
  subst first others
  refine mk ?_ map_append.symm
  cases entry.value <;> rfl

end Noted.Relines

end Relines

/-! ### Tokens -/

/-- The tokens of a line on a line of another number. -/
theorem Lexer.tokens_relined (line column : Nat) (text : List Char) :
    Relines φ (relined φ) (tokens line column text) (tokens (φ line) column text) := by
  fun_induction tokens line column text with
  | case1 column =>
    rw [tokens]
    exact .ok rfl
  | case2 column c rest blank ih =>
    rw [tokens, if_pos blank]
    exact ih
  | case3 column c rest notBlank comment =>
    rw [tokens, if_neg notBlank, if_pos comment]
    exact .ok rfl
  | case4 column c rest notBlank noComment start name stop ih =>
    rw [tokens, if_neg notBlank, if_neg noComment, if_pos start]
    exact ih.map fun _ => rfl
  | case5 column c rest notBlank noComment noStart noMark =>
    rw [tokens, if_neg notBlank, if_neg noComment, if_neg noStart, noMark]
    exact .error rfl
  | case6 column c rest notBlank noComment noStart isMark start opened stop fails =>
    rw [tokens, if_neg notBlank, if_neg noComment, if_neg noStart, isMark]
    dsimp only
    rw [fails]
    exact .error rfl
  | case7 column c rest notBlank noComment noStart isMark start raw works stop =>
    rw [tokens, if_neg notBlank, if_neg noComment, if_neg noStart, isMark]
    dsimp only
    rw [works]
    exact .ok rfl
  | case8 column c rest notBlank noComment noStart mark other isMark ih =>
    rw [tokens, if_neg notBlank, if_neg noComment, if_neg noStart, isMark]
    cases mark with
    | equals => exact absurd rfl other
    | _ => exact ih.map fun _ => rfl

theorem TokenLine.ofLine_relined (line : Line) :
    Relines φ (relined φ) (ofLine line) (ofLine (line.relined φ)) :=
  Lexer.tokens_relined line.number (line.margin.length + 1) line.content

/-- Tokens that start with a kind of token on other lines start with it on their own. -/
theorem Token.eq_cons_of_relined {tokens rest : List Token} {span : Span}
    (shown : tokens.map (Token.relined φ) = ⟨kind, span⟩ :: rest) :
    ∃ span' rest', tokens = ⟨kind, span'⟩ :: rest' ∧ rest'.map (Token.relined φ) = rest := by
  obtain ⟨⟨kind', span'⟩, rest', rfl, same, others⟩ := map_eq_cons_iff.mp shown
  cases same
  exact ⟨span', rest', rfl, others⟩

theorem Token.no_relined {tokens : List Token}
    (none : ∀ span rest, tokens = ⟨kind, span⟩ :: rest → False) (span : Span)
    (rest : List Token) (shown : tokens.map (Token.relined φ) = ⟨kind, span⟩ :: rest) : False := by
  obtain ⟨span', rest', same, -⟩ := eq_cons_of_relined shown
  exact none span' rest' same

/-! ### One line -/

open Token (no_relined)

namespace Grammar

variable (finish : Span) (tokens : List Token)

/-- A line is read alike under another number. -/
abbrev Alike (φ : Nat → Nat) (h : α → α) (read : Span → List Token → Except Fault α)
    (finish : Span) (tokens : List Token) : Prop :=
  Relines φ h (read finish tokens) (read (finish.relined φ) (tokens.map (Token.relined φ)))

theorem found_relined : found (tokens.map (Token.relined φ)) = found tokens := by
  cases tokens <;> rfl

theorem place_relined :
    place (finish.relined φ) (tokens.map (Token.relined φ)) = (place finish tokens).relined φ := by
  cases tokens <;> rfl

theorem missing_relined (wanted : String) (tokens : List Token) :
    missing (finish.relined φ) wanted (tokens.map (Token.relined φ)) =
      (missing finish wanted tokens).relined φ := by
  rw [missing, place_relined, found_relined]
  rfl

theorem missingName_relined : missingName (finish.relined φ) (tokens.map (Token.relined φ)) =
      (missingName finish tokens).relined φ := by
  rw [missingName, place_relined, found_relined]
  rfl

theorem endOfLine_relined :
    Relines φ id (endOfLine tokens) (endOfLine (tokens.map (Token.relined φ))) := by
  cases tokens with
  | nil => exact .ok rfl
  | cons token rest => exact .error (missing_relined token.span _ (token :: rest))

theorem segments_relined (stop : Nat) (tokens : List Token) :
    Relines φ (Prod.map id (Prod.map id (.map (Token.relined φ)))) (segments finish stop tokens)
      (segments (finish.relined φ) stop (tokens.map (Token.relined φ))) := by
  fun_induction segments finish stop tokens with
  | case1 stop dot name span tokens ih => exact ih.bind fun _ => .ok rfl
  | case2 stop dot tokens noName =>
    show Relines φ _ _ (segments _ _ (⟨.mark .dot, dot.relined φ⟩ :: tokens.map _))
    rw [segments.eq_2 _ _ _ _ fun name => no_relined (noName name)]
    exact .error (missingName_relined finish tokens)
  | case3 stop tokens _ noDot =>
    have noDot' := no_relined (φ := φ) noDot
    rw [segments.eq_3 _ _ _ (fun _ _ _ _ => noDot' _ _) noDot']
    exact .ok rfl

theorem brackets_relined (stop : Nat) (tokens : List Token) :
    Relines φ (Prod.map id (Prod.map id (.map (Token.relined φ)))) (brackets finish stop tokens)
      (brackets (finish.relined φ) stop (tokens.map (Token.relined φ))) := by
  fun_induction brackets finish stop tokens with
  | case1 stop opens span tokens ih => exact ih.bind fun _ => .ok rfl
  | case2 stop opens tokens noClose =>
    show Relines φ _ _ (brackets _ _ (⟨.mark .openBracket, opens.relined φ⟩ :: tokens.map _))
    rw [brackets.eq_2 _ _ _ _ (no_relined noClose)]
    exact .error (missing_relined finish _ tokens)
  | case3 stop tokens _ noOpen =>
    have noOpen' := no_relined (φ := φ) noOpen
    rw [brackets.eq_3 _ _ _ (fun _ _ _ => noOpen' _ _) noOpen']
    exact .ok rfl

theorem typeExpr_relined :
    Alike φ (Prod.map (TypeExpr.relined φ) (.map (Token.relined φ))) typeExpr finish tokens := by
  cases tokens with
  | nil => exact .error rfl
  | cons token tokens =>
    show Relines φ _ _ (typeExpr _ (⟨token.kind, token.span.relined φ⟩ :: tokens.map _))
    unfold typeExpr
    dsimp only
    cases typeHead? token.kind with
    | none => exact .error rfl
    | some first =>
      refine (segments_relined finish _ tokens).bind fun read => ?_
      exact (brackets_relined finish _ _).bind fun _ => .ok rfl

theorem moreTypes_relined : Alike φ (Prod.map (.map (TypeExpr.relined φ)) (.map (Token.relined φ)))
    moreTypes finish tokens := by
  unfold Alike
  fun_induction moreTypes finish tokens with
  | case1 comma tokens fault fails =>
    rw [map_cons, Token.relined, moreTypes_of_typeExpr,
      (typeExpr_relined finish tokens).of_error fails]
    exact .error rfl
  | case2 comma tokens type rest works ih =>
    rw [map_cons, Token.relined, moreTypes_of_typeExpr,
      (typeExpr_relined finish tokens).of_ok works]
    exact ih.bind fun _ => .ok rfl
  | case3 tokens noComma =>
    rw [moreTypes.eq_2 _ _ (no_relined noComma)]
    exact .ok rfl

theorem parameters_relined :
    Alike φ (Prod.map (.map (ParameterDecl.relined φ)) (.map (Token.relined φ))) parameters finish
      tokens := by
  have opened {tokens : List Token}
      (noClose : ∀ span rest, tokens = ⟨.mark .closeParen, span⟩ :: rest → False)
      (more : tokens = [] → False) :=
    parameters_of_typeExpr (no_relined (φ := φ) noClose) (more ∘ map_eq_nil_iff.mp)
      (finish.relined φ)
  unfold Alike
  fun_induction parameters finish tokens with
  | case1 close tokens =>
    rw [map_cons, Token.relined, parameters]
    exact .ok rfl
  | case2 =>
    rw [map_nil, parameters]
    exact .error rfl
  | case3 tokens noClose more fault fails =>
    rw [opened noClose more, (typeExpr_relined finish tokens).of_error fails]
    exact .error rfl
  | case4 tokens noClose more type name span comma rest works ih
  | case7 tokens noClose more type comma rest works ih =>
    rw [opened noClose more, (typeExpr_relined finish tokens).of_ok works]
    exact ih.bind fun _ => .ok rfl
  | case5 tokens noClose more type name span close rest works
  | case8 tokens noClose more type close rest works =>
    rw [opened noClose more, (typeExpr_relined finish tokens).of_ok works]
    exact .ok rfl
  | case6 tokens noClose more type name span rest noComma noClose' works =>
    rw [opened noClose more, (typeExpr_relined finish tokens).of_ok works]
    have noComma := no_relined (φ := φ) noComma
    have noClose' := no_relined (φ := φ) noClose'
    simp only [bind, Except.bind, parametersFrom, Prod.map, map_cons, Token.relined]
    exact .error (missing_relined finish _ rest)
  | case9 tokens noClose more type rest _ _ noName noComma noClose' works =>
    rw [opened noClose more, (typeExpr_relined finish tokens).of_ok works]
    have noName := fun name => no_relined (φ := φ) (noName name)
    have noComma := no_relined (φ := φ) noComma
    have noClose' := no_relined (φ := φ) noClose'
    simp only [bind, Except.bind, parametersFrom, Prod.map]
    split
    · exact (noName _ _ _ ‹_›).elim
    · exact (noName _ _ _ ‹_›).elim
    · exact (noName _ _ _ ‹_›).elim
    · exact (noComma _ _ ‹_›).elim
    · exact (noClose' _ _ ‹_›).elim
    exact .error (missing_relined finish _ rest)

/-- The line of a function or a variable under another number. -/
def Head.relined (φ : Nat → Nat) : Head → Head
  | function returns name span params =>
    function (returns.map (·.relined φ)) name (span.relined φ) (params.map (·.relined φ))
  | plain type name span initializer => plain (type.relined φ) name (span.relined φ) initializer

theorem initializer_relined (span : Span) (tokens : List Token) :
    Alike φ (Prod.map id (.map (Token.relined φ))) initializer span tokens := by
  unfold Alike
  fun_cases initializer span tokens with
  | case1 equals text raw tokens isEmpty =>
    simp only [map_cons, Token.relined, initializer, if_pos isEmpty]
    exact .error rfl
  | case2 equals text raw tokens isText =>
    simp only [map_cons, Token.relined, initializer, if_neg isText]
    exact .ok rfl
  | case3 equals tokens noText =>
    show Relines φ _ _ (initializer _ (⟨.mark .equals, equals.relined φ⟩ :: tokens.map _))
    rw [initializer.eq_2 _ _ _ fun text => no_relined (noText text)]
    exact .error rfl
  | case4 tokens _ noEquals =>
    have noEquals' := no_relined (φ := φ) noEquals
    rw [initializer.eq_3 _ _ (fun _ _ _ _ => noEquals' _ _) noEquals']
    exact .ok rfl

theorem isSimple_relined (type : TypeExpr) : (type.relined φ).isSimple = type.isSimple := rfl

theorem head_relined : Alike φ (Head.relined φ) head finish tokens := by
  refine (typeExpr_relined finish tokens).bind ?_
  rintro ⟨first, tokens⟩
  refine (moreTypes_relined finish tokens).bind ?_
  rintro ⟨more, tokens⟩
  have last : (more.map (TypeExpr.relined φ)).getLast?.getD (first.relined φ) =
      (more.getLast?.getD first).relined φ := by
    rw [getLast?_map, Option.getD_map]
  simp only [Prod.map]
  split
  · rename_i opens tokens
    simp only [map_cons, Token.relined, last, isSimple_relined]
    split
    · refine (parameters_relined finish tokens).bind fun read => ?_
      refine (endOfLine_relined read.2).bind fun _ => .ok ?_
      rw [← map_cons, ← map_dropLast]
      rfl
    · exact .error rfl
  · rename_i name span opens tokens
    refine (parameters_relined finish tokens).bind fun read => ?_
    exact (endOfLine_relined read.2).bind fun _ => .ok rfl
  · rename_i name span tokens noParen
    have noParen := no_relined (φ := φ) noParen
    simp only [map_cons, Token.relined, isEmpty_map]
    split
    · refine (initializer_relined span tokens).bind fun read => ?_
      exact (endOfLine_relined read.2).bind fun _ => .ok rfl
    · exact .error rfl
  · rename_i noParen _ noName
    split
    · exact (no_relined noParen _ _ ‹_›).elim
    · exact (no_relined (noName _) _ _ ‹_›).elim
    · exact (no_relined (noName _) _ _ ‹_›).elim
    · exact .error (missingName_relined finish _)

theorem inherits_relined : Alike φ (Prod.map (.map (TypeExpr.relined φ)) (.map (Token.relined φ)))
    inherits finish tokens := by
  unfold Alike
  fun_cases inherits finish tokens with
  | case1 colon tokens =>
    refine (typeExpr_relined finish tokens).bind fun read => ?_
    exact (moreTypes_relined finish read.2).bind fun _ => .ok rfl
  | case2 tokens noColon =>
    rw [inherits.eq_2 _ _ (no_relined noColon)]
    exact .ok rfl

theorem typeHeader_relined :
    Alike φ (Prod.map id (Prod.map (Span.relined φ) (.map (TypeExpr.relined φ)))) typeHeader finish
      tokens := by
  unfold Alike
  fun_cases typeHeader finish tokens with
  | case1 name span tokens =>
    refine (inherits_relined finish tokens).bind fun read => ?_
    exact (endOfLine_relined read.2).bind fun _ => .ok rfl
  | case2 tokens noName =>
    rw [typeHeader.eq_2 _ _ fun name => no_relined (noName name)]
    exact .error (missingName_relined finish tokens)

theorem atCoroutineName_relined :
    atCoroutineName (tokens.map (Token.relined φ)) = atCoroutineName tokens := by
  fun_cases atCoroutineName tokens with
  | case5 name span rest noDot noBracket noComma noName =>
    have noDot := no_relined (φ := φ) noDot
    have noBracket := no_relined (φ := φ) noBracket
    have noComma := no_relined (φ := φ) noComma
    have noName := fun name => no_relined (φ := φ) (noName name)
    simp only [map_cons, Token.relined, atCoroutineName]
  | case6 tokens _ _ _ _ noName =>
    have noName := fun name => no_relined (φ := φ) (noName name)
    rw [atCoroutineName.eq_6 _ (fun _ _ _ _ => noName _ _ _) (fun _ _ _ _ => noName _ _ _)
      (fun _ _ _ _ => noName _ _ _) (fun _ _ _ _ _ => noName _ _ _) noName]
  | _ => rfl

theorem coroutineReturns_relined :
    Alike φ (Prod.map (.map (TypeExpr.relined φ)) (.map (Token.relined φ))) coroutineReturns finish
      tokens := by
  unfold Alike
  fun_induction coroutineReturns finish tokens with
  | case1 tokens isName =>
    rw [coroutineReturns, atCoroutineName_relined, if_pos isName]
    exact .ok rfl
  | case2 tokens noName fault fails =>
    rw [← atCoroutineName_relined] at noName
    rw [coroutineReturns_of_typeExpr noName, (typeExpr_relined finish tokens).of_error fails]
    exact .error rfl
  | case3 tokens noName type comma rest works ih =>
    rw [← atCoroutineName_relined] at noName
    rw [coroutineReturns_of_typeExpr noName, (typeExpr_relined finish tokens).of_ok works]
    exact ih.bind fun _ => .ok rfl
  | case4 tokens noName type rest noComma works =>
    rw [← atCoroutineName_relined] at noName
    rw [coroutineReturns_of_typeExpr noName, (typeExpr_relined finish tokens).of_ok works]
    have noComma := no_relined (φ := φ) noComma
    simp only [bind, Except.bind, Prod.map]
    exact .ok rfl

theorem coroutine_relined :
    Alike φ (Prod.map (.map (TypeExpr.relined φ)) (Prod.map id (Span.relined φ))) coroutine finish
      tokens := by
  refine (coroutineReturns_relined finish tokens).bind ?_
  rintro ⟨returns, tokens⟩
  simp
  split
  · exact (endOfLine_relined _).bind fun _ => .ok rfl
  · rename_i noName
    have noName := fun name => no_relined (φ := φ) (noName name)
    split
    · exact (noName _ _ _ ‹_›).elim
    · exact .error (missingName_relined finish tokens)

theorem importPath_relined : Alike φ id importPath finish tokens := by
  unfold Alike
  fun_cases importPath finish tokens with
  | case1 name span tokens =>
    refine (segments_relined finish span.stop tokens).bind fun read => ?_
    exact (endOfLine_relined read.2.2).bind fun _ => .ok rfl
  | case2 tokens noName =>
    rw [importPath.eq_2 _ _ fun name => no_relined (noName name)]
    exact .error (missingName_relined finish tokens)

theorem clashes_relined (first : Visibility) (tokens : List Token) :
    Noted.Relines φ (.map (Token.relined φ)) (clashes first tokens)
      (clashes first (tokens.map (Token.relined φ))) := by
  fun_induction clashes first tokens with
  | case1 => exact .mk rfl rfl
  | case2 token tokens plain =>
    show Noted.Relines φ _ _ (clashes first (token.relined φ :: tokens.map _))
    rw [clashes, show visibility? (token.relined φ) = none from plain]
    exact .mk rfl rfl
  | case3 token tokens extra isVisibility rest ih =>
    show Noted.Relines φ _ _ (clashes first (token.relined φ :: tokens.map _))
    rw [clashes, show visibility? (token.relined φ) = some extra from isVisibility]
    exact .mk (congrArg Noted.value ih) (congrArg (_ :: Noted.notes ·) ih)

theorem visibility_relined :
    Noted.Relines φ (Prod.map id (.map (Token.relined φ))) (visibility tokens)
      (visibility (tokens.map (Token.relined φ))) := by
  fun_cases visibility tokens with
  | case1 => exact .mk rfl rfl
  | case2 token tokens plain =>
    show Noted.Relines φ _ _ (visibility (token.relined φ :: tokens.map _))
    rw [visibility, show visibility? (token.relined φ) = none from plain]
    exact .mk rfl rfl
  | case3 token tokens first isVisibility rest =>
    show Noted.Relines φ _ _ (visibility (token.relined φ :: tokens.map _))
    rw [visibility, show visibility? (token.relined φ) = some first from isVisibility]
    dsimp only
    rw [clashes_relined first tokens]
    exact .mk rfl rfl

end Grammar

/-! ### Blocks -/

namespace Block

theorem relinedAll_forest (lines : List Line) :
    forest (lines.map (Line.relined φ)) = relinedAll φ (forest lines) := by
  fun_induction forest lines with
  | case1 => rw [map_nil, forest, relinedAll]
  | case2 line rest ihNested ihLater =>
    have deeper : Line.isDeeper (line.relined φ).indent ∘ Line.relined φ =
        Line.isDeeper line.indent := rfl
    rw [map_cons, forest, takeWhile_map, dropWhile_map, deeper, ihNested, ihLater]
    rfl

mutual

theorem lines_relined (b : Block) : (b.relined φ).lines = b.lines.map (Line.relined φ) := by
  cases b with
  | mk line nested => rw [relined, lines, linesOf_relinedAll nested, lines, map_cons]

theorem linesOf_relinedAll (blocks : List Block) :
    linesOf (relinedAll φ blocks) = (linesOf blocks).map (Line.relined φ) := by
  cases blocks with
  | nil => rfl
  | cons b rest =>
    rw [relinedAll, linesOf, lines_relined b, linesOf_relinedAll rest, linesOf, map_append]

end

theorem line_relined (b : Block) : (b.relined φ).line = b.line.relined φ := by
  cases b with
  | mk line nested => rfl

theorem nested_relined (b : Block) : (b.relined φ).nested = relinedAll φ b.nested := by
  cases b with
  | mk line nested => rfl

theorem indentOf_relinedAll (blocks : List Block) :
    indentOf (relinedAll φ blocks) = indentOf blocks := by
  cases blocks with
  | nil => rfl
  | cons b rest =>
    show (b.relined φ).line.indent = b.line.indent
    rw [line_relined]
    rfl

theorem body_relinedAll (nested : List Block) :
    body (relinedAll φ nested) = (body nested).map (Body.relined φ) := by
  have same : (fun line : Line => String.ofList line.text) ∘ Line.relined φ =
      fun line => String.ofList line.text := rfl
  unfold body
  simp only [linesOf_relinedAll, head?_map, getLast?_map, map_map, same]
  cases (linesOf nested).head? <;> cases (linesOf nested).getLast? <;> rfl

theorem refuseNested_relinedAll (nested : List Block) :
    Noted.Relines φ id (refuseNested nested) (refuseNested (relinedAll φ nested)) := by
  cases nested with
  | nil => exact .mk rfl rfl
  | cons b rest => exact .note (congrArg stray (line_relined b))

/-- A block that is read or dropped by its indentation is so on another line. -/
theorem entry_relined {h : α → α} {read read' : Noted Fault (Option α)}
    (relines : Noted.Relines φ (Option.map h) read read') (b : Block) (indent : Nat) :
    Noted.Relines φ (Option.map h) (if b.line.indent = indent then read else ⟨none, [stray b.line]⟩)
      (if (b.relined φ).line.indent = indent then read'
        else ⟨none, [stray (b.relined φ).line]⟩) := by
  rw [line_relined]
  show Noted.Relines φ _ _ (if b.line.indent = indent then read' else _)
  split
  · exact relines
  · exact .mk rfl rfl

theorem entries_relined {h : α → α} {read : Block → Noted Fault (Option α)}
    (relines : ∀ b, Noted.Relines φ (Option.map h) (read b) (read (b.relined φ))) (indent : Nat)
    (blocks : List Block) :
    Noted.Relines φ (.map h) (entries read indent blocks)
      (entries read indent (relinedAll φ blocks)) := by
  induction blocks with
  | nil => exact .mk rfl rfl
  | cons b rest ih => exact (entry_relined (relines b) b indent).join ih

end Block

/-! ### Declarations -/

namespace Reader

def Member.relined (φ : Nat → Nat) : Member → Member
  | stored decl => stored (decl.relined φ)
  | callable decl => callable (decl.relined φ)
  | constructor decl => constructor (decl.relined φ)

theorem noteFault_relined {h : α → α} {x y : Except Fault α} (relines : Relines φ h x y) :
    Noted.Relines φ (Option.map h) (noteFault x) (noteFault y) := by
  cases x with
  | ok a =>
    rw [relines.of_ok rfl]
    exact .mk rfl rfl
  | error fault =>
    rw [relines.of_error rfl]
    exact .mk rfl rfl

theorem classMember_relined (className : String) (b : Block) :
    Noted.Relines φ (Option.map (Member.relined φ)) (classMember className b)
      (classMember className (b.relined φ)) := by
  unfold classMember
  rw [Block.line_relined, Block.nested_relined]
  cases read : TokenLine.ofLine b.line with
  | error fault =>
    rw [(ofLine_relined b.line).of_error read]
    exact .mk rfl rfl
  | ok line =>
    rw [(ofLine_relined b.line).of_ok read]
    refine (visibility_relined line.tokens).bind ?_
    rintro ⟨visibility, tokens⟩
    have first : ((tokens.map (Token.relined φ)).head?.bind fun t => Grammar.typeHead? t.kind) =
        tokens.head?.bind fun t => Grammar.typeHead? t.kind := by
      cases tokens <;> rfl
    simp only [Prod.map, first]
    split
    · rw [place_relined, found_relined]
      rfl
    · refine (noteFault_relined (head_relined line.finish tokens)).bind ?_
      rintro (_ | ⟨returns, name, span, params⟩ | ⟨type, name, span, initializer⟩)
      · exact .pure rfl
      · simp only [Option.map, Grammar.Head.relined, map_eq_nil_iff, Block.body_relinedAll]
        split
        · exact .pure rfl
        · exact .pure rfl
      · exact (Block.refuseNested_relinedAll b.nested).bind fun _ => .pure rfl

theorem interfaceMember_relined (b : Block) :
    Noted.Relines φ (Option.map (FunctionDecl.relined φ)) (interfaceMember b)
      (interfaceMember (b.relined φ)) := by
  unfold interfaceMember
  rw [Block.line_relined, Block.nested_relined]
  cases read : TokenLine.ofLine b.line with
  | error fault =>
    rw [(ofLine_relined b.line).of_error read]
    exact .mk rfl rfl
  | ok line =>
    rw [(ofLine_relined b.line).of_ok read]
    refine (visibility_relined line.tokens).bind ?_
    rintro ⟨visibility, tokens⟩
    refine (noteFault_relined (head_relined line.finish tokens)).bind ?_
    rintro (_ | ⟨returns, name, span, params⟩ | ⟨type, name, span, initializer⟩)
    · exact .pure rfl
    · exact (Block.refuseNested_relinedAll b.nested).bind fun _ => .pure rfl
    · exact (Noted.Relines.note rfl).bind fun _ => .pure rfl

theorem filterMap_relined {h : α → α} {select : Member → Option α}
    (same : ∀ m : Member, select (m.relined φ) = (select m).map h) (members : List Member) :
    (members.map (Member.relined φ)).filterMap select = (members.filterMap select).map h := by
  rw [filterMap_map, map_filterMap]
  exact congrArg (members.filterMap ·) (funext same)

theorem asVariable?_relined (m : Member) :
    (m.relined φ).asVariable? = m.asVariable?.map (VariableDecl.relined φ) := by
  cases m <;> rfl

theorem asFunction?_relined (m : Member) :
    (m.relined φ).asFunction? = m.asFunction?.map (FunctionDecl.relined φ) := by
  cases m <;> rfl

theorem asConstructor?_relined (m : Member) :
    (m.relined φ).asConstructor? = m.asConstructor?.map (FunctionDecl.relined φ) := by
  cases m <;> rfl

theorem declaration_relined (nested : List Block) (finish : Span) (tokens : List Token) :
    Noted.Relines φ (Option.map (Item.relined φ)) (declaration nested finish tokens)
      (declaration (Block.relinedAll φ nested) (finish.relined φ)
        (tokens.map (Token.relined φ))) := by
  have refused := Block.refuseNested_relinedAll (φ := φ) nested
  refine (visibility_relined tokens).bind ?_
  rintro ⟨visibility, tokens⟩
  simp only [Prod.map]
  split
  · rename_i tokens
    refine (noteFault_relined (typeHeader_relined finish tokens)).bind ?_
    rintro (_ | ⟨name, span, inherits⟩)
    · exact .pure rfl
    · simp only [Option.map, Prod.map, Block.indentOf_relinedAll]
      refine (Block.entries_relined (classMember_relined name) _ nested).bind fun members => ?_
      rw [filterMap_relined asVariable?_relined, filterMap_relined asFunction?_relined,
        filterMap_relined asConstructor?_relined]
      exact .pure rfl
  · rename_i tokens
    refine (noteFault_relined (typeHeader_relined finish tokens)).bind ?_
    rintro (_ | ⟨name, span, inherits⟩)
    · exact .pure rfl
    · simp only [Option.map, Prod.map, Block.indentOf_relinedAll]
      exact (Block.entries_relined interfaceMember_relined _ nested).bind fun _ => .pure rfl
  · rename_i tokens
    refine (noteFault_relined (head_relined finish tokens)).bind ?_
    rintro (_ | ⟨returns, name, span, params⟩ | ⟨type, name, span, initializer⟩)
    · exact .pure rfl
    · exact refused.bind fun _ => .pure rfl
    · exact refused.bind fun _ => (Noted.Relines.note rfl).bind fun _ => .pure rfl
  · rename_i tokens
    refine (noteFault_relined (coroutine_relined finish tokens)).bind ?_
    rintro (_ | ⟨returns, name, span⟩)
    · exact .pure rfl
    · exact refused.bind fun _ => .pure rfl
  · rename_i tokens
    refine (noteFault_relined (head_relined finish tokens)).bind ?_
    rintro (_ | ⟨returns, name, span, params⟩ | ⟨type, name, span, initializer⟩)
    · exact .pure rfl
    · exact refused.bind fun _ => .pure rfl
    · exact refused.bind fun _ => (Noted.Relines.note rfl).bind fun _ => .pure rfl
  · rename_i tokens
    refine (noteFault_relined (head_relined finish tokens)).bind ?_
    rintro (_ | ⟨returns, name, span, params⟩ | ⟨type, name, span, initializer⟩)
    · exact .pure rfl
    · exact (Noted.Relines.note rfl).bind fun _ => .pure rfl
    · exact refused.bind fun _ => .pure rfl
  · rename_i noClass noInterface noDelegate noCoroutine noNative noConst
    split
    · exact (no_relined noClass _ _ ‹_›).elim
    · exact (no_relined noInterface _ _ ‹_›).elim
    · exact (no_relined noDelegate _ _ ‹_›).elim
    · exact (no_relined noCoroutine _ _ ‹_›).elim
    · exact (no_relined noNative _ _ ‹_›).elim
    · exact (no_relined noConst _ _ ‹_›).elim
    · refine (noteFault_relined (head_relined finish tokens)).bind ?_
      rintro (_ | ⟨returns, name, span, params⟩ | ⟨type, name, span, initializer⟩)
      · exact .pure rfl
      · simp only [Option.map, Grammar.Head.relined, Block.body_relinedAll]
        exact .pure rfl
      · exact refused.bind fun _ => .pure rfl

mutual

theorem item_relined (b : Block) :
    Noted.Relines φ (Option.map (Item.relined φ)) (item b) (item (b.relined φ)) := by
  cases b with
  | mk line nested =>
    rw [Block.relined, item, item]
    cases read : ofLine line with
    | error fault =>
      rw [(ofLine_relined line).of_error read]
      exact .mk rfl rfl
    | ok tokenLine =>
      rw [(ofLine_relined line).of_ok read]
      obtain ⟨tokens, finish⟩ := tokenLine
      simp only [relined]
      split
      · rename_i fails
        cases fails
      · rename_i opens
        cases opens
        dsimp only [map_cons, map_nil, Token.relined]
        rw [Block.indentOf_relinedAll, items_relined]
        refine .mk ?_ rfl
        simp only [Option.map, Item.relined, Item.relinedAll_eq_map]
      · rename_i imports
        cases imports
        exact .mk rfl rfl
      · rename_i noSpace noImport isLine
        cases isLine
        split
        · rename_i fails
          cases fails
        · rename_i opens
          simp only [Except.ok.injEq, TokenLine.mk.injEq] at opens
          obtain ⟨span, rest, rfl, named⟩ := Token.eq_cons_of_relined opens.1
          obtain ⟨span', rest', rfl, ends⟩ := Token.eq_cons_of_relined named
          cases map_eq_nil_iff.1 ends
          exact (noSpace _ _ _ rfl).elim
        · rename_i imports
          simp only [Except.ok.injEq, TokenLine.mk.injEq] at imports
          obtain ⟨span, rest, rfl, -⟩ := Token.eq_cons_of_relined imports.1
          exact (noImport _ _ rfl).elim
        · rename_i isLine
          cases isLine
          exact declaration_relined nested finish tokens

theorem items_relined (indent : Nat) (blocks : List Block) :
    Noted.Relines φ (.map (Item.relined φ)) (items indent blocks)
      (items indent (Block.relinedAll φ blocks)) := by
  cases blocks with
  | nil =>
    rw [Block.relinedAll, items]
    exact .mk rfl rfl
  | cons b rest =>
    rw [Block.relinedAll, items, items]
    exact (Block.entry_relined (item_relined b) b indent).join (items_relined indent rest)

end

def TopEntry.relined (φ : Nat → Nat) : TopEntry → TopEntry
  | importDecl decl => importDecl (decl.relined φ)
  | item i => item (i.relined φ)
  | nothing => nothing

theorem importEntry_relined {x y : Except Fault (List String)} (span : Span) :
    Relines φ id x y → Noted.Relines φ (TopEntry.relined φ) (match x with
        | .ok path => ⟨.importDecl ⟨path, span⟩, []⟩
        | .error fault => ⟨.nothing, [fault]⟩)
      (match y with
        | .ok path => ⟨.importDecl ⟨path, span.relined φ⟩, []⟩
        | .error fault => ⟨.nothing, [fault]⟩) := by
  rintro rfl
  cases x <;> exact .mk rfl rfl

theorem lateEntry_relined {read read' : Noted Fault (Option Item)}
    (relines : Noted.Relines φ (Option.map (Item.relined φ)) read read') :
    Noted.Relines φ (TopEntry.relined φ) (match read.value with
        | some item => ⟨.item item, read.notes⟩
        | none => ⟨.nothing, read.notes⟩)
      (match read'.value with
        | some item => ⟨.item item, read'.notes⟩
        | none => ⟨.nothing, read'.notes⟩) := by
  rw [relines]
  cases read.value <;> exact .mk rfl rfl

theorem topEntry_relined (started : Bool) (b : Block) :
    Noted.Relines φ (TopEntry.relined φ) (topEntry started b) (topEntry started (b.relined φ)) := by
  unfold topEntry
  rw [Block.line_relined]
  show Noted.Relines φ _ _ (if b.line.indent ≠ 0 then _ else _)
  split
  · exact .mk rfl rfl
  · split
    · rename_i span tokens finish read
      rw [(ofLine_relined b.line).of_ok read]
      exact importEntry_relined span (importPath_relined finish tokens)
    · rename_i noImport
      split
      · rename_i span tokens finish read
        cases found : TokenLine.ofLine b.line with
        | error fault =>
          rw [(ofLine_relined b.line).of_error found] at read
          cases read
        | ok line =>
          rw [(ofLine_relined b.line).of_ok found] at read
          simp only [TokenLine.relined, Except.ok.injEq, TokenLine.mk.injEq] at read
          obtain ⟨span', rest, same, -⟩ := Token.eq_cons_of_relined read.1
          exact (noImport span' rest line.finish rfl (by rw [found, ← same])).elim
      · exact lateEntry_relined (item_relined b)

theorem topEntries_relined (started : Bool) (blocks : List Block) :
    Noted.Relines φ (Outline.relined φ) (topEntries started blocks)
      (topEntries started (Block.relinedAll φ blocks)) := by
  induction blocks generalizing started with
  | nil => exact .mk rfl rfl
  | cons b rest ih =>
    rw [Block.relinedAll, topEntries, topEntries, topEntry_relined started b]
    cases entry : (topEntry started b).value with
    | importDecl decl | nothing =>
      rw [ih started]
      exact .mk rfl map_append.symm
    | item i =>
      rw [ih true]
      exact .mk rfl map_append.symm

end Reader

end Linkage
