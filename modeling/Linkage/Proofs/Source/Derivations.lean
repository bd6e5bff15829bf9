/-
Purpose: The grammar of the lines that declare functions and variables, and that lines which follow
  it are read as it says.
-/
import Linkage.Source.Grammar

namespace Linkage.Grammar

open List

/-! ### The grammar

The relations hold between tokens and what is written with them.  A `stop` is the column where the
tokens before end, or where all of them end. -/

/-- The segments after the first of a dotted name. -/
inductive IsPath : Nat → List Token → List String → Nat → Prop
  | nil {stop : Nat} : IsPath stop [] [] stop
  | cons {stop stop' : Nat} {dot span : Span} {name : String} {tokens : List Token}
      {path : List String} (rest : IsPath span.stop tokens path stop') :
      IsPath stop (⟨.mark .dot, dot⟩ :: ⟨.ident name, span⟩ :: tokens) (name :: path) stop'

/-- Pairs of array brackets, with their number. -/
inductive IsArray : Nat → List Token → Nat → Nat → Prop
  | nil {stop : Nat} : IsArray stop [] 0 stop
  | cons {stop stop' count : Nat} {opens close : Span} {tokens : List Token}
      (rest : IsArray close.stop tokens count stop') :
      IsArray stop (⟨.mark .openBracket, opens⟩ :: ⟨.mark .closeBracket, close⟩ :: tokens)
        (count + 1) stop'

/-- A type: a name or one of three keywords, then segments, then brackets. -/
inductive IsType : List Token → TypeExpr → Prop
  | mk {token : Token} {first : String} {names pairs : List Token} {path : List String}
      {dimension middle stop : Nat} (head : typeHead? token.kind = some first)
      (dotted : IsPath token.span.stop names path middle)
      (bracketed : IsArray middle pairs dimension stop) :
      IsType (token :: (names ++ pairs)) ⟨first :: path, dimension, { token.span with stop }⟩

/-- Types with commas between them. -/
inductive IsTypes : List Token → List TypeExpr → Prop
  | one {tokens : List Token} {e : TypeExpr} (type : IsType tokens e) : IsTypes tokens [e]
  | cons {tokens later : List Token} {comma : Span} {e : TypeExpr} {es : List TypeExpr}
      (type : IsType tokens e) (rest : IsTypes later es) :
      IsTypes (tokens ++ ⟨.mark .comma, comma⟩ :: later) (e :: es)

/-- A parameter: a type, and a name or none. -/
inductive IsParam : List Token → ParameterDecl → Prop
  | unnamed {tokens : List Token} {e : TypeExpr} (type : IsType tokens e) :
      IsParam tokens ⟨none, e, e.span⟩
  | named {tokens : List Token} {e : TypeExpr} {name : String} {span : Span}
      (type : IsType tokens e) : IsParam (tokens ++ [⟨.ident name, span⟩]) ⟨some name, e, span⟩

/-- Parameters and the closing parenthesis.  There are commas between parameters, and there may be
one after the last. -/
inductive IsParams : List Token → List ParameterDecl → Prop
  | nil {close : Span} : IsParams [⟨.mark .closeParen, close⟩] []
  | last {tokens : List Token} {p : ParameterDecl} (close : Span) (param : IsParam tokens p) :
      IsParams (tokens ++ [⟨.mark .closeParen, close⟩]) [p]
  | cons {tokens later : List Token} {p : ParameterDecl} {ps : List ParameterDecl} (comma : Span)
      (param : IsParam tokens p) (rest : IsParams later ps) :
      IsParams (tokens ++ ⟨.mark .comma, comma⟩ :: later) (p :: ps)

/-- An initializer, or none. -/
inductive IsInitializer : List Token → Option String → Prop
  | none : IsInitializer [] none
  | some {equals raw : Span} {text : String} (written : text ≠ "") :
      IsInitializer [⟨.mark .equals, equals⟩, ⟨.raw text, raw⟩] (some text)

/-- The forms of a line: the last type is the name of a function, a function has a name after its
types, or a variable has one after its type. -/
inductive Form where
  | call
  | function
  | plain

/-- The line of a function or a variable. -/
inductive IsHead : Form → List Token → Head → Prop
  | call {types params : List Token} {opens span : Span} {returns : List TypeExpr} {name : String}
      {ps : List ParameterDecl} (typed : IsTypes types (returns ++ [⟨[name], 0, span⟩]))
      (taken : IsParams params ps) :
      IsHead .call (types ++ ⟨.mark .openParen, opens⟩ :: params) (.function returns name span ps)
  | function {types params : List Token} {opens span : Span} {returns : List TypeExpr}
      {name : String} {ps : List ParameterDecl} (typed : IsTypes types returns)
      (taken : IsParams params ps) :
      IsHead .function (types ++ ⟨.ident name, span⟩ :: ⟨.mark .openParen, opens⟩ :: params)
        (.function returns name span ps)
  | plain {types rest : List Token} {span : Span} {type : TypeExpr} {name : String}
      {text : Option String} (typed : IsType types type) (given : IsInitializer rest text) :
      IsHead .plain (types ++ ⟨.ident name, span⟩ :: rest) (.plain type name span text)

/-- The return types of a coroutine, and whether a comma stands after them. -/
inductive IsReturns : Bool → List Token → List TypeExpr → Prop
  | none : IsReturns false [] []
  | types {tokens : List Token} {es : List TypeExpr} (typed : IsTypes tokens es) :
      IsReturns false tokens es
  | comma {tokens : List Token} {comma : Span} {es : List TypeExpr} (typed : IsTypes tokens es) :
      IsReturns true (tokens ++ [⟨.mark .comma, comma⟩]) es

/-- The line of a coroutine: its return types and its name. -/
inductive IsCoroutine (dangling : Bool) : List Token → List TypeExpr × String × Span → Prop
  | mk {tokens : List Token} {es : List TypeExpr} {name : String} {span : Span}
      (returns : IsReturns dangling tokens es) :
      IsCoroutine dangling (tokens ++ [⟨.ident name, span⟩]) (es, name, span)

/-! ### Types are read -/

/-- Tokens that do not go on with a type. -/
structure Stops (tokens : List Token) : Prop where
  noDot : ∀ span rest, tokens = ⟨.mark .dot, span⟩ :: rest → False
  noBracket : ∀ span rest, tokens = ⟨.mark .openBracket, span⟩ :: rest → False

variable {finish : Span} {tokens rest : List Token}

theorem IsPath.reads {stop stop' : Nat} {path : List String}
    (derives : IsPath stop tokens path stop')
    (noDot : ∀ span tail, rest = ⟨.mark .dot, span⟩ :: tail → False) :
    segments finish stop (tokens ++ rest) = .ok (path, stop', rest) := by
  induction derives with
  | nil => exact segments.eq_3 _ _ _ (fun _ _ _ _ => noDot _ _) noDot
  | cons _ ih =>
    rw [cons_append, cons_append, segments, ih]
    rfl

theorem IsArray.reads {stop stop' count : Nat} (derives : IsArray stop tokens count stop')
    (noBracket : ∀ span tail, rest = ⟨.mark .openBracket, span⟩ :: tail → False) :
    brackets finish stop (tokens ++ rest) = .ok (count, stop', rest) := by
  induction derives with
  | nil => exact brackets.eq_3 _ _ _ (fun _ _ _ => noBracket _ _) noBracket
  | cons _ ih =>
    rw [cons_append, cons_append, brackets, ih]
    rfl

theorem IsType.reads {e : TypeExpr} (derives : IsType tokens e) (stops : Stops rest) :
    typeExpr finish (tokens ++ rest) = .ok (e, rest) := by
  obtain ⟨head, dotted, bracketed⟩ := derives
  rename_i pairs _ _ _ _
  have noDot : ∀ span tail, pairs ++ rest = ⟨.mark .dot, span⟩ :: tail → False := by
    cases bracketed with
    | nil => exact stops.noDot
    | cons _ => simp
  rw [cons_append, typeExpr, head, append_assoc]
  rw [dotted.reads noDot]
  show (brackets finish _ (pairs ++ rest) >>= _) = _
  rw [bracketed.reads stops.noBracket]
  rfl

theorem moreTypes_of_typeExpr (finish comma : Span) (tokens : List Token) :
    moreTypes finish (⟨.mark .comma, comma⟩ :: tokens) = do
      let (type, tokens) ← typeExpr finish tokens
      let (types, tokens) ← moreTypes finish tokens
      return (type :: types, tokens) := by
  rw [moreTypes]
  split
  · rename_i fails
    rw [fails]
    rfl
  · rename_i works
    rw [works]
    rfl

theorem IsTypes.reads {es : List TypeExpr} (derives : IsTypes tokens es) (finish : Span)
    (rest : List Token) (stops : Stops rest)
    (noComma : ∀ span tail, rest = ⟨.mark .comma, span⟩ :: tail → False) :
    ∃ e more middle, es = e :: more ∧ typeExpr finish (tokens ++ rest) = .ok (e, middle) ∧
      moreTypes finish middle = .ok (more, rest) := by
  induction derives with
  | one type => exact ⟨_, [], rest, rfl, type.reads stops, moreTypes.eq_2 _ _ noComma⟩
  | @cons tokens later comma _ _ type _ ih =>
    obtain ⟨e, more, middle, rfl, first, others⟩ := ih
    refine ⟨_, e :: more, ⟨.mark .comma, comma⟩ :: later ++ rest, rfl, ?_, ?_⟩
    · rw [append_assoc]
      exact type.reads ⟨by simp, by simp⟩
    · rw [cons_append, moreTypes_of_typeExpr, first]
      show (moreTypes finish middle >>= _) = _
      rw [others]
      rfl

/-! ### Parameters are read -/

/-- The parameters from one on whose type is read already. -/
def parametersFrom (finish : Span) (type : TypeExpr) :
    List Token → Except Fault (List ParameterDecl × List Token)
  | ⟨.ident name, span⟩ :: ⟨.mark .comma, _⟩ :: tokens => do
    let (params, tokens) ← parameters finish tokens
    return (⟨some name, type, span⟩ :: params, tokens)
  | ⟨.ident name, span⟩ :: ⟨.mark .closeParen, _⟩ :: tokens =>
    .ok ([⟨some name, type, span⟩], tokens)
  | ⟨.ident _, _⟩ :: tokens => .error (missing finish (TokenKind.mark .closeParen).describe tokens)
  | ⟨.mark .comma, _⟩ :: tokens => do
    let (params, tokens) ← parameters finish tokens
    return (⟨none, type, type.span⟩ :: params, tokens)
  | ⟨.mark .closeParen, _⟩ :: tokens => .ok ([⟨none, type, type.span⟩], tokens)
  | tokens => .error (missing finish (TokenKind.mark .closeParen).describe tokens)

theorem parameters_of_typeExpr
    (noClose : ∀ span rest, tokens = ⟨.mark .closeParen, span⟩ :: rest → False)
    (more : tokens = [] → False) (finish : Span) : parameters finish tokens = (do
      let (type, tokens) ← typeExpr finish tokens
      parametersFrom finish type tokens) := by
  rw [parameters.eq_3 _ _ noClose more]
  split <;> rename_i read <;> simp only [bind, Except.bind, parametersFrom, *]

theorem IsType.parameters {e : TypeExpr} (type : IsType tokens e) (stops : Stops rest) :
    parameters finish (tokens ++ rest) = parametersFrom finish e rest := by
  rw [parameters_of_typeExpr, type.reads stops]
  · rfl
  · obtain ⟨head, _, _⟩ := type
    intro span tail same
    obtain ⟨rfl, _⟩ := List.cons.inj same
    cases head
  · obtain ⟨_, _, _⟩ := type
    exact cons_ne_nil _ _

theorem IsParams.reads {ps : List ParameterDecl} (derives : IsParams tokens ps) :
    parameters finish (tokens ++ rest) = .ok (ps, rest) := by
  induction derives with
  | nil => rw [cons_append, parameters, nil_append]
  | last _ param =>
    cases param with
    | unnamed type =>
      rw [append_assoc, type.parameters ⟨by simp, by simp⟩]
      rfl
    | named type =>
      rw [append_assoc, append_assoc, type.parameters ⟨by simp, by simp⟩]
      rfl
  | cons _ param _ ih =>
    cases param with
    | unnamed type =>
      rw [append_assoc, type.parameters ⟨by simp, by simp⟩]
      show (parameters finish (_ ++ _) >>= _) = _
      rw [ih]
      rfl
    | named type =>
      rw [append_assoc, append_assoc, type.parameters ⟨by simp, by simp⟩]
      show (parameters finish (_ ++ _) >>= _) = _
      rw [ih]
      rfl

/-! ### Lines are read -/

theorem IsInitializer.reads {span : Span} {text : Option String}
    (derives : IsInitializer tokens text) : initializer span tokens = .ok (text, []) := by
  cases derives with
  | none => rfl
  | some written => exact if_neg (by simpa using written)

/-- How a line goes on after its types. -/
def Form.Follows : Form → List Token → Prop
  | call, rest => ∃ opens params, rest = ⟨.mark .openParen, opens⟩ :: params
  | function, rest => ∃ name span opens params,
    rest = ⟨.ident name, span⟩ :: ⟨.mark .openParen, opens⟩ :: params
  | plain, rest => ∃ name span tail, rest = ⟨.ident name, span⟩ :: tail ∧
    ∀ opens params, tail ≠ ⟨.mark .openParen, opens⟩ :: params

theorem Form.Follows.unique {form form' : Form} (follows : form.Follows rest)
    (follows' : form'.Follows rest) : form = form' := by
  cases form <;> cases form' <;> grind [Form.Follows]

/-- A line that follows the grammar is read as it says, and its form shows after its types. -/
theorem IsHead.reads {form : Form} {h : Head} (derives : IsHead form tokens h) (finish : Span) :
    head finish tokens = .ok h ∧ ∃ e more middle rest,
      typeExpr finish tokens = .ok (e, middle) ∧ moreTypes finish middle = .ok (more, rest) ∧
      form.Follows rest := by
  cases derives with
  | @call types params opens span returns name ps typed taken =>
    obtain ⟨e, more, middle, listed, first, others⟩ := typed.reads finish
      (⟨.mark .openParen, opens⟩ :: params) ⟨by simp, by simp⟩ (by simp)
    refine ⟨?_, e, more, middle, _, first, others, opens, params, rfl⟩
    have last : more.getLast?.getD e = ⟨[name], 0, span⟩ := by
      have lists := congrArg List.getLast? listed
      simpa [getLast?_cons] using lists.symm
    have isName : TypeExpr.text ⟨[name], 0, span⟩ = name := by simp [TypeExpr.text]
    have read : parameters finish (params ++ []) = .ok (ps, []) := taken.reads
    rw [append_nil] at read
    simp only [head, first, others, bind, Except.bind, last, isName, read, endOfLine, ← listed]
    simp [TypeExpr.isSimple, pure, Except.pure]
  | @function types params opens span returns name ps typed taken =>
    obtain ⟨e, more, middle, rfl, first, others⟩ := typed.reads finish
      (⟨.ident name, span⟩ :: ⟨.mark .openParen, opens⟩ :: params) ⟨by simp, by simp⟩ (by simp)
    refine ⟨?_, e, more, middle, _, first, others, name, span, opens, params, rfl⟩
    have read : parameters finish (params ++ []) = .ok (ps, []) := taken.reads
    rw [append_nil] at read
    simp only [head, first, others, bind, Except.bind, read, endOfLine]
    rfl
  | @plain types rest span type name text typed given =>
    obtain ⟨e, more, middle, single, first, others⟩ := (IsTypes.one typed).reads finish
      (⟨.ident name, span⟩ :: rest) ⟨by simp, by simp⟩ (by simp)
    obtain ⟨rfl, rfl⟩ := List.cons.inj single
    have noParen : ∀ opens params, rest ≠ ⟨.mark .openParen, opens⟩ :: params := by
      cases given <;> simp
    refine ⟨?_, type, [], middle, _, first, others, name, span, rest, rfl, noParen⟩
    have read : initializer span rest = .ok (text, []) := given.reads
    cases given <;> simp only [head, first, others, bind, Except.bind, read] <;> rfl

/-! ### Coroutines are read -/

theorem coroutineReturns_of_typeExpr (noName : ¬ atCoroutineName tokens) :
    coroutineReturns finish tokens = (do
      let (type, tokens) ← typeExpr finish tokens
      match tokens with
      | ⟨.mark .comma, _⟩ :: tokens =>
        let (types, tokens) ← coroutineReturns finish tokens
        return (type :: types, tokens)
      | tokens => .ok ([type], tokens)) := by
  rw [coroutineReturns, if_neg noName]
  split <;> simp only [bind, Except.bind, *]

theorem IsReturns.cons {dangling : Bool} {e : TypeExpr} {es : List TypeExpr}
    (returns : IsReturns dangling rest es) (type : IsType tokens e) (comma : Span) :
    ∃ dangling, IsReturns dangling (tokens ++ ⟨.mark .comma, comma⟩ :: rest) (e :: es) := by
  cases returns with
  | none => exact ⟨true, .comma (.one type)⟩
  | types typed => exact ⟨false, .types (.cons type typed)⟩
  | comma typed => exact ⟨true, by simpa using IsReturns.comma (.cons type typed)⟩

theorem IsPath.noComma {stop stop' : Nat} {path : List String}
    (derives : IsPath stop tokens path stop') : ∀ token ∈ tokens, token.kind ≠ .mark .comma := by
  induction derives with
  | nil => simp
  | cons _ ih => simpa using ih

theorem IsArray.noComma {stop stop' count : Nat} (derives : IsArray stop tokens count stop') :
    ∀ token ∈ tokens, token.kind ≠ .mark .comma := by
  induction derives with
  | nil => simp
  | cons _ ih => simpa using ih

theorem IsType.noComma {e : TypeExpr} (type : IsType tokens e) :
    ∀ token ∈ tokens, token.kind ≠ .mark .comma := by
  obtain ⟨head, dotted, bracketed⟩ := type
  refine forall_mem_cons.2 ⟨fun isComma => ?_, ?_⟩
  · rw [isComma] at head
    cases head
  · exact forall_mem_append.2 ⟨dotted.noComma, bracketed.noComma⟩

/-- Types do not end with a comma. -/
theorem IsTypes.last {es : List TypeExpr} (derives : IsTypes tokens es) :
    ∃ token, tokens.getLast? = some token ∧ token.kind ≠ .mark .comma := by
  induction derives with
  | @one tokens e type =>
    cases isLast : tokens.getLast? with
    | none =>
      obtain ⟨_, _, _⟩ := type
      simp at isLast
    | some token => exact ⟨token, rfl, type.noComma token (mem_of_getLast? isLast)⟩
  | cons _ _ ih =>
    obtain ⟨token, isLast, noComma⟩ := ih
    exact ⟨token, by simp [getLast?_cons, isLast], noComma⟩

/-- No line of a coroutine can be taken for one with a comma before the name and for one
without. -/
theorem IsCoroutine.not_dangling {r r' : List TypeExpr × String × Span}
    (proper : IsCoroutine false tokens r) (dangling : IsCoroutine true tokens r') : False := by
  obtain ⟨returns⟩ := proper
  generalize same : _ ++ [_] = tokens at dangling
  obtain ⟨returns'⟩ := dangling
  obtain ⟨same, _⟩ := append_inj' same rfl
  cases returns' with
  | comma typed =>
    cases returns with
    | none => simp at same
    | types typed =>
      obtain ⟨token, isLast, noComma⟩ := typed.last
      rw [same, getLast?_concat] at isLast
      cases isLast
      exact noComma rfl

/-- Where a type is followed by a comma or a name, no name of a coroutine stands. -/
theorem IsType.not_atCoroutineName {e : TypeExpr} (type : IsType tokens e) {next : Token}
    (follows : next.kind = .mark .comma ∨ ∃ name, next.kind = .ident name) :
    ¬ atCoroutineName (tokens ++ next :: rest) := by
  obtain ⟨next, place⟩ := next
  obtain ⟨head, dotted, bracketed⟩ := type
  rename_i token _ _ _ _ _ _ _
  obtain ⟨kind, span⟩ := token
  cases kind with
  | ident first =>
    cases dotted with
    | cons _ => simp [atCoroutineName]
    | nil =>
      cases bracketed with
      | cons _ => simp [atCoroutineName]
      | nil => obtain rfl | ⟨name, rfl⟩ := follows <;> simp [atCoroutineName]
  | _ => simp [atCoroutineName]

/-- The types before the name of a coroutine are read, and a comma after them is passed over. -/
theorem IsTypes.coroutineReturns {es : List TypeExpr} (derives : IsTypes tokens es) {name : String}
    {span : Span} {tail : List Token} (isTail : tail = [⟨.ident name, span⟩] ∨
      ∃ comma, tail = [⟨.mark .comma, comma⟩, ⟨.ident name, span⟩]) :
    coroutineReturns finish (tokens ++ tail) = .ok (es, [⟨.ident name, span⟩]) := by
  induction derives with
  | one type =>
    obtain rfl | ⟨comma, rfl⟩ := isTail
    · rw [coroutineReturns_of_typeExpr (type.not_atCoroutineName (.inr ⟨name, rfl⟩)),
        type.reads ⟨by simp, by simp⟩]
      rfl
    · rw [coroutineReturns_of_typeExpr (type.not_atCoroutineName (.inl rfl)),
        type.reads ⟨by simp, by simp⟩]
      show (Grammar.coroutineReturns finish [_] >>= _) = _
      rw [Grammar.coroutineReturns]
      rfl
  | cons type _ ih =>
    rw [append_assoc, cons_append,
      coroutineReturns_of_typeExpr (type.not_atCoroutineName (.inl rfl)),
      type.reads ⟨by simp, by simp⟩]
    show (Grammar.coroutineReturns finish (_ ++ tail) >>= _) = _
    rw [ih]
    rfl

/-- The line of a coroutine is read, also with a comma before the name. -/
theorem IsCoroutine.reads {dangling : Bool} {r : List TypeExpr × String × Span}
    (derives : IsCoroutine dangling tokens r) (finish : Span) :
    coroutine finish tokens = .ok r := by
  obtain ⟨returns⟩ := derives
  rename_i taken es name span
  have read : Grammar.coroutineReturns finish (taken ++ [⟨.ident name, span⟩]) =
      .ok (es, [⟨.ident name, span⟩]) := by
    cases returns with
    | none =>
      rw [Grammar.coroutineReturns]
      rfl
    | types typed => exact typed.coroutineReturns (.inl rfl)
    | comma typed =>
      rw [append_assoc]
      exact typed.coroutineReturns (.inr ⟨_, rfl⟩)
  unfold coroutine
  rw [read]
  rfl

end Linkage.Grammar
