/-
Purpose: What can be wrong with the form of a line of a source text, and where, and what is known of
  a line that can be read: everything that is declared has an identifier as its name.
-/
import Linkage.Proofs.Source.Derivations
import Linkage.Proofs.Source.Tokens

namespace Linkage

open List

/-! ### Names -/

/-- A name is an identifier and no keyword. -/
def TokenKind.Spelled : TokenKind → Prop
  | ident name => IsName name
  | _ => True

/-- The names among some tokens are identifiers and no keywords. -/
def Spelled (tokens : List Token) : Prop := ∀ token ∈ tokens, token.kind.Spelled

/-- A name that a type can start with.  Three keywords also name kernel types. -/
def IsTypeName (name : String) : Prop :=
  IsName name ∨ name ∈ ["interface", "delegate", "coroutine"]

/-- A path that a type can be written with. -/
inductive IsTypePath : List String → Prop
  | mk {first : String} {rest : List String} (isFirst : IsTypeName first)
      (areNames : ∀ name ∈ rest, IsName name) : IsTypePath (first :: rest)

theorem IsTypeName.isIdentifier {name : String} (isName : IsTypeName name) :
    isIdentifier name = true := by
  rcases isName with isName | isKeyword
  · exact isName.isIdentifier
  · simp only [mem_cons, not_mem_nil, or_false] at isKeyword
    rcases isKeyword with rfl | rfl | rfl <;> rfl

theorem Grammar.typeHead?_spelled {kind : TokenKind} (spelled : kind.Spelled) {name : String}
    (isHead : typeHead? kind = some name) : IsTypeName name := by
  unfold typeHead? at isHead
  split at isHead <;> cases isHead
  · exact .inl spelled
  all_goals exact .inr (by decide)

/-- A name is an identifier, and the types that it is declared with are not empty. -/
def Spells (name : String) (types : List TypeExpr) : Prop :=
  isIdentifier name = true ∧ ∀ type ∈ types, type.path ≠ []

def Grammar.Head.Spelled : Head → Prop
  | .function returns name _ params => Spells name (params.map (·.type) ++ returns)
  | .plain type name _ _ => Spells name [type]

/-! ### Names that are declared -/

def FunctionDecl.Spelled (f : FunctionDecl) : Prop :=
  Spells f.name (f.params.map (·.type) ++ f.returns)

def VariableDecl.Spelled (v : VariableDecl) : Prop := Spells v.name [v.type]

def Reader.Member.Spelled : Member → Prop
  | .stored decl => decl.Spelled
  | .callable decl | .constructor decl => decl.Spelled

/-- The members of a class have identifiers as their names. -/
structure ClassDecl.Spelled (decl : ClassDecl) : Prop where
  name : isIdentifier decl.name = true
  fields : ∀ v ∈ decl.fields, v.Spelled
  functions : ∀ f ∈ decl.functions, f.Spelled
  constructors : ∀ f ∈ decl.constructors, f.Spelled

/-- The functions of an interface have identifiers as their names. -/
structure InterfaceDecl.Spelled (decl : InterfaceDecl) : Prop where
  name : isIdentifier decl.name = true
  functions : ∀ f ∈ decl.functions, f.Spelled

mutual

/-- What an item declares has identifiers as names, and types that are not empty. -/
def Item.Spelled : Item → Prop
  | .space name _ items => isIdentifier name = true ∧ Item.AllSpelled items
  | .classDecl decl => decl.Spelled
  | .interfaceDecl decl => decl.Spelled
  | .delegateDecl decl => Spells decl.name (decl.params.map (·.type) ++ decl.returns)
  | .coroutineDecl decl => Spells decl.name decl.returns
  | .variableDecl decl => decl.Spelled
  | .functionDecl decl | .nativeDecl decl => decl.Spelled

/-- What some items declare has identifiers as names. -/
def Item.AllSpelled : List Item → Prop
  | [] => True
  | item :: rest => item.Spelled ∧ Item.AllSpelled rest

end

theorem Item.allSpelled_iff {items : List Item} :
    Item.AllSpelled items ↔ ∀ item ∈ items, item.Spelled := by
  induction items with
  | nil => simp [Item.AllSpelled]
  | cons item rest ih => rw [Item.AllSpelled, ih, forall_mem_cons]

/-! ### Places -/

/-- A place is on a line. -/
abbrev Line.Holds (line : Line) (place : Span) : Prop := place.InLine line.number line.text

/-- Tokens stand on a line in their order, before its end, and the names among them are names. -/
structure Written (line : Line) (finish : Span) (tokens : List Token) : Prop where
  inLine : ∀ s ∈ TokenLine.places ⟨tokens, finish⟩, line.Holds s
  ordered : (TokenLine.places ⟨tokens, finish⟩).Pairwise (·.stop ≤ ·.start)
  spelled : Spelled tokens

namespace Written

variable {line : Line} {finish : Span} {token : Token} {tokens tokens' : List Token}

theorem sublist (written : Written line finish tokens) (fewer : tokens'.Sublist tokens) :
    Written line finish tokens' := by
  have places := (fewer.map Token.span).append_right [finish]
  exact ⟨fun s member => written.inLine s (places.subset member), written.ordered.sublist places,
    fun token member => written.spelled token (fewer.subset member)⟩

theorem tail (written : Written line finish (token :: tokens)) : Written line finish tokens :=
  written.sublist (sublist_cons_self ..)

theorem append (written : Written line finish (tokens ++ tokens')) :
    Written line finish tokens ∧ Written line finish tokens' :=
  ⟨written.sublist (sublist_append_left ..), written.sublist (sublist_append_right ..)⟩

theorem place (written : Written line finish tokens) :
    line.Holds (Grammar.place finish tokens) := by
  cases tokens with
  | nil => exact written.inLine finish (mem_singleton_self _)
  | cons token tokens => exact written.inLine token.span (mem_cons_self ..)

theorem head (written : Written line finish (token :: tokens)) :
    line.Holds token.span ∧ token.kind.Spelled :=
  ⟨written.place, written.spelled token (mem_cons_self ..)⟩

end Written

/-- The tokens of a line that they cover stand on it. -/
theorem TokenLine.Covers.written {line : Line} {read : TokenLine}
    (covers : read.Covers line.number 1 line.text) : Written line read.finish read.tokens := by
  obtain ⟨before, rest, cut, _, starts, stops⟩ := covers.rest
  have last : read.finish.start ≤ Text.columnAfter line.text := by
    rw [starts, cut, Text.columnAfter_append]
    exact Nat.le_add_right ..
  refine ⟨fun s member => ?_, covers.ordered, fun token member => ?_⟩
  · obtain ⟨low, forward⟩ := covers.forward s member
    refine ⟨covers.onLine s member, low, forward, le_trans ?_ last⟩
    rcases mem_append.1 member with earlier | final
    · exact (pairwise_append.1 covers.ordered).2.2 s earlier _ (mem_singleton_self _)
    · rw [mem_singleton.1 final, stops]
  · have spells := covers.spelled token member
    cases kind : token.kind with
    | ident name =>
      rw [kind] at spells
      exact spells.1
    | _ => trivial

/-- A fault of reading, on every line on which certain tokens stand. -/
structure Fault.In (finish : Span) (tokens : List Token) (fault : Fault) : Prop where
  ofReading : fault.OfReading
  inLine : ∀ line, Written line finish tokens → line.Holds fault.span

theorem Fault.atPlace {finish : Span} {tokens : List Token} {problem : Problem} (code : Code)
    (isCode : problem.code = code) (owned : Stage.parse.codes.elem code = true) :
    Fault.In finish tokens ⟨Grammar.place finish tokens, problem⟩ :=
  ⟨Fault.ofReading code isCode owned, fun _ written => written.place⟩

/-- Where tokens stand, so do those that are left of them. -/
theorem Fault.In.later {finish : Span} {tokens : List Token} {fault : Fault}
    (isIn : fault.In finish tokens) (taken : List Token) : fault.In finish (taken ++ tokens) :=
  ⟨isIn.ofReading, fun line written => isIn.inLine line written.append.2⟩

theorem Ends.later {α : Type} {finish : Span} {tokens : List Token} {Q : α → Prop}
    {x : Except Fault α} (ends : Ends (Fault.In finish tokens) Q x) (taken : List Token) :
    Ends (Fault.In finish (taken ++ tokens)) Q x :=
  ends.imp (fun _ isIn => isIn.later taken) fun _ => id

/-! ### Lines -/

/-- A type stands on a line, with a path that can be written. -/
structure TypeExpr.Written (line : Line) (type : TypeExpr) : Prop where
  inLine : line.Holds type.span
  path : IsTypePath type.path

namespace Grammar

theorem missing_in (finish : Span) (wanted : String) (tokens : List Token) :
    (missing finish wanted tokens).In finish tokens :=
  Fault.atPlace .missingToken rfl rfl

theorem missingName_in (finish : Span) (tokens : List Token) :
    (missingName finish tokens).In finish tokens :=
  Fault.atPlace .missingToken rfl rfl

theorem endOfLine_ends (finish : Span) (tokens : List Token) :
    Ends (Fault.In finish tokens) (fun _ => tokens = []) (endOfLine tokens) := by
  cases tokens with
  | nil => rfl
  | cons token tokens => exact Fault.atPlace .missingToken rfl rfl

/-! ### What a line declares stands on it -/

/-! ### What is read follows the grammar -/

section

variable {line : Line} {finish : Span} {tokens : List Token} {e : TypeExpr}

theorem IsPath.areNames {stop stop' : Nat} {path : List String}
    (derives : IsPath stop tokens path stop') (spelled : Spelled tokens) :
    ∀ name ∈ path, IsName name := by
  induction derives with
  | nil => exact forall_mem_nil _
  | cons _ ih =>
    obtain ⟨_, isName, later⟩ := by simpa [Spelled] using spelled
    exact forall_mem_cons.2 ⟨isName, ih later⟩

theorem IsPath.stop_mem {stop stop' : Nat} {path : List String}
    (derives : IsPath stop tokens path stop') :
    stop' = stop ∨ stop' ∈ tokens.map (·.span.stop) := by
  induction derives with
  | nil => exact .inl rfl
  | cons _ ih => rcases ih with rfl | later <;> simp [*]

theorem IsArray.stop_mem {stop stop' count : Nat} (derives : IsArray stop tokens count stop') :
    stop' = stop ∨ stop' ∈ tokens.map (·.span.stop) := by
  induction derives with
  | nil => exact .inl rfl
  | cons _ ih => rcases ih with rfl | later <;> simp [*]

theorem IsType.named (derives : IsType tokens e) : e.path ≠ [] := by
  obtain ⟨_, _, _⟩ := derives
  exact cons_ne_nil _ _

/-- A type has a path that can be written, if names are. -/
theorem IsType.path (derives : IsType tokens e) (spelled : Spelled tokens) :
    IsTypePath e.path := by
  obtain ⟨head, dotted, _⟩ := derives
  obtain ⟨isFirst, later⟩ := forall_mem_cons.1 spelled
  exact .mk (typeHead?_spelled isFirst head) (dotted.areNames (forall_mem_append.1 later).1)

/-- A type is written on the line of its tokens. -/
theorem IsType.written (derives : IsType tokens e) (written : Written line finish tokens) :
    e.Written line := by
  refine ⟨?_, derives.path written.spelled⟩
  obtain @⟨token, first, names, pairs, path, dimension, middle, stop, _, dotted, bracketed⟩ :=
    derives
  have inFirst := written.head.1
  -- The type ends where its first token does, or where a later one does.
  have ends : stop = token.span.stop ∨ stop ∈ (names ++ pairs).map (·.span.stop) := by
    rw [map_append, mem_append]
    rcases bracketed.stop_mem with rfl | inPairs
    · exact dotted.stop_mem.imp_right .inl
    · exact .inr (.inr inPairs)
  rcases ends with rfl | later
  · exact inFirst
  · obtain ⟨last, member, rfl⟩ := mem_map.1 later
    have inPlaces : last.span ∈ TokenLine.places ⟨names ++ pairs, finish⟩ :=
      mem_append_left _ (mem_map_of_mem member)
    have inLast := written.tail.inLine _ inPlaces
    have ordered := rel_of_pairwise_cons written.ordered inPlaces
    exact ⟨inFirst.line, inFirst.low,
      le_trans inFirst.forward (le_trans ordered inLast.forward), inLast.high⟩

theorem IsTypes.written {es : List TypeExpr} (derives : IsTypes tokens es)
    (written : Written line finish tokens) : ∀ e ∈ es, e.Written line := by
  induction derives with
  | one type => exact forall_mem_singleton.2 (type.written written)
  | cons type _ ih =>
    exact forall_mem_cons.2 ⟨type.written written.append.1, ih written.append.2.tail⟩

theorem IsTypes.named {es : List TypeExpr} (derives : IsTypes tokens es) :
    ∀ e ∈ es, e.path ≠ [] := by
  induction derives with
  | one type => exact forall_mem_singleton.2 type.named
  | cons type _ ih => exact forall_mem_cons.2 ⟨type.named, ih⟩

theorem IsParams.named {ps : List ParameterDecl} (derives : IsParams tokens ps) :
    ∀ p ∈ ps, p.type.path ≠ [] := by
  have each {tokens : List Token} {p : ParameterDecl} (param : IsParam tokens p) :
      p.type.path ≠ [] := by
    cases param with
    | unnamed type | named type => exact type.named
  induction derives with
  | nil => exact forall_mem_nil _
  | last _ param => exact forall_mem_singleton.2 (each param)
  | cons _ param _ ih => exact forall_mem_cons.2 ⟨each param, ih⟩

end

/-! ### What is read follows the grammar -/

theorem segments_ends (finish : Span) (stop : Nat) (tokens : List Token) :
    Ends (Fault.In finish tokens) (fun read => ∃ taken, IsPath stop taken read.1 read.2.1 ∧
      tokens = taken ++ read.2.2) (segments finish stop tokens) := by
  fun_induction segments finish stop tokens with
  | case1 stop dot name span tokens ih =>
    refine (ih.later [_, _]).bind fun read derives => ?_
    obtain ⟨taken, path, rfl⟩ := derives
    exact ⟨_, .cons path, rfl⟩
  | case2 => exact (missingName_in ..).later [_]
  | case3 => exact ⟨[], .nil, rfl⟩

theorem brackets_ends (finish : Span) (stop : Nat) (tokens : List Token) :
    Ends (Fault.In finish tokens) (fun read => ∃ taken, IsArray stop taken read.1 read.2.1 ∧
      tokens = taken ++ read.2.2) (brackets finish stop tokens) := by
  fun_induction brackets finish stop tokens with
  | case1 stop dot span tokens ih =>
    refine (ih.later [_, _]).bind fun read derives => ?_
    obtain ⟨taken, pairs, rfl⟩ := derives
    exact ⟨_, .cons pairs, rfl⟩
  | case2 => exact (missing_in ..).later [_]
  | case3 => exact ⟨[], .nil, rfl⟩

theorem typeExpr_ends (finish : Span) (tokens : List Token) :
    Ends (Fault.In finish tokens)
      (fun read => ∃ taken, IsType taken read.1 ∧ tokens = taken ++ read.2)
      (typeExpr finish tokens) := by
  unfold typeExpr
  split
  · exact Fault.atPlace .unexpectedToken rfl rfl
  · rename_i token tokens
    split
    · exact Fault.atPlace .unexpectedToken rfl rfl
    · rename_i first isHead
      refine ((segments_ends finish _ tokens).later [_]).bind fun (path, stop, rest) derives => ?_
      obtain ⟨names, dotted, rfl⟩ := derives
      refine ((brackets_ends finish stop rest).later (_ :: names)).bind ?_
      rintro ⟨dimension, stop, rest⟩ derives
      obtain ⟨pairs, bracketed, rfl⟩ := derives
      exact ⟨_, .mk isHead dotted bracketed, by simp⟩

/-- Further types go on after any type. -/
theorem moreTypes_ends (finish : Span) (tokens : List Token) :
    Ends (Fault.In finish tokens) (fun read => ∃ taken,
      (∀ before e, IsType before e → IsTypes (before ++ taken) (e :: read.1)) ∧
        tokens = taken ++ read.2) (moreTypes finish tokens) := by
  fun_induction moreTypes finish tokens with
  | case1 span tokens fault fails =>
    exact ((typeExpr_ends finish tokens).of_error fails).later [_]
  | case2 span tokens type rest works ih =>
    obtain ⟨here, isType, rfl⟩ := (typeExpr_ends finish tokens).of_ok works
    refine (ih.later (_ :: here)).bind fun (types, rest') derives => ?_
    obtain ⟨later, goesOn, same⟩ := derives
    refine ⟨⟨.mark .comma, span⟩ :: (here ++ later), fun before e first => ?_, ?_⟩
    · exact .cons first (goesOn here type isType)
    · simp [same]
  | case3 tokens noComma =>
    refine ⟨[], fun before e first => ?_, rfl⟩
    rw [append_nil]
    exact .one first

theorem parameters_ends (finish : Span) (tokens : List Token) :
    Ends (Fault.In finish tokens)
      (fun read => ∃ taken, IsParams taken read.1 ∧ tokens = taken ++ read.2)
      (parameters finish tokens) := by
  fun_induction parameters finish tokens with
  | case1 => exact ⟨_, .nil, rfl⟩
  | case2 => exact missing_in ..
  | case3 tokens _ _ fault fails => exact (typeExpr_ends finish tokens).of_error fails
  | case4 tokens _ _ type name span comma rest works ih =>
    obtain ⟨here, isType, rfl⟩ := (typeExpr_ends finish tokens).of_ok works
    refine ((ih.later [_, _]).later here).bind fun (params, rest') derives => ?_
    obtain ⟨later, params, rfl⟩ := derives
    exact ⟨_, .cons comma (.named isType) params, by simp⟩
  | case5 tokens _ _ type name span close rest works =>
    obtain ⟨here, isType, rfl⟩ := (typeExpr_ends finish tokens).of_ok works
    exact ⟨_, .last close (.named isType), by simp⟩
  | case6 tokens _ _ type name span rest _ _ works =>
    obtain ⟨here, isType, rfl⟩ := (typeExpr_ends finish tokens).of_ok works
    exact ((missing_in ..).later [_]).later here
  | case7 tokens _ _ type comma rest works ih =>
    obtain ⟨here, isType, rfl⟩ := (typeExpr_ends finish tokens).of_ok works
    refine ((ih.later [_]).later here).bind fun (params, rest') derives => ?_
    obtain ⟨later, params, rfl⟩ := derives
    exact ⟨_, .cons comma (.unnamed isType) params, by simp⟩
  | case8 tokens _ _ type close rest works =>
    obtain ⟨here, isType, rfl⟩ := (typeExpr_ends finish tokens).of_ok works
    exact ⟨_, .last close (.unnamed isType), by simp⟩
  | case9 tokens _ _ type rest _ _ _ _ _ works =>
    obtain ⟨here, isType, rfl⟩ := (typeExpr_ends finish tokens).of_ok works
    exact (missing_in ..).later here

theorem initializer_ends (finish : Span) (name : Token) (tokens : List Token) :
    Ends (Fault.In finish (name :: tokens)) (fun read => ∃ taken, IsInitializer taken read.1 ∧
      tokens = taken ++ read.2) (initializer name.span tokens) := by
  unfold initializer
  split
  · split
    · exact Fault.atPlace .missingToken rfl rfl
    · rename_i written
      exact ⟨_, .some (by simpa using written), rfl⟩
  · exact Fault.atPlace .missingToken rfl rfl
  · exact ⟨[], .none, rfl⟩

theorem IsTypes.single {tokens : List Token} {e : TypeExpr} (types : IsTypes tokens [e]) :
    IsType tokens e := by
  cases types with
  | one type => exact type
  | cons _ rest => cases rest

theorem eq_of_isSimple {type : TypeExpr} (simple : type.isSimple = true) :
    ∃ name, type.text = name ∧ type = ⟨[name], 0, type.span⟩ := by
  obtain ⟨path, dimension, span⟩ := type
  obtain ⟨single, rfl⟩ : path.length = 1 ∧ dimension = 0 := by
    simpa [TypeExpr.isSimple] using simple
  obtain ⟨name, rfl⟩ := length_eq_one_iff.1 single
  exact ⟨name, by simp [TypeExpr.text], rfl⟩

/-- A line that is read follows the grammar. -/
theorem head_derives (finish : Span) (tokens : List Token) :
    Ends (Fault.In finish tokens) (fun h => ∃ form, IsHead form tokens h) (head finish tokens) := by
  refine (typeExpr_ends finish tokens).bind fun (first, rest) derives => ?_
  obtain ⟨here, isType, rfl⟩ := derives
  refine ((moreTypes_ends finish rest).later here).bind fun (more, rest) derives => ?_
  obtain ⟨later, goesOn, rfl⟩ := derives
  have types := goesOn here first isType
  rw [← append_assoc]
  dsimp only
  split
  · split
    · -- The last type is the name of the function.
      rename_i simple
      obtain ⟨name, isName, single⟩ := eq_of_isSimple simple
      refine (((parameters_ends finish _).later [_]).later _).bind fun (params, rest) derives => ?_
      obtain ⟨taken, isParams, rfl⟩ := derives
      refine (((endOfLine_ends finish rest).later (_ :: taken)).later _).bind fun _ ends => ?_
      obtain rfl : rest = [] := ends
      simp only [append_nil, isName]
      refine ⟨_, .call ?_ isParams⟩
      rw [← single, dropLast_append_getLast? _ getLast?_cons]
      exact types
    · refine ⟨Fault.ofReading .unexpectedToken rfl rfl, fun line written => ?_⟩
      have inTypes := mem_of_getLast? (getLast?_cons (a := first) (l := more))
      exact (types.written written.append.1 _ inTypes).inLine
  · refine (((parameters_ends finish _).later [_, _]).later _).bind fun (params, rest) derives => ?_
    obtain ⟨taken, isParams, rfl⟩ := derives
    refine (((endOfLine_ends finish rest).later (_ :: _ :: taken)).later _).bind fun _ ends => ?_
    obtain rfl : rest = [] := ends
    simp only [append_nil]
    exact ⟨_, .function types isParams⟩
  · split
    · rename_i single
      obtain rfl := isEmpty_iff.1 single
      refine ((initializer_ends finish ⟨_, _⟩ _).later _).bind fun (text, rest) derives => ?_
      obtain ⟨taken, given, rfl⟩ := derives
      refine (((endOfLine_ends finish rest).later (_ :: taken)).later _).bind fun _ ends => ?_
      obtain rfl : rest = [] := ends
      simp only [append_nil]
      exact ⟨_, .plain types.single given⟩
    · exact Fault.In.later (Fault.atPlace .unexpectedToken rfl rfl) _
  · exact (missingName_in ..).later _

/-- What is read before the name of a coroutine are return types. -/
theorem coroutineReturns_ends (finish : Span) (tokens : List Token) :
    Ends (Fault.In finish tokens) (fun read => ∃ dangling taken, IsReturns dangling taken read.1 ∧
      tokens = taken ++ read.2) (coroutineReturns finish tokens) := by
  fun_induction coroutineReturns finish tokens with
  | case1 => exact ⟨_, [], .none, rfl⟩
  | case2 tokens _ fault fails => exact (typeExpr_ends finish tokens).of_error fails
  | case3 tokens _ type comma rest works ih =>
    obtain ⟨here, isType, rfl⟩ := (typeExpr_ends finish tokens).of_ok works
    refine ((ih.later [_]).later here).bind fun (types, rest) derives => ?_
    obtain ⟨dangling, later, returns, rfl⟩ := derives
    obtain ⟨dangling, returns⟩ := returns.cons isType comma
    exact ⟨dangling, _, returns, by simp⟩
  | case4 tokens _ type rest _ works =>
    obtain ⟨here, isType, rfl⟩ := (typeExpr_ends finish tokens).of_ok works
    exact ⟨_, here, .types (.one isType), rfl⟩

theorem coroutine_derives (finish : Span) (tokens : List Token) :
    Ends (Fault.In finish tokens) (fun r => ∃ dangling, IsCoroutine dangling tokens r)
      (coroutine finish tokens) := by
  refine (coroutineReturns_ends finish tokens).bind fun (types, rest) derives => ?_
  obtain ⟨dangling, taken, returns, rfl⟩ := derives
  dsimp only
  split
  · rename_i name span rest
    refine (((endOfLine_ends finish rest).later [_]).later taken).bind fun _ ends => ?_
    obtain rfl : rest = [] := ends
    exact ⟨dangling, .mk returns⟩
  · exact (missingName_in ..).later taken

/-- A line with `coroutine` after its visibility, and with nothing under it, declares what is read
of the rest. -/
theorem declaration_coroutine {finish span : Span} {line tokens : List Token}
    {v : Option Visibility}
    (seen : visibility line = ⟨(v, ⟨.keyword .coroutine, span⟩ :: tokens), []⟩) :
    (∀ {r}, coroutine finish tokens = .ok r → Reader.declaration [] finish line =
      ⟨some (.coroutineDecl ⟨v, r.2.1, r.2.2, r.1⟩), []⟩) ∧
    ∀ {fault}, coroutine finish tokens = .error fault →
      Reader.declaration [] finish line = ⟨none, [fault]⟩ := by
  have seen : visibility line = pure (v, ⟨.keyword .coroutine, span⟩ :: tokens) := seen
  unfold Reader.declaration
  rw [seen, pure_bind]
  dsimp only
  constructor <;> intro _ read <;> rw [read] <;> rfl

/-- The lines of coroutines that are read are those that follow the grammar, and those with one
comma more, between the types and the name.  What is read is what the line says, and any other line
has a fault. -/
theorem coroutine_accepts (finish : Span) (tokens : List Token) :
    (∀ r, coroutine finish tokens = .ok r ↔ ∃ dangling, IsCoroutine dangling tokens r) ∧
    (∀ dangling dangling' r r', IsCoroutine dangling tokens r → IsCoroutine dangling' tokens r' →
      dangling = dangling' ∧ r = r') ∧
    ∀ line v span, visibility line = ⟨(v, ⟨.keyword .coroutine, span⟩ :: tokens), []⟩ →
      (∀ dangling returns name place, IsCoroutine dangling tokens (returns, name, place) →
        Reader.declaration [] finish line =
          ⟨some (.coroutineDecl ⟨v, name, place, returns⟩), []⟩) ∧
      ((∀ dangling r, ¬ IsCoroutine dangling tokens r) →
        ∃ fault, Reader.declaration [] finish line = ⟨none, [fault]⟩) := by
  have derives := coroutine_derives finish tokens
  refine ⟨fun r => ⟨derives.of_ok, ?_⟩, fun dangling dangling' r r' here there => ⟨?_, ?_⟩,
    fun line v span seen => ⟨fun dangling returns name place isCoroutine => ?_, fun never => ?_⟩⟩
  · rintro ⟨dangling, isCoroutine⟩
    exact isCoroutine.reads finish
  · cases dangling <;> cases dangling'
    · rfl
    · exact (here.not_dangling there).elim
    · exact (there.not_dangling here).elim
    · rfl
  · exact Except.ok.inj ((here.reads finish).symm.trans (there.reads finish))
  · exact (declaration_coroutine seen).1 (isCoroutine.reads finish)
  · cases read : coroutine finish tokens with
    | ok r =>
      obtain ⟨dangling, isCoroutine⟩ := derives.of_ok read
      exact (never dangling r isCoroutine).elim
    | error fault => exact ⟨fault, (declaration_coroutine seen).2 read⟩

namespace Sample

/-- The tokens after `coroutine` in `coroutine integer, Ticker`. -/
def ticker : List Token :=
  [⟨.ident "integer", ⟨1, 11, 18⟩⟩, ⟨.mark .comma, ⟨1, 18, 19⟩⟩, ⟨.ident "Ticker", ⟨1, 20, 26⟩⟩]

def tickerRead : List TypeExpr × String × Span :=
  ([⟨["integer"], 0, ⟨1, 11, 18⟩⟩], "Ticker", ⟨1, 20, 26⟩)

theorem ticker_derives : IsCoroutine true ticker tickerRead :=
  @IsCoroutine.mk true [_, _] _ _ _ (@IsReturns.comma [_] _ _
    (.one (@IsType.mk _ _ [] [] _ _ _ _ rfl .nil .nil)))

end Sample

theorem coroutine_accepts_ticker :
    visibility (⟨.keyword .coroutine, ⟨1, 1, 10⟩⟩ :: Sample.ticker) =
      ⟨(none, ⟨.keyword .coroutine, ⟨1, 1, 10⟩⟩ :: Sample.ticker), []⟩ ∧
    IsCoroutine true Sample.ticker Sample.tickerRead ∧
    Reader.declaration [] ⟨1, 26, 26⟩ (⟨.keyword .coroutine, ⟨1, 1, 10⟩⟩ :: Sample.ticker) =
      ⟨some (.coroutineDecl ⟨none, "Ticker", ⟨1, 20, 26⟩, [⟨["integer"], 0, ⟨1, 11, 18⟩⟩]⟩), []⟩ :=
  ⟨rfl, Sample.ticker_derives, ((coroutine_accepts _ _).2.2 _ _ _ rfl).1 _ _ _ _
    Sample.ticker_derives⟩

/-- A line with a comma before the name does not follow the grammar, and it is read. -/
theorem coroutine_reads_dangling_comma :
    TokenLine.ofLine ⟨1, [], "coroutine integer, Ticker".toList⟩ =
      .ok ⟨⟨.keyword .coroutine, ⟨1, 1, 10⟩⟩ :: Sample.ticker, ⟨1, 26, 26⟩⟩ ∧
    coroutine ⟨1, 26, 26⟩ Sample.ticker = .ok Sample.tickerRead ∧
    ∀ r, ¬ IsCoroutine false Sample.ticker r :=
  ⟨by decide +kernel, Sample.ticker_derives.reads _, fun _ proper =>
    proper.not_dangling Sample.ticker_derives⟩

/-- The place of what a head declares. -/
def Head.span : Head → Span
  | .function _ _ span _ => span
  | .plain _ _ span _ => span

section

variable {line : Line} {finish : Span} {tokens : List Token}

theorem IsHead.written {form : Form} {h : Head} (derives : IsHead form tokens h)
    (written : Written line finish tokens) : line.Holds h.span ∧ h.Spelled := by
  cases derives with
  | call typed taken =>
    have last := typed.written written.append.1 _ (mem_append_right _ (mem_singleton_self _))
    obtain ⟨isName, _⟩ := last.path
    refine ⟨last.inLine, isName.isIdentifier, ?_⟩
    exact forall_mem_append.2 ⟨forall_mem_map.2 taken.named,
      (forall_mem_append.1 typed.named).1⟩
  | function typed taken =>
    obtain ⟨holds, isName⟩ := written.append.2.head
    refine ⟨holds, isName.isIdentifier, ?_⟩
    exact forall_mem_append.2 ⟨forall_mem_map.2 taken.named, typed.named⟩
  | plain typed _ =>
    obtain ⟨holds, isName⟩ := written.append.2.head
    exact ⟨holds, isName.isIdentifier, forall_mem_singleton.2 typed.named⟩

theorem IsCoroutine.written {dangling : Bool} {r : List TypeExpr × String × Span}
    (derives : IsCoroutine dangling tokens r) (written : Written line finish tokens) :
    line.Holds r.2.2 ∧ Spells r.2.1 r.1 := by
  obtain ⟨returns⟩ := derives
  obtain ⟨holds, isName⟩ := written.append.2.head
  refine ⟨holds, isName.isIdentifier, ?_⟩
  cases returns with
  | none => exact forall_mem_nil _
  | types typed | comma typed => exact typed.named

end

section

variable (finish : Span) (tokens : List Token)
include finish tokens

theorem head_ends : Ends (Fault.In finish tokens) (fun read => ∀ line, Written line finish tokens →
      line.Holds read.span ∧ read.Spelled) (head finish tokens) := by
  refine (head_derives finish tokens).imp (fun _ => id) fun read derives line written => ?_
  obtain ⟨form, isHead⟩ := derives
  exact isHead.written written

/-- A class or an interface is declared on the line of its tokens. -/
theorem typeHeader_ends : Ends (Fault.In finish tokens) (fun read => ∀ line,
      Written line finish tokens → line.Holds read.2.1 ∧ isIdentifier read.1 = true)
      (typeHeader finish tokens) := by
  have inherits (tokens : List Token) : Ends (Fault.In finish tokens)
      (fun read => ∃ taken, tokens = taken ++ read.2) (inherits finish tokens) := by
    unfold inherits
    split
    · rename_i colon _
      refine ((typeExpr_ends finish _).later [_]).bind fun (first, rest) derives => ?_
      obtain ⟨here, _, rfl⟩ := derives
      refine ((moreTypes_ends finish rest).later (_ :: here)).bind fun (more, rest) derives => ?_
      obtain ⟨later, _, rfl⟩ := derives
      exact ⟨⟨.mark .colon, colon⟩ :: (here ++ later), by simp⟩
    · exact ⟨[], rfl⟩
  unfold typeHeader
  split
  · refine ((inherits _).later [_]).bind fun (types, rest) derives => ?_
    obtain ⟨taken, rfl⟩ := derives
    refine ((endOfLine_ends finish rest).later (_ :: taken)).bind fun _ _ line written => ?_
    exact ⟨written.head.1, written.head.2.isIdentifier⟩
  · exact missingName_in ..

theorem coroutine_ends : Ends (Fault.In finish tokens) (fun read => ∀ line,
      Written line finish tokens → line.Holds read.2.2 ∧ Spells read.2.1 read.1)
      (coroutine finish tokens) := by
  refine (coroutine_derives finish tokens).imp (fun _ => id) fun read derives line written => ?_
  obtain ⟨dangling, isCoroutine⟩ := derives
  exact isCoroutine.written written

theorem importPath_ends :
    Ends (Fault.In finish tokens) (fun _ => True) (importPath finish tokens) := by
  unfold importPath
  split
  · refine ((segments_ends finish _ _).later [_]).bind fun (path, _, rest) derives => ?_
    obtain ⟨taken, _, rfl⟩ := derives
    exact ((endOfLine_ends finish rest).later (_ :: taken)).bind fun _ _ => trivial
  · exact missingName_in ..

/-- Visibilities are taken from the front of the line. -/
theorem visibility_reports : Noted.Reports (Fault.In finish tokens) (visibility tokens) ∧
      (visibility tokens).value.2.Sublist tokens := by
  have rest (first : Visibility) (tokens : List Token) :
      Noted.Reports (Fault.In finish tokens) (clashes first tokens) ∧
        (clashes first tokens).value.Sublist tokens := by
    induction tokens with
    | nil => exact ⟨forall_mem_nil _, List.Sublist.refl _⟩
    | cons token tokens ih =>
      unfold clashes
      split
      · exact ⟨forall_mem_nil _, List.Sublist.refl _⟩
      · refine ⟨forall_mem_cons.2 ⟨Fault.atPlace .visibilityClash rfl rfl, ?_⟩, ih.2.cons _⟩
        exact fun fault member => (ih.1 fault member).later [_]
  unfold visibility
  split
  · exact ⟨forall_mem_nil _, List.Sublist.refl _⟩
  · split
    · exact ⟨forall_mem_nil _, List.Sublist.refl _⟩
    · rename_i first _
      exact ⟨fun fault member => ((rest first _).1 fault member).later [_], (rest first _).2.cons _⟩

end

end Grammar

/-! ### Blocks -/

/-- Lines in the order of their numbers, none of which is past the last. -/
structure Ordered (last : Nat) (lines : List Line) : Prop where
  sorted : lines.Pairwise fun a b => a.number ≤ b.number
  bounded : ∀ line ∈ lines, line.number ≤ last

theorem Ordered.sublist {last : Nat} {lines lines' : List Line} (ordered : Ordered last lines)
    (fewer : lines'.Sublist lines) : Ordered last lines' :=
  ⟨ordered.sorted.sublist fewer, fun line member => ordered.bounded line (fewer.subset member)⟩

theorem Line.increasing_ofSource (source : List Char) :
    (ofSource source).Pairwise fun a b => a.number < b.number := by
  have increasing : ((Text.lines source).zipIdx 1).Pairwise fun a b => a.2 < b.2 := by
    rw [← pairwise_map, zipIdx_map_snd]
    exact pairwise_lt_range'
  refine increasing.filterMap _ fun a b less line keptA line' keptB => ?_
  rw [(of_ofText? keptA).1, (of_ofText? keptB).1]
  exact less

theorem Line.ordered_ofSource (source : List Char) :
    Ordered (Text.lines source).length (ofSource source) := by
  refine ⟨(increasing_ofSource source).imp Nat.le_of_lt, fun line member => ?_⟩
  obtain ⟨low, written, isLine, _⟩ := of_mem_ofSource member
  have bound := (List.getElem?_eq_some_iff.1 isLine).1
  omega

namespace Block

theorem linesOf_forest (lines : List Line) : linesOf (forest lines) = lines := by
  fun_induction forest lines with
  | case1 => rfl
  | case2 line rest ihNested ihLater =>
    rw [linesOf, Block.lines, ihNested, ihLater, cons_append, takeWhile_append_dropWhile]

end Block

/-! ### Functions and the lines of the text -/

/-- A function and its body stand on lines of a text. -/
structure FunctionDecl.Within (last : Nat) (f : FunctionDecl) : Prop where
  line : f.span.line ≤ last
  body : ∀ {body}, f.body = some body → body.firstLine ≤ body.lastLine ∧ body.lastLine ≤ last

end Linkage
