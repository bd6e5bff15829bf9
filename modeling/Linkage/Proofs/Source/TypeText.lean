/-
Purpose: A type that is printed and read again is the same type.
-/
import Linkage.Proofs.Source.Reading

namespace Linkage

open List Lexer

namespace Lexer

variable (line column : Nat) {rest : List Char}

/-- A name is one token, up to a character that no name goes on with. -/
theorem tokens_name {name : String} (isName : isIdentifier name = true)
    (stops : ∀ c ∈ rest.head?, isIdentRest c = false) :
    tokens line column (name.toList ++ rest) =
      (tokens line (column + byteLength name.toList) rest).map (prepend ⟨word name.toList,
        ⟨line, column, column + byteLength name.toList⟩⟩) := by
  unfold isIdentifier at isName
  split at isName
  · cases isName
  · rename_i c letters same
    rw [same]
    obtain ⟨start, goesOn⟩ : isIdentStart c = true ∧ ∀ d ∈ letters, isIdentRest d = true := by
      simpa using isName
    have noBlank : ¬ Line.isMargin c = true := by
      intro blank
      have isBlank : c = ' ' ∨ c = '\t' := by simpa [Line.isMargin] using blank
      rcases isBlank with rfl | rfl <;> cases start
    have noComment : ¬ Line.startsComment (c :: (letters ++ rest)) = true := by
      intro comment
      unfold Line.startsComment at comment
      split at comment
      · rename_i starts
        cases (cons.inj starts).1
        cases start
      · cases comment
    have cut : (letters ++ rest).takeWhile isIdentRest = letters ∧
        (letters ++ rest).dropWhile isIdentRest = rest := by
      rw [takeWhile_append_of_pos goesOn, dropWhile_append_of_pos goesOn]
      cases rest with
      | nil => simp
      | cons d rest => simp [stops d rfl]
    have length : byteLength (c :: letters) = (c :: letters).length :=
      byteLength_word (forall_mem_cons.2 ⟨isIdentRest_of_isIdentStart start, goesOn⟩)
    rw [cons_append, tokens, if_neg noBlank, if_neg noComment, if_pos start, cut.1, cut.2,
      length]

theorem word_name {name : String} (isName : IsName name) : word name.toList = .ident name := by
  unfold word
  dsimp only
  rw [String.ofList_toList, isName.free]

theorem tokens_mark {m : Mark} (other : m ≠ .equals) :
    tokens line column (m.spelling :: rest) = (tokens line (column + 1) rest).map
      (prepend ⟨.mark m, ⟨line, column, column + 1⟩⟩) := by
  rw [tokens]
  cases m with
  | equals => exact absurd rfl other
  | _ => rfl

end Lexer

namespace TypeExpr

open Grammar (IsPath IsArray IsType)

/-- What is printed after the names of a type. -/
def bracketText (dimension : Nat) : List Char :=
  (replicate dimension "[]").flatMap String.toList

/-- What is printed after the first name of a type. -/
def tailText (path : List String) (dimension : Nat) : List Char :=
  path.flatMap (fun name => '.' :: name.toList) ++ bracketText dimension

theorem toList_text {e : TypeExpr} {first : String} {path : List String}
    (isPath : e.path = first :: path) :
    e.text.toList = first.toList ++ tailText path e.dimension := by
  rw [text, isPath, tailText, bracketText]
  simp [String.toList_intercalate, String.toList_join, Text.intercalate_cons, flatMap_map]

/-- No name goes on with what is printed after it. -/
theorem stops_tailText (path : List String) (dimension : Nat) :
    ∀ c ∈ (tailText path dimension).head?, isIdentRest c = false := by
  cases path with
  | nil =>
    cases dimension with
    | zero => simp [tailText, bracketText]
    | succ n =>
      rintro c ⟨⟩
      rfl
  | cons name path =>
    rintro c ⟨⟩
    rfl

theorem tokens_bracketText (line column dimension : Nat) : ∃ pairs stop,
    tokens line column (bracketText dimension) = .ok ⟨pairs, ⟨line, stop, stop⟩⟩ ∧
      IsArray column pairs dimension stop ∧
      stop = column + byteLength (bracketText dimension) := by
  induction dimension generalizing column with
  | zero => exact ⟨[], column, by rw [bracketText]; simp [tokens], .nil, rfl⟩
  | succ n ih =>
    obtain ⟨pairs, stop, reads, isArray, rfl⟩ := ih (column + 1 + 1)
    have text : bracketText (n + 1) =
        Mark.openBracket.spelling :: Mark.closeBracket.spelling :: bracketText n := rfl
    refine ⟨⟨.mark .openBracket, ⟨line, column, column + 1⟩⟩ ::
      ⟨.mark .closeBracket, ⟨line, column + 1, column + 1 + 1⟩⟩ :: pairs, _, ?_, .cons isArray, ?_⟩
    · rw [text, tokens_mark _ _ (by decide), tokens_mark _ _ (by decide), reads]
      rfl
    · rw [text, Nat.add_assoc, Nat.add_assoc]
      rfl

theorem tokens_tailText {path : List String} (areNames : ∀ name ∈ path, IsName name)
    (line column dimension : Nat) : ∃ names pairs middle stop,
    tokens line column (tailText path dimension) =
        .ok ⟨names ++ pairs, ⟨line, stop, stop⟩⟩ ∧
      IsPath column names path middle ∧ IsArray middle pairs dimension stop ∧
      stop = column + byteLength (tailText path dimension) := by
  induction path generalizing column with
  | nil =>
    obtain ⟨pairs, stop, reads, isArray, stops⟩ := tokens_bracketText line column dimension
    exact ⟨[], pairs, column, stop, reads, .nil, isArray, stops⟩
  | cons name path ih =>
    obtain ⟨isName, areNames⟩ := forall_mem_cons.1 areNames
    obtain ⟨names, pairs, middle, stop, reads, isPath, isArray, rfl⟩ :=
      ih areNames (column + 1 + byteLength name.toList)
    have text : tailText (name :: path) dimension =
        Mark.dot.spelling :: (name.toList ++ tailText path dimension) := by
      simp [tailText]
      rfl
    refine ⟨⟨.mark .dot, ⟨line, column, column + 1⟩⟩ ::
        ⟨.ident name, ⟨line, column + 1, _⟩⟩ :: names,
      pairs, middle, _, ?_, .cons isPath, isArray, ?_⟩
    · rw [text, tokens_mark _ _ (by decide),
        tokens_name _ _ isName.isIdentifier (stops_tailText _ _), reads,
        word_name isName]
      rfl
    · rw [text, byteLength_cons, byteLength_append, ← Nat.add_assoc, ← Nat.add_assoc]
      rfl

/-- A type that is printed is read again, over the whole of its text. -/
theorem rereads {e : TypeExpr} (isPath : IsTypePath e.path) (number : Nat) :
    ∃ read, TokenLine.ofLine ⟨number, [], e.text.toList⟩ = .ok read ∧
      Grammar.typeExpr read.finish read.tokens =
        .ok ({ e with span := ⟨number, 1, Text.columnAfter e.text.toList⟩ }, []) := by
  obtain ⟨path, dimension, span⟩ := e
  obtain @⟨first, path, isFirst, areNames⟩ := isPath
  have text := toList_text (e := ⟨first :: path, dimension, span⟩) rfl
  obtain ⟨names, pairs, middle, stop, reads, dotted, bracketed, stops⟩ :=
    tokens_tailText areNames number (1 + byteLength first.toList) dimension
  have head : Grammar.typeHead? (word first.toList) = some first := by
    rcases isFirst with isName | isKeyword
    · rw [word_name isName]
      rfl
    · simp at isKeyword
      rcases isKeyword with rfl | rfl | rfl <;> rfl
  have last : stop = Text.columnAfter (first.toList ++ tailText path dimension) := by
    rw [Text.columnAfter, byteLength_append]
    omega
  have isType : IsType (⟨word first.toList, ⟨number, 1, _⟩⟩ :: (names ++ pairs))
      ⟨first :: path, dimension, ⟨number, 1, stop⟩⟩ := .mk head dotted bracketed
  have lexed : tokens number 1 (first.toList ++ tailText path dimension) =
      .ok ⟨⟨word first.toList, ⟨number, 1, 1 + byteLength first.toList⟩⟩ ::
        (names ++ pairs), ⟨number, stop, stop⟩⟩ := by
    rw [tokens_name _ _ isFirst.isIdentifier (stops_tailText _ _), reads]
    rfl
  rw [text, ← last]
  refine ⟨_, lexed, ?_⟩
  have stops : Grammar.Stops [] := ⟨by simp, by simp⟩
  simpa using isType.reads stops

/-- Types are printed as they are read.  A type with names in its path, of which the first may be
one of three keywords, is read again from its text, over the whole of it.  All types that are read
are such types, since the tokens of a line have only names as names. -/
theorem reads_printed :
    (∀ (e : TypeExpr) (number : Nat), IsTypePath e.path →
      ∃ read, TokenLine.ofLine ⟨number, [], e.text.toList⟩ = .ok read ∧
        Grammar.typeExpr read.finish read.tokens =
          .ok ({ e with span := ⟨number, 1, Text.columnAfter e.text.toList⟩ }, [])) ∧
    (∀ source, ∀ line ∈ Line.ofSource source, ∀ read, TokenLine.ofLine line = .ok read →
      Spelled read.tokens) ∧
    ∀ finish tokens rest e, Spelled tokens → Grammar.typeExpr finish tokens = .ok (e, rest) →
      IsTypePath e.path ∧ ∀ number, ∃ read e',
        TokenLine.ofLine ⟨number, [], e.text.toList⟩ = .ok read ∧
        Grammar.typeExpr read.finish read.tokens = .ok (e', []) ∧
        e.sameText e' = true ∧ e.text = e'.text := by
  refine ⟨fun e number isPath => rereads isPath number, fun source line kept read works => ?_,
    fun finish tokens rest e spelled works => ?_⟩
  · obtain ⟨_, written, _, isLine⟩ := Line.of_mem_ofSource kept
    exact ((TokenLine.ofLine_ends (Line.of_ofText? isLine).2.2).of_ok works).written.spelled
  · obtain ⟨taken, isType, rfl⟩ := (Grammar.typeExpr_ends finish tokens).of_ok works
    have isPath := isType.path (forall_mem_append.1 spelled).1
    refine ⟨isPath, fun number => ?_⟩
    obtain ⟨read, lexed, again⟩ := rereads isPath number
    exact ⟨read, _, lexed, again, by simp [sameText], rfl⟩

theorem reads_printed_shelves : IsTypePath ["interface", "Shelf"] ∧
    TypeExpr.text ⟨["interface", "Shelf"], 2, ⟨7, 3, 4⟩⟩ = "interface.Shelf[][]" ∧
    ∃ read, TokenLine.ofLine ⟨1, [], "interface.Shelf[][]".toList⟩ = .ok read ∧
      Grammar.typeExpr read.finish read.tokens =
        .ok (⟨["interface", "Shelf"], 2, ⟨1, 1, 20⟩⟩, []) := by
  have isPath : IsTypePath ["interface", "Shelf"] :=
    .mk (.inr (by decide)) (forall_mem_singleton.2 ⟨by decide, by decide⟩)
  exact ⟨isPath, by decide, reads_printed.1 ⟨["interface", "Shelf"], 2, ⟨7, 3, 4⟩⟩ 1 isPath⟩

end TypeExpr

end Linkage
