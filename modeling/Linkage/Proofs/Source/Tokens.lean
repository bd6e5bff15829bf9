/-
Purpose: The tokens of a line cover all of it but blanks and a comment, and each says what is
  written in its place.
-/
import Linkage.Proofs.Compile.Codes

namespace Linkage

open List Text

/-! ### Bytes -/

namespace Text

/-- The bytes of a text. -/
def bytes (text : List Char) : List UInt8 := text.flatMap String.utf8EncodeChar

/-- The bytes of a text from one column up to another. -/
def between (text : List Char) (start stop : Nat) : List UInt8 :=
  (bytes text).extract (start - 1) (stop - 1)

/-- The column after a text that starts a line. -/
def columnAfter (text : List Char) : Nat := Lexer.byteLength text + 1

theorem length_bytes (text : List Char) : (bytes text).length = Lexer.byteLength text := by
  induction text with
  | nil => rfl
  | cons c rest ih =>
    rw [bytes, flatMap_cons, length_append, String.length_utf8EncodeChar]
    exact congrArg (c.utf8Size + ·) ih

theorem columnAfter_append (text rest : List Char) :
    columnAfter (text ++ rest) = columnAfter text + Lexer.byteLength rest := by
  simp only [columnAfter, ← length_bytes, bytes, flatMap_append, length_append]
  omega

/-- Texts that are joined, each but the first with a separator in front. -/
theorem intercalate_cons (sep x : List Char) (xs : List (List Char)) :
    sep.intercalate (x :: xs) = x ++ xs.flatMap (sep ++ ·) := by
  induction xs generalizing x with
  | nil => simp
  | cons y ys ih => rw [intercalate_cons_cons, ih]; simp

theorem between_append (before word rest : List Char) :
    between (before ++ (word ++ rest)) (columnAfter before) (columnAfter (before ++ word)) =
      bytes word := by
  simp only [between, columnAfter, Nat.add_sub_cancel, ← length_bytes]
  simp [bytes]

/-! ### Quotes -/

/-- How a character changes what is open: nothing, or the quoted part that ends at a mark, in
which a backslash may have taken the next character. -/
def quoteAfter : Option (Char × Bool) → Char → Option (Char × Bool)
  | none, c => if c = '"' ∨ c = '\'' then some (c, false) else none
  | some (mark, true), _ => some (mark, false)
  | some (mark, false), c =>
    if c = '\\' then some (mark, true) else if c = mark then none else some (mark, false)

/-- The text with blanks in place of what is quoted. -/
def bare (quote : Option (Char × Bool)) : List Char → List Char
  | [] => []
  | c :: rest => (if quote.isSome then ' ' else c) :: bare (quoteAfter quote c) rest

/-- No comment starts in a text but in a quoted part. -/
def Uncommented (quote : Option (Char × Bool)) (text : List Char) : Prop :=
  ¬ ['/', '/'] <:+: bare quote text

theorem bare_isPrefix (quote : Option (Char × Bool)) (text rest : List Char) :
    bare quote text <+: bare quote (text ++ rest) := by
  induction text generalizing quote with
  | nil => exact nil_prefix
  | cons c text ih => exact (prefix_cons_inj _).2 (ih _)

namespace Uncommented

variable {quote quote' : Option (Char × Bool)} {text rest : List Char} {c : Char}

theorem trimEnd (clean : Uncommented quote text) : Uncommented quote (trimEnd text) := by
  have cut : Text.trimEnd text ++ (text.reverse.takeWhile isBlank).reverse = text := by
    rw [Text.trimEnd, ← reverse_append, takeWhile_append_dropWhile, reverse_reverse]
  exact fun comment => clean (cut ▸ comment.trans (bare_isPrefix ..).isInfix)

protected theorem nil : Uncommented quote [] := by simp [Uncommented, bare]

/-- A quoted character starts no comment. -/
theorem quoted (isQuoted : quote.isSome = true) (after : quoteAfter quote c = quote')
    (clean : Uncommented quote' text) : Uncommented quote (c :: text) := by
  rw [Uncommented, bare, if_pos isQuoted, infix_cons_iff, after]
  rintro (here | later)
  · simp at here
  · exact clean later

theorem cons (after : quoteAfter none c = quote')
    (noComment : Line.startsComment (c :: (text ++ rest)) = false)
    (clean : Uncommented quote' text) : Uncommented none (c :: text) := by
  subst after
  rw [Uncommented, bare, infix_cons_iff]
  rintro (here | later)
  · obtain ⟨rfl, here⟩ := cons_prefix_cons.1 here
    cases text with
    | nil => simp [bare] at here
    | cons d text =>
      obtain ⟨rfl, -⟩ := cons_prefix_cons.1 here
      cases noComment
  · exact clean later

end Uncommented

end Text

/-- Nothing is left of a line, or a comment. -/
def Line.IsOver (rest : List Char) : Prop := rest = [] ∨ startsComment rest = true

namespace Lexer

theorem byteLength_append (text rest : List Char) :
    byteLength (text ++ rest) = byteLength text + byteLength rest := by
  simp only [← length_bytes, bytes, flatMap_append, length_append]

theorem byteLength_cons (c : Char) (rest : List Char) :
    byteLength (c :: rest) = c.utf8Size + byteLength rest := rfl

theorem byteLength_eq_length {text : List Char} (small : ∀ c ∈ text, c.utf8Size = 1) :
    byteLength text = text.length := by
  induction text with
  | nil => rfl
  | cons c rest ih =>
    obtain ⟨here, later⟩ := forall_mem_cons.1 small
    rw [byteLength_cons, here, ih later, length_cons, Nat.add_comm]

theorem byteLength_margin {blanks : List Char} (blank : ∀ c ∈ blanks, Line.isMargin c = true) :
    byteLength blanks = blanks.length := by
  refine byteLength_eq_length fun c member => ?_
  have isBlank : c = ' ' ∨ c = '\t' := by simpa [Line.isMargin] using blank c member
  rcases isBlank with rfl | rfl <;> rfl

theorem byteLength_word {word : List Char} (isWord : ∀ c ∈ word, isIdentRest c = true) :
    byteLength word = word.length := by
  refine byteLength_eq_length fun c member => Char.utf8Size_eq_one_iff.2 ?_
  rcases Bool.or_eq_true_iff.1 (isWord c member) with alphanum | underscore
  · unfold Char.isAlphanum Char.isAlpha Char.isUpper Char.isLower Char.isDigit at alphanum
    grind
  · rw [beq_iff_eq.1 underscore]
    decide

/-- The text of an initializer goes up to the end of the line or a comment.  A quoted part that is
never closed reaches from its mark to the end of the line. -/
theorem initializer_ends {low column stop : Nat} {quote : Option (Char × Nat)} {text : List Char}
    (lowest : low ≤ column) (opened : ∀ mark ∈ quote, low ≤ mark.2 ∧ mark.2 ≤ column)
    (whole : column + byteLength text ≤ stop) :
    Ends (fun range => low ≤ range.1 ∧ range.1 ≤ range.2 ∧ range.2 ≤ stop)
      (fun raw => ∃ rest, text = raw ++ rest ∧ Line.IsOver rest ∧
        Text.Uncommented (quote.map fun mark => (mark.1, false)) raw)
      (initializer column quote text) := by
  fun_induction initializer column quote text with
  | case1 column mark opens => exact ⟨(opened _ rfl).1, (opened _ rfl).2, whole⟩
  | case2 column => exact ⟨[], rfl, .inl rfl, .nil⟩
  | case3 column mark opens =>
    exact ⟨(opened _ rfl).1, Nat.le_succ_of_le (opened _ rfl).2, whole⟩
  | case4 column mark opens d rest ih =>
    have positive := ('\\').utf8Size_pos
    rw [byteLength_cons, byteLength_cons] at whole
    refine (ih (by omega) (by grind) (by omega)).map ?_
    rintro raw ⟨rest, rfl, isOver, clean⟩
    exact ⟨rest, rfl, isOver, .quoted rfl rfl (.quoted rfl rfl clean)⟩
  | case5 column c rest opens noEscape ih =>
    have positive := c.utf8Size_pos
    rw [byteLength_cons] at whole
    refine (ih (by omega) (by simp) (by omega)).map ?_
    rintro raw ⟨rest, rfl, isOver, clean⟩
    exact ⟨rest, rfl, isOver, .quoted rfl (by simp [quoteAfter, noEscape]) clean⟩
  | case6 column c rest mark opens noEscape noMark ih =>
    rw [byteLength_cons] at whole
    refine (ih (by omega) (by grind) (by omega)).map ?_
    rintro raw ⟨rest, rfl, isOver, clean⟩
    exact ⟨rest, rfl, isOver, .quoted rfl (by simp [quoteAfter, noEscape, noMark]) clean⟩
  | case7 column c rest isMark ih =>
    have positive := c.utf8Size_pos
    rw [byteLength_cons] at whole
    refine (ih (by omega) ?_ (by omega)).map ?_
    · rintro _ ⟨⟩
      exact ⟨lowest, Nat.le_succ _⟩
    · rintro raw ⟨rest, rfl, isOver, clean⟩
      have noComment : Line.startsComment (c :: (raw ++ rest)) = false := by
        rcases isMark with rfl | rfl <;> rfl
      exact ⟨rest, rfl, isOver, .cons (by simp [quoteAfter, isMark]) noComment clean⟩
  | case8 column c rest noMark comment => exact ⟨_, rfl, .inr comment, .nil⟩
  | case9 column c rest noMark noComment ih =>
    rw [byteLength_cons] at whole
    refine (ih (by omega) (by simp) (by omega)).map ?_
    rintro raw ⟨rest, rfl, isOver, clean⟩
    exact ⟨rest, rfl, isOver, .cons (if_neg noMark) (by simpa using noComment) clean⟩

end Lexer

/-! ### Names -/

/-- A letter or an underscore, and then letters, digits and underscores. -/
def isIdentifier (name : String) : Bool :=
  match name.toList with
  | [] => false
  | c :: rest => Lexer.isIdentStart c && rest.all Lexer.isIdentRest

/-- An identifier that is not a keyword. -/
structure IsName (name : String) : Prop where
  isIdentifier : isIdentifier name = true
  free : Keyword.ofSpelling? name = none

/-! ### Tokens -/

/-- A fault with one of the codes that reading has. -/
def Fault.OfReading (fault : Fault) : Prop := fault.problem.code ∈ Stage.parse.codes

theorem Fault.ofReading {span : Span} {problem : Problem} (code : Code)
    (isCode : problem.code = code) (owned : Stage.parse.codes.elem code = true) :
    Fault.OfReading ⟨span, problem⟩ := by
  show problem.code ∈ Stage.parse.codes
  rw [isCode]
  exact mem_of_elem_eq_true owned

/-- What a token says of the bytes that it covers. -/
def TokenKind.Spells (covered : List UInt8) : TokenKind → Prop
  | ident name => IsName name ∧ covered = bytes name.toList
  | keyword word => covered = bytes word.spelling.toList
  | mark m => covered = bytes [m.spelling]
  | raw text => ∃ written, covered = bytes written ∧
    text = String.ofList (trimEnd written) ∧ Text.Uncommented none (trimEnd written)

/-- The places of the tokens of a line and of its end. -/
def TokenLine.places (read : TokenLine) : List Span := read.tokens.map (·.span) ++ [read.finish]

/-- From a column on, the tokens of a line cover its text up to the end or a comment. -/
structure TokenLine.Covers (number column : Nat) (text : List Char) (read : TokenLine) : Prop where
  onLine : ∀ s ∈ read.places, s.line = number
  forward : ∀ s ∈ read.places, column ≤ s.start ∧ s.start ≤ s.stop
  ordered : read.places.Pairwise (·.stop ≤ ·.start)
  spelled : ∀ token ∈ read.tokens,
    token.kind.Spells (between text token.span.start token.span.stop)
  gaps : ∀ i, column ≤ i → i < read.finish.start →
    (∀ token ∈ read.tokens, i < token.span.start ∨ token.span.stop ≤ i) →
    ∃ c, Line.isMargin c = true ∧ between text i (i + 1) = bytes [c]
  rest : ∃ before rest, text = before ++ rest ∧ Line.IsOver rest ∧
    read.finish.start = columnAfter before ∧ read.finish.stop = read.finish.start
  equals : ∀ earlier span later, read.tokens = earlier ++ ⟨.mark .equals, span⟩ :: later →
    ∃ raw span', later = [⟨.raw raw, span'⟩]

/-- After a part of a text, tokens cover the rest. -/
abbrev TokenLine.CoversRest (number : Nat) (before rest : List Char) (read : TokenLine) : Prop :=
  read.Covers number (columnAfter before) (before ++ rest)

namespace TokenLine.CoversRest

open Text (columnAfter)

variable {number : Nat} {before rest : List Char} {read : TokenLine} {kind : TokenKind}

/-- At the end of a line nothing is left to cover. -/
theorem ended (number : Nat) (before : List Char) (isOver : Line.IsOver rest) :
    CoversRest number before rest ⟨[], ⟨number, columnAfter before, columnAfter before⟩⟩ where
  onLine := by simp [places]
  forward := by simp [places]
  ordered := by simp [places]
  spelled := forall_mem_nil _
  gaps i low high := absurd low (Nat.not_le.2 high)
  rest := ⟨before, rest, rfl, isOver, rfl, rfl⟩
  equals earlier := by simp

/-- A token covers the word that it says. -/
theorem cons {word : List Char} (spells : kind.Spells (bytes word))
    (last : kind = .mark .equals → ∃ raw span, read.tokens = [⟨.raw raw, span⟩])
    (covers : CoversRest number (before ++ word) rest read) :
    CoversRest number before (word ++ rest) (Lexer.prepend
      ⟨kind, ⟨number, columnAfter before, columnAfter (before ++ word)⟩⟩ read) := by
  unfold CoversRest at covers
  rw [append_assoc] at covers
  have goesOn : columnAfter before ≤ columnAfter (before ++ word) := by
    rw [columnAfter_append]
    exact Nat.le_add_right ..
  exact {
    onLine := forall_mem_cons.2 ⟨rfl, covers.onLine⟩
    forward := forall_mem_cons.2 ⟨⟨Nat.le_refl _, goesOn⟩, fun s member =>
      ⟨Nat.le_trans goesOn (covers.forward s member).1, (covers.forward s member).2⟩⟩
    ordered := pairwise_cons.2 ⟨fun s member => (covers.forward s member).1, covers.ordered⟩
    spelled := forall_mem_cons.2 ⟨by rwa [between_append], covers.spelled⟩
    gaps := fun i low high outside => by
      obtain ⟨here, later⟩ := forall_mem_cons.1 outside
      exact covers.gaps i (here.resolve_left (Nat.not_lt.2 low)) high later
    rest := covers.rest
    equals := fun earlier span later same => by
      cases earlier with
      | nil =>
        obtain ⟨isEquals, rfl⟩ := List.cons.inj same
        exact last (congrArg Token.kind isEquals)
      | cons first earlier => exact covers.equals earlier span later (List.cons.inj same).2 }

/-- Blanks need not be covered. -/
theorem skip {blanks : List Char} (blank : ∀ c ∈ blanks, Line.isMargin c = true)
    (covers : CoversRest number (before ++ blanks) rest read) :
    CoversRest number before (blanks ++ rest) read := by
  -- One blank at a time, since a gap is said of each byte.
  induction blanks generalizing before with
  | nil => simpa using covers
  | cons c blanks ih =>
    obtain ⟨isBlank, blank⟩ := forall_mem_cons.1 blank
    have next : CoversRest number (before ++ [c]) (blanks ++ rest) read :=
      ih blank (by simpa using covers)
    have column : columnAfter (before ++ [c]) = columnAfter before + 1 := by
      rw [columnAfter_append, Lexer.byteLength_margin (forall_mem_singleton.2 isBlank),
        length_singleton]
    unfold CoversRest at next
    rw [append_assoc] at next
    refine { next with
      forward := fun s member => ⟨?_, (next.forward s member).2⟩
      gaps := fun i low high outside => ?_ }
    · have low := (next.forward s member).1
      omega
    · rcases Nat.eq_or_lt_of_le low with rfl | above
      · exact ⟨c, isBlank, column ▸ between_append before [c] (blanks ++ rest)⟩
      · exact next.gaps i (column ▸ above) high outside

end TokenLine.CoversRest

/-- A range of columns in a text on a line. -/
structure Span.InLine (number : Nat) (text : List Char) (s : Span) : Prop where
  line : s.line = number
  low : 1 ≤ s.start
  forward : s.start ≤ s.stop
  high : s.stop ≤ columnAfter text

namespace Lexer

open Text (columnAfter columnAfter_append)

theorem isIdentRest_of_isIdentStart {c : Char} (start : isIdentStart c = true) :
    isIdentRest c = true := by
  simp only [isIdentStart, isIdentRest, Char.isAlphanum] at start ⊢
  grind

theorem spelling_of_ofChar? {c : Char} {m : Mark} (isMark : Mark.ofChar? c = some m) :
    c = m.spelling := by
  simpa [eq_comm] using find?_some isMark

theorem spells_word {c : Char} {rest : List Char} (start : isIdentStart c = true)
    (goesOn : ∀ d ∈ rest, isIdentRest d = true) :
    (word (c :: rest)).Spells (bytes (c :: rest)) ∧ ∀ m, word (c :: rest) ≠ .mark m := by
  unfold word
  dsimp only
  split
  · rename_i k isKeyword
    have same : k.spelling = String.ofList (c :: rest) := by simpa using find?_some isKeyword
    refine ⟨?_, by simp⟩
    show _ = bytes k.spelling.toList
    rw [same, String.toList_ofList]
  · rename_i free
    refine ⟨⟨⟨?_, free⟩, by rw [String.toList_ofList]⟩, by simp⟩
    rw [isIdentifier]
    simpa [start] using goesOn

theorem spells_mark (m : Mark) : (TokenKind.mark m).Spells (bytes [m.spelling]) := rfl

/-- After an equals sign the rest of a line is covered by its initializer. -/
theorem equals_ends (line : Nat) {start : Nat} (before rest : List Char)
    (starts : start = columnAfter before + 1 + (rest.takeWhile Line.isMargin).length) :
    Ends (fun range => columnAfter before ≤ range.1 ∧ range.1 ≤ range.2 ∧
        range.2 ≤ columnAfter (before ++ '=' :: rest))
      (fun raw => TokenLine.CoversRest line before ('=' :: rest)
        (prepend ⟨.mark .equals, ⟨line, columnAfter before, columnAfter before + 1⟩⟩
          (prepend ⟨.raw (String.ofList (trimEnd raw)), ⟨line, start, start + byteLength raw⟩⟩
            ⟨[], ⟨line, start + byteLength raw, start + byteLength raw⟩⟩)))
      (initializer start none (rest.dropWhile Line.isMargin)) := by
  have cut : rest.takeWhile Line.isMargin ++ rest.dropWhile Line.isMargin = rest :=
    takeWhile_append_dropWhile
  have blank : ∀ c ∈ rest.takeWhile Line.isMargin, Line.isMargin c = true :=
    all_eq_true.1 all_takeWhile
  have first : columnAfter before + 1 = columnAfter (before ++ ['=']) :=
    (columnAfter_append before ['=']).symm
  rw [first, ← byteLength_margin blank, ← columnAfter_append] at starts
  revert cut blank starts
  generalize rest.takeWhile Line.isMargin = blanks, rest.dropWhile Line.isMargin = text
  rintro rfl rfl blank
  refine (initializer_ends ?_ (by simp) ?_).imp (fun _ => id) ?_
  · rw [columnAfter_append]
    omega
  · rw [← columnAfter_append]
    simp
  · rintro raw ⟨rest, rfl, isOver, clean⟩
    rw [← columnAfter_append, first]
    have spells : TokenKind.Spells (bytes raw) (.raw (String.ofList (trimEnd raw))) :=
      ⟨raw, rfl, rfl, clean.trimEnd⟩
    have value := TokenLine.CoversRest.cons spells (by simp)
      (.ended line (before ++ ['='] ++ blanks ++ raw) isOver)
    exact .cons (spells_mark .equals) (fun _ => ⟨_, _, rfl⟩) (.skip blank value)

/-- The tokens of what is left of a line cover it, and what stops them is in the line. -/
theorem tokens_ends (line : Nat) {column : Nat} (before text : List Char)
    (here : column = columnAfter before) :
    Ends (fun fault => fault.OfReading ∧ fault.span.InLine line (before ++ text))
      (TokenLine.CoversRest line before text) (tokens line column text) := by
  -- `before` is what the lexer has passed: it grows as `text` gets shorter.
  fun_induction tokens line column text generalizing before with
  | case1 column =>
    subst here
    exact .ended line before (.inl rfl)
  | case2 column c rest blank ih =>
    have blank : ∀ d ∈ [c], Line.isMargin d = true := by simpa using blank
    have next : column + 1 = columnAfter (before ++ [c]) := by
      rw [columnAfter_append, byteLength_margin blank, here, length_singleton]
    refine (ih _ next).imp ?_ fun read covers => .skip blank covers
    rw [append_assoc]
    exact fun _ => id
  | case3 column c rest noBlank comment =>
    subst here
    exact .ended line before (.inr comment)
  | case4 column c rest noBlank noComment start name stop ih =>
    subst here
    have goesOn : ∀ d ∈ rest.takeWhile isIdentRest, isIdentRest d = true :=
      all_eq_true.1 all_takeWhile
    have cut : c :: rest = name ++ rest.dropWhile isIdentRest := by simp [name]
    have next : stop = columnAfter (before ++ name) := by
      rw [columnAfter_append, byteLength_word]
      exact forall_mem_cons.2 ⟨isIdentRest_of_isIdentStart start, goesOn⟩
    obtain ⟨spells, noMark⟩ := spells_word start goesOn
    have later := ih _ next
    rw [append_assoc, ← cut, next] at later
    rw [next]
    refine later.map fun read covers => ?_
    rw [cut]
    exact .cons spells (fun isEquals => absurd isEquals (noMark _)) covers
  | case5 column c rest noBlank noComment noStart noMark =>
    subst here
    have size := c.utf8Size_pos
    refine ⟨Fault.ofReading .unexpectedCharacter rfl rfl, rfl, ?_, Nat.le_succ _, ?_⟩
    · exact Nat.le_add_left ..
    · dsimp only
      rw [columnAfter_append, byteLength_cons]
      omega
  | case6 column c rest noBlank noComment noStart isMark start opened stop fails =>
    subst here
    obtain rfl : c = '=' := spelling_of_ofChar? isMark
    obtain ⟨low, forward, high⟩ := (equals_ends line before rest rfl).of_error fails
    refine ⟨Fault.ofReading .unterminatedString rfl rfl, rfl, ?_, forward, high⟩
    exact Nat.le_trans (Nat.le_add_left ..) low
  | case7 column c rest noBlank noComment noStart isMark start raw reads stop =>
    subst here
    obtain rfl : c = '=' := spelling_of_ofChar? isMark
    exact (equals_ends line before rest rfl).of_ok reads
  | case8 column c rest noBlank noComment noStart mark noEquals isMark ih =>
    subst here
    obtain rfl : c = mark.spelling := spelling_of_ofChar? isMark
    have next : columnAfter before + 1 = columnAfter (before ++ [mark.spelling]) := by
      rw [columnAfter_append]
      cases mark <;> rfl
    have later := ih _ next
    rw [append_assoc, next] at later
    rw [next]
    refine later.map fun read covers => .cons (spells_mark mark) (fun isEquals => ?_) covers
    cases isEquals
    exact (noEquals rfl).elim

end Lexer

/-! ### Lines -/

/-- What is kept of a line of text is all of it but a carriage return at its end. -/
theorem Line.of_ofText? {number : Nat} {written : List Char} {line : Line}
    (kept : ofText? number written = some line) :
    line.number = number ∧ line.text = dropReturn written ∧
      ∀ c ∈ line.margin, isMargin c = true := by
  unfold ofText? at kept
  dsimp only at kept
  split at kept
  · cases kept
  · cases kept
    exact ⟨rfl, takeWhile_append_dropWhile, all_eq_true.1 all_takeWhile⟩

/-- The lines of a source text that are kept have their numbers, from 1 on. -/
theorem Line.of_mem_ofSource {source : List Char} {line : Line} (member : line ∈ ofSource source) :
    1 ≤ line.number ∧ ∃ written, (lines source)[line.number - 1]? = some written ∧
      ofText? line.number written = some line := by
  obtain ⟨⟨written, number⟩, inside, kept⟩ := mem_filterMap.1 member
  obtain ⟨low, isLine⟩ := mk_mem_zipIdx_iff_le_and_getElem?_sub.1 inside
  obtain rfl := (of_ofText? kept).1
  exact ⟨low, written, isLine, kept⟩

namespace TokenLine

/-- The tokens of a line cover it, and what stops them is in the line. -/
theorem ofLine_ends {line : Line} (margin : ∀ c ∈ line.margin, Line.isMargin c = true) :
    Ends (fun fault => fault.OfReading ∧ fault.span.InLine line.number line.text)
      (Covers line.number 1 line.text) (ofLine line) := by
  have start : line.margin.length + 1 = columnAfter line.margin := by
    rw [columnAfter, Lexer.byteLength_margin margin]
  refine (Lexer.tokens_ends line.number line.margin line.content start).imp (fun _ => id) ?_
  intro read covers
  have whole : CoversRest line.number [] (line.margin ++ line.content) read := .skip margin covers
  exact whole

/-- Nothing of a line is lost in its tokens. -/
theorem covers_ofLine {source : List Char} {line : Line} {read : TokenLine}
    (kept : line ∈ Line.ofSource source) (reads : ofLine line = .ok read) :
    read.Covers line.number 1 line.text := by
  obtain ⟨_, written, _, isLine⟩ := Line.of_mem_ofSource kept
  exact (ofLine_ends (Line.of_ofText? isLine).2.2).of_ok reads

end TokenLine

namespace Sample

/-- A line with a tab before it, a quoted slash pair and a comment. -/
def quoted : Line := ⟨2, ['\t'], "string s = '//' + \"\\\"//\"  // é".toList⟩

def quotedTokens : TokenLine where
  tokens :=
    [⟨.ident "string", ⟨2, 2, 8⟩⟩, ⟨.ident "s", ⟨2, 9, 10⟩⟩, ⟨.mark .equals, ⟨2, 11, 12⟩⟩,
     ⟨.raw "'//' + \"\\\"//\"", ⟨2, 13, 28⟩⟩]
  finish := ⟨2, 28, 28⟩

end Sample

theorem TokenLine.covers_ofLine_quoted :
    Sample.quoted ∈ Line.ofSource "\n\tstring s = '//' + \"\\\"//\"  // é".toList ∧
      ofLine Sample.quoted = .ok Sample.quotedTokens ∧
      Sample.quotedTokens.Covers 2 1 Sample.quoted.text := by
  have kept : Sample.quoted ∈ Line.ofSource "\n\tstring s = '//' + \"\\\"//\"  // é".toList := by
    decide +kernel
  have reads : ofLine Sample.quoted = .ok Sample.quotedTokens := by decide +kernel
  exact ⟨kept, reads, covers_ofLine kept reads⟩

end Linkage
