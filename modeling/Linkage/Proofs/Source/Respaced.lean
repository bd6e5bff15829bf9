/-
Purpose: Blank lines, comment lines and line endings carry no meaning.
-/
import Linkage.Proofs.Source.Relined
import Mathlib

namespace Linkage

open List

variable {text rest before line text' : List Char} {c : Char}

namespace Text

variable {line : List Char}

/-! ### Edits -/

/-- A text after which a new line starts. -/
def LineStart (before : List Char) : Prop := before = [] ∨ before.getLast? = some '\n'

/-- A line that is blank, or holds only a comment. -/
structure Idle (line : List Char) : Prop where
  oneLine : '\n' ∉ line
  idle : (∀ c ∈ line, isBlank c) ∨
    ∃ margin comment, (∀ c ∈ margin, Line.isMargin c) ∧ line = margin ++ '/' :: '/' :: comment

/-- The text with a newline alone for each newline that a carriage return stands before. -/
def plain : List Char → List Char
  | [] => []
  | '\r' :: '\n' :: rest => '\n' :: plain rest
  | c :: rest => c :: plain rest

/-- The changes of a text that carry no meaning. -/
inductive Edit : List Char → List Char → Prop where
  /-- Insert a whole line between two lines. -/
  | insert {before line : List Char} (after : List Char) (starts : LineStart before)
      (idle : Idle line) : Edit (before ++ after) (before ++ line ++ '\n' :: after)
  /-- Add a last line that no newline ends. -/
  | append {before line : List Char} (starts : LineStart before) (idle : Idle line) :
      Edit before (before ++ line)
  /-- End the last line.  A newline alone would take a carriage return with it. -/
  | finish {before last ending : List Char} (starts : LineStart before) (oneLine : '\n' ∉ last)
      (ends : ending = ['\r', '\n'] ∨ ending = ['\n'] ∧ last.getLast? ≠ some '\r') :
      Edit (before ++ last) (before ++ last ++ ending)
  /-- Switch some newlines, in a text with no other carriage return. -/
  | switch {text text' : List Char} (same : plain text = plain text')
      (noReturn : '\r' ∉ plain text) : Edit text text'

/-! ### The lines of edited texts -/

theorem lines_eq_nil_iff : lines text = [] ↔ text = [] := by
  refine ⟨fun none => ?_, fun isNil => by rw [isNil, lines]⟩
  fun_cases lines text with
  | case1 => rfl
  | _ => simp_all [lines]

theorem LineStart.tail (starts : LineStart (c :: rest)) : LineStart rest := by
  cases rest with
  | nil => exact .inl rfl
  | cons d rest => exact .inr (starts.resolve_left (cons_ne_nil _ _))

theorem lineStart_concat (line : List Char) : LineStart (line ++ ['\n']) :=
  .inr getLast?_concat

theorem LineStart.append (starts : LineStart line) (more : line ≠ []) :
    LineStart (before ++ line) := by
  refine .inr ?_
  rw [getLast?_append, starts.resolve_left more]
  rfl

/-- The lines of a text and of a text after it, which starts on a new line. -/
theorem lines_append (starts : LineStart before) (after : List Char) :
    lines (before ++ after) = lines before ++ lines after := by
  fun_induction lines before with
  | case1 => rfl
  | case2 rest ih => rw [cons_append, lines, ih starts.tail, cons_append]
  | case3 rest ih =>
    rw [cons_append, cons_append, lines, ih starts.tail.tail, cons_append]
  | case4 c rest noBreak _ none ih =>
    cases lines_eq_nil_iff.mp none
    cases starts with
    | inl isNil => cases isNil
    | inr isBreak => exact (noBreak (Option.some.inj isBreak)).elim
  | case5 c rest noBreak noReturn line others some ih =>
    cases rest with
    | nil => cases some
    | cons d rest =>
      rw [cons_append, lines.eq_4 _ _ noBreak, ih starts.tail, some]
      · rfl
      · intro rest' isReturn same
        cases same
        exact noReturn rest isReturn rfl

theorem lines_of_oneLine (oneLine : '\n' ∉ line) (more : line ≠ []) : lines line = [line] := by
  induction line with
  | nil => exact absurd rfl more
  | cons c rest ih =>
    have noBreak : '\n' ∉ rest := not_mem_of_not_mem_cons oneLine
    rw [lines.eq_4 _ _ (fun isBreak => oneLine (isBreak ▸ mem_cons_self ..))
      fun rest' _ (same : rest = '\n' :: rest') => noBreak (same ▸ mem_cons_self ..)]
    cases rest with
    | nil => rfl
    | cons d rest => rw [ih noBreak (cons_ne_nil _ _)]

theorem dropReturn_append (before : List Char) (more : rest ≠ []) :
    dropReturn (before ++ rest) = before ++ dropReturn rest := by
  unfold dropReturn
  rw [getLast?_append_of_ne_nil before more, dropLast_append_of_ne_nil more]
  split <;> rfl

theorem dropReturn_cons (c : Char) (more : rest ≠ []) :
    dropReturn (c :: rest) = c :: dropReturn rest :=
  dropReturn_append [c] more

theorem dropReturn_of_getLast? (noReturn : line.getLast? ≠ some '\r') : dropReturn line = line := by
  unfold dropReturn
  split
  · rename_i isReturn
    exact absurd isReturn noReturn
  · rfl

theorem dropReturn_concat (line : List Char) : dropReturn (line ++ ['\r']) = line := by
  rw [dropReturn, getLast?_concat]
  exact dropLast_concat

/-- A newline ends a line, together with a carriage return before it. -/
theorem lines_concat (oneLine : '\n' ∉ line) : lines (line ++ ['\n']) = [dropReturn line] := by
  induction line with
  | nil => rfl
  | cons c rest ih =>
    have noBreak : '\n' ∉ rest := not_mem_of_not_mem_cons oneLine
    have isText : c = '\n' → False := fun isBreak => oneLine (isBreak ▸ mem_cons_self ..)
    cases rest with
    | nil =>
      by_cases isReturn : c = '\r'
      · rw [isReturn]
        rfl
      · rw [cons_append, lines.eq_4 _ _ isText]
        · have kept : dropReturn [c] = [c] :=
            dropReturn_of_getLast? fun same => isReturn (Option.some.inj same)
          rw [kept]
          rfl
        · exact fun _ same _ => isReturn same
    | cons d rest =>
      rw [cons_append, lines.eq_4 _ _ isText, ih noBreak,
        dropReturn_cons c (cons_ne_nil _ _)]
      intro rest' _ same
      cases same
      exact noBreak (mem_cons_self ..)

theorem lines_plain (noReturn : '\r' ∉ plain text) : lines (plain text) = lines text := by
  fun_induction plain text with
  | case1 => rfl
  | case2 rest ih => rw [lines, ih (not_mem_of_not_mem_cons noReturn), lines]
  | case3 c rest noBreak ih =>
    have isText : c ≠ '\r' := fun isReturn => noReturn (isReturn ▸ mem_cons_self ..)
    have ih := ih (not_mem_of_not_mem_cons noReturn)
    by_cases isBreak : c = '\n'
    · rw [isBreak, lines, ih, lines]
    · rw [lines.eq_4 _ _ isBreak fun _ isReturn => absurd isReturn isText, ih,
        lines.eq_4 _ _ isBreak fun _ isReturn => absurd isReturn isText]

/-! ### Idle lines -/

/-- An idle line without the carriage return at its end is idle. -/
theorem Idle.dropReturn (idle : Idle line) : Idle (dropReturn line) := by
  have fewer : (Text.dropReturn line).Sublist line := by
    unfold Text.dropReturn
    split
    · exact dropLast_sublist line
    · exact List.Sublist.refl line
  refine ⟨fun member => idle.oneLine (fewer.subset member), ?_⟩
  cases idle.idle with
  | inl blank => exact .inl fun c member => blank c (fewer.subset member)
  | inr comments =>
    obtain ⟨margin, comment, isMargin, rfl⟩ := comments
    refine .inr ⟨margin, dropReturn comment, isMargin, ?_⟩
    rw [dropReturn_append _ (cons_ne_nil _ _), dropReturn_cons _ (cons_ne_nil _ _)]
    cases comment with
    | nil => rfl
    | cons d comment => rw [dropReturn_cons _ (cons_ne_nil d comment)]

theorem Idle.ofText? (idle : Idle line) (number : Nat) : Line.ofText? number line = none := by
  have nothing : ((Text.dropReturn line).dropWhile Line.isMargin).all isBlank ||
      Line.startsComment ((Text.dropReturn line).dropWhile Line.isMargin) := by
    rw [Bool.or_eq_true]
    cases idle.dropReturn.idle with
    | inl blank =>
      refine .inl (all_eq_true.mpr fun c member => ?_)
      exact blank c ((dropWhile_sublist _).subset member)
    | inr comments =>
      obtain ⟨margin, comment, isMargin, same⟩ := comments
      rw [same, dropWhile_append_of_pos isMargin]
      exact .inr rfl
  exact if_pos nothing

/-! ### What an edit keeps -/

/-- The lines of a text that carry meaning, all under one number. -/
def meaning (text : List Char) : List Line := (lines text).filterMap (Line.ofText? 0)

theorem meaning_append (starts : LineStart before) (after : List Char) :
    meaning (before ++ after) = meaning before ++ meaning after := by
  rw [meaning, lines_append starts, filterMap_append]
  rfl

theorem Idle.meaning (idle : Idle line) : meaning line = [] ∧ meaning (line ++ ['\n']) = [] := by
  constructor
  · rcases eq_or_ne line [] with rfl | more
    · rfl
    · rw [Text.meaning, lines_of_oneLine idle.oneLine more]
      exact filterMap_cons_none (idle.ofText? 0)
  · rw [Text.meaning, lines_concat idle.oneLine]
    exact filterMap_cons_none (idle.dropReturn.ofText? 0)

/-- A line means the same whether it is ended or not. -/
theorem meaning_ended {ending : List Char} (oneLine : '\n' ∉ line)
    (ends : ending = ['\r', '\n'] ∨ ending = ['\n'] ∧ line.getLast? ≠ some '\r') :
    meaning (line ++ ending) = meaning line := by
  have ended : lines (line ++ ending) = [line] := by
    rcases ends with rfl | ⟨rfl, noReturn⟩
    · have oneLine' : '\n' ∉ line ++ ['\r'] := by simp [oneLine]
      rw [← append_cons line '\r' ['\n'] |>.symm, lines_concat oneLine', dropReturn_concat]
    · rw [lines_concat oneLine, dropReturn_of_getLast? noReturn]
  rcases eq_or_ne line [] with rfl | more
  · rw [meaning, ended]
    rfl
  · rw [meaning, ended, meaning, lines_of_oneLine oneLine more]

/-- An edit keeps the lines that carry meaning. -/
theorem Edit.meaning_eq (edit : Edit text text') : meaning text = meaning text' := by
  cases edit with
  | @insert before line after starts idle =>
    have ended : LineStart (before ++ (line ++ ['\n'])) := (lineStart_concat line).append (by simp)
    have cut : before ++ line ++ '\n' :: after = before ++ (line ++ ['\n']) ++ after := by simp
    rw [cut, meaning_append ended, meaning_append starts, meaning_append starts, idle.meaning.2,
      append_nil]
  | append starts idle => rw [meaning_append starts, idle.meaning.1, append_nil]
  | finish starts oneLine ends =>
    rw [append_assoc, meaning_append starts, meaning_append starts, meaning_ended oneLine ends]
  | switch same noReturn =>
    have noReturn' := noReturn
    rw [same] at noReturn'
    rw [meaning, ← lines_plain noReturn, same, lines_plain noReturn', meaning]

theorem meaning_eq_of_edits (edits : Relation.EqvGen Edit text text') :
    meaning text = meaning text' := by
  induction edits with
  | rel _ _ edit => exact edit.meaning_eq
  | refl _ => rfl
  | symm _ _ _ ih => exact ih.symm
  | trans _ _ _ _ _ first second => exact first.trans second

end Text

/-! ### Outlines of edited texts -/

/-- The lines of a text under one number are those that carry meaning. -/
theorem Line.relined_ofSource (source : List Char) :
    (ofSource source).map (relined fun _ => 0) = Text.meaning source := by
  have renumbered (written : List Char) (number : Nat) :
      (ofText? number written).map (relined fun _ => 0) = ofText? 0 written := by
    unfold ofText?
    dsimp only
    split <;> rfl
  rw [ofSource, map_filterMap, Text.meaning]
  simp only [renumbered]
  conv_rhs => rw [← zipIdx_map_fst 1 (Text.lines source), filterMap_map]
  rfl

theorem Reader.topEntries_meaning (source : List Char) :
    Noted.Relines (fun _ => 0) (Outline.relined fun _ => 0)
      (topEntries false (Block.forest (Line.ofSource source)))
      (topEntries false (Block.forest (Text.meaning source))) := by
  rw [← Line.relined_ofSource, Block.relinedAll_forest]
  exact topEntries_relined false _

namespace Outline

/-- How reading ends: with the outline, or with everything that was noted. -/
def conclude (read : Noted Fault Outline) : Except (List Fault) Outline :=
  if read.notes.isEmpty then .ok read.value else .error read.notes

/-- How reading ends, whatever the line numbers. -/
def unlined (ended : Except (List Fault) Outline) : Except (List Fault) Outline :=
  (ended.map (relined fun _ => 0)).mapError (.map (Fault.relined fun _ => 0))

theorem unlined_conclude {read read' : Noted Fault Outline}
    (relines : Noted.Relines (fun _ => 0) (relined fun _ => 0) read read') :
    unlined (conclude read) = conclude read' := by
  subst relines
  unfold conclude
  rw [isEmpty_map]
  split <;> rfl

/-- How reading a text ends depends on its meaning alone. -/
theorem unlined_ofSource (source : String) : unlined (ofSource source) =
      conclude (Reader.topEntries false (Block.forest (Text.meaning source.toList))) :=
  unlined_conclude (Reader.topEntries_meaning source.toList)

theorem exists_ok_iff_unlined (ended : Except (List Fault) Outline) :
    (∃ outline, ended = .ok outline) ↔ ∃ outline, unlined ended = .ok outline := by
  cases ended with
  | ok outline => exact ⟨fun _ => ⟨_, rfl⟩, fun _ => ⟨_, rfl⟩⟩
  | error faults => constructor <;> rintro ⟨_, ⟨⟩⟩

variable {source source' : String}

/-- Blank lines, comment lines and line endings carry no meaning: texts that differ in nothing else
are both read or both refused, with the same outline or the same faults up to line numbers. -/
theorem ofSource_of_edits (edits : Relation.EqvGen Text.Edit source.toList source'.toList) :
    ((∃ outline, ofSource source = .ok outline) ↔ ∃ outline, ofSource source' = .ok outline) ∧
      (∀ outline outline', ofSource source = .ok outline → ofSource source' = .ok outline' →
        outline.relined (fun _ => 0) = outline'.relined fun _ => 0) ∧
      ∀ faults faults', ofSource source = .error faults → ofSource source' = .error faults' →
        faults.map (Fault.relined fun _ => 0) = faults'.map (Fault.relined fun _ => 0) := by
  have alike : unlined (ofSource source) = unlined (ofSource source') := by
    rw [unlined_ofSource, unlined_ofSource, Text.meaning_eq_of_edits edits]
  refine ⟨?_, fun outline outline' first second => ?_, fun faults faults' first second => ?_⟩
  · rw [exists_ok_iff_unlined, alike, ← exists_ok_iff_unlined]
  · rw [first, second] at alike
    exact Except.ok.inj alike
  · rw [first, second] at alike
    exact Except.error.inj alike

end Outline

namespace Sample

/-- A text with a body. -/
def yard : String := "integer Area()\n  return 1\n"

/-- The text with other line endings, a comment in the body and a blank line at the end. -/
def yardRespaced : String := "integer Area()\r\n\t// one\r\n  return 1\r\n "

/-- What is read from the text. -/
def yardOutline : Outline :=
  ⟨[], [.functionDecl ⟨none, "Area", ⟨1, 9, 13⟩, [], [⟨["integer"], 0, ⟨1, 1, 8⟩⟩],
    some ⟨2, 2, "  return 1"⟩⟩]⟩

theorem yard_reads : Outline.ofSource yard = .ok yardOutline := by cbv

theorem yard_edits : Relation.EqvGen Text.Edit yard.toList yardRespaced.toList := by
  have switched : Text.Edit yard.toList "integer Area()\r\n  return 1\r\n".toList :=
    .switch (by decide) (by decide)
  have commented : Text.Edit "integer Area()\r\n  return 1\r\n".toList
      "integer Area()\r\n\t// one\r\n  return 1\r\n".toList :=
    @Text.Edit.insert "integer Area()\r\n".toList "\t// one\r".toList "  return 1\r\n".toList
      (.inr (by decide))
      ⟨by decide, .inr ⟨['\t'], " one\r".toList, forall_mem_singleton.2 rfl, by decide⟩⟩
  have ended : Text.Edit "integer Area()\r\n\t// one\r\n  return 1\r\n".toList
      yardRespaced.toList :=
    @Text.Edit.append _ [' '] (.inr (by decide)) ⟨by decide, .inl (forall_mem_singleton.2 rfl)⟩
  exact .trans _ _ _ (.rel _ _ switched) (.trans _ _ _ (.rel _ _ commented) (.rel _ _ ended))

end Sample

open Sample in
theorem Outline.ofSource_yard : Relation.EqvGen Text.Edit yard.toList yardRespaced.toList ∧
      Outline.ofSource yard = .ok yardOutline ∧
      ∃ outline, ofSource yardRespaced = .ok outline ∧
        outline.relined (fun _ => 0) = yardOutline.relined fun _ => 0 := by
  obtain ⟨readable, alike, -⟩ := ofSource_of_edits yard_edits
  obtain ⟨outline, reads⟩ := readable.mp ⟨yardOutline, yard_reads⟩
  exact ⟨yard_edits, yard_reads, outline, reads, (alike _ _ yard_reads reads).symm⟩

end Linkage
