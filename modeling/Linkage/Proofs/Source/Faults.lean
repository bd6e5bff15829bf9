/-
Purpose: The faults of a source text point to its lines, but for tabs in front of a line that is
  indented as it may not be.
-/
import Linkage.Proofs.Source.Accounts

namespace Linkage

namespace Line

/-- A tab takes one byte and indents by three columns more. -/
theorem indent_eq (line : Line) :
    line.indent = line.margin.length + 3 * line.margin.count '\t' := by
  unfold indent
  induction line.margin with
  | nil => rfl
  | cons c rest ih =>
    rw [List.foldr_cons, marginWidth]
    by_cases isTab : c = '\t' <;> simp [isTab] <;> omega

/-- The fault of a line that is indented as it may not be ends in the line, if not more columns
are added by tabs than bytes are by characters of several bytes. -/
theorem stop_stray_le {line : Line} (margin : ∀ c ∈ line.margin, isMargin c = true) :
    (Block.stray line).span.stop ≤ Text.columnAfter line.text ↔
      3 * line.margin.count '\t' + line.content.length ≤ Lexer.byteLength line.content := by
  have bytes : Text.columnAfter line.text =
      line.margin.length + 1 + Lexer.byteLength line.content := by
    rw [text, Text.columnAfter_append, Text.columnAfter, Lexer.byteLength_margin margin]
  rw [Block.stray, indent_eq]
  dsimp only
  omega

end Line

/-- A fault is at a line of a source text, and in that line, unless it is about the indentation
and tabs move it out of the line. -/
structure Fault.PointsTo (source : List Char) (line : Line) (fault : Fault) : Prop where
  number : 1 ≤ line.number ∧ line.number ≤ (Text.lines source).length
  text : (Text.lines source)[line.number - 1]?.map Text.dropReturn = some line.text
  onLine : fault.span.line = line.number
  low : 1 ≤ fault.span.start
  forward : fault.span.start ≤ fault.span.stop
  high : fault.span.stop ≤ Lexer.byteLength line.text + 1 ↔
    ¬ (fault = Block.stray line ∧
      Lexer.byteLength line.content < 3 * line.margin.count '\t' + line.content.length)

namespace Outline

/-- A source text that cannot be read has faults, and they point to its lines. -/
theorem faults_point {source : String} {faults : List Fault}
    (fails : ofSource source = .error faults) : faults ≠ [] ∧ ∀ fault ∈ faults,
      ∃ line ∈ Line.ofSource source.toList, fault.PointsTo source.toList line := by
  obtain ⟨nonempty, located⟩ := (ofSource_ends source).of_error fails
  refine ⟨nonempty, fun fault member => ?_⟩
  obtain ⟨_, line, inText, place⟩ := located fault member
  obtain ⟨low, written, isLine, kept⟩ := Line.of_mem_ofSource inText
  obtain ⟨_, same, margin⟩ := Line.of_ofText? kept
  have last := (List.getElem?_eq_some_iff.1 isLine).1
  have strayed := Line.stop_stray_le margin
  refine ⟨line, inText, ⟨low, by omega⟩, by rw [isLine, same]; rfl, ?_, ?_, ?_, ?_⟩ <;>
    rcases place with holds | rfl
  · exact holds.line
  · rfl
  · exact holds.low
  · exact Nat.le_add_left ..
  · exact holds.forward
  · exact Nat.le_add_right ..
  -- A fault within the line may still equal the stray one, if tabs do not move that.
  · refine iff_of_true holds.high ?_
    rintro ⟨rfl, short⟩
    exact Nat.not_lt.2 (strayed.1 holds.high) short
  · rw [← Nat.not_le, ← strayed]
    simp [Text.columnAfter]

namespace Sample

/-- A line with a tab in front of it where none may be. -/
def tabbed : String := "\tinteger x\n"

def tabbedFault : Fault := ⟨⟨1, 5, 14⟩, .unexpectedIndentation⟩

theorem tabbed_fails : ofSource tabbed = .error [tabbedFault] := by
  have notes : (Reader.topEntries false (Block.forest (Line.ofSource tabbed.toList))).notes =
      [tabbedFault] := by decide +kernel
  unfold ofSource
  dsimp only
  rw [notes]
  rfl

end Sample

theorem faults_point_tabbed : ofSource Sample.tabbed = .error [Sample.tabbedFault] ∧
    ∃ line ∈ Line.ofSource Sample.tabbed.toList,
      Sample.tabbedFault.PointsTo Sample.tabbed.toList line :=
  ⟨Sample.tabbed_fails, (faults_point Sample.tabbed_fails).2 _ (List.mem_singleton_self _)⟩

/-- The fault of a line with a tab in front of it ends after the line does. -/
theorem fault_of_tab_leaves_line : ofSource Sample.tabbed = .error [Sample.tabbedFault] ∧
    Text.lines Sample.tabbed.toList = ["\tinteger x".toList] ∧
    Lexer.byteLength "\tinteger x".toList + 1 < Sample.tabbedFault.span.stop :=
  ⟨Sample.tabbed_fails, by decide +kernel, by decide⟩

end Outline

end Linkage
