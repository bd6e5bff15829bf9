/-
Purpose: Which lines of a source text its outline accounts for, and that the bodies of functions are
  the indented blocks under their headers.
-/
import Linkage.Proofs.Source.Accounts
import Mathlib

namespace Linkage

open List

namespace Outline

variable {source : String} {outline : Outline}

/-- In a source text that can be read each line is accounted for exactly once: it is the line of
an import or of a declaration, or one body covers it.  Only the lines that stand under an import
are not accounted for at all. -/
theorem mentions_of_ofSource (read : ofSource source = .ok outline) {line : Line}
    (kept : line ∈ Line.ofSource source.toList) :
    (outline.Hides (Line.ofSource source.toList) line → outline.mentions line.number = 0) ∧
      (¬ outline.Hides (Line.ofSource source.toList) line → outline.mentions line.number = 1) := by
  obtain ⟨seen, hidden, accounted⟩ := accounted_of_ofSource read
  obtain ⟨once, _, apart⟩ := accounted.distinct (Line.increasing_ofSource source.toList)
  have counted : outline.mentions line.number = (seen.map Line.number).count line.number :=
    accounted.accounts.counts line kept
  rw [counted, ← accounted.hides]
  constructor
  · intro isHidden
    exact count_eq_zero.2 fun isSeen => apart isSeen (mem_map_of_mem isHidden)
  · intro notHidden
    have isSeen : line ∈ seen :=
      (mem_append.1 (accounted.parts.mem_iff.1 kept)).resolve_right notHidden
    exact count_eq_one_of_mem once (mem_map_of_mem isSeen)

end Outline

namespace Sample

/-- A text with a declaration under its import and with two bodies. -/
def hall : String :=
  "import Base\n    integer lost\nspace Grid\n    class Tile\n        integer side\n" ++
  "        Tile()\n            side = 1\n    integer Area()\n        integer side = 0\n\n" ++
  "        return side\n"

/-- The constructor of the class in the text. -/
def hallTile : FunctionDecl :=
  ⟨none, "Tile", ⟨6, 9, 13⟩, [], [], some ⟨7, 7, "            side = 1"⟩⟩

/-- The function in the text. -/
def hallArea : FunctionDecl :=
  ⟨none, "Area", ⟨8, 13, 17⟩, [], [⟨["integer"], 0, ⟨8, 5, 12⟩⟩],
    some ⟨9, 11, "        integer side = 0\n        return side"⟩⟩

/-- What is read from the text. -/
def hallOutline : Outline :=
  ⟨[⟨["Base"], ⟨1, 1, 7⟩⟩], [.space "Grid" ⟨3, 7, 11⟩ [.classDecl ⟨none, "Tile", ⟨4, 11, 15⟩, [],
        [⟨none, false, "side", ⟨5, 17, 21⟩, ⟨["integer"], 0, ⟨5, 9, 16⟩⟩, none⟩], [], [hallTile]⟩,
      .functionDecl hallArea]]⟩

set_option maxRecDepth 10000 in
theorem hall_reads : Outline.ofSource hall = .ok hallOutline := by cbv

/-- The line with the number, the margin and the content. -/
def written (number : Nat) (margin : Nat) (content : String) : Line :=
  ⟨number, List.replicate margin ' ', content.toList⟩

set_option maxRecDepth 10000 in
theorem hall_lines : Line.ofSource hall.toList =
    [written 1 0 "import Base", written 2 4 "integer lost", written 3 0 "space Grid",
      written 4 4 "class Tile", written 5 8 "integer side", written 6 8 "Tile()",
      written 7 12 "side = 1", written 8 4 "integer Area()", written 9 8 "integer side = 0",
      written 11 8 "return side"] := by cbv

theorem hall_heads : Line.Heads (Line.ofSource hall.toList) (written 1 0 "import Base")
    [written 2 4 "integer lost"] := by
  rw [hall_lines]
  exact ⟨[], _, rfl, by decide⟩

/-- The import of the text hides the line under it and no other. -/
theorem hall_hides (line : Line) :
    hallOutline.Hides (Line.ofSource hall.toList) line ↔ line = written 2 4 "integer lost" := by
  have hides : ImportDecl.Hides _ ⟨["Base"], ⟨1, 1, 7⟩⟩ line ↔ _ :=
    ImportDecl.hides_iff (Line.increasing_ofSource hall.toList) hall_heads rfl line
  simpa [Outline.Hides, hallOutline] using hides

end Sample

open Sample in
theorem Outline.mentions_hall : hallOutline.mentions 2 = 0 ∧ hallOutline.mentions 11 = 1 := by
  have lost : written 2 4 "integer lost" ∈ Line.ofSource hall.toList := by
    rw [hall_lines]
    simp
  have kept : written 11 8 "return side" ∈ Line.ofSource hall.toList := by
    rw [hall_lines]
    simp
  constructor
  · exact (mentions_of_ofSource hall_reads lost).1 ((hall_hides _).2 rfl)
  · refine (mentions_of_ofSource hall_reads kept).2 fun hidden => ?_
    exact absurd ((hall_hides _).1 hidden) (by decide)

set_option maxRecDepth 10000 in
/-- A text can be read although one of its lines, which stands under an import, declares something
that its outline does not have. -/
theorem Outline.mentions_under_import :
    ofSource "import Base\n    integer x\n" = .ok ⟨[⟨["Base"], ⟨1, 1, 7⟩⟩], []⟩ ∧
      Line.ofSource "import Base\n    integer x\n".toList =
        [Sample.written 1 0 "import Base", Sample.written 2 4 "integer x"] ∧
      mentions ⟨[⟨["Base"], ⟨1, 1, 7⟩⟩], []⟩ 2 = 0 := by
  refine ⟨?_, ?_, ?_⟩
  all_goals cbv

/-- A body is made of a run of lines under a header, in a text with so many lines. -/
structure Body.MadeOf (total : Nat) (header : Line) (run : List Line) (body : Body) : Prop where
  first : run.head?.map Line.number = some body.firstLine
  last : run.getLast?.map Line.number = some body.lastLine
  text : body.text = String.intercalate "\n" (run.map fun line => String.ofList line.text)
  below : header.number < body.firstLine
  ordered : body.firstLine ≤ body.lastLine
  within : body.lastLine ≤ total

/-- There is a body if the line after the header is deeper than the header, and then it is made of
all lines after the header up to the first that is not deeper. -/
structure FunctionDecl.BodyBelow (total : Nat) (header : Line) (after : List Line)
    (f : FunctionDecl) : Prop where
  isSome : f.body.isSome = true ↔ ∃ next ∈ after.head?, header.indent < next.indent
  madeOf : ∀ {body}, f.body = some body →
    body.MadeOf total header (after.takeWhile (Line.isDeeper header.indent))

/-- No line is covered by two bodies. -/
def Body.Apart (a b : Body) : Prop := a.lastLine < b.firstLine ∨ b.lastLine < a.firstLine

namespace Body

variable {before run after : List Line} {header : Line} {total : Nat} {body : Body}

/-- A run is not empty exactly if it starts right away. -/
theorem ofLines?_takeWhile_isSome (indent : Nat) :
    (ofLines? (after.takeWhile (Line.isDeeper indent))).isSome = true ↔
      ∃ next ∈ after.head?, indent < next.indent := by
  rw [← Option.ne_none_iff_isSome, ne_eq, ofLines?_eq_none]
  cases after with
  | nil => simp
  | cons next rest => simp [takeWhile_cons, Line.isDeeper]

/-- The run of lines right after a header gives a body that is made of it. -/
theorem madeOf_ofLines? (increasing : Line.Increasing (before ++ header :: (run ++ after)))
    (bounded : ∀ line ∈ run, line.number ≤ total) (made : ofLines? run = some body) :
    body.MadeOf total header run := by
  obtain ⟨first, last, isFirst, isLast, low, high, text⟩ := exists_of_ofLines? made
  have below := pairwise_cons.1 (pairwise_append.1 increasing).2.1
  have inside := (pairwise_append.1 below.2).1
  obtain ⟨ordered, within⟩ := bounds_of_ofLines? ⟨inside.imp le_of_lt, bounded⟩ made
  refine ⟨by simp [isFirst, low], by simp [isLast, high], text, ?_, ordered, within⟩
  exact low ▸ below.1 first (mem_append_left _ (mem_of_head? isFirst))

/-- Bodies that start on lines of a text are apart if no line of the text is covered twice. -/
theorem apart_of_countP_le (text : List Line) {bodies : List Body}
    (starts : ∀ body ∈ bodies, body.firstLine ≤ body.lastLine ∧
      ∃ line ∈ text, line.number = body.firstLine)
    (once : ∀ line ∈ text, bodies.countP (·.covers line.number) ≤ 1) :
    bodies.Pairwise Apart := by
  refine pairwise_iff_forall_sublist.2 fun {a b} pair => ?_
  have notBoth (line : Line) (inText : line ∈ text) :
      ¬ (a.covers line.number = true ∧ b.covers line.number = true) := by
    intro both
    have twice := (pair.countP_le).trans (once line inText)
    simp [both.1, both.2] at twice
  obtain ⟨upA, startA, inA, isA⟩ := starts a (pair.subset (by simp))
  obtain ⟨upB, startB, inB, isB⟩ := starts b (pair.subset (by simp))
  -- Of two bodies that meet, one covers the line on which the other starts.
  have missA := notBoth startA inA
  have missB := notBoth startB inB
  simp only [covers, Bool.and_eq_true, decide_eq_true_eq] at missA missB
  unfold Apart
  omega

end Body

namespace Outline

variable {source : String} {outline : Outline}

/-- A function that is placed in a source text has the body that stands under its header. -/
theorem bodyBelow_of_placed {f : FunctionDecl} (placed : f.Placed (Line.ofSource source.toList)) :
    ∃ before header after, Line.ofSource source.toList = before ++ header :: after ∧
      f.span.line = header.number ∧
      f.BodyBelow (Text.lines source.toList).length header after := by
  obtain ⟨header, under, ⟨before, after, split, rfl⟩, here, isBody⟩ := placed
  have increasing := Line.increasing_ofSource source.toList
  have ordered := Line.ordered_ofSource source.toList
  refine ⟨before, header, after, split, here, ?_, fun {body} made => ?_⟩
  · rw [isBody]
    exact Body.ofLines?_takeWhile_isSome header.indent
  · have cut : after.takeWhile (Line.isDeeper header.indent) ++
        after.dropWhile (Line.isDeeper header.indent) = after := takeWhile_append_dropWhile
    rw [split, ← cut] at increasing
    refine Body.madeOf_ofLines? increasing (fun line member => ordered.bounded line ?_)
      (isBody.symm.trans made)
    rw [split]
    exact mem_append_right _
      (mem_cons_of_mem _ ((takeWhile_sublist _).subset member))

/-- The body of each function is exactly the indented block under its header, and no two bodies
of a source text share a line. -/
theorem bodies_of_ofSource (read : ofSource source = .ok outline) :
    (∀ f ∈ outline.callables, ∃ before header after,
        Line.ofSource source.toList = before ++ header :: after ∧
        f.span.line = header.number ∧
        f.BodyBelow (Text.lines source.toList).length header after) ∧
      outline.bodies.Pairwise Body.Apart := by
  obtain ⟨seen, hidden, accounted⟩ := accounted_of_ofSource read
  have placed := accounted.accounts.placed
  refine ⟨fun f member => bodyBelow_of_placed (placed f member), ?_⟩
  refine Body.apart_of_countP_le (Line.ofSource source.toList) ?_ fun line inText => ?_
  · intro body member
    obtain ⟨f, inOutline, isBody⟩ := mem_filterMap.1 member
    obtain ⟨before, header, after, split, _, below⟩ := bodyBelow_of_placed (placed f inOutline)
    have madeOf := below.madeOf isBody
    obtain ⟨first, isFirst, number⟩ := Option.map_eq_some_iff.1 madeOf.first
    refine ⟨madeOf.ordered, first, ?_, number⟩
    rw [split]
    have inRun := (takeWhile_sublist _).subset (mem_of_head? isFirst)
    exact mem_append_right _ (mem_cons_of_mem _ inRun)
  · have counts := accounted.accounts.counts line inText
    have once := nodup_iff_count_le_one.1
      (accounted.distinct (Line.increasing_ofSource source.toList)).1 line.number
    exact (Nat.le_add_left ..).trans (counts.trans_le once)

open Sample in
theorem bodies_hall :
    ofSource hall = .ok hallOutline ∧ hallOutline.callables = [hallTile, hallArea] ∧
      (∀ f ∈ hallOutline.callables, ∃ before header after,
        Line.ofSource hall.toList = before ++ header :: after ∧
        f.span.line = header.number ∧
        f.BodyBelow (Text.lines hall.toList).length header after) ∧
      hallOutline.bodies.Pairwise Body.Apart :=
  ⟨hall_reads, rfl, bodies_of_ofSource hall_reads⟩

end Outline

end Linkage
