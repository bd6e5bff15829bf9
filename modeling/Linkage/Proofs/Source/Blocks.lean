/-
Purpose: Where the blocks that indentation forms stand among the lines of a text, and which lines
  a body covers.
-/
import Mathlib.Data.List.TakeWhile
import Linkage.Proofs.Source.Reading

namespace Linkage

open List

/-! ### Lines under a line -/

namespace Line

/-- Lines with increasing numbers, as those of a source text are. -/
abbrev Increasing (lines : List Line) : Prop := lines.Pairwise fun a b => a.number < b.number

/-- Lines as a source text has them, with blanks in front. -/
structure Kept (lines : List Line) : Prop where
  increasing : Increasing lines
  margins : ∀ line ∈ lines, ∀ c ∈ line.margin, isMargin c = true

theorem kept_ofSource (source : List Char) : Kept (ofSource source) := by
  refine ⟨increasing_ofSource source, fun line member => ?_⟩
  obtain ⟨_, written, _, kept⟩ := of_mem_ofSource member
  exact (of_ofText? kept).2.2

/-- Under a line of a text stand the lines after it that are indented deeper, up to the first
that is not. -/
def Heads (text : List Line) (header : Line) (under : List Line) : Prop :=
  ∃ before after, text = before ++ header :: after ∧
    under = after.takeWhile (isDeeper header.indent)

variable {text under under' : List Line} {header header' line : Line}

theorem Increasing.eq_of_number (increasing : Increasing text) {a b : Line} (inA : a ∈ text)
    (inB : b ∈ text) (same : a.number = b.number) : a = b := by
  refine inj_on_of_nodup_map ?_ inA inB same
  exact pairwise_map.2 (increasing.imp ne_of_lt)

theorem Heads.mem (heads : Heads text header under) : header ∈ text := by
  obtain ⟨before, after, rfl, _⟩ := heads
  exact mem_append_right _ (mem_cons_self ..)

/-- The lines under a line stand together, right after it. -/
theorem Heads.run (heads : Heads text header under) :
    ∃ before rest, text = (before ++ [header]) ++ under ++ rest := by
  obtain ⟨before, after, rfl, rfl⟩ := heads
  refine ⟨before, after.dropWhile (isDeeper header.indent), ?_⟩
  rw [append_assoc, takeWhile_append_dropWhile, append_assoc]
  rfl

/-- Only certain lines stand under a line of a given number. -/
theorem Heads.unique (increasing : Increasing text) (heads : Heads text header under)
    (heads' : Heads text header' under') (same : header.number = header'.number) :
    under = under' := by
  obtain rfl := increasing.eq_of_number heads.mem heads'.mem same
  obtain ⟨before, after, split, rfl⟩ := heads
  obtain ⟨before', after', split', rfl⟩ := heads'
  rw [split] at increasing split'
  obtain ⟨_, later, earlier⟩ := pairwise_append.1 increasing
  have notBefore : header ∉ before := fun inBefore =>
    lt_irrefl _ (earlier header inBefore header (mem_cons_self ..))
  have notAfter : header ∉ after := fun inAfter =>
    lt_irrefl _ (rel_of_pairwise_cons later inAfter)
  obtain ⟨_, _, rfl⟩ := (append_cons_inj_of_notMem notBefore notAfter).1 split'
  rfl

end Line

/-! ### Blocks -/

namespace Block

mutual

/-- A block stands in a text with all lines under its first line, and so do the blocks in it. -/
def Stands (text : List Line) : Block → Prop
  | mk line nested => Line.Heads text line (linesOf nested) ∧ StandAll text nested

/-- Some blocks stand in a text. -/
def StandAll (text : List Line) : List Block → Prop
  | [] => True
  | b :: rest => b.Stands text ∧ StandAll text rest

end

theorem Stands.mem {text : List Line} {b : Block} (stands : b.Stands text) : b.line ∈ text := by
  cases b
  exact stands.1.mem

theorem StandAll.of_mem {text : List Line} {blocks : List Block} (all : StandAll text blocks)
    {b : Block} (member : b ∈ blocks) : b.Stands text := by
  induction blocks with
  | nil => cases member
  | cons first rest ih =>
    rcases mem_cons.1 member with rfl | later
    · exact all.1
    · exact ih all.2 later

/-- The blocks of some lines of a text stand in it, if the line that comes after these lines is
indented less than any of them or as little. -/
theorem standAll_forest (before lines after : List Line)
    (closed : ∀ next ∈ after.head?, ∀ line ∈ lines, next.indent ≤ line.indent) :
    StandAll (before ++ lines ++ after) (forest lines) := by
  fun_induction forest lines generalizing before after with
  | case1 => trivial
  | case2 line rest ihNested ihLater =>
    let inner := rest.takeWhile (Line.isDeeper line.indent)
    let later := rest.dropWhile (Line.isDeeper line.indent)
    have cut : inner ++ later = rest := takeWhile_append_dropWhile
    have kept : ∀ l ∈ inner, Line.isDeeper line.indent l = true := fun _ member =>
      mem_takeWhile_imp member
    -- What follows the block is indented no deeper than its first line.
    have ends : ∀ next ∈ (later ++ after).head?, next.indent ≤ line.indent := by
      intro next isNext
      cases rest' : later with
      | nil =>
        rw [rest'] at isNext
        exact closed next isNext line (mem_cons_self ..)
      | cons first others =>
        rw [rest'] at isNext
        cases isNext
        have stops := head?_dropWhile_not (Line.isDeeper line.indent) rest
        rw [show rest.dropWhile _ = later from rfl, rest'] at stops
        simpa [Line.isDeeper] using stops
    have under : inner = (rest ++ after).takeWhile (Line.isDeeper line.indent) := by
      rw [← cut, append_assoc, takeWhile_append_of_pos kept]
      cases follows : later ++ after with
      | nil => simp
      | cons next others =>
        have shallow := ends next (by rw [follows]; rfl)
        rw [takeWhile_cons_of_neg (by simpa [Line.isDeeper] using shallow), append_nil]
    refine ⟨⟨⟨before, rest ++ after, by simp, ?_⟩, ?_⟩, ?_⟩
    · rw [linesOf_forest]
      exact under
    · have nested := ihNested (before ++ [line]) (later ++ after) fun next isNext l member =>
        le_of_lt (lt_of_le_of_lt (ends next isNext) (of_decide_eq_true (kept l member)))
      have same : before ++ [line] ++ inner ++ (later ++ after) =
          before ++ line :: rest ++ after := by
        simp [← cut]
      exact same ▸ nested
    · have others := ihLater (before ++ line :: inner) after fun next isNext l member =>
        closed next isNext l (mem_cons_of_mem _ ((dropWhile_sublist _).subset member))
      have same : before ++ line :: inner ++ later ++ after = before ++ line :: rest ++ after := by
        simp [← cut]
      exact same ▸ others

end Block

/-! ### Bodies -/

/-- Lines as a body, if there are any. -/
def Body.ofLines? (lines : List Line) : Option Body :=
  match lines.head?, lines.getLast? with
  | some first, some last =>
    some ⟨first.number, last.number,
      String.intercalate "\n" (lines.map fun line => String.ofList line.text)⟩
  | _, _ => none

theorem Block.body_eq (nested : List Block) : Block.body nested = Body.ofLines? (linesOf nested) :=
  rfl

/-- A body covers the lines from its first to its last. -/
def Body.covers (body : Body) (number : Nat) : Bool :=
  body.firstLine ≤ number && number ≤ body.lastLine

namespace Body

variable {text before run after : List Line} {body : Body}

theorem ofLines?_eq_none : ofLines? run = none ↔ run = [] := by
  unfold ofLines?
  cases run with
  | nil => simp
  | cons line rest => simp [getLast?_cons]

theorem exists_of_ofLines? (made : ofLines? run = some body) :
    ∃ first last, run.head? = some first ∧ run.getLast? = some last ∧
      body.firstLine = first.number ∧ body.lastLine = last.number ∧
      body.text = String.intercalate "\n" (run.map fun line => String.ofList line.text) := by
  unfold ofLines? at made
  split at made
  · rename_i first last isFirst isLast
    cases made
    exact ⟨first, last, isFirst, isLast, rfl, rfl, rfl⟩
  · cases made

/-- A body that is made of lines in their order ends where it starts or later. -/
theorem bounds_of_ofLines? {last : Nat} (ordered : Ordered last run)
    (made : ofLines? run = some body) : body.firstLine ≤ body.lastLine ∧ body.lastLine ≤ last := by
  obtain ⟨first, final, isFirst, isFinal, low, high, _⟩ := exists_of_ofLines? made
  rw [low, high]
  refine ⟨?_, ordered.bounded final (mem_of_getLast? isFinal)⟩
  obtain ⟨rest, rfl⟩ := head?_eq_some_iff.1 isFirst
  rcases mem_cons.1 (mem_of_getLast? isFinal) with rfl | later
  · exact le_refl _
  · exact rel_of_pairwise_cons ordered.sorted later

/-- Of the lines of a text, a body that is made of some that stand together covers just
these. -/
theorem covers_iff (increasing : Line.Increasing (before ++ run ++ after))
    (made : ofLines? run = some body) {line : Line} (inText : line ∈ before ++ run ++ after) :
    body.covers line.number = true ↔ line ∈ run := by
  obtain ⟨first, last, isFirst, isLast, low, high, _⟩ := exists_of_ofLines? made
  obtain ⟨front, _, behind⟩ := pairwise_append.1 increasing
  obtain ⟨_, inside, ahead⟩ := pairwise_append.1 front
  have inRun : first ∈ run ∧ last ∈ run := ⟨mem_of_head? isFirst, mem_of_getLast? isLast⟩
  simp only [covers, low, high, Bool.and_eq_true, decide_eq_true_eq]
  constructor
  · rintro ⟨notBefore, notAfter⟩
    rcases mem_append.1 inText with early | late
    · rcases mem_append.1 early with earlier | here
      · exact absurd (ahead line earlier first inRun.1) (Nat.not_lt.2 notBefore)
      · exact here
    · exact absurd (behind last (mem_append_right _ inRun.2) line late) (Nat.not_lt.2 notAfter)
  · intro here
    obtain ⟨rest, rfl⟩ := head?_eq_some_iff.1 isFirst
    obtain ⟨front, isFront⟩ := getLast?_eq_some_iff.1 isLast
    constructor
    · rcases mem_cons.1 here with rfl | later
      · exact Nat.le_refl _
      · exact Nat.le_of_lt (rel_of_pairwise_cons inside later)
    · rw [isFront] at here inside
      rcases mem_append.1 here with earlier | final
      · exact Nat.le_of_lt ((pairwise_append.1 inside).2.2 line earlier last (by simp))
      · exact Nat.le_of_eq (congrArg Line.number (mem_singleton.1 final))

end Body

end Linkage
