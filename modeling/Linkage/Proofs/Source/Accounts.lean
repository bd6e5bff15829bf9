/-
Purpose: What reading a source text gives: faults of reading, or an outline that accounts for the
  lines of the text and in which everything has an identifier as its name.
-/
import Linkage.Proofs.Source.Blocks

namespace Linkage

open List Grammar

variable {tokens : List Token} {blocks : List Block} {b : Block} {text : List Line}
  {decl : ImportDecl}

/-! ### The lines that an outline names -/

mutual

/-- The lines on which an item and the declarations in it stand. -/
def Item.headers : Item → List Nat
  | .space _ span items => span.line :: Item.headersOf items
  | .classDecl decl =>
    decl.span.line :: (decl.fields.map (·.span.line) ++
      (decl.functions ++ decl.constructors).map (·.span.line))
  | .interfaceDecl decl => decl.span.line :: decl.functions.map (·.span.line)
  | .delegateDecl decl => [decl.span.line]
  | .coroutineDecl decl => [decl.span.line]
  | .variableDecl decl => [decl.span.line]
  | .functionDecl decl | .nativeDecl decl => [decl.span.line]

/-- The lines on which some items and the declarations in them stand. -/
def Item.headersOf : List Item → List Nat
  | [] => []
  | item :: rest => item.headers ++ Item.headersOf rest

end

mutual

/-- All functions and constructors of an item. -/
def Item.callables : Item → List FunctionDecl
  | .space _ _ items => Item.callablesOf items
  | .classDecl decl => decl.functions ++ decl.constructors
  | .interfaceDecl decl => decl.functions
  | .functionDecl decl | .nativeDecl decl => [decl]
  | .delegateDecl _ | .coroutineDecl _ | .variableDecl _ => []

/-- All functions and constructors of some items. -/
def Item.callablesOf : List Item → List FunctionDecl
  | [] => []
  | item :: rest => item.callables ++ Item.callablesOf rest

end

theorem Item.callables_subset {items : List Item} {item : Item} (member : item ∈ items) :
    item.callables ⊆ Item.callablesOf items := by
  induction items with
  | nil => cases member
  | cons first rest ih =>
    rcases mem_cons.1 member with rfl | later
    · exact subset_append_left ..
    · exact List.Subset.trans (ih later) (subset_append_right ..)

namespace Outline

/-- The lines on which the imports and the declarations of an outline stand. -/
def headers (outline : Outline) : List Nat :=
  outline.imports.map (·.span.line) ++ Item.headersOf outline.items

/-- All functions and constructors of an outline. -/
def callables (outline : Outline) : List FunctionDecl := Item.callablesOf outline.items

/-- The bodies of an outline. -/
def bodies (outline : Outline) : List Body := outline.callables.filterMap (·.body)

/-- How often an outline accounts for a line: as the line of an import or a declaration, or as
one that a body covers. -/
def mentions (outline : Outline) (number : Nat) : Nat :=
  outline.headers.count number + outline.bodies.countP (·.covers number)

end Outline

/-! ### Accounting for lines -/

/-- A function stands on a line of a text, and its body is made of the lines under it. -/
def FunctionDecl.Placed (text : List Line) (f : FunctionDecl) : Prop :=
  ∃ header under, Line.Heads text header under ∧ f.span.line = header.number ∧
    f.body = Body.ofLines? under

/-- Some headers and the bodies of some functions account for some lines of a text, and for no
other line of it. -/
structure Accounts (text lines : List Line) (headers : List Nat) (functions : List FunctionDecl) :
    Prop where
  placed : ∀ f ∈ functions, f.Placed text
  counts : ∀ line ∈ text,
    headers.count line.number + (functions.filterMap (·.body)).countP (·.covers line.number) =
      (lines.map Line.number).count line.number

namespace Accounts

variable {text lines lines' under : List Line} {headers headers' : List Nat}
  {functions functions' : List FunctionDecl} {header : Line} {f : FunctionDecl}

protected theorem nil : Accounts text [] [] [] := ⟨forall_mem_nil _, fun _ _ => rfl⟩

protected theorem append (first : Accounts text lines headers functions)
    (second : Accounts text lines' headers' functions') :
    Accounts text (lines ++ lines') (headers ++ headers') (functions ++ functions') := by
  refine ⟨forall_mem_append.2 ⟨first.placed, second.placed⟩, fun line inText => ?_⟩
  have here := first.counts line inText
  have there := second.counts line inText
  simp
  omega

/-- It does not matter in which order headers and functions are listed. -/
protected theorem perm (accounts : Accounts text lines headers functions)
    (sameHeaders : headers.Perm headers') (sameFunctions : functions.Perm functions') :
    Accounts text lines headers' functions' := by
  refine ⟨fun f member => accounts.placed f (sameFunctions.mem_iff.2 member), fun line inText => ?_⟩
  rw [← accounts.counts line inText, sameHeaders.count_eq,
    (sameFunctions.filterMap (·.body)).countP_eq]

theorem line (text : List Line) {number : Nat} (here : number = header.number) :
    Accounts text [header] [number] [] := by
  subst here
  exact ⟨forall_mem_nil _, fun _ _ => rfl⟩

/-- A function accounts for its line and for the lines of its body. -/
theorem function (increasing : Line.Increasing text) (heads : Line.Heads text header under)
    (here : f.span.line = header.number) (isBody : f.body = Body.ofLines? under) :
    Accounts text (header :: under) [f.span.line] [f] := by
  refine ⟨forall_mem_singleton.2 ⟨header, under, heads, here, isBody⟩, fun line inText => ?_⟩
  obtain ⟨before, rest, rfl⟩ := heads.run
  have distinct : (under.map Line.number).Nodup := by
    refine pairwise_map.2 (List.Pairwise.imp ne_of_lt ?_)
    exact (pairwise_append.1 (pairwise_append.1 increasing).1).2.1
  have among : line.number ∈ under.map Line.number ↔ line ∈ under := by
    refine ⟨fun member => ?_, mem_map_of_mem⟩
    obtain ⟨other, inUnder, same⟩ := mem_map.1 member
    have inText' : other ∈ before ++ [header] ++ under ++ rest :=
      mem_append_left _ (mem_append_right _ inUnder)
    rwa [← increasing.eq_of_number inText' inText same]
  have covered : ([f].filterMap (·.body)).countP (·.covers line.number) =
      (under.map Line.number).count line.number := by
    rw [distinct.count]
    cases made : f.body with
    | none =>
      rw [made, eq_comm, Body.ofLines?_eq_none] at isBody
      simp [made, isBody]
    | some body =>
      have covers := Body.covers_iff increasing (isBody.symm.trans made) inText
      simp [made, countP_singleton, among, covers]
  rw [here]
  simp only [map_cons, count_cons, count_nil]
  omega

end Accounts

/-! ### Faults at lines -/

/-- A fault of reading at a line of a text.  It is on that line, unless the line is indented as it
may not be. -/
structure Fault.Of (text : List Line) (fault : Fault) : Prop where
  ofReading : fault.OfReading
  atLine : ∃ line ∈ text, line.Holds fault.span ∨ fault = Block.stray line

namespace Fault

variable {text : List Line} {line : Line}

theorem of_holds (member : line ∈ text) {span : Span} (holds : line.Holds span)
    {problem : Problem} (code : Code) (isCode : problem.code = code)
    (owned : Stage.parse.codes.elem code = true) : Fault.Of text ⟨span, problem⟩ :=
  ⟨ofReading code isCode owned, line, member, .inl holds⟩

theorem of_stray (member : line ∈ text) : (Block.stray line).Of text :=
  ⟨ofReading .unexpectedIndentation rfl rfl, line, member, .inr rfl⟩

theorem In.of {fault : Fault} {finish : Span} (isIn : fault.In finish tokens)
    (member : line ∈ text) (written : Written line finish tokens) : fault.Of text :=
  ⟨isIn.ofReading, line, member, .inl (isIn.inLine line written)⟩

end Fault

namespace Reader

open Noted (Quietly Reports)

variable {text : List Line}

/-- Something is read, and it satisfies `Q`. -/
def Found {α : Type} (Q : α → Prop) (read? : Option α) : Prop := ∃ a, read? = some a ∧ Q a

/-- Everything noted is a fault at a line of a text, and if nothing is noted what is read
satisfies `Q`. -/
structure Reads {α : Type} (text : List Line) (Q : α → Prop) (x : Noted Fault α) : Prop where
  reports : Reports (Fault.Of text) x
  quietly : Quietly Q x

section Steps

variable {α β : Type} {Q : α → Prop} {R : β → Prop} {x : Noted Fault α} {fault : Fault}

theorem reads_fault {Q : Option α → Prop} (isFault : fault.Of text) :
    Reads text Q (⟨none, [fault]⟩ : Noted Fault (Option α)) :=
  ⟨forall_mem_singleton.2 isFault, fun quiet => nomatch quiet⟩

theorem reads_some {a : α} (holds : Q a) :
    Reads text (Found Q) (pure (some a) : Noted Fault (Option α)) :=
  ⟨.pure _, .pure ⟨a, rfl, holds⟩⟩

theorem reads_note {Q : Option α → Prop} (isFault : fault.Of text) :
    Reads text Q (Noted.note fault >>= fun _ => pure none) :=
  ⟨(Reports.note isFault).bind (.pure _), Quietly.note.bind fun _ never => never.elim⟩

/-- What is known of the first step, whether or not it notes anything, is known in the second. -/
theorem Reads.after {f : α → Noted Fault β} (first : Noted.Yields (Fault.Of text) Q x)
    (second : ∀ a, Q a → Reads text R (f a)) : Reads text R (x >>= f) where
  reports := first.reports.bind (second _ first.value).reports
  quietly := Quietly.bind (fun _ => first.value) fun a isRead => (second a isRead).quietly

theorem Reads.map {f : α → β} (reads : Reads text Q x) (holds : ∀ a, Q a → R (f a)) :
    Reads text (Found R) (x >>= fun a => pure (some (f a))) where
  reports := reads.reports.bind (.pure _)
  quietly := reads.quietly.bind fun a isRead => .pure ⟨f a, rfl, holds a isRead⟩

/-- Nothing is read from a line with a fault. -/
theorem noteFault_reads {y : Except Fault α} {f : Option α → Noted Fault (Option β)}
    {Q : Line → α → Prop} {R : Option β → Prop} {line : Line} {finish : Span}
    (ends : Ends (Fault.In finish tokens) (fun a => ∀ l, Written l finish tokens → Q l a) y)
    (member : line ∈ text) (written : Written line finish tokens) (nothing : f none = pure none)
    (something : ∀ a, Q line a → Reads text R (f (some a))) : Reads text R (noteFault y >>= f) := by
  cases y with
  | ok a =>
    exact .after ⟨.pure _, rfl⟩ fun _ same => same ▸ something a (ends line written)
  | error fault =>
    have first : Reports (Fault.Of text) (⟨none, [fault]⟩ : Noted Fault (Option α)) :=
      forall_mem_singleton.2 (ends.of member written)
    exact ⟨first.bind (nothing ▸ .pure _), fun quiet => nomatch quiet⟩

end Steps

/-- A block is read or dropped by its indentation. -/
theorem entry_reads {α : Type} {Q : α → Prop} {read : Noted Fault (Option α)} (indent : Nat)
    (stands : b.Stands text) (reads : Reads text (Found Q) read) : Reads text (Found Q)
      (if b.line.indent = indent then read else ⟨none, [Block.stray b.line]⟩) := by
  split
  · exact reads
  · exact reads_fault (Fault.of_stray stands.mem)

theorem refuseNested_reads {nested : List Block} (stand : Block.StandAll text nested) :
    Reads text (fun _ => nested = []) (Block.refuseNested nested) := by
  cases nested with
  | nil => exact ⟨forall_mem_nil _, fun _ => rfl⟩
  | cons b rest => exact ⟨.note (Fault.of_stray stand.1.mem), fun quiet => nomatch quiet⟩

theorem visibility_yields {line : Line} {finish : Span} (member : line ∈ text)
    (written : Written line finish tokens) :
    Noted.Yields (Fault.Of text) (fun read => Written line finish read.2)
      (visibility tokens) := by
  obtain ⟨reports, fewer⟩ := visibility_reports finish tokens
  exact ⟨reports.imp fun _ isIn => isIn.of member written, written.sublist fewer⟩

theorem ofLine_ends (kept : Line.Kept text) {line : Line} (member : line ∈ text) :
    Ends (Fault.Of text) (fun read => Written line read.finish read.tokens)
      (TokenLine.ofLine line) :=
  (TokenLine.ofLine_ends (kept.margins line member)).imp
    (fun _ isFault => ⟨isFault.1, line, member, .inl isFault.2⟩) fun _ covers => covers.written

/-! ### Members -/

/-- Some blocks that stand side by side account for all lines of theirs, if each of them does. -/
theorem entries_reads {α : Type} {P : α → Prop} {read : Block → Noted Fault (Option α)}
    {headers : α → List Nat} {functions : α → List FunctionDecl} {indent : Nat}
    (stand : Block.StandAll text blocks) (each : ∀ b ∈ blocks,
      Reads text (Found fun a => Accounts text b.lines (headers a) (functions a) ∧ P a) (read b)) :
    Reads text (fun entries => Accounts text (Block.linesOf blocks) (entries.flatMap headers)
      (entries.flatMap functions) ∧ ∀ a ∈ entries, P a) (Block.entries read indent blocks) := by
  induction blocks with
  | nil => exact ⟨forall_mem_nil _, fun _ => ⟨.nil, forall_mem_nil _⟩⟩
  | cons b rest ih =>
    have later := ih stand.2 fun b member => each b (mem_cons_of_mem _ member)
    have here := entry_reads indent stand.1 (each b (mem_cons_self ..))
    refine ⟨forall_mem_append.2 ⟨here.reports, later.reports⟩, fun quiet => ?_⟩
    obtain ⟨quietHere, quietLater⟩ := append_eq_nil_iff.1 quiet
    obtain ⟨a, isRead, accounts, holds⟩ := here.quietly quietHere
    obtain ⟨below, others⟩ := later.quietly quietLater
    show Accounts text (b.lines ++ Block.linesOf rest) (flatMap headers (_ ++ _))
      (flatMap functions (_ ++ _)) ∧ ∀ a ∈ _ ++ _, P a
    rw [isRead]
    exact ⟨accounts.append below, forall_mem_cons.2 ⟨holds, others⟩⟩

namespace Member

/-- The line on which a member stands. -/
def header : Member → Nat
  | stored decl => decl.span.line
  | callable decl | constructor decl => decl.span.line

/-- The function that a member is, if it is one. -/
def functions : Member → List FunctionDecl
  | stored _ => []
  | callable decl | constructor decl => [decl]

/-- Sorting members by what they are keeps their functions. -/
theorem functions_perm (members : List Member) : (members.flatMap functions).Perm
      (members.filterMap asFunction? ++ members.filterMap asConstructor?) := by
  induction members with
  | nil => exact .nil
  | cons member rest ih =>
    cases member with
    | stored decl => exact ih
    | callable decl => exact ih.cons decl
    | constructor decl => exact (ih.cons decl).trans perm_middle.symm

/-- Sorting members by what they are keeps their lines. -/
theorem header_perm (members : List Member) : (members.flatMap fun m => [m.header]).Perm
      ((members.filterMap asVariable?).map (·.span.line) ++
        (members.filterMap asFunction? ++ members.filterMap asConstructor?).map (·.span.line)) := by
  refine .trans ?_ (((functions_perm members).map (·.span.line)).append_left _)
  induction members with
  | nil => exact .nil
  | cons member rest ih =>
    cases member with
    | stored decl => exact ih.cons _
    | callable decl | constructor decl => exact (ih.cons _).trans perm_middle.symm

end Member

theorem classMember_reads (kept : Line.Kept text) (className : String)
    (stands : b.Stands text) :
    Reads text (Found fun m => Accounts text b.lines [m.header] m.functions ∧ m.Spelled)
      (classMember className b) := by
  obtain ⟨line, nested⟩ := b
  unfold classMember
  split
  · rename_i fails
    exact reads_fault ((ofLine_ends kept stands.mem).of_error fails)
  · rename_i tokens finish works
    have written := (ofLine_ends kept stands.mem).of_ok works
    refine .after (visibility_yields stands.mem written) fun (visibility, tokens) written => ?_
    dsimp only
    split
    · exact reads_note (Fault.of_holds stands.mem written.place .unexpectedToken rfl rfl)
    · refine noteFault_reads (head_ends finish tokens) stands.mem written rfl ?_
      rintro head ⟨here, named⟩
      cases head with
      | function returns name span params =>
        dsimp only
        have isBody := Block.body_eq nested
        split <;> exact reads_some ⟨.function kept.increasing stands.1 here.line isBody, named⟩
      | plain type name span initializer =>
        apply (refuseNested_reads stands.2).map
        rintro _ rfl
        exact ⟨.line text here.line, named⟩

theorem interfaceMember_reads (kept : Line.Kept text) (stands : b.Stands text) :
    Reads text (Found fun f => Accounts text b.lines [f.span.line] [f] ∧ f.Spelled)
      (interfaceMember b) := by
  obtain ⟨line, nested⟩ := b
  unfold interfaceMember
  split
  · rename_i fails
    exact reads_fault ((ofLine_ends kept stands.mem).of_error fails)
  · rename_i tokens finish works
    have written := (ofLine_ends kept stands.mem).of_ok works
    refine .after (visibility_yields stands.mem written) fun (visibility, tokens) written => ?_
    refine noteFault_reads (head_ends finish tokens) stands.mem written rfl ?_
    rintro head ⟨here, named⟩
    cases head with
    | function returns name span params =>
      apply (refuseNested_reads stands.2).map
      rintro _ rfl
      exact ⟨.function kept.increasing stands.1 here.line rfl, named⟩
    | plain type name span initializer =>
      exact reads_note (Fault.of_holds stands.mem here .unexpectedToken rfl rfl)

/-! ### Declarations -/

/-- A declaration accounts for its line and for all lines under it. -/
theorem declaration_reads (kept : Line.Kept text) {line : Line} {nested : List Block}
    (stands : (Block.mk line nested).Stands text) {finish : Span}
    (written : Written line finish tokens) :
    Reads text (Found fun item => Accounts text (line :: Block.linesOf nested) item.headers
      item.callables ∧ item.Spelled) (declaration nested finish tokens) := by
  have inText : line ∈ text := stands.mem
  have refuse := refuseNested_reads stands.2
  have refuseAnyway : Noted.Yields (Fault.Of text) (fun _ => True) (Block.refuseNested nested) :=
    ⟨refuse.reports, trivial⟩
  refine .after (visibility_yields inText written) fun (visibility, tokens) written => ?_
  dsimp only
  split
  · refine noteFault_reads (typeHeader_ends finish _) inText written.tail rfl ?_
    rintro ⟨name, span, inherits⟩ ⟨here, named⟩
    refine (entries_reads stands.2 fun b member =>
      classMember_reads kept name (stands.2.of_mem member)).map fun members below => ?_
    have sorted := below.1.perm (Member.header_perm members) (Member.functions_perm members)
    refine ⟨(Accounts.line text here.line).append sorted, named, ?_, ?_, ?_⟩ <;>
      · intro decl member
        obtain ⟨m, inMembers, isMember⟩ := mem_filterMap.1 member
        cases m <;> cases isMember
        exact below.2 _ inMembers
  · refine noteFault_reads (typeHeader_ends finish _) inText written.tail rfl ?_
    rintro ⟨name, span, inherits⟩ ⟨here, named⟩
    refine (entries_reads stands.2 fun b member =>
      interfaceMember_reads kept (stands.2.of_mem member)).map fun functions below => ?_
    have listed := below.1
    rw [← map_eq_flatMap, flatMap_singleton' functions] at listed
    exact ⟨(Accounts.line text here.line).append listed, named, below.2⟩
  · refine noteFault_reads (head_ends finish _) inText written.tail rfl ?_
    rintro head ⟨here, named⟩
    cases head with
    | function returns name span params =>
      apply refuse.map
      rintro _ rfl
      exact ⟨.line text here.line, named⟩
    | plain type name span initializer =>
      exact .after refuseAnyway fun _ _ =>
        reads_note (Fault.of_holds inText here .missingToken rfl rfl)
  · refine noteFault_reads (coroutine_ends finish _) inText written.tail rfl ?_
    rintro ⟨returns, name, span⟩ ⟨here, named⟩
    apply refuse.map
    rintro _ rfl
    exact ⟨.line text here.line, named⟩
  · refine noteFault_reads (head_ends finish _) inText written.tail rfl ?_
    rintro head ⟨here, named⟩
    cases head with
    | function returns name span params =>
      apply refuse.map
      rintro _ rfl
      exact ⟨.function kept.increasing stands.1 here.line rfl, named⟩
    | plain type name span initializer =>
      exact .after refuseAnyway fun _ _ =>
        reads_note (Fault.of_holds inText here .missingToken rfl rfl)
  · refine noteFault_reads (head_ends finish _) inText written.tail rfl ?_
    rintro head ⟨here, named⟩
    cases head with
    | function returns name span params =>
      exact reads_note (Fault.of_holds inText here .unexpectedToken rfl rfl)
    | plain type name span initializer =>
      apply refuse.map
      rintro _ rfl
      exact ⟨.line text here.line, named⟩
  · refine noteFault_reads (head_ends finish _) inText written rfl ?_
    rintro head ⟨here, named⟩
    cases head with
    | function returns name span params =>
      exact reads_some ⟨.function kept.increasing stands.1 here.line (Block.body_eq nested), named⟩
    | plain type name span initializer =>
      apply refuse.map
      rintro _ rfl
      exact ⟨.line text here.line, named⟩

mutual

theorem item_reads (kept : Line.Kept text) (b : Block) (stands : b.Stands text) :
    Reads text (Found fun item => Accounts text b.lines item.headers item.callables ∧ item.Spelled)
      (item b) := by
  cases b with
  | mk line nested =>
    rw [item]
    split
    · rename_i fails
      exact reads_fault ((ofLine_ends kept stands.mem).of_error fails)
    · rename_i name span finish works
      obtain ⟨here, named⟩ := ((ofLine_ends kept stands.mem).of_ok works).tail.head
      have inner := items_reads kept (Block.indentOf nested) nested stands.2
      refine ⟨inner.reports, fun quiet => ⟨_, rfl, ?_⟩⟩
      obtain ⟨below, spelled⟩ := inner.quietly quiet
      exact ⟨(Accounts.line text here.line).append below, named.isIdentifier, spelled⟩
    · rename_i works
      have written := (ofLine_ends kept stands.mem).of_ok works
      exact reads_fault (Fault.of_holds stands.mem written.place .lateImport rfl rfl)
    · rename_i works
      exact declaration_reads kept stands ((ofLine_ends kept stands.mem).of_ok works)

theorem items_reads (kept : Line.Kept text) (indent : Nat) (blocks : List Block)
    (stand : Block.StandAll text blocks) :
    Reads text (fun items => Accounts text (Block.linesOf blocks) (Item.headersOf items)
      (Item.callablesOf items) ∧ Item.AllSpelled items) (items indent blocks) := by
  cases blocks with
  | nil =>
    rw [items]
    exact ⟨forall_mem_nil _, fun _ => ⟨.nil, trivial⟩⟩
  | cons b rest =>
    have here := entry_reads indent stand.1 (item_reads kept b stand.1)
    have later := items_reads kept indent rest stand.2
    rw [items]
    refine ⟨forall_mem_append.2 ⟨here.reports, later.reports⟩, fun quiet => ?_⟩
    obtain ⟨quietHere, quietLater⟩ := append_eq_nil_iff.1 quiet
    obtain ⟨found, isRead, accounts, spelled⟩ := here.quietly quietHere
    obtain ⟨below, others⟩ := later.quietly quietLater
    dsimp only at isRead ⊢
    rw [isRead]
    exact ⟨accounts.append below, spelled, others⟩

end

/-! ### Files -/

/-- What a block at the top of a file gives accounts for the lines of the block; an import only
for its own line. -/
def TopEntry.Accounted (text : List Line) (b : Block) : TopEntry → Prop
  | .importDecl decl => decl.span.line = b.line.number
  | .item found => Accounts text b.lines found.headers found.callables
  | .nothing => False

theorem topEntry_reads (kept : Line.Kept text) (started : Bool)
    (stands : b.Stands text) :
    Reads text (fun entry => entry.Accounted text b ∧ ∀ found, entry = .item found → found.Spelled)
      (topEntry started b) := by
  have lexed := ofLine_ends kept stands.mem
  have read := item_reads kept b stands
  unfold topEntry
  split
  · refine ⟨forall_mem_singleton.2 (Fault.of_stray stands.mem), ?_⟩
    exact fun quiet => nomatch quiet
  · split
    · rename_i works
      split
      · exact ⟨forall_mem_nil _, fun _ => ⟨(lexed.of_ok works).head.1.line, by simp⟩⟩
      · rename_i fails
        refine ⟨forall_mem_singleton.2 ?_, fun quiet => nomatch quiet⟩
        have isIn := (importPath_ends _ _).of_error fails
        exact isIn.of stands.mem (lexed.of_ok works).tail
    · dsimp only
      split
      · rename_i found isFound
        refine ⟨read.reports, fun quiet => ?_⟩
        obtain ⟨item, isItem, accounts, spelled⟩ := read.quietly quiet
        cases isFound.symm.trans isItem
        exact ⟨accounts, fun _ same => TopEntry.item.inj same ▸ spelled⟩
      · rename_i nothing
        refine ⟨read.reports, fun quiet => ?_⟩
        obtain ⟨item, isItem, _⟩ := read.quietly quiet
        cases nothing.symm.trans isItem

end Reader

/-- An import hides the lines that stand under its own. -/
def ImportDecl.Hides (text : List Line) (decl : ImportDecl) (line : Line) : Prop :=
  ∃ header under, Line.Heads text header under ∧ header.number = decl.span.line ∧ line ∈ under

theorem ImportDecl.hides_iff {under : List Line} {header : Line} (increasing : Line.Increasing text)
    (heads : Line.Heads text header under) (here : decl.span.line = header.number) (line : Line) :
    decl.Hides text line ↔ line ∈ under := by
  constructor
  · rintro ⟨header', under', heads', here', member⟩
    rwa [heads.unique increasing heads' (here.symm.trans here'.symm)]
  · exact fun member => ⟨header, under, heads, here.symm, member⟩

/-- One of the imports of an outline hides a line. -/
def Outline.Hides (text : List Line) (outline : Outline) (line : Line) : Prop :=
  ∃ decl ∈ outline.imports, decl.Hides text line

/-- An outline accounts for the lines of some blocks that are seen, and its imports hide the
rest. -/
structure Outline.Accounted (text lines seen hidden : List Line) (outline : Outline) : Prop where
  parts : lines.Perm (seen ++ hidden)
  accounts : Accounts text seen outline.headers outline.callables
  hides : ∀ line, line ∈ hidden ↔ outline.Hides text line

namespace Outline.Accounted

variable {text lines seen hidden under : List Line} {header : Line} {outline : Outline}

theorem withImport (increasing : Line.Increasing text) (heads : Line.Heads text header under)
    (here : decl.span.line = header.number) (later : outline.Accounted text lines seen hidden) :
    { outline with imports := decl :: outline.imports }.Accounted text
      (header :: under ++ lines) (header :: seen) (under ++ hidden) where
  parts := ((later.parts.append_left under).trans (perm_append_comm_assoc ..)).cons header
  accounts := (Accounts.line text here).append later.accounts
  hides line := by
    rw [mem_append, later.hides, ← ImportDecl.hides_iff increasing heads here]
    simp [Outline.Hides]

theorem withItem {item : Item} {read : List Line}
    (here : Accounts text read item.headers item.callables)
    (later : outline.Accounted text lines seen hidden) :
    { outline with items := item :: outline.items }.Accounted text
      (read ++ lines) (read ++ seen) hidden where
  parts := (append_assoc read seen hidden).symm ▸ later.parts.append_left read
  accounts := (here.append later.accounts).perm (perm_append_comm_assoc ..) (.refl _)
  hides := later.hides

/-- No line is seen twice, and none that is seen is hidden. -/
theorem distinct (accounted : outline.Accounted text lines seen hidden)
    (increasing : Line.Increasing lines) :
    (seen.map Line.number).Nodup ∧ (hidden.map Line.number).Nodup ∧
      (seen.map Line.number).Disjoint (hidden.map Line.number) := by
  rw [← nodup_append', ← map_append]
  refine (accounted.parts.map Line.number).nodup_iff.1 (pairwise_map.2 ?_)
  exact increasing.imp ne_of_lt

end Outline.Accounted

/-- Reading the blocks of a file accounts for all their lines but those under imports. -/
theorem Reader.topEntries_reads (kept : Line.Kept text)
    (started : Bool) (stand : Block.StandAll text blocks) :
    Reads text (fun outline => (∃ seen hidden,
      outline.Accounted text (Block.linesOf blocks) seen hidden) ∧ Item.AllSpelled outline.items)
      (topEntries started blocks) := by
  induction blocks generalizing started with
  | nil =>
    refine ⟨forall_mem_nil _, fun _ => ⟨⟨[], [], .nil, .nil, ?_⟩, trivial⟩⟩
    simp [topEntries, Outline.Hides]
  | cons b rest ih =>
    obtain ⟨line, nested⟩ := b
    have here := topEntry_reads kept started stand.1
    have reports (started : Bool) :=
      forall_mem_append.2 ⟨here.reports, (ih started stand.2).reports⟩
    unfold topEntries
    dsimp only
    split
    · rename_i decl isImport
      refine ⟨reports started, fun quiet => ?_⟩
      obtain ⟨quietHere, quietLater⟩ := append_eq_nil_iff.1 quiet
      obtain ⟨⟨seen, hidden, later⟩, spelled⟩ := (ih started stand.2).quietly quietLater
      have onLine := (here.quietly quietHere).1
      rw [isImport] at onLine
      exact ⟨⟨_, _, later.withImport kept.increasing stand.1.1 onLine⟩, spelled⟩
    · rename_i item isItem
      refine ⟨reports true, fun quiet => ?_⟩
      obtain ⟨quietHere, quietLater⟩ := append_eq_nil_iff.1 quiet
      obtain ⟨⟨seen, hidden, later⟩, spelled⟩ := (ih true stand.2).quietly quietLater
      obtain ⟨accounts, isSpelled⟩ := here.quietly quietHere
      rw [isItem] at accounts
      exact ⟨⟨_, _, later.withItem accounts⟩, isSpelled item isItem, spelled⟩
    · rename_i isNothing
      refine ⟨reports started, fun quiet => ?_⟩
      have never := (here.quietly (append_eq_nil_iff.1 quiet).1).1
      rw [isNothing] at never
      exact never.elim

/-- A function that is placed in a source text stands, with its body, on lines of the text. -/
theorem FunctionDecl.Placed.within {source : List Char} {f : FunctionDecl}
    (placed : f.Placed (Line.ofSource source)) : f.Within (Text.lines source).length := by
  obtain ⟨header, under, heads, here, isBody⟩ := placed
  have ordered := Line.ordered_ofSource source
  refine ⟨here ▸ ordered.bounded header heads.mem, fun {body} made => ?_⟩
  obtain ⟨before, rest, split⟩ := heads.run
  rw [split] at ordered
  apply Body.bounds_of_ofLines? (ordered.sublist ?_) (isBody.symm.trans made)
  exact (infix_append _ under rest).sublist

namespace Outline

variable {source : String} {outline : Outline}

/-- A source text that cannot be read has faults, all of them at its lines.  The outline of one
that can be read accounts for its lines but those under imports, and what it declares has
identifiers as names. -/
theorem ofSource_ends (source : String) :
    Ends (fun faults => faults ≠ [] ∧ ∀ fault ∈ faults, fault.Of (Line.ofSource source.toList))
      (fun outline => (∃ seen hidden, outline.Accounted (Line.ofSource source.toList)
        (Line.ofSource source.toList) seen hidden) ∧ Item.AllSpelled outline.items)
      (ofSource source) := by
  have stand : Block.StandAll (Line.ofSource source.toList)
      (Block.forest (Line.ofSource source.toList)) := by
    have forest := Block.standAll_forest [] (Line.ofSource source.toList) [] nofun
    rwa [nil_append, append_nil] at forest
  have reads := Reader.topEntries_reads (Line.kept_ofSource source.toList) false stand
  rw [Block.linesOf_forest] at reads
  unfold ofSource
  dsimp only
  split
  · rename_i quiet
    exact reads.quietly (List.isEmpty_iff.1 quiet)
  · rename_i loud
    exact ⟨fun none => loud (List.isEmpty_iff.2 none), reads.reports⟩

theorem accounted_of_ofSource (read : ofSource source = .ok outline) :
    ∃ seen hidden, outline.Accounted (Line.ofSource source.toList)
      (Line.ofSource source.toList) seen hidden :=
  ((ofSource_ends source).of_ok read).1

theorem within_ofSource (read : ofSource source = .ok outline) :
    ∀ f ∈ outline.callables, f.Within (Text.lines source.toList).length := by
  obtain ⟨seen, hidden, accounted⟩ := accounted_of_ofSource read
  exact fun f member => (accounted.accounts.placed f member).within

end Outline

end Linkage
