/-
Purpose: The items that merging comes to, one after the other, and what becomes of each.
-/
import Linkage.Proofs.Ledger.Members
import Linkage.Proofs.Reorder.Gathered

/-!
Merging goes through the items of all files in their order, and into a space only if the space is
accepted.  A visit is one item on that way, with the table as it is by then.  What a visit does is
what adding the item alone does: for a space, this is opening it.
-/

namespace Linkage

open List Merge Option

/-! ### Items -/

namespace Item

/-- The name that an item declares. -/
def name : Item → String
  | space name _ _ => name
  | classDecl decl => decl.name
  | interfaceDecl decl => decl.name
  | delegateDecl decl => decl.name
  | coroutineDecl decl => decl.name
  | variableDecl decl => decl.name
  | functionDecl decl => decl.name
  | nativeDecl decl => decl.name

/-- The place that complaints about an item name. -/
def span : Item → Span
  | space _ span _ => span
  | classDecl decl => decl.span
  | interfaceDecl decl => decl.span
  | delegateDecl decl => decl.span
  | coroutineDecl decl => decl.span
  | variableDecl decl => decl.span
  | functionDecl decl => decl.span
  | nativeDecl decl => decl.span

/-- An item without the items inside it. -/
def alone : Item → Item
  | space name span _ => space name span []
  | item => item

end Item

namespace Leaf

variable (leaf : Leaf)

@[simp] theorem leaf?_item : leaf.item.leaf? = some leaf := by
  cases leaf with
  | functionDecl kind decl => cases kind <;> rfl
  | _ => rfl

@[simp] theorem name_item : leaf.item.name = leaf.name := by
  cases leaf with
  | functionDecl kind decl => cases kind <;> rfl
  | _ => rfl

@[simp] theorem span_item : leaf.item.span = leaf.span := by
  cases leaf with
  | functionDecl kind decl => cases kind <;> rfl
  | _ => rfl

@[simp] theorem alone_item : leaf.item.alone = leaf.item := by
  cases leaf with
  | functionDecl kind decl => cases kind <;> rfl
  | _ => rfl

end Leaf

/-! ### Complaints about declarations -/

/-- The complaint is that a name is declared already. -/
def Diagnostic.isRedeclaration (d : Diagnostic) : Bool := d.code = .duplicateDeclaration

/-- What a declaration says by itself takes no name of a space. -/
theorem Merge.filter_isRedeclaration {α : Type} {x : Reported α}
    (inner : Noted.Reports Diagnostic.IsInner x) :
    x.notes.filter Diagnostic.isRedeclaration = [] := by
  refine Noted.Reports.filter_eq_nil (inner.imp fun d isInner => decide_eq_false fun same => ?_)
  rw [Diagnostic.IsInner, same] at isInner
  revert isInner
  decide

/-! ### Visits -/

/-- An item that merging comes to: in a file, in a space, and with the table as it is by then. -/
structure Visit where
  merge : Merge
  space : Nat
  item : Item
  before : Table

namespace Visit

/-- What the item does by itself, apart from the items inside it. -/
def own (v : Visit) : Reported Table := v.merge.addItem v.space v.item.alone v.before

/-- The item is not accepted.  A space gives way to a declaration of its name.  A declaration gives
way to whatever has its name, unless it is a function and can join a method. -/
def refused (v : Visit) : Bool :=
  match v.item.leaf? with
  | none => (v.before.lookup v.space v.item.name).isSome
  | some leaf =>
    (takenBy v.before v.space leaf.name).isSome && (leaf.group v.before v.space).isNone

/-- The entry that an accepted declaration is read into. -/
def added (v : Visit) : Option NewEntry :=
  if v.refused then none
  else v.item.leaf?.map fun leaf => v.merge.read (leaf.next v.before) v.space leaf

/-- An accepted item: a space is opened, for the first time or again, a declaration becomes an
entry of its own, or a function becomes one more in the method of its name. -/
inductive Kept (v : Visit) : Prop
  | space {name : String} {span : Span} {items : List Item}
      (isSpace : v.item = .space name span items)
      (opened : v.own = pure (v.before.openSpace v.space name).2) (nothing : v.added = none)
  | entry {leaf : Leaf} {n : NewEntry} {shown : Visibility} (isLeaf : v.item = leaf.item)
      (free : takenBy v.before v.space leaf.name = none)
      (isEntry : v.added = some n) (key : n.key = (v.space, leaf.name))
      (stored : v.own.value = v.before.register n shown)
  | overload {kind : MethodKind} {decl : FunctionDecl} {method : Nat} {f : Function}
      (isFunction : v.item = (Leaf.functionDecl kind decl).item)
      (group : v.before.entryAt (kind.entity method) = some (v.space, decl.name))
      (isEntry : v.added = some (kind.entry (newMethod decl.name v.space f)))
      (joined : v.own.value = v.before.overload kind v.space method decl.name f)

/-- An item that is passed over: it changes nothing, and there is one complaint about it. -/
structure Refused (v : Visit) : Prop where
  unchanged : v.own.value = v.before
  nothing : v.added = none
  reported : ∃ kind, takenBy v.before v.space v.item.name = some kind ∧
    v.own.notes.filter Diagnostic.isRedeclaration = [⟨v.merge.path, v.item.span,
        .alreadyDeclared v.item.name kind (scopeName v.before v.space)⟩]

variable {v : Visit}

theorem own_of_space {name : String} {span : Span} {items : List Item}
    (isSpace : v.item = .space name span items) (free : v.before.lookup v.space name = none) :
    v.own = pure (v.before.openSpace v.space name).2 := by
  rw [own, isSpace, Item.alone, Merge.addItem, free]
  dsimp only
  rw [Merge.addItems]

/-- What is refused is passed over with one complaint. -/
theorem passed_over (isRefused : v.refused = true) : v.Refused := by
  have nothing : v.added = none := by rw [added, if_pos isRefused]
  obtain ⟨name, span, items, isSpace⟩ | ⟨leaf, isLeaf⟩ := v.item.cases_leaf
  · have taken : (v.before.lookup v.space name).isSome = true := by
      simpa [refused, isSpace, Item.leaf?, Item.name] using isRefused
    obtain ⟨d, found⟩ := isSome_iff_exists.1 taken
    have passed : v.own = ⟨v.before, [⟨v.merge.path, span,
        .alreadyDeclared name d.entity.describe (scopeName v.before v.space)⟩]⟩ := by
      rw [own, isSpace, Item.alone, Merge.addItem, found]
      rfl
    refine ⟨by rw [passed], nothing, d.entity.describe, ?_, ?_⟩
    · rw [isSpace, Item.name, Merge.takenBy, found]
    · rw [passed, isSpace]
      rfl
  · have refusal : (takenBy v.before v.space leaf.name).isSome = true ∧
        (leaf.group v.before v.space).isNone = true := by
      simpa [refused, isLeaf] using isRefused
    obtain ⟨kind, taken⟩ := isSome_iff_exists.1 refusal.1
    have passed : v.own = ⟨v.before, (v.merge.shown leaf).notes ++ [⟨v.merge.path, leaf.span,
        .alreadyDeclared leaf.name kind (scopeName v.before v.space)⟩]⟩ := by
      rw [own, isLeaf, leaf.alone_item]
      exact addItem_of_taken taken (isNone_iff_eq_none.1 refusal.2)
    refine ⟨by rw [passed], nothing, kind, ?_, ?_⟩
    · rw [isLeaf, leaf.name_item, taken]
    · rw [passed, filter_append, filter_isRedeclaration (v.merge.shown_reports leaf),
        isLeaf, leaf.name_item, leaf.span_item]
      rfl

/-- What is not refused is accepted, with no complaint that a name is declared already. -/
theorem accepted (made : v.before.WellMade) (isAccepted : v.refused = false) :
    v.Kept ∧ v.own.notes.filter Diagnostic.isRedeclaration = [] := by
  have what : v.added =
      v.item.leaf?.map fun leaf => v.merge.read (leaf.next v.before) v.space leaf := by
    rw [added, isAccepted, if_neg Bool.false_ne_true]
  obtain ⟨name, span, items, isSpace⟩ | ⟨leaf, isLeaf⟩ := v.item.cases_leaf
  · have free : v.before.lookup v.space name = none := by
      simpa [refused, isSpace, Item.leaf?, Item.name] using isAccepted
    have opened := own_of_space isSpace free
    refine ⟨.space isSpace opened (by rw [what, isSpace]; rfl), ?_⟩
    rw [opened]
    rfl
  · have item : v.own = Merge.addItem v.merge v.space leaf.item v.before := by
      rw [own, isLeaf, leaf.alone_item]
    have shown := filter_isRedeclaration (v.merge.shown_reports leaf)
    rw [isLeaf, leaf.leaf?_item] at what
    cases taken : Merge.takenBy v.before v.space leaf.name with
    | none =>
      obtain ⟨stored, notes⟩ := addItem_of_free taken
      refine ⟨.entry isLeaf taken what (v.merge.key_read _ _ leaf) (item ▸ stored), ?_⟩
      rw [item, notes, filter_append, shown,
        filter_isRedeclaration (v.merge.entry_reports _ _ _ leaf)]
      rfl
    | some kind =>
      have joins : (leaf.group v.before v.space).isSome = true := by
        simpa [refused, isLeaf, taken, ← isSome_iff_ne_none] using isAccepted
      obtain ⟨method, group⟩ := isSome_iff_exists.1 joins
      obtain ⟨sort, decl, rfl, found⟩ := Leaf.group_eq_some.1 group
      have joined := addItem_of_group (m := v.merge) found
      have place := (made.names.entity_iff (k := (v.space, decl.name))).1 found
      refine ⟨.overload isLeaf place (what.trans ?_) (by rw [item, joined]; rfl), ?_⟩
      · cases sort <;> rfl
      · simp only [item, joined, Noted.notes_bind, Noted.notes_pure, append_nil,
          filter_append, shown,
          filter_isRedeclaration (v.merge.inner_function decl _)]

end Visit

/-! ### The way through the files -/

namespace Merge

mutual

/-- The visits to an item and, if it is a space that is accepted, to the items inside it. -/
def visits (m : Merge) (space : Nat) : Item → Table → List Visit
  | .space name span items, t =>
    ⟨m, space, .space name span items, t⟩ ::
      if (Visit.mk m space (.space name span items) t).refused then []
      else visitsOf m (t.openSpace space name).1 items (t.openSpace space name).2
  | .classDecl decl, t => [⟨m, space, .classDecl decl, t⟩]
  | .interfaceDecl decl, t => [⟨m, space, .interfaceDecl decl, t⟩]
  | .delegateDecl decl, t => [⟨m, space, .delegateDecl decl, t⟩]
  | .coroutineDecl decl, t => [⟨m, space, .coroutineDecl decl, t⟩]
  | .variableDecl decl, t => [⟨m, space, .variableDecl decl, t⟩]
  | .functionDecl decl, t => [⟨m, space, .functionDecl decl, t⟩]
  | .nativeDecl decl, t => [⟨m, space, .nativeDecl decl, t⟩]

/-- The visits to the items of a space, in their order. -/
def visitsOf (m : Merge) (space : Nat) : List Item → Table → List Visit
  | [], _ => []
  | item :: rest, t => visits m space item t ++ visitsOf m space rest (addItem m space item t).value

end

theorem visits_leaf (m : Merge) (space : Nat) (leaf : Leaf) (t : Table) :
    m.visits space leaf.item t = [⟨m, space, leaf.item, t⟩] := by
  cases leaf with
  | functionDecl kind decl => cases kind <;> rw [Leaf.item, visits]
  | _ => rw [Leaf.item, visits]

end Merge

/-! ### Which items are visited -/

/-- An item is inside a space that is visited and accepted. -/
inductive Visit.Inside (vs : List Visit) : Merge → Nat → Item → Prop
  | intro {v : Visit} {name : String} {span : Span} {items : List Item} {item : Item}
      (visited : v ∈ vs) (accepted : v.refused = false) (isSpace : v.item = .space name span items)
      (member : item ∈ items) : Inside vs v.merge (v.before.openSpace v.space name).1 item

namespace Visit.Inside

variable {vs vs' : List Visit} {m : Merge} {space : Nat} {item : Item}

theorem mono (inside : Inside vs m space item) (sub : ∀ v ∈ vs, v ∈ vs') :
    Inside vs' m space item := by
  cases inside with
  | intro visited accepted isSpace member => exact .intro (sub _ visited) accepted isSpace member

/-- It is inside a space that is visited among the ones or among the others. -/
theorem of_append (inside : Inside (vs ++ vs') m space item) :
    Inside vs m space item ∨ Inside vs' m space item := by
  cases inside with
  | intro visited accepted isSpace member =>
    rcases mem_append.1 visited with first | later
    · exact .inl (.intro first accepted isSpace member)
    · exact .inr (.intro later accepted isSpace member)

end Visit.Inside

/-- What is inside the accepted spaces is visited. -/
def Visit.Closed (vs : List Visit) : Prop :=
  ∀ m space item, Visit.Inside vs m space item → ∃ t, ⟨m, space, item, t⟩ ∈ vs

theorem Visit.Closed.append {vs vs' : List Visit} (first : Closed vs) (later : Closed vs') :
    Closed (vs ++ vs') := by
  intro m space item inside
  rcases inside.of_append with here | there
  · obtain ⟨t, visited⟩ := first _ _ _ here
    exact ⟨t, mem_append_left _ visited⟩
  · obtain ⟨t, visited⟩ := later _ _ _ there
    exact ⟨t, mem_append_right _ visited⟩

namespace Merge

theorem mem_visits (m : Merge) (space : Nat) (item : Item) (t : Table) :
    ⟨m, space, item, t⟩ ∈ m.visits space item t := by
  cases item <;> simp [visits]

theorem mem_visitsOf (m : Merge) (space : Nat) {items : List Item} {item : Item}
    (member : item ∈ items) (t : Table) :
    ∃ t', ⟨m, space, item, t'⟩ ∈ m.visitsOf space items t := by
  induction items generalizing t with
  | nil => cases member
  | cons first rest ih =>
    rcases mem_cons.1 member with rfl | later
    · exact ⟨t, mem_append_left _ (m.mem_visits space item t)⟩
    · obtain ⟨t', visited⟩ := ih later (m.addItem space first t).value
      exact ⟨t', mem_append_right _ visited⟩

theorem closed_leaf (m : Merge) (space : Nat) (leaf : Leaf) (t : Table) :
    Visit.Closed (m.visits space leaf.item t) := by
  intro m' space' item inside
  rw [visits_leaf] at inside
  obtain ⟨visited, _, isSpace, _⟩ := inside
  rw [mem_singleton.1 visited] at isSpace
  have noLeaf := congrArg Item.leaf? isSpace
  rw [leaf.leaf?_item] at noLeaf
  cases noLeaf

mutual

theorem visits_closed (m : Merge) (space : Nat) (item : Item) (t : Table) :
    Visit.Closed (m.visits space item t) := by
  cases item with
  | space name span items =>
    have later := visitsOf_closed m (t.openSpace space name).1 items (t.openSpace space name).2
    rw [visits]
    rintro m' space' item ⟨visited, accepted, isSpace, member⟩
    rcases mem_cons.1 visited with rfl | deeper
    · cases isSpace
      obtain ⟨t', found⟩ :=
        m.mem_visitsOf (t.openSpace space name).1 member (t.openSpace space name).2
      rw [accepted, if_neg Bool.false_ne_true]
      exact ⟨t', mem_cons_of_mem _ found⟩
    · split at deeper
      · cases deeper
      · rename_i isAccepted
        obtain ⟨t', found⟩ := later _ _ _ (.intro deeper accepted isSpace member)
        rw [if_neg isAccepted]
        exact ⟨t', mem_cons_of_mem _ found⟩
  | _ =>
    exact Item.of_leaf (P := fun item => Visit.Closed (m.visits space item t))
      (m.closed_leaf space · t) rfl

theorem visitsOf_closed (m : Merge) (space : Nat) (items : List Item) (t : Table) :
    Visit.Closed (m.visitsOf space items t) := by
  cases items with
  | nil =>
    rw [visitsOf]
    rintro m' space' item ⟨visited, _, _, _⟩
    cases visited
  | cons item rest =>
    rw [visitsOf]
    exact (visits_closed m space item t).append (visitsOf_closed m space rest _)

end

mutual

/-- Nothing is visited but an item itself and what is inside accepted spaces. -/
theorem visits_placed (m : Merge) (space : Nat) (item : Item) (t : Table) :
    ∀ v ∈ m.visits space item t, (v.merge = m ∧ v.space = space ∧ v.item = item) ∨
      Visit.Inside (m.visits space item t) v.merge v.space v.item := by
  cases item with
  | space name span items =>
    have later := visitsOf_placed m (t.openSpace space name).1 items (t.openSpace space name).2
    intro v visited
    rw [visits] at visited ⊢
    rcases mem_cons.1 visited with rfl | deeper
    · exact .inl ⟨rfl, rfl, rfl⟩
    · split at deeper
      · cases deeper
      · rename_i isAccepted
        rw [if_neg isAccepted]
        rcases later v deeper with ⟨isMerge, isSpace, member⟩ | inside
        · rw [isMerge, isSpace]
          exact .inr (.intro (mem_cons_self ..) (Bool.not_eq_true _ ▸ isAccepted) rfl member)
        · exact .inr (inside.mono fun _ => mem_cons_of_mem _)
  | _ =>
    intro v visited
    rw [visits, mem_singleton] at visited
    rw [visited]
    exact .inl ⟨rfl, rfl, rfl⟩

/-- Nothing is visited but the items of a space and what is inside accepted spaces. -/
theorem visitsOf_placed (m : Merge) (space : Nat) (items : List Item) (t : Table) :
    ∀ v ∈ m.visitsOf space items t, (v.merge = m ∧ v.space = space ∧ v.item ∈ items) ∨
      Visit.Inside (m.visitsOf space items t) v.merge v.space v.item := by
  cases items with
  | nil =>
    intro v visited
    rw [visitsOf] at visited
    cases visited
  | cons item rest =>
    intro v visited
    rw [visitsOf] at visited ⊢
    rcases mem_append.1 visited with first | later
    · rcases visits_placed m space item t v first with ⟨isMerge, isSpace, isItem⟩ | inside
      · exact .inl ⟨isMerge, isSpace, isItem ▸ mem_cons_self ..⟩
      · exact .inr (inside.mono fun _ => mem_append_left _)
    · rcases visitsOf_placed m space rest _ v later with ⟨isMerge, isSpace, member⟩ | inside
      · exact .inl ⟨isMerge, isSpace, mem_cons_of_mem _ member⟩
      · exact .inr (inside.mono fun _ => mem_append_right _)

end

section Inherited

variable {P : Merge → Item → Prop}

mutual

/-- What holds of an item, and of the items of a space with it, holds of all that is visited. -/
theorem forall_visits
    (inner : ∀ {m name span items}, P m (.space name span items) → ∀ item ∈ items, P m item)
    (m : Merge) (space : Nat) (item : Item) (t : Table) (here : P m item) :
    ∀ v ∈ m.visits space item t, P v.merge v.item := by
  cases item with
  | space name span items =>
    rw [visits]
    refine forall_mem_cons.2 ⟨here, ?_⟩
    split
    · exact forall_mem_nil _
    · exact forall_visitsOf inner m _ items _ (inner here)
  | _ => exact forall_mem_singleton.2 here

theorem forall_visitsOf
    (inner : ∀ {m name span items}, P m (.space name span items) → ∀ item ∈ items, P m item)
    (m : Merge) (space : Nat) (items : List Item) (t : Table) (here : ∀ item ∈ items, P m item) :
    ∀ v ∈ m.visitsOf space items t, P v.merge v.item := by
  cases items with
  | nil =>
    rw [visitsOf]
    exact forall_mem_nil _
  | cons item rest =>
    obtain ⟨first, later⟩ := forall_mem_cons.1 here
    rw [visitsOf]
    exact forall_mem_append.2 ⟨forall_visits inner m space item t first,
      forall_visitsOf inner m space rest _ later⟩

end

end Inherited

end Merge

/-! ### What every visit keeps -/

namespace Merge

/-- Opening a space takes a step at most, and leads into a space of the table. -/
theorem openSpace_grows {space : Nat} {t : Table} {name : String} (made : t.WellMade)
    (inside : space < t.spaces.length) (free : t.lookup space name = none) :
    Grown t (t.openSpace space name).2 ∧
      (t.openSpace space name).1 < (t.openSpace space name).2.spaces.length := by
  cases known : t.childSpace space name with
  | some child =>
    rw [Table.openSpace_of_childSpace_eq_some known]
    exact ⟨.refl, made.tree.child_lt known⟩
  | none =>
    rw [Table.openSpace_of_childSpace_eq_none known]
    exact ⟨.single (.space inside free known), by simp⟩

section Run

variable {P : List Visit → Table → List Diagnostic → Prop}

/-- Every visit keeps `P` of the visits so far, of the table and of all that was reported. -/
def KeptByVisits (P : List Visit → Table → List Diagnostic → Prop) : Prop :=
  ∀ past notes (v : Visit), v.before.WellMade → v.space < v.before.spaces.length →
    P past v.before notes → P (past ++ [v]) v.own.value (notes ++ v.own.notes)

mutual

/-- What every visit keeps holds after an item and what is inside it. -/
theorem visits_run (step : KeptByVisits P) (m : Merge) (item : Item) {space : Nat} {t : Table}
    {past : List Visit} {notes : List Diagnostic} (made : t.WellMade)
    (inside : space < t.spaces.length) (start : P past t notes) :
    P (past ++ m.visits space item t) (m.addItem space item t).value
      (notes ++ (m.addItem space item t).notes) := by
  have single (leaf : Leaf) : P (past ++ m.visits space leaf.item t)
      (m.addItem space leaf.item t).value (notes ++ (m.addItem space leaf.item t).notes) := by
    have after := step past notes ⟨m, space, leaf.item, t⟩ made inside start
    rwa [Visit.own, leaf.alone_item, ← visits_leaf] at after
  cases item with
  | space name span items =>
    have first := step past notes ⟨m, space, .space name span items, t⟩ made inside start
    cases free : t.lookup space name with
    | some d =>
      have isRefused : (Visit.mk m space (.space name span items) t).refused = true := by
        simp [Visit.refused, Item.leaf?, Item.name, free]
      have same : m.addItem space (.space name span items) t =
          (Visit.mk m space (.space name span items) t).own := by
        rw [Visit.own, Item.alone, addItem, addItem, free]
      rwa [visits, if_pos isRefused, same]
    | none =>
      have isAccepted : ¬(Visit.mk m space (.space name span items) t).refused = true := by
        simp [Visit.refused, Item.leaf?, Item.name, free]
      obtain ⟨grown, inside'⟩ := openSpace_grows made inside free
      rw [Visit.own_of_space rfl free, Noted.value_pure, Noted.notes_pure, append_nil] at first
      have later := visitsOf_run step m items (grown.keeps Grows.wellMade made) inside' first
      rw [visits, if_neg isAccepted, addItem, free]
      simpa using later
  | _ =>
    exact Item.of_leaf (P := fun item => P (past ++ m.visits space item t)
      (m.addItem space item t).value (notes ++ (m.addItem space item t).notes)) single rfl

/-- What every visit keeps holds after the items of a space. -/
theorem visitsOf_run (step : KeptByVisits P) (m : Merge) (items : List Item) {space : Nat}
    {t : Table} {past : List Visit} {notes : List Diagnostic} (made : t.WellMade)
    (inside : space < t.spaces.length) (start : P past t notes) :
    P (past ++ m.visitsOf space items t) (m.addItems space items t).value
      (notes ++ (m.addItems space items t).notes) := by
  cases items with
  | nil => simpa [visitsOf, addItems] using start
  | cons item rest =>
    have grown := addItem_grows m item made.tree inside
    have made' := grown.keeps Grows.wellMade made
    have inside' : space < (addItem m space item t).value.spaces.length :=
      grown.keeps (P := fun t => space < t.spaces.length)
        (fun step held => lt_of_lt_of_le held step.length_spaces_le) inside
    have first := visits_run step m item made inside start
    have later := visitsOf_run step m rest made' inside' first
    rw [visitsOf, addItems]
    simpa using later

end

end Run

end Merge

namespace Draft

variable {files : List (SourceFile × Outline)}

/-- The visits to the items of files, from a given number on. -/
def visitsFrom : Nat → List (SourceFile × Outline) → Table → List Visit
  | _, [], _ => []
  | index, (file, outline) :: rest, t =>
    visitsOf ⟨index, file.path⟩ Table.rootSpace outline.items t ++ visitsFrom (index + 1) rest
        (addItems ⟨index, file.path⟩ Table.rootSpace outline.items t).value

/-- The items that merging visits, in their order. -/
def visits (name : String) (files : List (SourceFile × Outline)) : List Visit :=
  visitsFrom 0 files (.empty name .here)

/-- An item that merging has to visit: it is at the root of a file, or inside a space that is
visited and accepted. -/
inductive Due (files : List (SourceFile × Outline)) (vs : List Visit) : Merge → Nat → Item → Prop
  | root {index : Nat} {file : SourceFile} {outline : Outline} {item : Item}
      (isFile : files[index]? = some (file, outline)) (member : item ∈ outline.items) :
      Due files vs ⟨index, file.path⟩ Table.rootSpace item
  | inside {m : Merge} {space : Nat} {item : Item} (inside : Visit.Inside vs m space item) :
      Due files vs m space item

/-- The items of every file are visited. -/
theorem mem_visitsFrom {i : Nat} {file : SourceFile}
    {outline : Outline} {item : Item} (isFile : files[i]? = some (file, outline))
    (member : item ∈ outline.items) (index : Nat) (t : Table) :
    ∃ t', ⟨⟨index + i, file.path⟩, Table.rootSpace, item, t'⟩ ∈ visitsFrom index files t := by
  induction files generalizing i index t with
  | nil => cases isFile
  | cons head rest ih =>
    cases i with
    | zero =>
      cases isFile
      obtain ⟨t', visited⟩ := mem_visitsOf ⟨index, file.path⟩ Table.rootSpace member t
      exact ⟨t', mem_append_left _ visited⟩
    | succ i =>
      obtain ⟨t', visited⟩ := ih isFile (index + 1) _
      rw [Nat.add_right_comm] at visited
      exact ⟨t', mem_append_right _ visited⟩

theorem visitsFrom_closed (index : Nat) (files : List (SourceFile × Outline)) (t : Table) :
    Visit.Closed (visitsFrom index files t) := by
  induction files generalizing index t with
  | nil =>
    rintro m space item ⟨visited, _, _, _⟩
    cases visited
  | cons head rest ih => exact (visitsOf_closed _ _ _ t).append (ih _ _)

/-- Nothing is visited but the items of the files and what is inside accepted spaces. -/
theorem visitsFrom_placed (index : Nat) (files : List (SourceFile × Outline)) (t : Table) :
    ∀ v ∈ visitsFrom index files t,
      (∃ i file outline, files[i]? = some (file, outline) ∧ v.merge = ⟨index + i, file.path⟩ ∧
        v.space = Table.rootSpace ∧ v.item ∈ outline.items) ∨
      Visit.Inside (visitsFrom index files t) v.merge v.space v.item := by
  induction files generalizing index t with
  | nil => exact forall_mem_nil _
  | cons head rest ih =>
    intro v visited
    rcases mem_append.1 visited with first | later
    · rcases visitsOf_placed _ _ _ _ v first with ⟨isMerge, isRoot, member⟩ | inside
      · exact .inl ⟨0, head.1, head.2, rfl, isMerge, isRoot, member⟩
      · exact .inr (inside.mono fun _ => mem_append_left _)
    · rcases ih _ _ v later with ⟨i, file, outline, isFile, isMerge, rest⟩ | inside
      · rw [Nat.add_right_comm] at isMerge
        exact .inl ⟨i + 1, file, outline, isFile, isMerge, rest⟩
      · exact .inr (inside.mono fun _ => mem_append_right _)

/-- Merging visits what it has to visit, and nothing else. -/
theorem visited_iff_due (name : String) (files : List (SourceFile × Outline)) (m : Merge)
    (space : Nat) (item : Item) :
    (∃ t, ⟨m, space, item, t⟩ ∈ visits name files) ↔
      Due files (visits name files) m space item := by
  constructor
  · rintro ⟨t, visited⟩
    rcases visitsFrom_placed 0 files _ _ visited with ⟨i, file, outline, isFile, isMerge, isRoot,
      member⟩ | inside
    · cases isMerge
      cases isRoot
      rw [Nat.zero_add]
      exact .root isFile member
    · exact .inside inside
  · intro due
    cases due with
    | @root index file outline item isFile member =>
      have visited := mem_visitsFrom isFile member 0 (.empty name .here)
      rwa [Nat.zero_add] at visited
    | inside inside => exact visitsFrom_closed 0 files _ _ _ _ inside

/-- What holds of the items of the files, and of the items of a space with it, holds of all that is
visited. -/
theorem forall_visits {P : Merge → Item → Prop} (name : String)
    (roots : ∀ {i file outline}, files[i]? = some (file, outline) → ∀ item ∈ outline.items,
      P ⟨i, file.path⟩ item)
    (inner : ∀ {m name span items}, P m (.space name span items) → ∀ item ∈ items, P m item) :
    ∀ v ∈ visits name files, P v.merge v.item := by
  have visited (index : Nat) (rest : List (SourceFile × Outline)) (t : Table)
      (later : ∀ i, files[index + i]? = rest[i]?) :
      ∀ v ∈ visitsFrom index rest t, P v.merge v.item := by
    induction rest generalizing index t with
    | nil => exact forall_mem_nil _
    | cons p rest ih =>
      refine forall_mem_append.2 ⟨?_, ih (index + 1) _ fun i => ?_⟩
      · exact forall_visitsOf (P := P) inner ⟨index, p.1.path⟩ _ _ _ (roots (later 0))
      · rw [Nat.add_right_comm, Nat.add_assoc, later (i + 1), getElem?_cons_succ]
  exact visited 0 files _ fun i => by rw [Nat.zero_add]

-- A function joins the method of its name.  A coroutine and a space of that name are passed over,
-- and what is inside that space is not visited.
example :
    let run : FunctionDecl := ⟨none, "run", ⟨1, 1, 4⟩, [], [], none⟩
    let walk : CoroutineDecl := ⟨none, "run", ⟨3, 1, 4⟩, []⟩
    let items : List Item := [.functionDecl run, .functionDecl run, .coroutineDecl walk,
      .space "run" ⟨4, 1, 4⟩ [.functionDecl run], .space "yard" ⟨5, 1, 5⟩ [.functionDecl run]]
    (visits "hall" [(⟨"hall", ""⟩, ⟨[], items⟩)]).map Visit.refused =
      [false, false, true, true, false, false] := by
  decide

variable {P : List Visit → Table → List Diagnostic → Prop}

/-- What every visit keeps holds after files. -/
theorem visitsFrom_run (step : Merge.KeptByVisits P) (index : Nat)
    (files : List (SourceFile × Outline)) (d : Draft) (made : d.table.WellMade)
    {past : List Visit} {notes : List Diagnostic} (start : P past d.table notes) :
    P (past ++ visitsFrom index files d.table) (mergeFiles index files d).value.table
      (notes ++ (mergeFiles index files d).notes) := by
  induction files generalizing index d past notes with
  | nil => simpa [visitsFrom, mergeFiles] using start
  | cons file rest ih =>
    have inside := made.tree.root_lt
    have made' := (addItems_grows ⟨index, file.1.path⟩ file.2.items made.tree
      inside).keeps Grows.wellMade made
    have first := visitsOf_run step ⟨index, file.1.path⟩ file.2.items made inside start
    have later := ih (index + 1)
      ⟨(addItems ⟨index, file.1.path⟩ Table.rootSpace file.2.items d.table).value,
        d.files ++ [⟨file.1.path, file.2.imports, [],
          (Text.lines file.1.text.toList).length⟩]⟩ made' first
    rw [visitsFrom, mergeFiles]
    simpa using later

/-- What every visit keeps, and what holds of an empty table, holds of a merged one. -/
theorem visits_run (step : Merge.KeptByVisits P) (name : String)
    (files : List (SourceFile × Outline)) (start : P [] (.empty name .here) []) :
    P (visits name files) (merge name files).value.table (merge name files).notes :=
  visitsFrom_run step 0 files ⟨.empty name .here, []⟩ (wellMade_empty name) start

end Draft

end Linkage
