/-
Purpose: Merging loses nothing and adds nothing twice.
-/
import Linkage.Proofs.Ledger.Visits

/-!
A merged table is described by the entries that were added at the visits.  Opening a space adds
none, an entry under a free name comes last among its kind, and a function that joins a method comes
last in it; since nothing else happens at a visit, the table holds the entries in the order of the
files, and what is missing from it has been complained about.
-/

namespace Linkage

open List Option NewEntry

variable {kind : MethodKind} {n : NewEntry} {α β : Type}

/-! ### Entries by their kind -/

namespace NewEntry

def classDef? : NewEntry → Option ClassDef
  | classDef c => some c
  | _ => none

def interface? : NewEntry → Option InterfaceDef
  | interface i => some i
  | _ => none

def delegate? : NewEntry → Option DelegateDef
  | delegate d => some d
  | _ => none

def coroutine? : NewEntry → Option CoroutineDef
  | coroutine c => some c
  | _ => none

def global? : NewEntry → Option VariableDef
  | global v => some v
  | _ => none

end NewEntry

namespace MethodKind

/-- The methods of this kind. -/
def list (t : Table) : MethodKind → List Method
  | global => t.methods
  | native => t.natives

/-- The method of an entry of this kind. -/
def of? : MethodKind → NewEntry → Option Method
  | global, .method m => some m
  | native, .native m => some m
  | _, _ => none

theorem key_of_of? {m : Method} (isMethod : kind.of? n = some m) : m.key = n.key := by
  cases kind <;> cases n <;> cases isMethod <;> rfl

theorem entryAt_entity (t : Table) (kind : MethodKind) (i : Nat) :
    t.entryAt (kind.entity i) = (kind.list t)[i]?.map Method.key := by
  cases kind <;> rfl

theorem list_register (t : Table) (n : NewEntry) (v : Visibility) (kind : MethodKind) :
    kind.list (t.register n v) = kind.list t ++ (kind.of? n).toList := by
  cases kind <;> cases n <;> simp [list, of?, Table.register, Table.declare, Table.modifySpace,
    addTo]

@[simp] theorem of?_entry (kind : MethodKind) (m : Method) : kind.of? (kind.entry m) = some m := by
  cases kind <;> rfl

theorem list_overload (t : Table) (kind : MethodKind) (space method : Nat) (name : String)
    (f : Function) :
    kind.list (t.overload kind space method name f) =
      (kind.list t).modify method (Merge.appendFunction f) := by
  cases kind <;> rfl

theorem list_overload_of_ne {other : MethodKind} (different : other ≠ kind) (t : Table)
    (space method : Nat) (name : String) (f : Function) :
    other.list (t.overload kind space method name f) = other.list t ∧
      ∀ m, other.of? (kind.entry m) = none := by
  cases kind <;> cases other <;> first | exact absurd rfl different | exact ⟨rfl, fun _ => rfl⟩

end MethodKind

/-! ### What a table holds -/

/-- The table holds these entries and no others, each kind in the order of the entries.  Functions
of one space and name are in one method, which stands where the first of them does. -/
structure Table.Holds (t : Table) (entries : List NewEntry) : Prop where
  classes : t.classes = entries.filterMap classDef?
  interfaces : t.interfaces = entries.filterMap interface?
  delegates : t.delegates = entries.filterMap delegate?
  coroutines : t.coroutines = entries.filterMap coroutine?
  globals : t.globals = entries.filterMap global?
  methods : ∀ kind : MethodKind, kind.list t = Method.gather (entries.filterMap kind.of?)

theorem filterMap_append_singleton (f : α → Option β) (xs : List α) (x : α) :
    (xs ++ [x]).filterMap f = xs.filterMap f ++ (f x).toList := by
  cases image : f x <;> simp [image]

/-- If every element contributes one if it is picked and none otherwise, as many come together as
were picked. -/
theorem countP_flatMap_of_single {f : α → List β} {p : β → Bool} {q : α → Bool}
    {xs : List α} (each : ∀ a ∈ xs, (f a).countP p = if q a then 1 else 0) :
    (xs.flatMap f).countP p = xs.countP q := by
  induction xs with
  | nil => rfl
  | cons a rest ih =>
    rw [flatMap_cons, countP_append, countP_cons, each a (mem_cons_self ..),
      ih fun b member => each b (mem_cons_of_mem _ member), Nat.add_comm]

namespace Table.Holds

variable {t : Table} {entries : List NewEntry}

theorem nil (name : String) : (Table.empty name .here).Holds [] := by
  constructor
  case methods => intro kind; cases kind <;> rfl
  all_goals rfl

theorem openSpace (holds : t.Holds entries) (space : Nat) (name : String) :
    (t.openSpace space name).2.Holds entries := by
  unfold Table.openSpace
  split
  · exact holds
  · refine { holds with methods := fun kind => ?_ }
    rw [← holds.methods kind]
    cases kind <;> rfl

/-- An entry under a free name comes last among its kind. -/
theorem register (holds : t.Holds entries) (names : Faithful .here t.find t.entryAt)
    (free : t.find n.key = none) (v : Visibility) : (t.register n v).Holds (entries ++ [n]) := by
  have new {kind : MethodKind} {m : Method} (isMethod : kind.of? n = some m) :
      ∀ old ∈ Method.gather (entries.filterMap kind.of?), old.key ≠ m.key := by
    rw [← holds.methods kind, MethodKind.key_of_of? isMethod]
    intro old member same
    obtain ⟨i, atIndex⟩ := mem_iff_getElem?.1 member
    have stands : t.entryAt (kind.entity i) = some n.key := by
      rw [kind.entryAt_entity, atIndex, map_some, same]
    obtain ⟨d, found, _⟩ := names.complete stands
    rw [free] at found
    cases found
  constructor
  case methods =>
    intro kind
    rw [kind.list_register, filterMap_append_singleton, holds.methods kind]
    cases isMethod : kind.of? n with
    | none => simp
    | some m => exact (Method.gather_append_of_new (new isMethod)).symm
  all_goals
    rw [filterMap_append_singleton]
    cases n <;>
      simp [Table.register, Table.declare, Table.modifySpace, addTo, classDef?,
        interface?, delegate?, coroutine?, global?,
        holds.classes, holds.interfaces, holds.delegates, holds.coroutines, holds.globals]

/-- A function that joins a method comes last in it. -/
theorem overload (holds : t.Holds entries) {space method : Nat} {name : String}
    (group : t.entryAt (kind.entity method) = some (space, name)) (f : Function) :
    (t.overload kind space method name f).Holds
      (entries ++ [kind.entry (Merge.newMethod name space f)]) := by
  rw [kind.entryAt_entity, holds.methods kind] at group
  obtain ⟨old, found, isKey⟩ := map_eq_some_iff.1 group
  have same : old.key = (Merge.newMethod name space f).key := isKey
  constructor
  case methods =>
    intro other
    rw [filterMap_append_singleton]
    by_cases isKind : other = kind
    · subst isKind
      rw [other.list_overload, holds.methods other, other.of?_entry, toList_some,
        Method.gather_append_of_old found same]
      rfl
    · obtain ⟨unchanged, nothing⟩ :=
        MethodKind.list_overload_of_ne isKind t space method name f
      rw [unchanged, nothing, toList_none, append_nil, holds.methods other]
  all_goals
    rw [filterMap_append_singleton]
    cases kind <;>
      simp [Table.overload, Table.modifySpace, MethodKind.append, MethodKind.entry,
        classDef?, interface?, delegate?, coroutine?,
        global?, holds.classes, holds.interfaces, holds.delegates, holds.coroutines,
        holds.globals]

/-- A visit adds the entry that it reads, if it reads one. -/
theorem visit {v : Visit} (holds : v.before.Holds entries) (made : v.before.WellMade) :
    v.own.value.Holds (entries ++ v.added.toList) := by
  cases isRefused : v.refused with
  | true =>
    have passed := v.passed_over isRefused
    rw [passed.unchanged, passed.nothing, toList_none, append_nil]
    exact holds
  | false =>
    cases (v.accepted made isRefused).1 with
    | @space name span items isSpace opened nothing =>
      rw [opened, nothing, toList_none, append_nil]
      exact holds.openSpace v.space name
    | @entry leaf n shown isLeaf free isEntry key stored =>
      rw [stored, isEntry]
      refine holds.register made.names ?_ shown
      rw [key]
      exact (Merge.takenBy_eq_none.1 free).1
    | @overload kind decl method f isFunction group isEntry joined =>
      rw [joined, isEntry]
      exact holds.overload group f

end Table.Holds

/-! ### The whole way -/

/-- Visits that lead from one table to another, each beginning where the one before it ended. -/
inductive Visit.Leads (start : Table) : List Visit → Table → Prop
  | nil : Leads start [] start
  | snoc {past : List Visit} {v : Visit} (before : Leads start past v.before) :
      Leads start (past ++ [v]) v.own.value

namespace Visit

variable {v : Visit}

/-- One complaint for every refused item, and none for the others. -/
theorem countP_isRedeclaration (made : v.before.WellMade) :
    v.own.notes.countP Diagnostic.isRedeclaration = if v.refused then 1 else 0 := by
  rw [countP_eq_length_filter]
  cases isRefused : v.refused with
  | true =>
    obtain ⟨kind, _, once⟩ := (v.passed_over isRefused).reported
    rw [once]
    rfl
  | false =>
    rw [(v.accepted made isRefused).2]
    rfl

/-- A class or an interface has no method to join, so it is accepted only under a free name. -/
theorem free_of_accepted (leaf : Leaf) (isLeaf : v.item = leaf.item)
    (noFunction : leaf.joins = none) (isAccepted : v.refused = false) :
    Merge.takenBy v.before v.space leaf.name = none := by
  have noGroup : leaf.group v.before v.space = none := by
    simp [Leaf.group, noFunction]
  simpa [refused, isLeaf, noGroup] using isAccepted

/-- The entry and the complaints of a declaration under a free name. -/
theorem read_of_accepted (leaf : Leaf) (isLeaf : v.item = leaf.item)
    (noFunction : leaf.joins = none) (isAccepted : v.refused = false) :
    v.added = some (v.merge.read (leaf.next v.before) v.space leaf) ∧
      v.own.notes = (v.merge.shown leaf).notes ++
        (v.merge.entry (v.merge.shown leaf).value (leaf.next v.before) v.space leaf).notes := by
  constructor
  · rw [added, isAccepted, if_neg Bool.false_ne_true, isLeaf, leaf.leaf?_item, map_some]
  · rw [own, isLeaf, leaf.alone_item]
    exact (Merge.addItem_of_free (free_of_accepted leaf isLeaf noFunction isAccepted)).2

/-- Every member of an accepted class is accounted for. -/
theorem class_accounts {decl : ClassDecl} (isClass : v.item = .classDecl decl)
    (isAccepted : v.refused = false) :
    ∃ (c : ClassDef) (s : Merge.Sorting), v.added = some (.classDef c) ∧
      s.Accounts v.merge decl c v.own.notes := by
  obtain ⟨read, notes⟩ := read_of_accepted (.classDecl decl) isClass rfl isAccepted
  obtain ⟨s, accounts⟩ := v.merge.classEntry_accounts (v.merge.shown (.classDecl decl)).value
    v.before.classes.length v.space decl
  refine ⟨_, s, read, { accounts with notes := ?_ }⟩
  have shown : (v.merge.shown (.classDecl decl)).notes.filter Diagnostic.isMemberClash = [] :=
    Noted.Reports.filter_eq_nil ((v.merge.spaceVisibility_reports decl.visibility decl.span).imp
      fun d isVisibility => by simp [Diagnostic.isMemberClash, isVisibility])
  rw [notes, filter_append, shown, Merge.entry, Noted.notes_map]
  exact accounts.notes

theorem interface_keeps {decl : InterfaceDecl} (isInterface : v.item = .interfaceDecl decl)
    (isAccepted : v.refused = false) :
    ∃ i : InterfaceDef, v.added = some (.interface i) ∧
      i.methods = Merge.methodsOf v.space v.merge.interfaceFunction decl.functions := by
  obtain ⟨read, _⟩ := read_of_accepted (.interfaceDecl decl) isInterface rfl isAccepted
  exact ⟨_, read, v.merge.methods_interfaceEntry _ _ _ decl⟩

end Visit

namespace Draft

/-- The state of merging after some visits. -/
structure Visited (name : String) (past : List Visit) (t : Table) (notes : List Diagnostic) :
    Prop where
  leads : Visit.Leads (.empty name .here) past t
  notes : notes = past.flatMap fun v => v.own.notes
  made : ∀ v ∈ past, v.before.WellMade
  holds : t.Holds (past.filterMap Visit.added)

theorem visited_step (name : String) : Merge.KeptByVisits (Visited name) := by
  intro past notes v made inside visited
  refine ⟨.snoc visited.leads, ?_, ?_, ?_⟩
  · simp [visited.notes]
  · exact forall_mem_append.2 ⟨visited.made, by simpa using made⟩
  · rw [filterMap_append_singleton]
    exact visited.holds.visit made

theorem visited (name : String) (files : List (SourceFile × Outline)) :
    Visited name (visits name files) (Draft.merge name files).value.table
      (Draft.merge name files).notes :=
  visits_run (visited_step name) name files
    ⟨.nil, rfl, forall_mem_nil _, .nil name⟩

/-- Merging accounts for all that it visits. -/
structure Conserves (name : String) (files : List (SourceFile × Outline)) (visits : List Visit)
    (merged : Reported Draft) : Prop where
  /-- The items at the roots of the files and inside accepted spaces are visited, and no others. -/
  due : ∀ m space item, (∃ t, ⟨m, space, item, t⟩ ∈ visits) ↔ Due files visits m space item
  /-- One visit after the other leads from the empty table to the merged one. -/
  leads : Visit.Leads (.empty name .here) visits merged.value.table
  /-- What is reported is what is reported at the visits. -/
  notes : merged.notes = visits.flatMap fun v => v.own.notes
  /-- An item is accepted, and its name is not complained about. -/
  accepted : ∀ v ∈ visits, v.refused = false →
    v.Kept ∧ v.own.notes.filter Diagnostic.isRedeclaration = []
  /-- Or it is passed over, with one complaint at its place. -/
  refused : ∀ v ∈ visits, v.refused = true → v.Refused
  /-- There is one complaint for each item that is passed over. -/
  count : merged.notes.countP Diagnostic.isRedeclaration = visits.countP Visit.refused
  /-- Every member of an accepted class is stored or complained about. -/
  classes : ∀ v ∈ visits, v.refused = false → ∀ decl, v.item = .classDecl decl →
    ∃ (c : ClassDef) (s : Merge.Sorting), v.added = some (.classDef c) ∧
      s.Accounts v.merge decl c v.own.notes
  /-- Every function of an accepted interface is stored. -/
  interfaces : ∀ v ∈ visits, v.refused = false → ∀ decl, v.item = .interfaceDecl decl →
    ∃ i : InterfaceDef, v.added = some (.interface i) ∧
      i.methods = Merge.methodsOf v.space v.merge.interfaceFunction decl.functions
  /-- The merged table holds what was added at the visits, each kind in their order. -/
  holds : merged.value.table.Holds (visits.filterMap Visit.added)

/-- Merging loses nothing and adds nothing twice. -/
theorem merge_conserves (name : String) (files : List (SourceFile × Outline)) :
    Conserves name files (visits name files) (Draft.merge name files) := by
  have whole := visited name files
  refine
    { due := visited_iff_due name files
      leads := whole.leads, notes := whole.notes, holds := whole.holds
      accepted := fun v member isAccepted => v.accepted (whole.made v member) isAccepted
      refused := fun v _ isRefused => v.passed_over isRefused
      count := ?_
      classes := fun v _ isAccepted decl isClass => v.class_accounts isClass isAccepted
      interfaces := fun v _ isAccepted decl isInterface =>
        v.interface_keeps isInterface isAccepted }
  rw [whole.notes]
  exact countP_flatMap_of_single fun v member => v.countP_isRedeclaration (whole.made v member)

end Draft

end Linkage
