/-
Purpose: The steps by which a table grows while files are merged into it, and what every
  step keeps.
-/
import Linkage.Proofs.Merge.Entries
import Mathlib.Logic.Relation

namespace Linkage

open List Table

/-! ### Steps -/

/-- One step of merging: a space is opened, an entry is added under a free name, or a
function joins the method of its name. -/
inductive Grows (t : Table) : Table → Prop
  | space {parent : Nat} {name : String} (inside : parent < t.spaces.length)
      (free : t.lookup parent name = none) (unknown : t.childSpace parent name = none) :
      Grows t (t.withChild parent name)
  | entry {n : NewEntry} {v : Visibility} (inside : n.key.1 < t.spaces.length)
      (free : Merge.takenBy t n.key.1 n.key.2 = none) (fresh : n.Fresh t)
      (shown : n.visibilities = [v]) : Grows t (t.register n v)
  | overload (kind : MethodKind) {space method : Nat} {name : String} {f : Function}
      (fresh : f.Fresh)
      (group : (t.lookup space name).map Declaration.entity = some (kind.entity method)) :
      Grows t (t.overload kind space method name f)

/-- Some steps of merging. -/
abbrev Grown : Table → Table → Prop := Relation.ReflTransGen Grows

namespace Grows

variable {t t' : Table}

section

variable (step : Grows t t')
include step

theorem length_spaces_le : t.spaces.length ≤ t'.spaces.length := by
  cases step with
  | space inside free unknown => simp
  | entry inside free fresh shown => simp [Table.register, Table.declare]
  | overload kind fresh group => simp [Table.overload]

theorem tree (tree : t.TreeShaped) : t'.TreeShaped := by
  cases step with
  | space inside free unknown => exact tree.withChild inside _
  | @entry n v inside free fresh shown =>
    have same : (n.addTo t).TreeShaped := tree.of_frames (by rw [NewEntry.spaces_addTo])
    exact same.modifySpace fun _ => by rfl
  | @overload kind space method name f fresh group =>
    have same : (kind.append t method f).TreeShaped :=
      tree.of_frames (by rw [MethodKind.spaces_append])
    exact same.modifySpace fun _ => by rfl

/-- Names and entries stay together. -/
theorem names (names : Faithful .here t.find t.entryAt) : Faithful .here t'.find t'.entryAt := by
  cases step with
  | @space parent name inside free unknown =>
    refine names.congr (fun key => ?_) fun e => ?_
    · rw [find_withChild inside]
    · exact entryAt_modifySpace _ _ _ _
  | @entry n v inside free fresh shown =>
    have found := (Merge.takenBy_eq_none.1 free).1
    refine names.insert found (n.entryAt_entity t) (n.find_register inside) fun e => ?_
    rw [Table.register, Table.declare, entryAt_modifySpace, n.entryAt_addTo]
  | @overload kind space method name f fresh group =>
    refine names.congr (fun key => ?_) fun e => ?_
    · rw [find_overload]
      split
      · rw [Option.map_map]
        rfl
      · rfl
    · rw [Table.overload, entryAt_modifySpace, kind.entryAt_append]

/-- What is declared stays as visible as the widest of what it comes with. -/
theorem shown (names : Faithful .here t.find t.entryAt)
    (shown : Shown t.find t.visibilities) : Shown t'.find t'.visibilities := by
  cases step with
  | @space parent name inside free unknown =>
    refine ⟨fun {key d} found => ?_⟩
    rw [find_withChild inside] at found
    exact shown.widest found
  | @entry n v inside free fresh own =>
    have widest : v.IsWidest n.visibilities := by
      rw [own]
      exact .singleton v
    refine shown.insert names (n.entryAt_entity t) (n.find_register inside) widest fun e => ?_
    rw [Table.register, Table.declare, visibilities_modifySpace, n.visibilities_addTo]
  | @overload kind space method name f fresh group =>
    obtain ⟨d, stored, isMethod⟩ := Option.map_eq_some_iff.1 group
    have inside : method < kind.count t :=
      MethodKind.lt_count_of_entryAt (isMethod ▸ (names.sound (k := (space, name)) stored).2)
    refine shown.widen names (k := (space, name)) stored
      (t.find_overload kind space method name f) fun e => ?_
    rw [isMethod, Table.overload]
    exact MethodKind.visibilities_append inside f e

/-- Names of spaces and names of declarations stay apart. -/
theorem apart (apart : t.Apart) : t'.Apart := by
  intro space' name'
  cases step with
  | @space parent name inside free unknown =>
    rw [childSpace_withChild inside]
    show (t.withChild parent name).find (space', name') = none ∨ _
    rw [find_withChild inside]
    split
    · rename_i new
      exact .inl (new.1 ▸ new.2 ▸ free)
    · exact apart space' name'
  | @entry n v inside free fresh own =>
    rw [n.childSpace_register]
    show (t.register n v).find (space', name') = none ∨ _
    rw [n.find_register inside]
    split
    · rename_i new
      obtain ⟨rfl, rfl⟩ := Prod.mk.inj new
      exact .inr (Merge.takenBy_eq_none.1 free).2
    · exact apart space' name'
  | @overload kind space method name f fresh group =>
    rw [childSpace_overload]
    show (t.overload kind space method name f).find (space', name') = none ∨ _
    rw [find_overload]
    split
    · rw [Option.map_eq_none_iff]
      exact apart space' name'
    · exact apart space' name'

/-- A table from source stays one. -/
theorem wellMade (made : t.WellMade) : t'.WellMade := by
  have tree := step.tree made.tree
  have apart := step.apart made.apart
  have names := step.names made.names
  have shown := step.shown made.names made.shown
  cases step with
  | space inside free unknown => exact { made with tree, apart, names, shown }
  | @entry n v inside free fresh shown =>
    cases n with
    | classDef c =>
      refine { made with tree, apart, names, shown, classes := ?_ }
      exact forall_getElem?_append_singleton made.classes fresh.1
    | interface d =>
      refine { made with tree, apart, names, shown, interfaces := ?_ }
      exact forall_getElem?_append_singleton made.interfaces fresh.1
    | delegate d =>
      refine { made with tree, apart, names, shown, delegates := ?_ }
      exact forall_mem_append.2 ⟨made.delegates, by simpa using fresh.1⟩
    | coroutine c =>
      refine { made with tree, apart, names, shown, coroutines := ?_ }
      exact forall_mem_append.2 ⟨made.coroutines, by simpa using fresh.1⟩
    | global v =>
      refine { made with tree, apart, names, shown, globals := ?_ }
      exact forall_mem_append.2 ⟨made.globals, by simpa using fresh.1⟩
    | method m =>
      refine { made with tree, apart, names, shown, methods := ?_ }
      exact forall_mem_append.2 ⟨made.methods, by simpa using fresh.sourced⟩
    | native m =>
      refine { made with tree, apart, names, shown, natives := ?_ }
      exact forall_mem_append.2 ⟨made.natives, by simpa using fresh.sourced⟩
  | @overload kind space method name f fresh group =>
    have joins (m : Method) (sourced : m.Sourced) : (Merge.appendFunction f m).Sourced :=
      forall_mem_append.2 ⟨sourced, by simpa using fresh.source⟩
    cases kind with
    | global =>
      refine { made with tree, apart, names, shown, methods := ?_ }
      exact forall_mem_modify joins made.methods method
    | native =>
      refine { made with tree, apart, names, shown, natives := ?_ }
      exact forall_mem_modify joins made.natives method

/-- Types stay open. -/
theorem settled (settled : t.Settled IsOpen) : t'.Settled IsOpen := by
  cases step with
  | space inside free unknown => exact { settled with }
  | @entry n v inside free fresh shown =>
    cases n with
    | classDef c =>
      refine { settled with classes := ?_ }
      exact forall_mem_append.2 ⟨settled.classes, by simpa using fresh.2⟩
    | interface d =>
      refine { settled with interfaces := ?_ }
      exact forall_mem_append.2 ⟨settled.interfaces, by simpa using fresh.2⟩
    | delegate d =>
      refine { settled with delegates := ?_ }
      exact forall_mem_append.2 ⟨settled.delegates, by simpa using fresh.2⟩
    | coroutine c =>
      refine { settled with coroutines := ?_ }
      exact forall_mem_append.2 ⟨settled.coroutines, by simpa using fresh.2⟩
    | global v =>
      refine { settled with globals := ?_ }
      exact forall_mem_append.2 ⟨settled.globals, by simpa using fresh.2⟩
    | method m =>
      refine { settled with methods := ?_ }
      exact forall_mem_append.2 ⟨settled.methods, by simpa using fresh.settled⟩
    | native m =>
      refine { settled with natives := ?_ }
      exact forall_mem_append.2 ⟨settled.natives, by simpa using fresh.settled⟩
  | @overload kind space method name f fresh group =>
    have joins (m : Method) (held : m.Settled IsOpen) :
        (Merge.appendFunction f m).Settled IsOpen :=
      forall_mem_append.2 ⟨held, by simpa using fresh.types⟩
    cases kind with
    | global =>
      refine { settled with methods := ?_ }
      exact forall_mem_modify joins settled.methods method
    | native =>
      refine { settled with natives := ?_ }
      exact forall_mem_modify joins settled.natives method

end

end Grows

/-- What every step keeps holds after some steps. -/
theorem Grown.keeps {P : Table → Prop} (step : ∀ {t t'}, Grows t t' → P t → P t') {t t' : Table}
    (grown : Grown t t') (start : P t) : P t' := by
  induction grown with
  | refl => exact start
  | tail _ last ih => exact step last ih

/-! ### Merging takes such steps -/

namespace Merge

variable {t : Table}

/-- A name that is taken changes nothing. -/
theorem register_grows {m : Merge} {space : Nat} {name : String} {span : Span}
    {add : Reported Table} (free : takenBy t space name = none → Grows t add.value) :
    Grown t (m.register space name span t add).value := by
  unfold register
  split
  · rename_i isFree
    exact .single (free isFree)
  · exact .refl

theorem fresh_classEntry (m : Merge) (v : Visibility) (index space : Nat) (decl : ClassDecl) :
    (m.classEntry v index space decl).value.WellMade index ∧
      (m.classEntry v index space decl).value.Settled IsOpen := by
  have members := m.classMembers_ofClass decl.name index space decl.fields decl.functions
  have constructors : ∀ f ∈ (Noted.traverse
      (fun f => m.function f (memberVisibility f.visibility)) decl.constructors).value,
      f.Fresh := by
    intro f member
    rw [Noted.value_traverse] at member
    obtain ⟨source, _, rfl⟩ := mem_map.1 member
    exact m.fresh_function _ _
  constructor
  · exact
      { kind := rfl, source := rfl, names := members.names, shown := members.shown
        fields := fun v member => (members.fields v member).1
        methods := fun method member => (members.methods method member).sourced
        constructors := fun f member => (constructors f member).source }
  · exact
      { parent := .inr rfl, canBeParent := rfl
        interfaces := forall_mem_nil _
        fields := fun v member => (members.fields v member).2
        methods := fun method member => (members.methods method member).settled
        constructors := fun f member => (constructors f member).types }

theorem fresh_interfaceEntry (m : Merge) (v : Visibility) (index space : Nat)
    (decl : InterfaceDecl) : (m.interfaceEntry v index space decl).value.WellMade index ∧
      (m.interfaceEntry v index space decl).value.Settled IsOpen := by
  have members := m.interfaceMembers_ofInterface index space decl.functions
  constructor
  · exact
      { source := rfl, names := members.names, open_ := members.open_, shown := members.shown
        methods := fun method member =>
          ⟨(members.methods method member).1.inhabited,
            (members.methods method member).1.sourced⟩ }
  · exact
      { inherits := forall_mem_nil _
        methods := fun method member => (members.methods method member).1.settled }

theorem fresh_entry (m : Merge) (v : Visibility) (space : Nat) (leaf : Leaf) :
    (m.entry v (leaf.next t) space leaf).value.Fresh t := by
  cases leaf with
  | classDecl decl => exact m.fresh_classEntry v _ space decl
  | interfaceDecl decl => exact m.fresh_interfaceEntry v _ space decl
  | delegateDecl decl =>
    exact ⟨rfl, fun _ member => m.isOpen_of_mem_params member,
      fun _ member => isOpen_of_mem_openTypes member⟩
  | coroutineDecl decl => exact ⟨rfl, fun _ member => isOpen_of_mem_openTypes member⟩
  | variableDecl decl => exact ⟨rfl, .inl rfl⟩
  | functionDecl kind decl => cases kind <;> exact fresh_newMethod _ _ (m.fresh_function decl v)

theorem addLeaf_grows (m : Merge) {space : Nat} (leaf : Leaf) (inside : space < t.spaces.length) :
    Grown t (addItem m space leaf.item t).value := by
  cases group : leaf.group t space with
  | some method =>
    obtain ⟨kind, decl, rfl, found⟩ := Leaf.group_eq_some.1 group
    rw [addItem_of_group found]
    exact .single (.overload kind (m.fresh_function decl _) found)
  | none =>
    rw [addItem_of_alone group]
    refine register_grows fun free => ?_
    refine .entry ?_ ?_ (m.fresh_entry _ space leaf) (visibilities_entry _ _)
    · rw [key_entry]
      exact inside
    · rw [key_entry]
      exact free

mutual

/-- Adding an item of a space takes steps. -/
theorem addItem_grows (m : Merge) {space : Nat} (item : Item) {t : Table} (tree : t.TreeShaped)
    (inside : space < t.spaces.length) : Grown t (addItem m space item t).value := by
  cases item with
  | space name span items =>
    rw [addItem]
    split
    · exact .refl
    · rename_i free
      cases known : t.childSpace space name with
      | some child =>
        rw [openSpace_of_childSpace_eq_some known]
        exact addItems_grows m items tree (tree.child_lt known)
      | none =>
        rw [openSpace_of_childSpace_eq_none known]
        have opened : Grows t (t.withChild space name) := .space inside free known
        exact .head opened
          (addItems_grows m items (opened.tree tree) (by simp))
  | _ =>
    exact Item.of_leaf (P := fun item => Grown t (addItem m space item t).value)
      (m.addLeaf_grows · inside) rfl

/-- Adding the items of a space takes steps. -/
theorem addItems_grows (m : Merge) {space : Nat} (items : List Item) {t : Table}
    (tree : t.TreeShaped) (inside : space < t.spaces.length) :
    Grown t (addItems m space items t).value := by
  cases items with
  | nil =>
    rw [addItems]
    exact .refl
  | cons item rest =>
    rw [addItems, Noted.value_bind]
    have first := addItem_grows m item tree inside
    have tree' := first.keeps Grows.tree tree
    have inside' : space < (addItem m space item t).value.spaces.length :=
      first.keeps (P := fun t => space < t.spaces.length)
        (fun step held => Nat.lt_of_lt_of_le held step.length_spaces_le) inside
    exact first.trans (addItems_grows m rest tree' inside')

end

end Merge

/-! ### Merged drafts -/

namespace Draft

theorem find_empty (name : String) (key : Nat × String) :
    (empty name .here).find key = none := by
  refine Option.bind_eq_none_iff.2 fun s inside => ?_
  rw [mem_singleton.1 (mem_of_getElem? inside)]
  rfl

/-- The table of an empty library is well made. -/
theorem wellMade_empty (name : String) : (empty name .here).WellMade where
  home := rfl
  tree := by
    refine ⟨⟨.root, rfl, rfl, rfl⟩, ?_, ?_⟩
    · intro i s found
      cases found
    · intro p s found
      obtain ⟨inside, rfl⟩ := List.getElem?_eq_some_iff.1 found
      obtain rfl : p = 0 := Nat.lt_one_iff.1 inside
      rfl
  apart := fun space name' => .inl (find_empty name (space, name'))
  names := by
    refine ⟨?_, ?_⟩
    · intro key d found
      rw [find_empty] at found
      cases found
    · intro e k stands
      cases e <;> cases stands
  shown := by
    refine ⟨fun {key d} found => ?_⟩
    rw [find_empty] at found
    cases found
  classes := fun found => by cases found
  interfaces := fun found => by cases found
  delegates := forall_mem_nil _
  coroutines := forall_mem_nil _
  globals := forall_mem_nil _
  methods := forall_mem_nil _
  natives := forall_mem_nil _

theorem mergeFiles_grows (index : Nat) (files : List (SourceFile × Outline)) (d : Draft)
    (made : d.table.WellMade) : Grown d.table (mergeFiles index files d).value.table := by
  induction files generalizing index d with
  | nil => exact .refl
  | cons file rest ih =>
    have inside := made.tree.root_lt
    have first := Merge.addItems_grows ⟨index, file.1.path⟩ file.2.items made.tree inside
    have later := ih (index + 1)
      ⟨(Merge.addItems ⟨index, file.1.path⟩ Table.rootSpace file.2.items d.table).value,
        d.files ++ [⟨file.1.path, file.2.imports, [],
          (Text.lines file.1.text.toList).length⟩]⟩
      (first.keeps Grows.wellMade made)
    exact first.trans later

section

variable (name : String) (files : List (SourceFile × Outline))
include name files

/-- The table of a merged draft is reached from the empty one by steps. -/
theorem merge_grows :
    Grown (.empty name .here) (merge name files).value.table :=
  mergeFiles_grows 0 files ⟨.empty name .here, []⟩ (wellMade_empty name)

/-- Whatever the files say, the merged table is well made. -/
theorem merge_wellMade :
    (merge name files).value.table.WellMade :=
  (merge_grows name files).keeps Grows.wellMade (wellMade_empty name)

theorem merge_settled :
    (Draft.merge name files).value.table.Settled IsOpen := by
  refine (merge_grows name files).keeps Grows.settled ?_
  constructor <;> exact forall_mem_nil _

end

end Draft

end Linkage
