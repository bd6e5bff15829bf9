/-
Purpose: Merging gathers what the files declare under each path, and complains exactly if two
  declarations do not go together.
-/
import Linkage.Proofs.Reorder.Gathered

namespace Linkage

open List Table Noted Piece

variable {t t' : Table} {name : String} {kind : MethodKind} {decl : FunctionDecl} {method : Nat}
  {pieces : List Piece} {m : Merge} {files : List (SourceFile × Outline)}

/-! ### Steps keep the spaces -/

theorem Table.spaceKeys_register (t : Table) (x : NewEntry) (v : Visibility) :
    (t.register x v).spaceKeys = t.spaceKeys := by
  have keys : (t.register x v).spaceKeys = (x.addTo t).spaces.map Space.key :=
    map_modify_of_keeps (fun _ => by rfl) _ _
  rw [keys, x.spaces_addTo]
  rfl

theorem Table.spaceKeys_overload (t : Table) (kind : MethodKind) (space method : Nat)
    (name : String) (f : Function) :
    (t.overload kind space method name f).spaceKeys = t.spaceKeys := by
  have keys : (t.overload kind space method name f).spaceKeys =
      (kind.append t method f).spaces.map Space.key :=
    map_modify_of_keeps (fun _ => by rfl) _ _
  rw [keys, kind.spaces_append]
  rfl

theorem Grows.spaceKeys (step : Grows t t') : t.spaceKeys <+: t'.spaceKeys := by
  cases step with
  | space inside free unknown =>
    rw [spaceKeys_withChild]
    exact prefix_append _ _
  | entry inside free fresh shown => exact (spaceKeys_register ..).symm ▸ prefix_rfl
  | overload kind fresh group => exact (spaceKeys_overload ..).symm ▸ prefix_rfl

theorem Grows.distinct (step : Grows t t') (tree : t.TreeShaped)
    (distinct : t.DistinctSpaces) : t'.DistinctSpaces := by
  intro i j p name' one other
  cases step with
  | @space parent name inside free unknown =>
    rw [spaceKeys_withChild, getElem?_append_singleton] at one other
    -- The new space has a name that no other space right below its parent has.
    have new {k : Nat} (key : t.spaceKeys[k]? = some (some parent, name)) : False := by
      rw [← childSpace_eq_some_iff tree distinct, unknown] at key
      cases key
    split at one <;> split at other
    · omega
    · cases one
      exact (new other).elim
    · cases other
      exact (new one).elim
    · exact distinct one other
  | entry inside free fresh shown =>
    rw [spaceKeys_register] at one other
    exact distinct one other
  | overload kind fresh group =>
    rw [spaceKeys_overload] at one other
    exact distinct one other

/-- What merging keeps of the spaces: their places, and that their names are distinct. -/
theorem Grown.spaces (grown : Grown t t') (made : t.WellMade) (distinct : t.DistinctSpaces) :
    t'.WellMade ∧ t'.DistinctSpaces ∧ t.spaceKeys <+: t'.spaceKeys := by
  refine grown.keeps (P := fun u => u.WellMade ∧ u.DistinctSpaces ∧ t.spaceKeys <+: u.spaceKeys)
    (fun step held => ?_) ⟨made, distinct, prefix_refl _⟩
  obtain ⟨made, distinct, keys⟩ := held
  exact ⟨step.wellMade made, step.distinct made.tree distinct, keys.trans step.spaceKeys⟩

/-! ### One declaration -/

namespace Gathers

variable {pieces : List Piece} {t t' : Table} {m : Merge} {l : Leaf} {s : Nat}

section

variable (gathers : Gathers pieces t)
include gathers

theorem inside_of_entryOf {e : Entity} {x : NewEntry}
    (isEntry : t.entryOf e = some x) : x.key.1 < t.spaces.length :=
  gathers.made.space_lt (entryAt_of_entryOf isEntry)

/-- What one more declaration has to do to a table: it opens no space, moves no entry, has an
entry itself, and changes no entry of another name. -/
theorem leaf (inside : s < t.spaces.length) (made : t'.WellMade) (keys : t'.spaceKeys = t.spaceKeys)
    (consistent : Consistent (pieces ++ [.leaf m (t.spacePath s) l]))
    (keeps : ∀ {e k}, t.entryAt e = some k → t'.entryAt e = some k)
    (own : ∃ e, t'.entryAt e = some (s, l.name))
    (built : ∀ {e x}, t'.entryOf e = some x → x.key ≠ (s, l.name) ∧ t.entryOf e = some x ∨
      x.key = (s, l.name) ∧ ∃ m' l' rest i,
        declared pieces (t.spacePath s, l.name) ++ [(m, l)] = (m', l') :: rest ∧
          e = l'.entity i ∧ x = rest.foldl NewEntry.join (m'.read i s l')) :
    Gathers (pieces ++ [.leaf m (t.spacePath s) l]) t' := by
  have count : t'.spaces.length = t.spaces.length := by
    rw [← t'.length_spaceKeys, ← t.length_spaceKeys, keys]
  have path (i : Nat) : t'.spacePath i = t.spacePath i := spacePath_congr keys i
  refine ⟨made, ?_, consistent, fun q => ?_, fun {m' path' l'} member => ?_,
    fun {e x} isEntry => ?_⟩
  · intro i j p name
    rw [keys]
    exact gathers.distinct
  · simp only [count, path, mem_append, mem_singleton, reduceCtorEq, or_false]
    exact gathers.opened q
  · simp only [count, path]
    rcases mem_append.1 member with old | new
    · obtain ⟨s', e, inside', isPath, place⟩ := gathers.stands old
      exact ⟨s', e, inside', isPath, keeps place⟩
    · cases mem_singleton.1 new
      obtain ⟨e, place⟩ := own
      exact ⟨s, e, inside, rfl, place⟩
  · simp only [path, declared_append]
    rcases built isEntry with ⟨elsewhere, old⟩ | ⟨here, m', l', rest, i, isDeclared, named, value⟩
    · obtain ⟨m', l', rest, i, isDeclared, named, value⟩ := gathers.built old
      have other : (t.spacePath s, l.name) ≠ (t.spacePath x.key.1, x.key.2) := by
        intro same
        obtain ⟨paths, names⟩ := Prod.mk.inj same
        have spaces := gathers.space_unique inside (gathers.inside_of_entryOf old) paths
        exact elsewhere (Prod.ext spaces.symm names.symm)
      rw [declared_leaf_of_ne other, append_nil]
      exact ⟨m', l', rest, i, isDeclared, named, value⟩
    · rw [here, declared_leaf_self]
      exact ⟨m', l', rest, i, isDeclared, named, value⟩

/-- What one more space has to do to a table: the spaces are the old ones and it, and no entry
changes. -/
theorem space (made : t'.WellMade) (distinct : t'.DistinctSpaces)
    (consistent : Consistent (pieces ++ [.space (t.spacePath s) name]))
    (paths : ∀ i < t.spaces.length, t'.spacePath i = t.spacePath i)
    (entries : ∀ e, t'.entryOf e = t.entryOf e) (count : t.spaces.length ≤ t'.spaces.length)
    (opened : ∀ q, (∃ i < t'.spaces.length, t'.spacePath i = q) ↔
      (∃ i < t.spaces.length, t.spacePath i = q) ∨ q = t.spacePath s ++ [name]) :
    Gathers (pieces ++ [.space (t.spacePath s) name]) t' := by
  refine ⟨made, distinct, consistent, fun q => ?_, fun {m' path' l'} member => ?_,
    fun {e x} isEntry => ?_⟩
  · rw [opened, gathers.opened, or_assoc]
    refine or_congr_right ⟨?_, ?_⟩
    · rintro (⟨path, name', member, rfl⟩ | rfl)
      · exact ⟨path, name', mem_append_left _ member, rfl⟩
      · exact ⟨_, name, mem_append_right _ (mem_singleton_self _), rfl⟩
    · rintro ⟨path, name', member, rfl⟩
      rcases mem_append.1 member with old | new
      · exact .inl ⟨path, name', old, rfl⟩
      · cases mem_singleton.1 new
        exact .inr rfl
  · rcases mem_append.1 member with old | new
    · obtain ⟨s', e, inside, isPath, place⟩ := gathers.stands old
      rw [entryAt_eq_map, ← entries, ← entryAt_eq_map] at place
      exact ⟨s', e, lt_of_lt_of_le inside count, (paths s' inside).trans isPath, place⟩
    · cases mem_singleton.1 new
  · rw [entries] at isEntry
    rw [paths _ (gathers.inside_of_entryOf isEntry), declared_append]
    exact (append_nil (declared pieces _)).symm ▸ gathers.built isEntry

/-- Pieces of a free name are none. -/
theorem key_ne_of_free (inside : s < t.spaces.length) (free : Merge.takenBy t s name = none)
    {q : Piece} (member : q ∈ pieces) : q.key ≠ (t.spacePath s, name) := by
  obtain ⟨unknown, closed⟩ := Merge.takenBy_eq_none.1 free
  intro same
  cases q with
  | space path name' =>
    cases same
    have isOpen := (gathers.childSpace_isSome_iff inside).2 member
    rw [closed] at isOpen
    cases isOpen
  | leaf m' path l' =>
    cases same
    have listed : (m', l') ∈ declared pieces (t.spacePath s, l'.name) :=
      mem_declared.2 ⟨member, rfl⟩
    rw [gathers.declared_eq_nil inside unknown] at listed
    cases listed

/-- A declaration of a free name becomes an entry. -/
theorem register (inside : s < t.spaces.length) (free : Merge.takenBy t s l.name = none)
    (fine : m.Fine l) {v : Visibility} (made : (t.register (m.read (l.next t) s l) v).WellMade) :
    Gathers (pieces ++ [.leaf m (t.spacePath s) l]) (t.register (m.read (l.next t) s l) v) := by
  have unknown := (Merge.takenBy_eq_none.1 free).1
  have absent {e : Entity} : t.entryAt e ≠ some (s, l.name) := by
    intro place
    obtain ⟨d, found, _⟩ := gathers.made.names.complete place
    rw [show t.find (s, l.name) = t.lookup s l.name from rfl, unknown] at found
    cases found
  have key := m.key_read (l.next t) s l
  have entities := m.entity_read t s l
  refine gathers.leaf inside made (t.spaceKeys_register _ v)
    (consistent_append_singleton.2 ⟨gathers.consistent, fine, fun q member same =>
      absurd same (gathers.key_ne_of_free inside free member)⟩) ?_ ?_ ?_
  · intro e k place
    rw [entryAt_eq_map, entryOf_register, if_neg, ← entryAt_eq_map]
    · exact place
    · rintro rfl
      rw [NewEntry.entryAt_entity] at place
      cases place
  · refine ⟨(m.read (l.next t) s l).entity t, ?_⟩
    rw [entryAt_eq_map, entryOf_register, if_pos rfl, ← key]
    rfl
  · intro e x isEntry
    rw [entryOf_register] at isEntry
    split at isEntry
    · rename_i isNew
      cases isEntry
      refine .inr ⟨key, m, l, [], l.next t, ?_, isNew.trans entities, rfl⟩
      rw [gathers.declared_eq_nil inside unknown]
      rfl
    · refine .inl ⟨fun here => ?_, isEntry⟩
      exact absent (here ▸ entryAt_of_entryOf isEntry)

/-- A function joins the method of its name. -/
theorem overload (inside : s < t.spaces.length)
    (group : (t.lookup s decl.name).map Declaration.entity = some (kind.entity method))
    (consistent : Consistent (pieces ++ [.leaf m (t.spacePath s) (.functionDecl kind decl)]))
    {f : Function} (isRead : f = (m.function decl (m.shown (.functionDecl kind decl)).value).value)
    (made : (t.overload kind s method decl.name f).WellMade) :
    Gathers (pieces ++ [.leaf m (t.spacePath s) (.functionDecl kind decl)])
      (t.overload kind s method decl.name f) := by
  have place := (gathers.made.names.entity_iff (k := (s, decl.name))).1 group
  have entries (e : Entity) : (t.overload kind s method decl.name f).entryAt e = t.entryAt e := by
    rw [Table.overload, entryAt_modifySpace, kind.entryAt_append]
  refine gathers.leaf inside made (t.spaceKeys_overload kind s method decl.name f) consistent
    (fun place' => (entries _).trans place') ⟨kind.entity method, (entries _).trans place⟩ ?_
  intro e x isEntry
  rw [entryOf_overload] at isEntry
  split at isEntry
  · rename_i same
    subst same
    obtain ⟨y, old, rfl⟩ := Option.map_eq_some_iff.1 isEntry
    have key : y.key = (s, decl.name) :=
      Option.some.inj ((entryAt_of_entryOf old).symm.trans place)
    obtain ⟨m', l', rest, i, isDeclared, named, value⟩ := gathers.built old
    rw [key] at isDeclared value
    refine .inr ⟨(y.key_append f).trans key, m', l', rest ++ [(m, .functionDecl kind decl)], i, ?_,
      named, ?_⟩
    · exact congrArg (· ++ _) isDeclared
    · rw [foldl_append, ← value, isRead]
      rfl
  · rename_i elsewhere
    refine .inl ⟨fun here => elsewhere ?_, isEntry⟩
    exact gathers.made.names.entity_unique (here ▸ entryAt_of_entryOf isEntry) place

end

end Gathers

/-! ### Outcomes -/

/-- Either nothing is reported and all pieces are in the table, or they do not go together and
this is reported. -/
def Outcome (pieces : List Piece) (x : Reported Table) : Prop :=
  x.notes = [] ∧ Gathers pieces x.value ∨ x.notes ≠ [] ∧ ¬Consistent pieces

theorem Outcome.bind {more : List Piece} {x : Reported Table}
    {f : Table → Reported Table} (first : Outcome pieces x)
    (next : Gathers pieces x.value → Outcome (pieces ++ more) (f x.value)) :
    Outcome (pieces ++ more) (x >>= f) := by
  unfold Outcome
  rw [notes_bind]
  rcases first with ⟨quiet, gathers⟩ | ⟨reported, apart⟩
  · rw [quiet]
    exact next gathers
  · refine .inr ⟨fun quiet => reported (append_eq_nil_iff.1 quiet).1, fun consistent => ?_⟩
    exact apart consistent.of_append

namespace Merge

variable {pieces : List Piece} {t : Table} {s : Nat}

/-- What is taken by another sort does not go together with a declaration. -/
theorem not_consistent_of_taken {l : Leaf} (gathers : Gathers pieces t)
    (inside : s < t.spaces.length) {kind : String} (taken : takenBy t s l.name = some kind)
    (alone : l.group t s = none) : ¬Consistent (pieces ++ [.leaf m (t.spacePath s) l]) := by
  intro consistent
  obtain ⟨_, _, compat⟩ := consistent_append_singleton.1 consistent
  cases found : t.lookup s l.name with
  | none =>
    rw [takenBy, found] at taken
    obtain ⟨child, known, _⟩ := Option.map_eq_some_iff.1 taken
    have opened := (gathers.childSpace_isSome_iff inside).1 (Option.isSome_of_eq_some known)
    have shares := (compat _ opened rfl).2
    cases l <;> simp [Piece.shares, Leaf.joins] at shares
  | some d =>
    obtain ⟨m', l', i, member, named, isEntity⟩ := gathers.exists_leaf_of_lookup found
    obtain ⟨some', same⟩ := compat _ member (by rw [Piece.key, Piece.key, named])
    cases l' with
    | functionDecl sort decl =>
      obtain ⟨_, joins, ⟨⟩⟩ := Option.map_eq_some_iff.1 same.symm
      cases l with
      | functionDecl sort decl' =>
        cases joins
        have isMethod : (t.lookup s decl'.name).map Declaration.entity =
            some (sort.entity i) := (congrArg _ found).trans (congrArg some isEntity)
        rw [Leaf.group_eq_some.2 ⟨sort, decl', rfl, isMethod⟩] at alone
        cases alone
      | _ => cases joins
    | _ => cases some'

/-- A function goes together with the method of its name. -/
theorem consistent_overload (gathers : Gathers pieces t)
    (group : (t.lookup s decl.name).map Declaration.entity = some (kind.entity method)) :
    Consistent (pieces ++ [.leaf m (t.spacePath s) (.functionDecl kind decl)]) ↔
      m.Fine (.functionDecl kind decl) := by
  rw [consistent_append_singleton]
  refine ⟨fun consistent => consistent.2.1, fun fine => ⟨gathers.consistent, fine, ?_⟩⟩
  intro q member same
  obtain ⟨d, found, isMethod⟩ := Option.map_eq_some_iff.1 group
  obtain ⟨m', l', i, first, named, isEntity⟩ := gathers.exists_leaf_of_lookup found
  have sameKey : q.key = (leaf m' (t.spacePath s) l').key := by
    rw [same, key, key, named]
    rfl
  have shares : q.shares = some (some kind) := by
    rw [gathers.consistent.shares_eq member first sameKey, shares,
      Leaf.joins_of_entity (isEntity.symm.trans isMethod)]
    rfl
  exact ⟨by rw [shares]; rfl, shares⟩

/-- One declaration is added, or it does not go together with the others. -/
theorem addLeaf_outcome (m : Merge) (l : Leaf) (gathers : Gathers pieces t)
    (inside : s < t.spaces.length) :
    Outcome (pieces ++ [.leaf m (t.spacePath s) l]) (addItem m s l.item t) := by
  have made := (addItem_grows m l.item gathers.made.tree inside).keeps Grows.wellMade gathers.made
  cases group : l.group t s with
  | some method =>
    obtain ⟨kind, decl, rfl, isGroup⟩ := Leaf.group_eq_some.1 group
    have consistent := consistent_overload (m := m) gathers isGroup
    rw [addItem_of_group isGroup] at made ⊢
    simp only [Outcome, ne_eq, notes_bind, notes_pure, append_nil,
      append_eq_nil_iff, consistent, ← m.notes_entry_functionDecl _ 0 0 kind]
    by_cases fine : m.Fine (.functionDecl kind decl)
    · exact .inl ⟨fine, gathers.overload inside isGroup (consistent.2 fine) rfl made⟩
    · exact .inr ⟨fine, fine⟩
  | none =>
    cases taken : takenBy t s l.name with
    | none =>
      obtain ⟨value, notes⟩ := addItem_of_free taken
      rw [value] at made
      rw [Outcome, ne_eq, notes, value, append_eq_nil_iff, m.notes_entry _ 0 0]
      by_cases fine : m.Fine l
      · exact .inl ⟨fine, gathers.register inside taken fine made⟩
      · refine .inr ⟨fine, fun consistent => fine ?_⟩
        exact (consistent_append_singleton.1 consistent).2.1
    | some kind =>
      refine .inr ⟨?_, not_consistent_of_taken gathers inside taken group⟩
      simp [addItem_of_taken taken group]

/-! ### Spaces and items -/

/-- A space that is opened goes together with what its name does not declare. -/
theorem consistent_space (gathers : Gathers pieces t) (inside : s < t.spaces.length)
    (free : t.lookup s name = none) : Consistent (pieces ++ [.space (t.spacePath s) name]) := by
  refine consistent_append_singleton.2 ⟨gathers.consistent, trivial, fun q member same => ?_⟩
  cases q with
  | space path name' => exact ⟨rfl, rfl⟩
  | leaf m path l =>
    cases same
    have listed : (m, l) ∈ declared pieces (t.spacePath s, l.name) := mem_declared.2 ⟨member, rfl⟩
    rw [gathers.declared_eq_nil inside free] at listed
    cases listed

theorem not_consistent_space (gathers : Gathers pieces t) {d : Declaration}
    (found : t.lookup s name = some d) : ¬Consistent (pieces ++ [.space (t.spacePath s) name]) := by
  intro consistent
  obtain ⟨_, _, compat⟩ := consistent_append_singleton.1 consistent
  obtain ⟨m, l, i, member, named, _⟩ := gathers.exists_leaf_of_lookup found
  have shares := (compat _ member (by rw [Piece.key, Piece.key, named])).2
  cases l <;> simp [Piece.shares, Leaf.joins] at shares

/-- A space that is opened has its path, and all else stays as it is. -/
theorem openSpace_gathers (gathers : Gathers pieces t) (inside : s < t.spaces.length)
    (free : t.lookup s name = none) :
    Gathers (pieces ++ [.space (t.spacePath s) name]) (t.openSpace s name).2 ∧
      (t.openSpace s name).1 < (t.openSpace s name).2.spaces.length ∧
      (t.openSpace s name).2.spacePath (t.openSpace s name).1 = t.spacePath s ++ [name] := by
  have fits := consistent_space gathers inside free
  cases known : t.childSpace s name with
  | some child =>
    rw [openSpace_of_childSpace_eq_some known]
    have place := (childSpace_eq_some_iff_spacePath gathers.made.tree gathers.distinct
      inside).1 known
    refine ⟨gathers.space gathers.made gathers.distinct fits (fun _ _ => rfl) (fun _ => rfl)
      (le_refl _) fun q => ⟨.inl, ?_⟩, place⟩
    rintro (old | rfl)
    · exact old
    · exact ⟨child, place⟩
  | none =>
    rw [openSpace_of_childSpace_eq_none known]
    have step : Grows t (t.withChild s name) := .space inside free known
    have keys := t.spaceKeys_withChild s name
    have made := step.wellMade gathers.made
    have paths {i : Nat} (old : i < t.spaces.length) :
        (t.withChild s name).spacePath i = t.spacePath i :=
      spacePath_of_isPrefix gathers.made.tree made.tree step.spaceKeys old
    have key : (t.withChild s name).spaceKeys[t.spaces.length]? = some (some s, name) := by
      rw [keys, ← t.length_spaceKeys, getElem?_concat_length]
    have path : (t.withChild s name).spacePath t.spaces.length = t.spacePath s ++ [name] := by
      rw [made.tree.spacePath_child key, paths inside]
    refine ⟨gathers.space made (step.distinct gathers.made.tree gathers.distinct) fits
      (fun _ old => paths old) (entryOf_modifySpace _ _ _) (by simp) fun q => ?_,
      by simp, path⟩
    simp only [length_spaces_withChild]
    constructor
    · rintro ⟨i, isInside, rfl⟩
      rcases Nat.lt_succ_iff_lt_or_eq.1 isInside with old | rfl
      · exact .inl ⟨i, old, (paths old).symm⟩
      · exact .inr path
    · rintro (⟨i, old, rfl⟩ | rfl)
      · exact ⟨i, Nat.lt_succ_of_lt old, paths old⟩
      · exact ⟨_, Nat.lt_succ_self _, path⟩

end Merge

mutual

/-- The pieces of an item of a space. -/
def Piece.ofItem (m : Merge) (path : List String) : Item → List Piece
  | .space name _ items => .space path name :: ofItems m (path ++ [name]) items
  | .classDecl decl => [.leaf m path (.classDecl decl)]
  | .interfaceDecl decl => [.leaf m path (.interfaceDecl decl)]
  | .delegateDecl decl => [.leaf m path (.delegateDecl decl)]
  | .coroutineDecl decl => [.leaf m path (.coroutineDecl decl)]
  | .variableDecl decl => [.leaf m path (.variableDecl decl)]
  | .functionDecl decl => [.leaf m path (.functionDecl .global decl)]
  | .nativeDecl decl => [.leaf m path (.functionDecl .native decl)]

/-- The pieces of the items of a space. -/
def Piece.ofItems (m : Merge) (path : List String) : List Item → List Piece
  | [] => []
  | item :: rest => ofItem m path item ++ ofItems m path rest

end

namespace Merge

mutual

/-- An item of a space is gathered, or it does not go together with the others. -/
theorem addItem_outcome (m : Merge) (item : Item) {pieces : List Piece} {t : Table} {s : Nat}
    (gathers : Gathers pieces t) (inside : s < t.spaces.length) :
    Outcome (pieces ++ ofItem m (t.spacePath s) item) (addItem m s item t) := by
  cases item with
  | space name span items =>
    rw [ofItem, append_cons, addItem]
    split
    · rename_i d found
      refine .inr ⟨by simp [note], fun consistent => ?_⟩
      exact not_consistent_space gathers found consistent.of_append
    · rename_i free
      obtain ⟨opened, below, path⟩ := openSpace_gathers gathers inside free
      rw [← path]
      exact addItems_outcome m items opened below
  | _ => exact addLeaf_outcome m _ gathers inside

/-- The items of a space are gathered, or they do not go together. -/
theorem addItems_outcome (m : Merge) (items : List Item) {pieces : List Piece} {t : Table}
    {s : Nat} (gathers : Gathers pieces t) (inside : s < t.spaces.length) :
    Outcome (pieces ++ ofItems m (t.spacePath s) items) (addItems m s items t) := by
  cases items with
  | nil =>
    rw [ofItems, append_nil, addItems]
    exact .inl ⟨rfl, gathers⟩
  | cons item rest =>
    rw [ofItems, ← append_assoc, addItems]
    refine (addItem_outcome m item gathers inside).bind fun gathers' => ?_
    -- The space keeps its number and its path while the first item is added.
    obtain ⟨made, _, keys⟩ := (addItem_grows m item gathers.made.tree inside).spaces
      gathers.made gathers.distinct
    have inside' := lt_of_lt_of_le inside (by simpa using keys.length_le)
    have later := addItems_outcome m rest gathers' inside'
    rw [spacePath_of_isPrefix gathers.made.tree made.tree keys inside] at later
    exact later

end

end Merge

/-! ### Files -/

namespace Draft

/-- The pieces of a file with a given number. -/
def piecesOf (file : (SourceFile × Outline) × Nat) : List Piece :=
  ofItems ⟨file.2, file.1.1.path⟩ [] file.1.2.items

/-- What is kept of a file. -/
def fileOf (file : SourceFile × Outline) : DraftFile :=
  ⟨file.1.path, file.2.imports, [], (Text.lines file.1.text.toList).length⟩

theorem files_mergeFiles (index : Nat) (files : List (SourceFile × Outline)) (d : Draft) :
    (mergeFiles index files d).value.files = d.files ++ files.map fileOf := by
  induction files generalizing index d with
  | nil => simp [mergeFiles]
  | cons file rest ih =>
    rw [mergeFiles, value_bind, ih]
    simp [fileOf]

/-- The files are gathered, or they do not go together. -/
theorem mergeFiles_outcome (index : Nat) (files : List (SourceFile × Outline)) (d : Draft)
    (gathers : Gathers pieces d.table) :
    Outcome (pieces ++ (files.zipIdx index).flatMap piecesOf)
      ((·.table) <$> mergeFiles index files d) := by
  induction files generalizing index d pieces with
  | nil =>
    rw [zipIdx_nil, flatMap_nil, append_nil]
    exact .inl ⟨rfl, gathers⟩
  | cons file rest ih =>
    have first := Merge.addItems_outcome ⟨index, file.1.path⟩ file.2.items gathers
      gathers.made.tree.root_lt
    rw [show d.table.spacePath rootSpace = [] from gathers.made.tree.spacePath_root] at first
    rw [zipIdx_cons, flatMap_cons, ← append_assoc, mergeFiles, map_bind]
    exact first.bind fun gathers' => ih (index + 1) ⟨_, _⟩ gathers'

/-- An empty library holds nothing. -/
theorem gathers_empty (name : String) : Gathers [] (.empty name .here) where
  made := wellMade_empty name
  distinct := by
    intro i j p name' one other
    cases (mem_singleton.1 (mem_of_getElem? one))
  consistent := ⟨forall_mem_nil _, .nil⟩
  opened := by
    intro q
    simp
    constructor
    · rintro ⟨s, inside, rfl⟩
      obtain rfl : s = 0 := Nat.lt_one_iff.1 inside
      exact (wellMade_empty name).tree.spacePath_root
    · rintro rfl
      exact ⟨0, Nat.one_pos, (wellMade_empty name).tree.spacePath_root⟩
  stands := fun member => absurd member not_mem_nil
  built := by
    intro e x isEntry
    cases e <;> cases isEntry

/-- The files of a library are gathered, or they do not go together. -/
theorem merge_outcome (name : String) (files : List (SourceFile × Outline)) :
    Outcome (files.zipIdx.flatMap piecesOf) ((·.table) <$> merge name files) :=
  mergeFiles_outcome 0 files ⟨.empty name .here, []⟩ (gathers_empty name)

theorem gathers_merge (quiet : (merge name files).notes = []) :
    Gathers (files.zipIdx.flatMap piecesOf) (merge name files).value.table := by
  rcases merge_outcome name files with ⟨_, gathers⟩ | ⟨reported, _⟩
  · exact gathers
  · rw [notes_map] at reported
    exact absurd quiet reported

end Draft

/-! ### Names that stand once -/

/-- No space and no class has two declarations of one name. -/
structure Table.NamedOnce (t : Table) : Prop where
  spaces : ∀ s ∈ t.spaces, s.declarations.Distinct
  classes : ∀ c ∈ t.classes, c.members.Distinct

theorem Table.NamedOnce.of_skeleton (same : t.skeleton = t'.skeleton)
    (once : t.NamedOnce) : t'.NamedOnce where
  spaces := spaces_eq_of_skeleton same ▸ once.spaces
  classes := by
    refine forall_mem_of_map_eq (fun c c' equal distinct => ?_)
      (congrArg Table.classes same :) once.classes
    have members : c.members = c'.members := (congrArg ClassDef.members equal :)
    exact members ▸ distinct

theorem Grows.distinct_declarations (step : Grows t t')
    (once : ∀ s ∈ t.spaces, s.declarations.Distinct) :
    ∀ s ∈ t'.spaces, s.declarations.Distinct := by
  cases step with
  | space inside free unknown =>
    refine forall_mem_modify (fun _ held => by exact held) ?_ _
    exact forall_mem_append.2 ⟨once, fun s new => mem_singleton.1 new ▸ nodup_nil⟩
  | @entry x v inside free fresh shown =>
    exact forall_mem_modify (fun _ held => held.insert _ _) (x.spaces_addTo t ▸ once) _
  | @overload kind space method name f fresh group =>
    refine forall_mem_modify (fun _ held => held.modify _ _) ?_ _
    rw [kind.spaces_append]
    exact once

/-- A class that is read from source has each member once. -/
theorem Merge.distinct_classEntry (m : Merge) (v : Visibility) (index space : Nat)
    (decl : ClassDecl) : (m.classEntry v index space decl).value.members.Distinct := by
  have fields :
      (decl.fields.foldlM (m.addMemberVariable decl.name index) {}).value.names.Distinct := by
    refine value_foldlM_of_step (P := fun members : Members => members.names.Distinct) ?_
      nodup_nil
    intro members field _ held
    unfold addMemberVariable
    split
    · exact held
    · exact held.insert _ _
  refine value_foldlM_of_step (P := fun members : Members => members.names.Distinct) ?_ fields
  intro members function _ held
  unfold addMemberFunction
  split
  · exact held
  · split
    · exact held.modify _ _
    · exact held
    · exact held.insert _ _

theorem Gathers.distinct_members (gathers : Gathers pieces t) :
    ∀ c ∈ t.classes, c.members.Distinct := by
  intro c member
  obtain ⟨i, found⟩ := mem_iff_getElem?.1 member
  have isEntry : t.entryOf (.classDef i) = some (.classDef c) := by
    rw [entryOf, found]
    rfl
  obtain ⟨m, l, rest, j, isDeclared, isEntity, value⟩ := gathers.built isEntry
  cases l with
  | classDecl decl =>
    obtain rfl := gathers.consistent.declared_eq_singleton isDeclared rfl
    rw [NewEntry.classDef.inj value]
    exact m.distinct_classEntry _ _ _ decl
  | functionDecl kind => cases kind <;> cases isEntity
  | _ => cases isEntity

theorem Draft.namedOnce_merge (quiet : (merge name files).notes = []) :
    (merge name files).value.table.NamedOnce := by
  refine ⟨(merge_grows name files).keeps Grows.distinct_declarations fun s member => ?_, ?_⟩
  · rw [mem_singleton.1 member]
    exact nodup_nil
  · exact (gathers_merge quiet).distinct_members

end Linkage
