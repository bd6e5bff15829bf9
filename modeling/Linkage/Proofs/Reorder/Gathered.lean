/-
Purpose: What a table holds after declarations were gathered under their paths, and which
  declarations go together.
-/
import Linkage.Proofs.Reorder.Leaves
import Linkage.Proofs.Table.Paths
import Mathlib.Data.List.Pairwise

/-!
A merged table is described without numbers: by the pieces that went into it, each a space or a
declaration under the path of the space it stands in.  Pieces of one path and name go together
if they are all spaces, or all functions of one sort.
-/

namespace Linkage

open List Option

variable {m : Merge} {l : Leaf} {s : Nat} {name : String}

/-! ### Entries -/

namespace NewEntry

/-- A method with one more function. -/
def append (f : Function) : NewEntry → NewEntry
  | method m => method (Merge.appendFunction f m)
  | native m => native (Merge.appendFunction f m)
  | x => x

@[simp] theorem key_append (f : Function) (x : NewEntry) : (x.append f).key = x.key := by
  cases x <;> rfl

end NewEntry

namespace Table

/-- The entry of a space that an entity stands for. -/
def entryOf (t : Table) : Entity → Option NewEntry
  | .classDef i => t.classes[i]?.map .classDef
  | .interface i => t.interfaces[i]?.map .interface
  | .delegate i => t.delegates[i]?.map .delegate
  | .coroutine i => t.coroutines[i]?.map .coroutine
  | .globalVariable i => t.globals[i]?.map .global
  | .globalMethod i => t.methods[i]?.map .method
  | .nativeMethod i => t.natives[i]?.map .native
  | _ => none

theorem entryAt_eq_map (t : Table) (e : Entity) : t.entryAt e = (t.entryOf e).map NewEntry.key := by
  cases e <;> simp [entryAt, entryOf, Function.comp_def, NewEntry.key]

theorem entryAt_of_entryOf {t : Table} {e : Entity} {x : NewEntry}
    (isEntry : t.entryOf e = some x) :
    t.entryAt e = some x.key := by
  rw [entryAt_eq_map, isEntry]
  rfl

theorem entryOf_modifySpace (t : Table) (space : Nat) (f : Space → Space) (e : Entity) :
    (t.modifySpace space f).entryOf e = t.entryOf e := by
  cases e <;> rfl

theorem entryOf_register (t : Table) (x : NewEntry) (v : Visibility) (e : Entity) :
    (t.register x v).entryOf e = if e = x.entity t then some x else t.entryOf e := by
  rw [register, declare, entryOf_modifySpace]
  cases x <;> cases e <;>
    simp only [NewEntry.addTo, NewEntry.entity, entryOf, getElem?_append_singleton, reduceCtorEq,
      if_false, Entity.classDef.injEq, Entity.interface.injEq, Entity.delegate.injEq,
      Entity.coroutine.injEq, Entity.globalVariable.injEq, Entity.globalMethod.injEq,
      Entity.nativeMethod.injEq] <;>
    split <;> rfl

theorem entryOf_overload (t : Table) (kind : MethodKind) (space method : Nat) (name : String)
    (f : Function) (e : Entity) :
    (t.overload kind space method name f).entryOf e =
      if e = kind.entity method then (t.entryOf e).map (NewEntry.append f) else t.entryOf e := by
  have modified (ms : List Method) (i : Nat) (make : Method → NewEntry)
      (appends : ∀ m, (make m).append f = make (Merge.appendFunction f m)) :
      ((ms.modify method (Merge.appendFunction f))[i]?.map make) =
        if i = method then (ms[i]?.map make).map (NewEntry.append f) else ms[i]?.map make := by
    by_cases here : i = method
    · subst here
      simp [Function.comp_def, appends]
    · simp [here, Ne.symm here]
  rw [overload, entryOf_modifySpace]
  cases kind with
  | global =>
    cases e with
    | globalMethod i =>
      simp only [MethodKind.entity, Entity.globalMethod.injEq]
      exact modified t.methods i .method fun _ => rfl
    | _ => simp [MethodKind.append, MethodKind.entity, entryOf]
  | native =>
    cases e with
    | nativeMethod i =>
      simp only [MethodKind.entity, Entity.nativeMethod.injEq]
      exact modified t.natives i .native fun _ => rfl
    | _ => simp [MethodKind.append, MethodKind.entity, entryOf]

end Table

namespace Merge

/-- The entry that a declaration is read into with the visibility that it has. -/
def read (m : Merge) (index space : Nat) (leaf : Leaf) : NewEntry :=
  (m.entry (m.shown leaf).value index space leaf).value

/-- Nothing is wrong with a declaration by itself. -/
def Fine (m : Merge) (leaf : Leaf) : Prop :=
  (m.shown leaf).notes = [] ∧ (m.entry (m.shown leaf).value 0 0 leaf).notes = []

theorem key_read (m : Merge) (index space : Nat) (leaf : Leaf) :
    (m.read index space leaf).key = (space, leaf.name) :=
  key_entry _ index

theorem entity_read (m : Merge) (t : Table) (space : Nat) (leaf : Leaf) :
    (m.read (leaf.next t) space leaf).entity t = leaf.entity (leaf.next t) := by
  cases leaf with
  | functionDecl kind decl => cases kind <;> rfl
  | _ => rfl

/-- Where a declaration stands and which number it gets makes no difference for what is
complained about. -/
theorem notes_entry (m : Merge) (v : Visibility) (index space index' space' : Nat) (leaf : Leaf) :
    (m.entry v index' space' leaf).notes = (m.entry v index space leaf).notes := by
  let move := Equiv.swap index index'
  let n : Numbering := ⟨.refl _, .swap space space', move, move, move, move, move, move, move⟩
  have number : n.ofLeaf leaf = move := by
    cases leaf with
    | functionDecl kind decl => cases kind <;> rfl
    | _ => rfl
  have renamed := congrArg Noted.notes (n.entry_merge m v index space leaf)
  rw [number, Equiv.swap_apply_left, Equiv.swap_apply_left, Noted.notes_map] at renamed
  exact renamed

/-- What is complained about in a function is complained about in the method it begins. -/
theorem notes_entry_functionDecl (m : Merge) (v : Visibility) (index space : Nat)
    (kind : MethodKind) (decl : FunctionDecl) :
    (m.entry v index space (.functionDecl kind decl)).notes = (m.function decl v).notes := by
  cases kind <;> simp [entry]

end Merge

/-! ### Pieces -/

/-- A space or a declaration, under the path of the space it stands in. -/
inductive Piece where
  | space (path : List String) (name : String)
  | leaf (m : Merge) (path : List String) (leaf : Leaf)

namespace Piece

/-- The path and the name of a piece. -/
def key : Piece → List String × String
  | space path name => (path, name)
  | leaf _ path l => (path, l.name)

/-- What pieces of one path and name can have in common: they are spaces, or functions of
one sort. -/
def shares : Piece → Option (Option MethodKind)
  | space .. => some none
  | leaf _ _ l => l.joins.map some

/-- Nothing is wrong with a piece by itself. -/
def Fine : Piece → Prop
  | space .. => True
  | leaf m _ l => m.Fine l

/-- Two pieces go together. -/
def Compat (p q : Piece) : Prop := p.key = q.key → p.shares.isSome = true ∧ p.shares = q.shares

theorem Compat.symm {p q : Piece} (compat : p.Compat q) : q.Compat p := by
  intro same
  obtain ⟨shares, equal⟩ := compat same.symm
  exact ⟨equal ▸ shares, equal.symm⟩

instance : Std.Symm Compat := ⟨fun _ _ compat => compat.symm⟩

/-- The declaration of a piece, if it stands under a path and name. -/
def declared? (at_ : List String × String) : Piece → Option (Merge × Leaf)
  | space .. => none
  | leaf m path l => if (path, l.name) = at_ then some (m, l) else none

end Piece

/-- The declarations under a path and name, in their order. -/
def declared (pieces : List Piece) (key : List String × String) : List (Merge × Leaf) :=
  pieces.filterMap (Piece.declared? key)

/-- All pieces go together, and nothing is wrong with any of them. -/
structure Consistent (pieces : List Piece) : Prop where
  fine : ∀ p ∈ pieces, p.Fine
  compat : pieces.Pairwise Piece.Compat

theorem consistent_append_singleton {pieces : List Piece} {p : Piece} : Consistent (pieces ++ [p]) ↔
      Consistent pieces ∧ p.Fine ∧ ∀ q ∈ pieces, q.Compat p := by
  constructor
  · rintro ⟨fine, compat⟩
    obtain ⟨front, _, across⟩ := pairwise_append.1 compat
    exact ⟨⟨fun q member => fine q (mem_append_left _ member), front⟩,
      fine p (mem_append_right _ (mem_singleton_self p)),
      fun q member => across q member p (mem_singleton_self p)⟩
  · rintro ⟨⟨fine, compat⟩, last, across⟩
    refine ⟨forall_mem_append.2 ⟨fine, by simpa using last⟩, pairwise_append.2
      ⟨compat, pairwise_singleton _ _, ?_⟩⟩
    simpa using across

theorem Consistent.of_append {pieces more : List Piece} (consistent : Consistent (pieces ++ more)) :
    Consistent pieces :=
  ⟨fun p member => consistent.fine p (mem_append_left _ member),
    (pairwise_append.1 consistent.compat).1⟩

theorem Consistent.of_perm {pieces pieces' : List Piece} (consistent : Consistent pieces)
    (perm : pieces.Perm pieces') : Consistent pieces' :=
  ⟨fun p member => consistent.fine p (perm.mem_iff.2 member),
    (perm.pairwise_iff fun compat => compat.symm).1 consistent.compat⟩

/-- Different pieces of one path and name share what they are. -/
theorem Consistent.shares_eq {pieces : List Piece} (consistent : Consistent pieces) {p q : Piece}
    (one : p ∈ pieces) (other : q ∈ pieces) (same : p.key = q.key) : p.shares = q.shares := by
  by_cases equal : p = q
  · rw [equal]
  · exact (consistent.compat.forall one other equal same).2

section Declared

variable {pieces : List Piece} {key : List String × String}

theorem declared_append (pieces more : List Piece) (key : List String × String) :
    declared (pieces ++ more) key = declared pieces key ++ declared more key :=
  filterMap_append

theorem declared_leaf_self (m : Merge) (path : List String) (l : Leaf) :
    declared [.leaf m path l] (path, l.name) = [(m, l)] := by
  simp [declared, Piece.declared?]

theorem declared_leaf_of_ne {path : List String}
    (elsewhere : (path, l.name) ≠ key) : declared [.leaf m path l] key = [] := by
  simp [declared, Piece.declared?, elsewhere]

/-- What is declared under a path and name is a piece. -/
theorem mem_declared {entry : Merge × Leaf} :
    entry ∈ declared pieces key ↔ .leaf entry.1 key.1 entry.2 ∈ pieces ∧ entry.2.name = key.2 := by
  simp only [declared, mem_filterMap]
  constructor
  · rintro ⟨p, member, found⟩
    cases p with
    | space => cases found
    | leaf m' path l' =>
      obtain ⟨same, equal⟩ := ite_none_right_eq_some.1 found
      cases equal
      cases same
      exact ⟨member, rfl⟩
  · rintro ⟨member, named⟩
    exact ⟨_, member, if_pos (by rw [named])⟩

end Declared

/-- A declaration that joins nothing is the only one of its place. -/
theorem Consistent.declared_eq_singleton {pieces : List Piece} (consistent : Consistent pieces)
    {key : List String × String} {rest : List (Merge × Leaf)}
    (isDeclared : declared pieces key = (m, l) :: rest) (alone : l.joins = none) : rest = [] := by
  have pairs : (declared pieces key).Pairwise fun entry _ => entry.2.joins.isSome = true := by
    refine pairwise_filterMap.2 (consistent.compat.imp ?_)
    intro p q compat entry found entry' found'
    cases p with
    | space => cases found
    | leaf m path l =>
      cases q with
      | space => cases found'
      | leaf m' path' l' =>
        obtain ⟨rfl, ⟨⟩⟩ := ite_none_right_eq_some.1 found
        obtain ⟨same, _⟩ := ite_none_right_eq_some.1 found'
        have shares := (compat same.symm).1
        rwa [Piece.shares, isSome_map] at shares
  rw [isDeclared, pairwise_cons] at pairs
  rw [eq_nil_iff_forall_not_mem]
  intro entry member
  have joins := pairs.1 entry member
  rw [alone] at joins
  cases joins

/-- One more declaration of the name of an entry. -/
def NewEntry.join (x : NewEntry) (piece : Merge × Leaf) : NewEntry :=
  match piece.2 with
  | .functionDecl _ decl => x.append (piece.1.function decl (piece.1.shown piece.2).value).value
  | _ => x

/-- The table holds what was gathered from some pieces, and nothing else. -/
structure Gathers (pieces : List Piece) (t : Table) : Prop where
  made : t.WellMade
  distinct : t.DistinctSpaces
  consistent : Consistent pieces
  /-- The spaces are the root and those that were opened. -/
  opened : ∀ q, (∃ s < t.spaces.length, t.spacePath s = q) ↔
    q = [] ∨ ∃ path name, .space path name ∈ pieces ∧ q = path ++ [name]
  /-- Every declaration has its entry. -/
  stands : ∀ {m path l}, .leaf m path l ∈ pieces → ∃ s e, s < t.spaces.length ∧
    t.spacePath s = path ∧ t.entryAt e = some (s, l.name)
  /-- Every entry comes from the declarations under its path and name. -/
  built : ∀ {e x}, t.entryOf e = some x → ∃ m l rest i,
    declared pieces (t.spacePath x.key.1, x.key.2) = (m, l) :: rest ∧ e = l.entity i ∧
      x = rest.foldl NewEntry.join (m.read i x.key.1 l)

/-! ### What is taken -/

namespace Gathers

variable {pieces : List Piece} {t : Table}

section

variable (gathers : Gathers pieces t)
include gathers

theorem space_unique {s' : Nat} (inside : s < t.spaces.length)
    (inside' : s' < t.spaces.length) (same : t.spacePath s = t.spacePath s') : s = s' :=
  Table.spacePath_injective gathers.made.tree gathers.distinct inside inside' same

theorem exists_leaf_of_lookup {d : Declaration} (found : t.lookup s name = some d) :
    ∃ m l i, .leaf m (t.spacePath s) l ∈ pieces ∧ l.name = name ∧ d.entity = l.entity i := by
  obtain ⟨_, place⟩ := gathers.made.names.sound (k := (s, name)) found
  rw [Table.entryAt_eq_map] at place
  obtain ⟨x, isEntry, key⟩ := map_eq_some_iff.1 place
  obtain ⟨m, l, rest, i, isDeclared, isEntity, _⟩ := gathers.built isEntry
  rw [key] at isDeclared
  obtain ⟨member, named⟩ := mem_declared.1 (isDeclared ▸ mem_cons_self ..)
  exact ⟨m, l, i, member, named, isEntity⟩

theorem declared_eq_nil (inside : s < t.spaces.length)
    (free : t.lookup s name = none) : declared pieces (t.spacePath s, name) = [] := by
  rw [eq_nil_iff_forall_not_mem]
  intro entry member
  obtain ⟨isPiece, named⟩ := mem_declared.1 member
  obtain ⟨s', e, inside', path, place⟩ := gathers.stands isPiece
  obtain rfl := gathers.space_unique inside' inside path
  rw [named] at place
  obtain ⟨d, found, _⟩ := gathers.made.names.complete place
  rw [show t.find (s', name) = t.lookup s' name from rfl, free] at found
  cases found

/-- The spaces right below a space are those that were opened under its path. -/
theorem childSpace_isSome_iff (inside : s < t.spaces.length) :
    (t.childSpace s name).isSome = true ↔ .space (t.spacePath s) name ∈ pieces := by
  rw [isSome_iff_exists]
  simp only [Table.childSpace_eq_some_iff_spacePath gathers.made.tree gathers.distinct inside]
  rw [show (∃ c, c < t.spaces.length ∧ t.spacePath c = t.spacePath s ++ [name]) ↔ _ from
    gathers.opened (t.spacePath s ++ [name])]
  constructor
  · rintro (none | ⟨path, name', isPiece, same⟩)
    · simp at none
    · obtain ⟨paths, names⟩ := append_inj' same rfl
      cases names
      rw [paths]
      exact isPiece
  · exact fun isPiece => .inr ⟨_, _, isPiece, rfl⟩

end

end Gathers

end Linkage
