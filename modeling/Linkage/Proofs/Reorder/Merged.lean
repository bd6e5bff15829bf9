/-
Purpose: Files that are merged in another order give the same draft under other numbers.
-/
import Linkage.Proofs.Reorder.Gathering
import Linkage.Proofs.Reorder.Linked

namespace Linkage

open List Table Linkage.Numbering

variable {i : Nat} {pieces : List Piece} {m : Method} {path : List String} {l : Leaf} {e : Entity}
  {k : List String × String} {t t' : Table} {π : Equiv.Perm Nat}

/-! ### Places -/

/-- The path and the name that an entity stands under. -/
def Table.standing (t : Table) (e : Entity) : Option (List String × String) :=
  (t.entryAt e).map fun key => (t.spacePath key.1, key.2)

/-- The entry of the same sort with another number. -/
def Entity.renumber (k : Nat) : Entity → Entity
  | classDef _ => .classDef k
  | interface _ => .interface k
  | delegate _ => .delegate k
  | coroutine _ => .coroutine k
  | globalVariable _ => .globalVariable k
  | globalMethod _ => .globalMethod k
  | nativeMethod _ => .nativeMethod k
  | e => e

theorem Leaf.entity_injective (l : Leaf) {j : Nat} (same : l.entity i = l.entity j) : i = j := by
  cases l with
  | functionDecl kind decl => cases kind <;> cases same <;> rfl
  | _ => cases same; rfl

theorem Numbering.read_merge (n : Numbering) (m : Merge) (index space : Nat) (l : Leaf) :
    (n.merge m).read (n.ofLeaf l index) (n.spaces space) l = n.newEntry (m.read index space l) :=
  congrArg Noted.value (n.entry_merge m _ index space l)

theorem Leaf.renumber_entity (l : Leaf) (j k : Nat) : (l.entity j).renumber k = l.entity k := by
  cases l with
  | functionDecl kind decl => cases kind <;> rfl
  | _ => rfl

theorem Entity.renumber_renumber (e : Entity) (i k : Nat) :
    (e.renumber i).renumber k = e.renumber k := by
  cases e <;> rfl

/-- An entry that stands somewhere is told by its number from the others of its sort. -/
theorem Table.renumber_inj {j : Nat} (stands : t.standing (e.renumber i) = some k)
    (same : e.renumber i = e.renumber j) : i = j := by
  cases e with
  | classDef | interface | delegate | coroutine | globalVariable | globalMethod | nativeMethod =>
    cases same
    rfl
  | _ => cases stands

/-- The entries of a sort are numbered without gaps. -/
theorem Table.exists_count (t : Table) (e : Entity) :
    ∃ count, ∀ i, (t.standing (e.renumber i)).isSome = true ↔ i < count := by
  cases e with
  | classDef | interface | delegate | coroutine | globalVariable | globalMethod | nativeMethod =>
    simp only [standing, Entity.renumber, entryAt, Option.isSome_map, isSome_getElem?]
    exact ⟨_, fun _ => .rfl⟩
  | _ => exact ⟨0, by simp [standing, Entity.renumber, entryAt]⟩

/-- Declarations of one path and name become entries of one sort. -/
theorem Consistent.entity_eq (consistent : Consistent pieces) {m m' : Merge} {l' : Leaf}
    (one : .leaf m path l ∈ pieces) (other : .leaf m' path l' ∈ pieces) (named : l.name = l'.name)
    (i : Nat) : l.entity i = l'.entity i := by
  by_cases equal : Piece.leaf m path l = .leaf m' path l'
  · cases equal
    rfl
  · have same : (Piece.leaf m path l).key = (Piece.leaf m' path l').key := by
      rw [Piece.key, Piece.key, named]
    obtain ⟨shares, sorts⟩ := consistent.compat.forall one other equal same
    cases l with
    | functionDecl kind decl =>
      cases l' with
      | functionDecl kind' decl' =>
        cases sorts
        rfl
      | _ => cases sorts
    | _ => cases shares

namespace Gathers

variable {pieces pieces' : List Piece} {t t' : Table}

section

variable (gathers : Gathers pieces t)
include gathers

theorem standing_unique {e' : Entity}
    (one : t.standing e = some k) (other : t.standing e' = some k) : e = e' := by
  obtain ⟨⟨s, name⟩, place, rfl⟩ := Option.map_eq_some_iff.1 one
  obtain ⟨⟨s', name'⟩, place', same⟩ := Option.map_eq_some_iff.1 other
  obtain ⟨paths, rfl⟩ := Prod.mk.inj same
  obtain rfl := gathers.space_unique (gathers.made.space_lt place') (gathers.made.space_lt place)
    paths
  exact gathers.made.names.entity_unique place place'

theorem exists_leaf_of_standing (stands : t.standing e = some k) :
    ∃ m l i, .leaf m k.1 l ∈ pieces ∧ l.name = k.2 ∧ e = l.entity i := by
  obtain ⟨⟨s, name⟩, place, rfl⟩ := Option.map_eq_some_iff.1 stands
  obtain ⟨d, found, rfl⟩ := gathers.made.names.complete place
  exact gathers.exists_leaf_of_lookup found

theorem standing_of_leaf {m : Merge}
    (member : .leaf m path l ∈ pieces) : ∃ i, t.standing (l.entity i) = some (path, l.name) := by
  obtain ⟨s, e, inside, rfl, place⟩ := gathers.stands member
  have stands : t.standing e = some (t.spacePath s, l.name) := by
    rw [standing, place]
    rfl
  obtain ⟨m', l', i, member', named, rfl⟩ := gathers.exists_leaf_of_standing stands
  rw [gathers.consistent.entity_eq member' member named i] at stands
  exact ⟨i, stands⟩

section

variable (gathers' : Gathers pieces' t')
    (same : ∀ path l, (∃ m, .leaf m path l ∈ pieces) ↔ ∃ m, .leaf m path l ∈ pieces')
include gathers' same

/-- The same declarations make entries of the same places. -/
theorem standing_iff (e : Entity) (k : List String × String) :
    (∃ i, t.standing (e.renumber i) = some k) ↔ ∃ i, t'.standing (e.renumber i) = some k := by
  have transfer {pieces pieces' : List Piece} {t t' : Table} (gathers : Gathers pieces t)
      (gathers' : Gathers pieces' t')
      (kept : ∀ path l, (∃ m, .leaf m path l ∈ pieces) → ∃ m, .leaf m path l ∈ pieces')
      {i : Nat} (stands : t.standing (e.renumber i) = some k) :
      ∃ i, t'.standing (e.renumber i) = some k := by
    obtain ⟨m, l, j, member, named, isEntity⟩ := gathers.exists_leaf_of_standing stands
    obtain ⟨m', member'⟩ := kept _ _ ⟨m, member⟩
    obtain ⟨i', stands'⟩ := gathers'.standing_of_leaf member'
    rw [named, ← l.renumber_entity j, ← isEntity, e.renumber_renumber] at stands'
    exact ⟨i', stands'⟩
  constructor
  · rintro ⟨i, stands⟩
    exact transfer gathers gathers' (fun path l => (same path l).1) stands
  · rintro ⟨i, stands⟩
    exact transfer gathers' gathers (fun path l => (same path l).2) stands

/-- The entries of one sort have their places under other numbers. -/
theorem exists_renumbering (e : Entity) :
    ∃ π : Equiv.Perm Nat, ∀ i, t'.standing (e.renumber (π i)) = t.standing (e.renumber i) := by
  obtain ⟨count, numbered⟩ := t.exists_count e
  obtain ⟨count', numbered'⟩ := t'.exists_count e
  exact exists_reindex numbered numbered'
    (fun one other => renumber_inj one (gathers.standing_unique one other))
    (fun one other => renumber_inj one (gathers'.standing_unique one other))
    (gathers.standing_iff gathers' same e)

end

/-- The spaces have their paths under other numbers. -/
theorem exists_renumbering_spaces (gathers' : Gathers pieces' t')
    (same : ∀ path name, .space path name ∈ pieces ↔ .space path name ∈ pieces') :
    ∃ π : Equiv.Perm Nat, (∀ s, π s < t'.spaces.length ↔ s < t.spaces.length) ∧
      ∀ s < t.spaces.length, t'.spacePath (π s) = t.spacePath s := by
  let pathOf (t : Table) (s : Nat) : Option (List String) :=
    if s < t.spaces.length then some (t.spacePath s) else none
  have isPath {t : Table} {s : Nat} {q : List String} :
      pathOf t s = some q ↔ s < t.spaces.length ∧ t.spacePath s = q := by
    simp [pathOf]
  have inside (t : Table) (s : Nat) : (pathOf t s).isSome = true ↔ s < t.spaces.length := by
    simp [pathOf, Option.isSome_iff_exists]
  have once {pieces : List Piece} {t : Table} (gathers : Gathers pieces t) {i j : Nat}
      {q : List String} (one : pathOf t i = some q) (other : pathOf t j = some q) : i = j := by
    obtain ⟨inside, path⟩ := isPath.1 one
    obtain ⟨inside', path'⟩ := isPath.1 other
    exact gathers.space_unique inside inside' (path.trans path'.symm)
  obtain ⟨π, kept⟩ := exists_reindex (inside t) (inside t') (once gathers)
    (once gathers') fun q => by
      simp only [isPath, gathers.opened q, gathers'.opened q, same]
  refine ⟨π, fun s => ?_, fun s old => ?_⟩
  · rw [← inside, ← inside, kept]
  · exact (isPath.1 ((kept s).trans (isPath.2 ⟨old, rfl⟩))).2

end

end Gathers

/-! ### Renumbered files -/

/-- A piece of a file that has another number now. -/
def Piece.refile (π : Nat → Nat) : Piece → Piece
  | space path name => space path name
  | leaf m path l => leaf { m with file := π m.file } path l

/-- The second table is gathered from the pieces of the first under new numbers. -/
structure Regathers (n : Numbering) (pieces pieces' : List Piece) (t t' : Table) : Prop where
  gathers : Gathers pieces t
  gathers' : Gathers pieces' t'
  perm : pieces'.Perm (pieces.map (Piece.refile n.files))
  standing : ∀ e, t'.standing (n.entity e) = t.standing e
  inside : ∀ s, n.spaces s < t'.spaces.length ↔ s < t.spaces.length
  path : ∀ s < t.spaces.length, t'.spacePath (n.spaces s) = t.spacePath s

/-- Tables that are gathered from the same pieces differ in their numbers only. -/
theorem Gathers.exists_regathers {pieces' : List Piece} (gathers : Gathers pieces t)
    (gathers' : Gathers pieces' t') (perm : pieces'.Perm (pieces.map (Piece.refile π))) :
    ∃ n : Numbering, n.files = π ∧ Regathers n pieces pieces' t t' := by
  have leaves (path : List String) (l : Leaf) :
      (∃ m, .leaf m path l ∈ pieces) ↔ ∃ m, .leaf m path l ∈ pieces' := by
    simp only [perm.mem_iff, mem_map]
    constructor
    · rintro ⟨m, member⟩
      exact ⟨_, _, member, rfl⟩
    · rintro ⟨m, piece, member, same⟩
      cases piece with
      | space => cases same
      | leaf m' path' l' =>
        cases same
        exact ⟨m', member⟩
  have spaces (path : List String) (name : String) :
      .space path name ∈ pieces ↔ .space path name ∈ pieces' := by
    simp only [perm.mem_iff, mem_map]
    constructor
    · exact fun member => ⟨_, member, rfl⟩
    · rintro ⟨piece, member, same⟩
      cases piece with
      | space path' name' =>
        cases same
        exact member
      | leaf => cases same
  choose number same using gathers.exists_renumbering gathers' leaves
  obtain ⟨ofSpace, inside, path⟩ := gathers.exists_renumbering_spaces gathers' spaces
  refine ⟨⟨π, ofSpace, number (.classDef 0), number (.interface 0), number (.delegate 0),
    number (.coroutine 0), number (.globalVariable 0), number (.globalMethod 0),
    number (.nativeMethod 0)⟩, rfl, gathers, gathers', perm, fun e => ?_, inside, path⟩
  cases e with
  | classDef i => exact same (.classDef 0) i
  | interface i => exact same (.interface 0) i
  | delegate i => exact same (.delegate 0) i
  | coroutine i => exact same (.coroutine 0) i
  | globalVariable i => exact same (.globalVariable 0) i
  | globalMethod i => exact same (.globalMethod 0) i
  | nativeMethod i => exact same (.nativeMethod 0) i
  | _ => rfl

namespace Regathers

variable {n : Numbering} {pieces pieces' : List Piece} {t t' : Table}

/-! ### Entries -/

/-- An entry stands in the new space under its old name. -/
theorem entryAt (r : Regathers n pieces pieces' t t') (e : Entity) :
    t'.entryAt (n.entity e) = (t.entryAt e).map fun key => (n.spaces key.1, key.2) := by
  have same := r.standing e
  unfold Table.standing at same
  cases place : t.entryAt e with
  | none =>
    rw [place, Option.map_none, Option.map_eq_none_iff] at same
    exact same
  | some key =>
    rw [place] at same
    obtain ⟨key', place', equal⟩ := Option.map_eq_some_iff.1 same
    obtain ⟨paths, names⟩ := Prod.mk.inj equal
    have inside := r.gathers.made.space_lt place
    have spaces := r.gathers'.space_unique (r.gathers'.made.space_lt place')
      ((r.inside key.1).2 inside) (paths.trans (r.path key.1 inside).symm)
    rw [place', Option.map_some, ← spaces, ← names]

/-- The declarations of a place are the same in another order. -/
theorem declared_perm (r : Regathers n pieces pieces' t t') (key : List String × String) :
    (declared pieces' key).Perm
      ((declared pieces key).map fun entry => (n.merge entry.1, entry.2)) := by
  refine (r.perm.filterMap _).trans (List.Perm.of_eq ?_)
  rw [declared, filterMap_map, map_filterMap]
  congr 1
  funext piece
  cases piece with
  | space => rfl
  | leaf m path l =>
    simp only [Function.comp_apply, Piece.refile, Piece.declared?]
    split <;> rfl

end Regathers

/-! ### Methods -/

namespace MethodKind

/-- A method of this kind as an entry. -/
def wrap (m : Method) : MethodKind → NewEntry
  | global => .method m
  | native => .native m

/-- The methods of this kind. -/
def methods (t : Table) : MethodKind → List Method
  | global => t.methods
  | native => t.natives

theorem wrap_injective (kind : MethodKind) {m' : Method} (same : kind.wrap m = kind.wrap m') :
    m = m' := by
  cases kind <;> cases same <;> rfl

theorem entryOf_entity (t : Table) (kind : MethodKind) (i : Nat) :
    t.entryOf (kind.entity i) = (kind.methods t)[i]?.map fun m => kind.wrap m := by
  cases kind <;> rfl

theorem entity_ofMethodKind (n : Numbering) (kind : MethodKind) (i : Nat) :
    n.entity (kind.entity i) = kind.entity (n.ofMethodKind kind i) := by
  cases kind <;> rfl

end MethodKind

/-- The function that a declaration is read into, if it is one. -/
def Merge.functionsOf (entry : Merge × Leaf) : List Function :=
  match entry.2 with
  | .functionDecl _ decl => [(entry.1.function decl (entry.1.shown entry.2).value).value]
  | _ => []

/-- The functions that join a method come after those it has. -/
theorem MethodKind.foldl_join (kind : MethodKind) (m : Method) (rest : List (Merge × Leaf)) :
    rest.foldl NewEntry.join (kind.wrap m) =
      kind.wrap { m with functions := m.functions ++ rest.flatMap Merge.functionsOf } := by
  induction rest generalizing m with
  | nil => simp
  | cons entry rest ih =>
    have step : (kind.wrap m).join entry =
        kind.wrap { m with functions := m.functions ++ Merge.functionsOf entry } := by
      obtain ⟨file, l⟩ := entry
      cases l with
      | functionDecl sort decl => cases kind <;> rfl
      | _ => simp [NewEntry.join, Merge.functionsOf]
    rw [foldl_cons, step, ih, flatMap_cons, append_assoc]

/-- A method has the functions that were declared under its path and name. -/
theorem Gathers.exists_of_method (gathers : Gathers pieces t)
    {kind : MethodKind} (found : (kind.methods t)[i]? = some m) :
    m.functions = (declared pieces (t.spacePath m.space, m.name)).flatMap Merge.functionsOf := by
  have isEntry : t.entryOf (kind.entity i) = some (kind.wrap m) := by
    rw [kind.entryOf_entity, found]
    rfl
  have key : (kind.wrap m).key = (m.space, m.name) := by
    cases kind <;> rfl
  obtain ⟨file, l, rest, j, isDeclared, isEntity, value⟩ := gathers.built isEntry
  rw [key] at isDeclared value
  cases l with
  | functionDecl sort decl =>
    obtain rfl : sort = kind := Option.some.inj (Leaf.joins_of_entity isEntity.symm)
    let f := (file.function decl (file.shown (.functionDecl sort decl)).value).value
    have first : file.read j m.space (.functionDecl sort decl) =
        sort.wrap ⟨decl.name, m.space, [f]⟩ := by
      cases sort <;> rfl
    rw [first, sort.foldl_join] at value
    rw [isDeclared, congrArg Method.functions (sort.wrap_injective value)]
    rfl
  | _ => cases kind <;> cases isEntity

namespace Regathers

variable {n : Numbering} {pieces pieces' : List Piece} {t t' : Table}

section

variable (r : Regathers n pieces pieces' t t')
include r

/-- What joins nothing is the same entry under new numbers. -/
theorem entryOf (alone : e.isMethod = false) :
    t'.entryOf (n.entity e) = (t.entryOf e).map n.newEntry := by
  have places := r.entryAt e
  rw [entryAt_eq_map, entryAt_eq_map] at places
  cases isEntry : t.entryOf e with
  | none =>
    rw [isEntry, Option.map_none, Option.map_none, Option.map_eq_none_iff] at places
    exact places
  | some x =>
    rw [isEntry] at places
    obtain ⟨x', isEntry', keys⟩ := Option.map_eq_some_iff.1 places
    obtain ⟨m, l, rest, i, isDeclared, rfl, value⟩ := r.gathers.built isEntry
    have joins : l.joins = none := by
      cases l with
      | functionDecl kind decl => cases kind <;> cases alone
      | _ => rfl
    obtain rfl := r.gathers.consistent.declared_eq_singleton isDeclared joins
    obtain ⟨m', l', rest', i', isDeclared', isEntity, value'⟩ := r.gathers'.built isEntry'
    have inside := r.gathers.inside_of_entryOf isEntry
    rw [keys] at isDeclared' value'
    rw [r.path _ inside] at isDeclared'
    have only := r.declared_perm (t.spacePath x.key.1, x.key.2)
    rw [isDeclared, isDeclared', map_singleton, perm_singleton] at only
    cases only
    obtain rfl : i' = n.ofLeaf l i :=
      l.entity_injective (isEntity.symm.trans (n.entity_leaf l i).symm)
    rw [isEntry', value']
    exact congrArg some ((n.read_merge m i x.key.1 l).trans (congrArg n.newEntry value.symm))

/-- Methods are the same under new numbers, with their functions in another order. -/
theorem methods (kind : MethodKind) :
    Reindexed (n.ofMethodKind kind) (Method.Alike n .here) (kind.methods t) (kind.methods t') := by
  intro i
  have places := r.entryAt (kind.entity i)
  rw [entryAt_eq_map, entryAt_eq_map, kind.entity_ofMethodKind n, kind.entryOf_entity,
    kind.entryOf_entity] at places
  cases found : (kind.methods t)[i]? with
  | none =>
    rw [found, Option.map_none, Option.map_none, Option.map_none, Option.map_eq_none_iff,
      Option.map_eq_none_iff] at places
    rw [places]
    exact .none
  | some m =>
    rw [found, Option.map_map] at places
    obtain ⟨m', found', keys⟩ := Option.map_eq_some_iff.1 places
    have key (m : Method) : (kind.wrap m).key = (m.space, m.name) := by
      cases kind <;> rfl
    simp only [Function.comp_apply, key] at keys
    obtain ⟨spaces, names⟩ := Prod.mk.inj keys
    rw [found']
    refine .some ⟨names, spaces, ?_⟩
    have place : t.entryAt (kind.entity i) = some (m.space, m.name) := by
      rw [entryAt_eq_map, kind.entryOf_entity, found]
      exact congrArg some (key m)
    rw [r.gathers'.exists_of_method found', r.gathers.exists_of_method found, spaces, names,
      r.path _ (r.gathers.made.space_lt place)]
    refine ((r.declared_perm _).flatMap_right _).trans (List.Perm.of_eq ?_)
    rw [flatMap_map, map_flatMap]
    congr 1
    funext ⟨file, l⟩
    cases l with
    | functionDecl sort decl =>
      simp only [Merge.functionsOf, n.function_merge, Noted.value_map, map_singleton]
      rfl
    | _ => rfl

/-- The entries are the same under new numbers. -/
theorem sameEntries : t.SameEntries n .here t' := by
  have unwrap {α : Type} {make : α → NewEntry} (injective : make.Injective) {f : α → α}
      (commutes : ∀ a, n.newEntry (make a) = make (f a)) {x y : Option α}
      (same : y.map make = (x.map make).map n.newEntry) : y = x.map f := by
    refine Option.map_injective injective ?_
    rw [same, Option.map_map, Option.map_map]
    congr 1
    funext a
    exact commutes a
  constructor
  case classes =>
    exact fun i => unwrap (fun _ _ => NewEntry.classDef.inj) (fun _ => rfl)
      (r.entryOf (e := .classDef i) rfl)
  case interfaces =>
    exact fun i => unwrap (fun _ _ => NewEntry.interface.inj) (fun _ => rfl)
      (r.entryOf (e := .interface i) rfl)
  case delegates =>
    exact fun i => unwrap (fun _ _ => NewEntry.delegate.inj) (fun _ => rfl)
      (r.entryOf (e := .delegate i) rfl)
  case coroutines =>
    exact fun i => unwrap (fun _ _ => NewEntry.coroutine.inj) (fun _ => rfl)
      (r.entryOf (e := .coroutine i) rfl)
  case globals =>
    intro i
    have same : t'.globals[n.globals i]? = t.globals[i]?.map (n.variableDef .here) :=
      unwrap (fun _ _ => NewEntry.global.inj) (fun _ => rfl)
        (r.entryOf (e := .globalVariable i) rfl)
    rw [within_here, same, Option.map_map]
    rfl
  case methods => exact r.methods .global
  case natives => exact r.methods .native

/-! ### Spaces and names -/

/-- The spaces right below a space are the same. -/
theorem child (s : Nat) (name : String) :
    t'.childSpace (n.spaces s) name = (t.childSpace s name).map n.spaces := by
  have below {u : Table} {s : Nat} (beyond : ¬s < u.spaces.length) :
      u.childSpace s name = none := by
    rw [Table.childSpace, getElem?_eq_none (not_lt.1 beyond)]
    rfl
  by_cases inside : s < t.spaces.length
  · have inside' := (r.inside s).2 inside
    ext c'
    obtain ⟨c, rfl⟩ := n.spaces.surjective c'
    have place : t.childSpace s name = some c ↔ _ :=
      childSpace_eq_some_iff_spacePath r.gathers.made.tree r.gathers.distinct inside
    have place' : t'.childSpace (n.spaces s) name = some (n.spaces c) ↔ _ :=
      childSpace_eq_some_iff_spacePath r.gathers'.made.tree r.gathers'.distinct inside'
    rw [place', r.inside, r.path s inside, Option.map_eq_some_iff]
    constructor
    · rintro ⟨isInside, path⟩
      rw [r.path c isInside] at path
      exact ⟨c, place.2 ⟨isInside, path⟩, rfl⟩
    · rintro ⟨c₀, known, same⟩
      obtain rfl := n.spaces.injective same
      obtain ⟨isInside, path⟩ := place.1 known
      exact ⟨isInside, (r.path _ isInside).trans path⟩
  · rw [below inside, below fun inside' => inside ((r.inside s).1 inside')]
    rfl

theorem spaceKey (s p : Nat) (name : String) :
    t'.spaceKeys[n.spaces s]? = some (some (n.spaces p), name) ↔
      t.spaceKeys[s]? = some (some p, name) := by
  rw [← childSpace_eq_some_iff r.gathers.made.tree r.gathers.distinct,
    ← childSpace_eq_some_iff r.gathers'.made.tree r.gathers'.distinct, r.child]
  constructor
  · intro known
    obtain ⟨c, isChild, same⟩ := Option.map_eq_some_iff.1 known
    rwa [n.spaces.injective same] at isChild
  · intro known
    rw [known]
    rfl

theorem parent (s : Nat) : t'.parentSpace (n.spaces s) = (t.parentSpace s).map n.spaces := by
  have isParent {u : Table} {s p : Nat} :
      u.parentSpace s = some p ↔ ∃ name, u.spaceKeys[s]? = some (some p, name) := by
    simp [parentSpace_eq, Option.bind_eq_some_iff]
  ext p'
  obtain ⟨p, rfl⟩ := n.spaces.surjective p'
  simp only [isParent, Option.map_eq_some_iff, r.spaceKey, n.spaces.injective.eq_iff,
    exists_eq_right]

theorem label (s : Nat) : (t'.spaces[n.spaces s]?.bind fun x => x.parent.map fun _ => x.name) =
      t.spaces[s]?.bind fun x => x.parent.map fun _ => x.name := by
  have isLabel {u : Table} {s : Nat} {name : String} :
      (u.spaceKeys[s]?.bind fun key => key.1.map fun _ => key.2) = some name ↔
        ∃ p, u.spaceKeys[s]? = some (some p, name) := by
    simp [Option.bind_eq_some_iff]
  rw [label_eq, label_eq]
  ext name
  simp only [isLabel]
  constructor
  · rintro ⟨p', key⟩
    obtain ⟨p, rfl⟩ := n.spaces.surjective p'
    exact ⟨p, (r.spaceKey s p name).1 key⟩
  · rintro ⟨p, key⟩
    exact ⟨n.spaces p, (r.spaceKey s p name).2 key⟩

end

end Regathers

/-- Under new numbers an entry comes with the same visibilities. -/
theorem Table.SameEntries.mem_visibilities {n : Numbering} (same : t.SameEntries n .here t')
    (e : Entity) (v : Visibility) : v ∈ t'.visibilities (n.entity e) ↔ v ∈ t.visibilities e := by
  have ofMethods {ms ms' : List Method} {π : Equiv.Perm Nat}
      (reindexed : Reindexed π (Method.Alike n .here) ms ms') (i : Nat) :
      v ∈ (ms'[π i]?.map (·.visibilities)).getD [] ↔ v ∈ (ms[i]?.map (·.visibilities)).getD [] := by
    have related := reindexed i
    generalize ms[i]? = x, ms'[π i]? = y at related
    cases related with
    | none => rfl
    | some alike =>
      simp only [Option.map_some, Option.getD_some, Method.visibilities]
      rw [(alike.functions.map _).mem_iff, map_map]
      rfl
  cases e with
  | classDef i =>
    have entry := same.classes i
    rw [within_here] at entry
    simp [entity, visibilities, entry, classDef]
  | interface i =>
    have entry := same.interfaces i
    rw [within_here] at entry
    simp [entity, visibilities, entry, interfaceDef]
  | delegate i =>
    have entry := same.delegates i
    rw [within_here] at entry
    simp [entity, visibilities, entry, delegateDef]
  | coroutine i =>
    have entry := same.coroutines i
    rw [within_here] at entry
    simp [entity, visibilities, entry, coroutineDef]
  | globalVariable i =>
    have entry := congrArg (Option.map VariableDef.visibility) (same.globals i)
    rw [Option.map_map, Option.map_map] at entry
    have shown : t'.globals[n.globals i]?.map (·.visibility) =
      t.globals[i]?.map (·.visibility) := entry
    simp only [entity, visibilities, shown]
  | globalMethod i => exact ofMethods same.methods i
  | nativeMethod i => exact ofMethods same.natives i
  | _ => rfl

namespace Regathers

variable {n : Numbering} {pieces pieces' : List Piece} {t t' : Table}

/-- What a space declares under a name is the same. -/
theorem found (r : Regathers n pieces pieces' t t') (s : Nat) (name : String) :
    t'.lookup (n.spaces s) name = (t.lookup s name).map n.declaration := by
  have made := r.gathers.made
  have made' := r.gathers'.made
  cases known : t.lookup s name with
  | none =>
    cases known' : t'.lookup (n.spaces s) name with
    | none => rfl
    | some d' =>
      obtain ⟨_, place'⟩ := made'.names.sound (k := (n.spaces s, name)) known'
      obtain ⟨_, l, i', _, _, isEntity⟩ := r.gathers'.exists_leaf_of_lookup known'
      obtain ⟨i, rfl⟩ := (n.ofLeaf l).surjective i'
      rw [isEntity, n.entity_leaf, r.entryAt] at place'
      obtain ⟨⟨s₀, name₀⟩, place, same⟩ := Option.map_eq_some_iff.1 place'
      obtain ⟨spaces, rfl⟩ := Prod.mk.inj same
      obtain rfl := n.spaces.injective spaces
      obtain ⟨d, stored, _⟩ := made.names.complete place
      rw [show t.find (s₀, name₀) = t.lookup s₀ name₀ from rfl, known] at stored
      cases stored
  | some d =>
    obtain ⟨home, place⟩ := made.names.sound (k := (s, name)) known
    have place' : t'.entryAt (n.entity d.entity) = some (n.spaces s, name) := by
      rw [r.entryAt, place]
      rfl
    obtain ⟨d', known', isEntity⟩ := made'.names.complete place'
    obtain ⟨home', _⟩ := made'.names.sound known'
    have widest := made.shown.widest (k := (s, name)) known
    have widest' := made'.shown.widest known'
    rw [isEntity] at widest'
    have shown : d'.visibility = d.visibility :=
      widest'.eq_of_mem_iff widest (r.sameEntries.mem_visibilities d.entity)
    rw [show t'.lookup (n.spaces s) name = some d' from known']
    obtain ⟨_, _, _⟩ := d
    obtain ⟨_, _, _⟩ := d'
    cases home
    cases home'
    cases shown
    cases isEntity
    rfl

/-- Tables that are gathered from the same pieces are alike. -/
theorem alike (r : Regathers n pieces pieces' t t') (name : t'.name = t.name) :
    t.Alike n .here t' where
  toSameEntries := r.sameEntries
  name := name
  stands := r.gathers.made.home
  stands' := r.gathers'.made.home
  kinds := by
    intro c member
    obtain ⟨i, found⟩ := mem_iff_getElem?.1 member
    rw [(r.gathers.made.classes found).kind]
    rfl
  classMembers := by
    intro c member name d known
    obtain ⟨i, found⟩ := mem_iff_getElem?.1 member
    obtain ⟨_, place⟩ := (r.gathers.made.classes found).names.sound known
    obtain ⟨_, _, e⟩ := d
    cases e with
    | memberVariable | memberMethod => rfl
    | _ => cases place
  interfaceMembers := by
    intro c member name d known
    obtain ⟨i, found⟩ := mem_iff_getElem?.1 member
    obtain ⟨_, place⟩ := (r.gathers.made.interfaces found).names.sound known
    obtain ⟨_, _, e⟩ := d
    cases e with
    | interfaceMethod => rfl
    | _ => cases place
  root := by
    have tree := r.gathers.made.tree
    have tree' := r.gathers'.made.tree
    refine r.gathers'.space_unique ((r.inside 0).2 tree.root_lt) tree'.root_lt ?_
    exact (r.path 0 tree.root_lt).trans (tree.spacePath_root.trans tree'.spacePath_root.symm)
  child := r.child
  found := r.found
  parent := r.parent
  label := r.label

end Regathers

/-! ### Merged drafts -/

namespace Piece

mutual

theorem refile_ofItem (π : Nat → Nat) (m : Merge) (path : List String) (item : Item) :
    ofItem { m with file := π m.file } path item = (ofItem m path item).map (refile π) := by
  cases item with
  | space name span items =>
    rw [ofItem, ofItem, map_cons, refile_ofItems]
    rfl
  | _ => rfl

theorem refile_ofItems (π : Nat → Nat) (m : Merge) (path : List String) (items : List Item) :
    ofItems { m with file := π m.file } path items = (ofItems m path items).map (refile π) := by
  cases items with
  | nil => rfl
  | cons item rest => rw [ofItems, ofItems, map_append, refile_ofItem, refile_ofItems]

end

end Piece

/-- Whether pieces go together is no matter of the numbers of their files. -/
theorem Consistent.refile (consistent : Consistent pieces)
    (n : Numbering) : Consistent (pieces.map (Piece.refile n.files)) := by
  refine ⟨?_, pairwise_map.2 (consistent.compat.imp fun {p q} compat => ?_)⟩
  · intro piece member
    obtain ⟨p, isPiece, rfl⟩ := mem_map.1 member
    have fine := consistent.fine p isPiece
    cases p with
    | space => trivial
    | leaf m path l =>
      refine ⟨fine.1, ?_⟩
      have notes := congrArg Noted.notes (n.entry_merge m (m.shown l).value 0 0 l)
      rw [Noted.notes_map, fine.2, Merge.notes_entry _ _ 0 0] at notes
      exact notes
  · cases p <;> cases q <;> exact compat

namespace Draft

variable {files files' : List (SourceFile × Outline)}

theorem name_merge (name : String) (files : List (SourceFile × Outline)) :
    (merge name files).value.table.name = name := by
  refine (merge_grows name files).keeps (P := fun t => t.name = name) (fun step held => ?_) rfl
  cases step with
  | space => exact held
  | @entry x => cases x <;> exact held
  | overload kind => cases kind <;> exact held

/-- Under other numbers of the files the pieces are the same in another order. -/
theorem pieces_perm (places : ∀ i, files'[π i]? = files[i]?) :
    (files'.zipIdx.flatMap piecesOf).Perm
      ((files.zipIdx.flatMap piecesOf).map (Piece.refile π)) := by
  have reindexed : Reindexed π (fun file file' => file' = id file) files files' :=
    .of_map fun i => by rw [places, Option.map_id, id]
  rw [map_flatMap]
  refine reindexed.zipIdx.flatMap_perm fun ⟨file, i⟩ ⟨file', i'⟩ related => ?_
  obtain rfl : file' = file := related.1
  obtain rfl : i' = π i := related.2
  exact .of_eq (Piece.refile_ofItems π ⟨i, file'.1.path⟩ [] file'.2.items)

/-- Files that go together do so in any order, and the drafts differ in their numbers only. -/
theorem merge_alike (name : String)
    (perm : files.Perm files') (quiet : (Draft.merge name files).notes = []) :
    (Draft.merge name files').notes = [] ∧ ∃ n : Numbering,
      (Draft.merge name files).value.Alike n (Draft.merge name files').value := by
  obtain ⟨π, places⟩ := exists_reindex_of_perm perm
  have pieces := pieces_perm places
  have gathers := gathers_merge quiet
  rcases merge_outcome name files' with ⟨quiet', gathers'⟩ | ⟨_, apart⟩
  · rw [Noted.notes_map] at quiet'
    refine ⟨quiet', ?_⟩
    obtain ⟨n, rfl, r⟩ := gathers.exists_regathers gathers' pieces
    refine ⟨n, r.alike (by rw [Noted.value_map, name_merge, name_merge]), fun k => ?_⟩
    rw [Draft.merge, Draft.merge, files_mergeFiles, files_mergeFiles, nil_append,
      nil_append, getElem?_map, getElem?_map, places, Option.map_map]
    rfl
  · have consistent := gathers.consistent.refile { Numbering.id with files := π }
    exact absurd (consistent.of_perm pieces.symm) apart

end Draft

end Linkage
