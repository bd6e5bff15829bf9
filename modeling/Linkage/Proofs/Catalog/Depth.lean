/-
Purpose: The graph of inheritance links, and the depth of one type below another as the length of
  a path in it.
-/
import Linkage.Proofs.Catalog.Embedding
import Linkage.Proofs.Distance

namespace Linkage.Catalog

open List Option Nat TypeId Walk

variable {i x y base sub id : TypeId} {k d m n : Nat}

/-! ### Links -/

/-- One link up: from a class to its parent or to an interface in its inheritance list, and from
an interface to one that it inherits.  An array of interfaces is no interface. -/
inductive Link (c : Catalog) : TypeId → TypeId → Prop
  | parent {x : TypeId} {d : ClassDef} (isClass : c.classDef? x = some d)
      (resolved : d.parent.isValid = true) : Link c x d.parent.id
  | implements {x : TypeId} {d : ClassDef} {i : TypeRef} (isClass : c.classDef? x = some d)
      (listed : i ∈ d.interfaces) (scalar : i.isArray = false)
      (isInterface : i.id.kind = .interface) : Link c x i.id
  | inherits {x : TypeId} {d : InterfaceDef} {i : TypeRef} (found : c.interfaceDef? x = some d)
      (listed : i ∈ d.inherits) (scalar : i.isArray = false)
      (isInterface : i.id.kind = .interface) : Link c x i.id

variable {c : Catalog}

theorem mem_scalarInterfaces {types : List TypeRef} : i ∈ scalarInterfaces types ↔
      ∃ type ∈ types, type.isArray = false ∧ type.id.kind = .interface ∧ type.id = i := by
  simp only [scalarInterfaces, mem_filterMap, ite_none_right_eq_some,
    some.injEq, and_assoc]

theorem mem_baseInterfaces : i ∈ c.baseInterfaces x ↔
    ∃ d, c.interfaceDef? x = some d ∧ i ∈ scalarInterfaces d.inherits := by
  unfold baseInterfaces
  cases c.interfaceDef? x <;> simp

/-- The interfaces that a class names itself are those of its inheritance list. -/
theorem mem_ownInterfaces_of_isDefinition (definition : x.kind.isDefinition = true) :
    i ∈ c.ownInterfaces x ↔ ∃ d, c.classDef? x = some d ∧ i ∈ scalarInterfaces d.interfaces := by
  have noInterface : x.kind ≠ .interface := by
    intro isInterface
    rw [isInterface] at definition
    cases definition
  rw [ownInterfaces, if_neg noInterface]
  cases c.classDef? x <;> simp

theorem kind_of_mem_ownInterfaces (member : i ∈ c.ownInterfaces x) : i.kind = .interface := by
  unfold ownInterfaces at member
  split at member
  · rwa [mem_singleton.1 member]
  · cases found : c.classDef? x with
    | none =>
      rw [found] at member
      cases member
    | some d =>
      rw [found] at member
      obtain ⟨type, _, _, isInterface, rfl⟩ := mem_scalarInterfaces.1 member
      exact isInterface

theorem nextParent_of_classDef? {d : ClassDef} (isClass : c.classDef? x = some d)
    (valid : d.parent.id.isValid = true) : c.nextParent x = some d.parent.id := by
  have parent : c.parent x = d.parent := by
    obtain ⟨definition, _⟩ := classDef?_eq_some.1 isClass
    unfold parent
    cases kind : x.kind with
    | struct | handle => simp [isClass]
    | _ =>
      rw [kind] at definition
      cases definition
  rw [nextParent, parent, if_pos valid]

theorem nextParent_eq_some_of_isDefinition (definition : x.kind.isDefinition = true) :
    c.nextParent x = some y ↔
      ∃ d, c.classDef? x = some d ∧ d.parent.isValid = true ∧ d.parent.id = y := by
  constructor
  · intro next
    obtain ⟨valid, ⟨d, isClass, rfl⟩ | ⟨other, _⟩⟩ := nextParent_cases next
    · exact ⟨d, isClass, valid, rfl⟩
    · rw [definition] at other
      cases other
  · rintro ⟨d, isClass, valid, rfl⟩
    exact nextParent_of_classDef? isClass valid

/-- The links of a class go to its parent and to the interfaces it names, those of an interface to
its base interfaces. -/
theorem link_iff : c.Link x y ↔
    (x.kind.isDefinition = true ∧ (c.nextParent x = some y ∨ y ∈ c.ownInterfaces x)) ∨
      x.kind = .interface ∧ y ∈ c.baseInterfaces x := by
  constructor
  · intro link
    cases link with
    | parent isClass resolved =>
      have definition := (classDef?_eq_some.1 isClass).1
      exact .inl ⟨definition, .inl
        ((nextParent_eq_some_of_isDefinition definition).2 ⟨_, isClass, resolved, rfl⟩)⟩
    | implements isClass listed scalar isInterface =>
      have definition := (classDef?_eq_some.1 isClass).1
      exact .inl ⟨definition, .inr ((mem_ownInterfaces_of_isDefinition definition).2
        ⟨_, isClass, mem_scalarInterfaces.2 ⟨_, listed, scalar, isInterface, rfl⟩⟩)⟩
    | inherits found listed scalar isInterface =>
      exact .inr ⟨(interfaceDef?_eq_some.1 found).1, mem_baseInterfaces.2
        ⟨_, found, mem_scalarInterfaces.2 ⟨_, listed, scalar, isInterface, rfl⟩⟩⟩
  · rintro (⟨definition, next | own⟩ | ⟨_, base⟩)
    · obtain ⟨d, isClass, resolved, rfl⟩ := (nextParent_eq_some_of_isDefinition definition).1 next
      exact .parent isClass resolved
    · obtain ⟨d, isClass, listed⟩ := (mem_ownInterfaces_of_isDefinition definition).1 own
      obtain ⟨type, member, scalar, isInterface, rfl⟩ := mem_scalarInterfaces.1 listed
      exact .implements isClass member scalar isInterface
    · obtain ⟨d, found, listed⟩ := mem_baseInterfaces.1 base
      obtain ⟨type, member, scalar, isInterface, rfl⟩ := mem_scalarInterfaces.1 listed
      exact .inherits found member scalar isInterface

theorem link_iff_of_interface (isInterface : x.kind = .interface) :
    c.Link x y ↔ y ∈ c.baseInterfaces x := by
  rw [link_iff, isInterface]
  simp [TypeKind.isDefinition]

theorem kind_of_mem_baseInterfaces (base : i ∈ c.baseInterfaces x) : i.kind = .interface := by
  obtain ⟨_, _, listed⟩ := mem_baseInterfaces.1 base
  obtain ⟨_, _, _, isInterface, rfl⟩ := mem_scalarInterfaces.1 listed
  exact isInterface

theorem path_of_interface (isInterface : x.kind = .interface) :
    Path c.Link n x y ↔ Path (fun a b => b ∈ c.baseInterfaces a) n x y := by
  constructor
  · intro path
    refine (path.imp (P := fun a => a.kind = .interface) (fun a b kind link => ?_) isInterface).1
    have base := (link_iff_of_interface kind).1 link
    exact ⟨base, kind_of_mem_baseInterfaces base⟩
  · intro path
    refine (path.imp (P := fun a => a.kind = .interface) (fun a b kind base => ?_) isInterface).1
    exact ⟨(link_iff_of_interface kind).2 base, kind_of_mem_baseInterfaces base⟩

theorem kind_of_path (isInterface : x.kind = .interface)
    (path : Path c.Link n x y) : y.kind = .interface := by
  refine (path.imp (S := c.Link) (P := fun a => a.kind = .interface) (fun a b kind link => ?_)
    isInterface).2
  exact ⟨link, kind_of_mem_baseInterfaces ((link_iff_of_interface kind).1 link)⟩

/-! ### Interfaces above interfaces -/

/-- The depth below an interface is the length of the shortest path to it. -/
theorem interfaceDepth_iff {start : List TypeId} (interfaces : ∀ i ∈ start, i.kind = .interface) :
    c.interfaceDepth base start = some n ↔ IsLeast {m | ∃ i ∈ start, Path c.Link m i base} n := by
  have lengths : {m | ∃ i ∈ start, Path (fun a b => b ∈ c.baseInterfaces a) m i base} =
      {m | ∃ i ∈ start, Path c.Link m i base} := by
    ext m
    refine exists_congr fun i => and_congr_right fun member => ?_
    exact (path_of_interface (interfaces i member)).symm
  rw [interfaceDepth, ← lengths]
  exact lookup_levels_iff (fun i member => mem_append_left _ member)
    (fun _ _ base => mem_append_right _ (mem_inherited_of_mem_baseInterfaces base))

/-! ### Going up a chain -/

/-- The steps from a type up to `base` that do not go through its parent. -/
def ownDepth (c : Catalog) (base id : TypeId) : Option Nat :=
  if id = base then some 0
  else if base.kind = .interface ∧ id.kind.isDefinition = true then
    (c.interfaceDepth base (c.ownInterfaces id)).map (· + 1)
  else none

theorem chainDepth_cons (c : Catalog) (base id : TypeId) (above : List TypeId) :
    c.chainDepth base (id :: above) =
      (c.ownDepth base id).or ((c.chainDepth base above).map (· + 1)) := by
  rw [chainDepth, ownDepth]
  split
  · rfl
  · dsimp only
    split <;> rename_i implemented <;> rw [implemented] <;> rfl

/-- The first type of a chain that leads to `base` by itself decides how deep it is. -/
theorem chainDepth_eq_some {ids : List TypeId} :
    c.chainDepth base ids = some n ↔ ∃ k id d, ids[k]? = some id ∧ c.ownDepth base id = some d ∧
      (∀ j < k, ∀ id', ids[j]? = some id' → c.ownDepth base id' = none) ∧ n = k + d := by
  induction ids generalizing n with
  | nil => simp [chainDepth]
  | cons id above ih =>
    rw [chainDepth_cons, or_eq_some_iff, map_eq_some_iff]
    constructor
    · rintro (own | ⟨own, m, deeper, rfl⟩)
      · exact ⟨0, id, n, rfl, own, fun j early => absurd early j.not_lt_zero, (Nat.zero_add n).symm⟩
      · obtain ⟨k, id', d, there, own', none, rfl⟩ := ih.1 deeper
        refine ⟨k + 1, id', d, there, own', fun j early x found => ?_, by omega⟩
        cases j with
        | zero =>
          cases found
          exact own
        | succ j => exact none j (by omega) x found
    · rintro ⟨k, id', d, there, own, none, rfl⟩
      cases k with
      | zero =>
        cases there
        rw [Nat.zero_add]
        exact .inl own
      | succ k =>
        have deeper : c.chainDepth base above = some (k + d) :=
          ih.2 ⟨k, id', d, there, own, fun j early x found => none (j + 1) (by omega) x found, rfl⟩
        exact .inr ⟨none 0 (succ_pos k) id rfl, k + d, deeper, by omega⟩

/-- The nearest type on the way up from `sub`, after `k` steps, from which one comes to `base`
without going further up, and the number of steps it takes from there. -/
structure Nearest (c : Catalog) (base sub : TypeId) (k : Nat) (id : TypeId) (d : Nat) : Prop where
  up : steps c.nextParent k sub = some id
  own : c.ownDepth base id = some d
  first : ∀ j < k, ∀ id', steps c.nextParent j sub = some id' → c.ownDepth base id' = none

/-- The chain of a type stops before it comes back, which loses nothing: what counts is the nearest
type that leads to `base`. -/
theorem chainDepth_typeChain_iff (valid : sub.isValid = true) :
    c.chainDepth base (c.typeChain sub) = some n ↔
      ∃ k id d, c.Nearest base sub k id d ∧ n = k + d := by
  have stands {k : Nat} {id : TypeId} (path : steps c.nextParent k sub = some id) :
      ∃ j ≤ k, (c.typeChain sub)[j]? = some id := by
    rw [typeChain, if_pos valid]
    exact exists_getElem?_chain_of_steps (mem_cons_self ..)
      (fun _ _ next => mem_cons_of_mem _ (mem_parents_of_nextParent next)) path
  have leads {k : Nat} {id : TypeId} (found : (c.typeChain sub)[k]? = some id) :
      steps c.nextParent k sub = some id := by
    rw [typeChain, if_pos valid] at found
    exact steps_of_getElem?_chain found
  rw [chainDepth_eq_some]
  constructor
  · rintro ⟨k, id, d, there, own, none, rfl⟩
    refine ⟨k, id, d, ⟨leads there, own, fun j early id' path => ?_⟩, rfl⟩
    obtain ⟨i, near, found⟩ := stands path
    exact none i (by omega) id' found
  · rintro ⟨k, id, d, nearest, rfl⟩
    obtain ⟨j, near, found⟩ := stands nearest.up
    -- Standing earlier on the chain it would be nearer.
    obtain rfl : j = k := by
      by_contra other
      have nothing := nearest.first j (by omega) id (leads found)
      rw [nearest.own] at nothing
      cases nothing
    exact ⟨j, id, d, found, nearest.own,
      fun i early x there => nearest.first i early x (leads there), rfl⟩

/-- If some type above leads to `base` by itself, one of them is the nearest. -/
theorem exists_nearest {sub : TypeId}
    (path : steps c.nextParent k sub = some id) (own : (c.ownDepth base id).isSome = true) :
    ∃ k' id' d, k' ≤ k ∧ c.Nearest base sub k' id' d := by
  have leads : ∃ k id, steps c.nextParent k sub = some id ∧
      (c.ownDepth base id).isSome = true := ⟨k, id, path, own⟩
  obtain ⟨id', path', own'⟩ := Nat.find_spec leads
  obtain ⟨d, depth⟩ := isSome_iff_exists.1 own'
  refine ⟨Nat.find leads, id', d, Nat.find_le ⟨id, path, own⟩, path', depth, ?_⟩
  intro j early x there
  have nothing := Nat.find_min leads early
  by_contra something
  exact nothing ⟨x, there, isSome_iff_ne_none.2 something⟩

/-! ### What the depth of a type is -/

/-- Between two different types without array brackets, what counts is the kind of the lower. -/
theorem inheritDepth_scalar (resolved : base.isValid = true)
    (valid : sub.isValid = true) (different : base ≠ sub) :
    c.inheritDepth base.scalar sub.scalar =
      match sub.kind with
      | .invalid | .struct => none
      | .handle => c.chainDepth base (c.typeChain sub)
      | .interface | .delegate | .coroutine =>
        if sub.kind = .interface ∧ base.kind = .interface then c.interfaceDepth base [sub]
        else if base = (c.parent sub).id then some 1
        else if base = handle then some 2
        else none := by
  have known : ¬(¬base.scalar.isValid = true ∨ ¬sub.scalar.isValid = true) :=
    not_or.2 ⟨not_not.2 resolved, not_not.2 valid⟩
  have other : base.scalar ≠ sub.scalar := fun same => different (congrArg TypeRef.id same)
  rw [inheritDepth, if_neg known, if_neg other]
  rfl

theorem inheritDepth_of_class (resolved : base.isValid = true)
    (different : base ≠ sub) (isClass : sub.kind = .handle) :
    c.inheritDepth base.scalar sub.scalar = c.chainDepth base (c.typeChain sub) := by
  rw [inheritDepth_scalar resolved (by simp [isValid, isClass]) different, isClass]

/-- The depth of one interface below another is found among its base interfaces. -/
theorem inheritDepth_of_interfaces (different : base ≠ sub)
    (isBase : base.kind = .interface) (isSub : sub.kind = .interface) :
    c.inheritDepth base.scalar sub.scalar = c.interfaceDepth base [sub] := by
  rw [inheritDepth_scalar (by simp [isValid, isBase]) (by simp [isValid, isSub])
    different, isSub]
  exact if_pos ⟨rfl, isBase⟩

theorem inheritDepth_root (isClass : x.kind = .handle)
    (other : handle ≠ x) (up : steps c.nextParent n x = some .handle) :
    c.inheritDepth handle.scalar x.scalar = some n := by
  have valid : x.isValid = true := by simp [isValid, isClass]
  rw [inheritDepth_of_class rfl other isClass, chainDepth_typeChain_iff valid]
  refine ⟨n, .handle, 0, ⟨up, by simp [ownDepth], fun j early y there => ?_⟩, rfl⟩
  have before : y ≠ .handle := by
    rintro rfl
    -- Nothing is above the root.
    rw [show n = j + (n - j - 1 + 1) by omega, steps_add, there] at up
    cases up
  rw [ownDepth, if_neg before]
  rfl

/-- What a class leads to by itself, and how far it is. -/
theorem ownDepth_eq_some : c.ownDepth base id = some d ↔
    id = base ∧ d = 0 ∨ id ≠ base ∧ base.kind = .interface ∧ id.kind.isDefinition = true ∧
      ∃ m, d = m + 1 ∧ IsLeast {m | ∃ i ∈ c.ownInterfaces id, Path c.Link m i base} m := by
  unfold ownDepth
  by_cases here : id = base
  · simp [here, eq_comm (a := d)]
  · by_cases kinds : base.kind = .interface ∧ id.kind.isDefinition = true
    · rw [if_neg here, if_pos kinds, map_eq_some_iff]
      simp only [interfaceDepth_iff fun i => kind_of_mem_ownInterfaces, here, false_and, false_or,
        ne_eq, not_false_eq_true, kinds, true_and]
      constructor
      · rintro ⟨m, least, rfl⟩
        exact ⟨m, rfl, least⟩
      · rintro ⟨m, rfl, least⟩
        exact ⟨m, least, rfl⟩
    · grind

theorem ownDepth_isSome (definition : id.kind.isDefinition = true) (own : i ∈ c.ownInterfaces id)
    (path : Path c.Link m i base) : (c.ownDepth base id).isSome = true := by
  classical
  have isInterface : base.kind = .interface := kind_of_path (kind_of_mem_ownInterfaces own) path
  have other : id ≠ base := by
    rintro rfl
    rw [isInterface] at definition
    cases definition
  have reached : ∃ m, ∃ i ∈ c.ownInterfaces id, Path c.Link m i base := ⟨m, i, own, path⟩
  refine isSome_iff_exists.2 ⟨Nat.find reached + 1, ownDepth_eq_some.2 (.inr
    ⟨other, isInterface, definition, Nat.find reached, rfl, Nat.find_spec reached, ?_⟩)⟩
  exact fun m path => find_le path

/-! ### Paths go up first

Once a path has come to an interface it goes on through base interfaces.  So it begins with links
to parents, and then it is there, or turns to an interface that the last class names. -/

/-- How a path ends that takes no more links to parents. -/
inductive Turn (c : Catalog) (base : TypeId) : Nat → TypeId → Prop
  | here : Turn c base 0 base
  | own {x i : TypeId} {m : Nat} (definition : x.kind.isDefinition = true)
      (named : i ∈ c.ownInterfaces x) (path : Path c.Link m i base) : Turn c base (m + 1) x
  | bases {x : TypeId} {m : Nat} (isInterface : x.kind = .interface)
      (path : Path c.Link m x base) : Turn c base m x

theorem Turn.path (turn : c.Turn base m x) : Path c.Link m x base := by
  cases turn with
  | here => exact .nil _
  | own definition named rest => exact .cons (link_iff.2 (.inl ⟨definition, .inr named⟩)) rest
  | bases _ rest => exact rest

/-- Where a class makes a turn to `base`, it leads there by itself. -/
theorem ownDepth_isSome_of_turn (turn : c.Turn base m x)
    (noInterface : x.kind ≠ .interface) : (c.ownDepth base x).isSome = true := by
  cases turn with
  | here => simp [ownDepth]
  | own definition named rest => exact ownDepth_isSome definition named rest
  | bases isInterface _ => exact absurd isInterface noInterface

/-- How far a type is from `base` by itself is the length of its shortest turn. -/
theorem isLeast_turn (own : c.ownDepth base id = some d) : IsLeast {l | c.Turn base l id} d := by
  rcases ownDepth_eq_some.1 own with
    ⟨rfl, rfl⟩ | ⟨other, _, definition, m, rfl, ⟨i, named, path⟩, least⟩
  · exact ⟨.here, fun l _ => zero_le l⟩
  · refine ⟨.own definition named path, fun l turn => ?_⟩
    cases turn with
    | here => exact absurd rfl other
    | own _ named' path' => exact succ_le_succ (least ⟨_, named', path'⟩)
    | bases isInterface _ =>
      rw [isInterface] at definition
      cases definition

/-- A path goes up from class to class and then makes its turn. -/
theorem exists_climb (path : Path c.Link n x base) :
    ∃ j y m, steps c.nextParent j x = some y ∧
      (∀ i < j, ∀ z, steps c.nextParent i x = some z → z.kind.isDefinition = true) ∧
      c.Turn base m y ∧ n = j + m := by
  induction path with
  | nil base => exact ⟨0, base, 0, rfl, nofun, .here, rfl⟩
  | @cons n x y base link rest ih =>
    rcases link_iff.1 link with ⟨definition, next | own⟩ | ⟨isInterface, _⟩
    · obtain ⟨j, z, m, up, classes, turn, total⟩ := ih
      refine ⟨j + 1, z, m, ?_, fun i early w there => ?_, turn, by omega⟩
      · rw [steps, next]
        exact up
      · cases i with
        | zero =>
          cases there
          exact definition
        | succ i =>
          rw [steps, next] at there
          exact classes i (by omega) w there
    · exact ⟨0, x, n + 1, rfl, nofun, .own definition own rest, by omega⟩
    · exact ⟨0, x, n + 1, rfl, nofun, .bases isInterface (.cons link rest), by omega⟩

/-- Going up through classes is a path. -/
theorem path_of_steps (path : steps c.nextParent k x = some y)
    (classes : ∀ j < k, ∀ z, steps c.nextParent j x = some z → z.kind.isDefinition = true) :
    Path c.Link k x y := by
  induction k generalizing x with
  | zero =>
    cases path
    exact .nil y
  | succ k ih =>
    obtain ⟨z, next, rest⟩ := bind_eq_some_iff.1 path
    have definition := classes 0 (succ_pos k) x rfl
    refine .cons (link_iff.2 (.inl ⟨definition, .inl next⟩)) (ih rest fun j early w there => ?_)
    refine classes (j + 1) (succ_lt_succ early) w ?_
    rw [steps, next]
    exact there

/-! ### The depth decides reachability -/

/-- Where the parents of all classes are classes, going up from a class meets only classes. -/
theorem handle_of_steps (parents : ∀ t ∈ c.tables, ∀ d ∈ t.classes,
      d.parent.isValid = true → d.parent.id.kind = .handle) (isClass : x.kind = .handle)
    (path : steps c.nextParent n x = some y) : y.kind = .handle := by
  refine steps_keep (P := fun x => x.kind = .handle) (fun x y isClass next => ?_) isClass path
  have definition : x.kind.isDefinition = true := by rw [isClass]; rfl
  obtain ⟨d, found, resolved, rfl⟩ := (nextParent_eq_some_of_isDefinition definition).1 next
  obtain ⟨_, t, atHome, inside⟩ := classDef?_eq_some.1 found
  exact parents t (mem_tables_of_table? atHome) d (mem_of_getElem? inside) resolved

/-- One type has a depth below another exactly if links lead there, and the depth is the length of
a path.  Below a class it is the least number of steps from parent to parent.  Nothing is asked of
the catalog but that parents of classes are classes: links may lead round in circles. -/
theorem inheritDepth_decides (c : Catalog) (parents : ∀ t ∈ c.tables, ∀ d ∈ t.classes,
      d.parent.isValid = true → d.parent.id.kind = .handle) {base sub : TypeId}
    (resolved : base.isValid = true) (different : base ≠ sub)
    (kinds : sub.kind = .handle ∨ sub.kind = .interface ∧ base.kind = .interface) :
    ((∃ n, c.inheritDepth base.scalar sub.scalar = some n) ↔
      Relation.ReflTransGen c.Link sub base) ∧
    ∀ n, c.inheritDepth base.scalar sub.scalar = some n → Path c.Link n sub base ∧
      (base.kind = .handle → IsLeast {m | Walk.steps c.nextParent m sub = some base} n) := by
  classical
  rw [← Walk.exists_path_iff]
  rcases kinds with isClass | ⟨isSub, isBase⟩
  · have valid : sub.isValid = true := by simp [TypeId.isValid, isClass]
    have classes {j : Nat} {z : TypeId} (there : Walk.steps c.nextParent j sub = some z) :
        z.kind = .handle := handle_of_steps parents isClass there
    have toBase {k d : Nat} {id : TypeId} (nearest : c.Nearest base sub k id d) :
        Path c.Link (k + d) sub base := by
      refine (path_of_steps nearest.up fun j _ z there => ?_).append
        (isLeast_turn nearest.own).1.path
      rw [classes there]
      rfl
    simp only [inheritDepth_of_class resolved different isClass, chainDepth_typeChain_iff valid]
    refine ⟨⟨?_, ?_⟩, ?_⟩
    · rintro ⟨_, k, id, d, nearest, rfl⟩
      exact ⟨k + d, toBase nearest⟩
    · rintro ⟨n, path⟩
      obtain ⟨j, y, m, up, _, turn, rfl⟩ := exists_climb path
      have leads : (c.ownDepth base y).isSome = true :=
        ownDepth_isSome_of_turn turn (by simp [classes up])
      obtain ⟨k, id, d, _, nearest⟩ := exists_nearest up leads
      exact ⟨k + d, k, id, d, nearest, rfl⟩
    · rintro _ ⟨k, id, d, nearest, rfl⟩
      refine ⟨toBase nearest, fun isHandle => ?_⟩
      -- No interface is asked for, so the nearest type is the one that is asked for itself.
      rcases ownDepth_eq_some.1 nearest.own with ⟨rfl, rfl⟩ | ⟨_, isInterface, _⟩
      · refine ⟨nearest.up, fun m path => ?_⟩
        by_contra early
        have nothing := nearest.first m (by omega) id path
        simp [ownDepth] at nothing
      · rw [isHandle] at isInterface
        cases isInterface
  · simp only [inheritDepth_of_interfaces different isBase isSub,
      interfaceDepth_iff (forall_mem_singleton.2 isSub), mem_singleton, exists_eq_left]
    refine ⟨⟨?_, ?_⟩, ?_⟩
    · rintro ⟨n, path, _⟩
      exact ⟨n, path⟩
    · rintro ⟨n, path⟩
      have reached : ∃ n, Path c.Link n sub base := ⟨n, path⟩
      exact ⟨Nat.find reached, Nat.find_spec reached, fun m path => Nat.find_le path⟩
    · rintro n ⟨path, _⟩
      refine ⟨path, fun isHandle => ?_⟩
      rw [isBase] at isHandle
      cases isHandle

end Catalog

namespace Sample

/-- Two classes that are each other's parents, of which one names the lower end of a diamond of
interfaces whose upper end inherits the lower. -/
def ring : Catalog where
  own :=
    { Table.empty "Ring" .here with
      classes := [⟨"Left", 0, .public_, .handle, TypeId.scalar ⟨.here, .handle, 1⟩, [], [], [], [],
          .empty, 0, none⟩,
        ⟨"Right", 0, .public_, .handle, TypeId.scalar ⟨.here, .handle, 0⟩,
          [TypeId.scalar ⟨.here, .interface, 3⟩], [], [], [], .empty, 0, none⟩]
      interfaces := [⟨"Top", 0, .public_, [TypeId.scalar ⟨.here, .interface, 3⟩], [], .empty, none⟩,
        ⟨"West", 0, .public_, [TypeId.scalar ⟨.here, .interface, 0⟩], [], .empty, none⟩,
        ⟨"East", 0, .public_, [TypeId.scalar ⟨.here, .interface, 0⟩], [], .empty, none⟩,
        ⟨"Bottom", 0, .public_, [TypeId.scalar ⟨.here, .interface, 1⟩,
          TypeId.scalar ⟨.here, .interface, 2⟩], [], .empty, none⟩] }
  relies := []

end Sample

namespace Catalog

/-- In a ring of classes and of interfaces the upper end of the diamond is found, by a path, and
the other class is one step up. -/
theorem inheritDepth_decides_ring :
    (∃ n, Sample.ring.inheritDepth (TypeId.scalar ⟨.here, .interface, 0⟩)
        (TypeId.scalar ⟨.here, .handle, 0⟩) = some n ∧
      Walk.Path Sample.ring.Link n ⟨.here, .handle, 0⟩ ⟨.here, .interface, 0⟩) ∧
    Sample.ring.inheritDepth (TypeId.scalar ⟨.here, .handle, 1⟩)
        (TypeId.scalar ⟨.here, .handle, 0⟩) = some 1 ∧
    IsLeast {m | Walk.steps Sample.ring.nextParent m ⟨.here, .handle, 0⟩ =
      some ⟨.here, .handle, 1⟩} 1 := by
  have parents : ∀ t ∈ Sample.ring.tables, ∀ d ∈ t.classes,
      d.parent.isValid = true → d.parent.id.kind = .handle := by decide
  have up : Sample.ring.Link ⟨.here, .handle, 0⟩ ⟨.here, .handle, 1⟩ :=
    link_iff.2 (.inl ⟨rfl, .inl (by decide)⟩)
  have named : Sample.ring.Link ⟨.here, .handle, 1⟩ ⟨.here, .interface, 3⟩ :=
    link_iff.2 (.inl ⟨rfl, .inr (by decide)⟩)
  have west : Sample.ring.Link ⟨.here, .interface, 3⟩ ⟨.here, .interface, 1⟩ :=
    link_iff.2 (.inr ⟨rfl, by decide⟩)
  have top : Sample.ring.Link ⟨.here, .interface, 1⟩ ⟨.here, .interface, 0⟩ :=
    link_iff.2 (.inr ⟨rfl, by decide⟩)
  have fromLeft (base : TypeId) (resolved : base.isValid = true)
      (different : base ≠ ⟨.here, .handle, 0⟩) :=
    inheritDepth_decides Sample.ring parents resolved different (.inl rfl)
  have toTop := fromLeft ⟨.here, .interface, 0⟩ (by decide) (by decide)
  have toRight := fromLeft ⟨.here, .handle, 1⟩ (by decide) (by decide)
  have reached := (((Relation.ReflTransGen.single up).tail named).tail west).tail top
  obtain ⟨n, found⟩ := toTop.1.2 reached
  have beside : Sample.ring.inheritDepth (TypeId.scalar ⟨.here, .handle, 1⟩)
      (TypeId.scalar ⟨.here, .handle, 0⟩) = some 1 := by decide +kernel
  exact ⟨⟨n, found, (toTop.2 n found).1⟩, beside, (toRight.2 1 beside).2 rfl⟩

end Linkage.Catalog
