/-
Purpose: How deep a type can be below another, in terms of the number of types there are.
-/
import Linkage.Proofs.Catalog.Accepts

namespace Linkage

open List Walk

variable {n j : Nat} {x y sub : TypeId}

/-- A shortest path leads on from as many different places as it has links. -/
theorem Walk.Path.exists_places {α : Type} {R : α → α → Prop} {a b : α}
    (path : Path R n a b) (least : ∀ m, Path R m a b → n ≤ m) :
    ∃ places : List α, places.length = n ∧ places.Nodup ∧
      ∀ x ∈ places, (∃ y, R x y) ∧ ∃ m ≤ n, Path R m x b := by
  induction path with
  | nil a => exact ⟨[], rfl, nodup_nil, forall_mem_nil _⟩
  | @cons n a b d link rest ih =>
    obtain ⟨places, length, nodup, held⟩ :=
      ih fun m path => Nat.le_of_succ_le_succ (least (m + 1) (.cons link path))
    refine ⟨a :: places, by rw [length_cons, length], nodup_cons.2 ⟨?_, nodup⟩, ?_⟩
    · intro again
      obtain ⟨_, m, short, path⟩ := held a again
      exact absurd (least m path) (by omega)
    · rw [forall_mem_cons]
      refine ⟨⟨⟨b, link⟩, n + 1, le_refl _, .cons link rest⟩, fun x later => ?_⟩
      obtain ⟨leads, m, short, path⟩ := held x later
      exact ⟨leads, m, by omega, path⟩

/-! ### Counting types -/

/-- The number of types that a table declares. -/
def Table.typeTotal (t : Table) : Nat :=
  t.classes.length + t.interfaces.length + t.delegates.length + t.coroutines.length

/-- The types that a table declares.  All its classes count as handles. -/
def Table.typeIds (t : Table) (home : Home) : List TypeId :=
  [TypeKind.handle, .interface, .delegate, .coroutine].flatMap fun kind =>
    (range (t.typeCount kind)).map fun index => ⟨home, kind, index⟩

theorem Table.length_typeIds (t : Table) (home : Home) : (t.typeIds home).length = t.typeTotal := by
  simp [typeIds, typeTotal, typeCount]
  omega

/-- Where a type stands: a class stands at one place, whatever kind a reference to it gives. -/
def TypeId.place (x : TypeId) : TypeId :=
  if x.kind.isDefinition then { x with kind := .handle } else x

theorem Table.place_mem_typeIds {t : Table} (counted : x.index < t.typeCount x.kind) :
    x.place ∈ t.typeIds x.home := by
  obtain ⟨home, kind, index⟩ := x
  cases kind with
  | invalid => exact absurd counted (Nat.not_lt_zero _)
  | _ => simpa [TypeId.place, typeIds, TypeKind.isDefinition, typeCount] using counted

namespace Catalog

/-- The number of types that are declared outside the kernel. -/
def typeTotal (c : Catalog) : Nat := c.own.typeTotal + (c.relies.map Table.typeTotal).sum

/-- The types that are declared outside the kernel. -/
def typeIds (c : Catalog) : List TypeId :=
  c.own.typeIds .here ++ c.relies.zipIdx.flatMap fun r => r.1.typeIds (.rely r.2)

/-- A type is one of those that its library has. -/
def Counts (c : Catalog) (x : TypeId) : Prop :=
  ∃ t, c.table? x.home = some t ∧ x.index < t.typeCount x.kind

variable {c : Catalog}

theorem length_typeIds (c : Catalog) : c.typeIds.length = c.typeTotal := by
  have relies : c.relies.zipIdx.map (fun r => r.1.typeTotal) = c.relies.map Table.typeTotal := by
    conv_rhs => rw [← zipIdx_map_fst 0 c.relies, map_map]
    rfl
  simp only [typeIds, typeTotal, length_append, length_flatMap, Table.length_typeIds,
    relies]

/-- Different places of declared types are no more than there are types. -/
theorem length_le_typeTotal {places : List TypeId} (nodup : places.Nodup)
    (declared : ∀ x ∈ places, x ∈ c.typeIds) : places.length ≤ c.typeTotal := by
  rw [← length_typeIds]
  exact (subperm_of_subset nodup declared).length_le

theorem Counts.place_mem (counts : c.Counts x) (outside : x.home ≠ .kernel) :
    x.place ∈ c.typeIds := by
  obtain ⟨t, atHome, counted⟩ := counts
  have member := Table.place_mem_typeIds counted
  cases home : x.home with
  | kernel => exact absurd home outside
  | here =>
    rw [home] at atHome member
    cases atHome
    exact mem_append_left _ member
  | rely i =>
    rw [home] at atHome member
    apply mem_append_right
    exact mem_flatMap.2 ⟨(t, i), mk_mem_zipIdx_iff_getElem?.2 atHome, member⟩

theorem counts_of_classDef? {d : ClassDef} (isClass : c.classDef? x = some d) : c.Counts x := by
  obtain ⟨definition, t, atHome, inside⟩ := classDef?_eq_some.1 isClass
  refine ⟨t, atHome, ?_⟩
  have inside := lt_of_getElem? inside
  cases kind : x.kind with
  | struct | handle => exact inside
  | _ => simp [TypeKind.isDefinition, kind] at definition

theorem Counts.isDefinition (counts : c.Counts x) (home : x.home = .kernel) :
    x.kind.isDefinition = true := by
  obtain ⟨t, atHome, counted⟩ := counts
  rw [home] at atHome
  cases atHome
  cases kind : x.kind with
  | struct | handle => rfl
  | _ =>
    rw [kind] at counted
    exact absurd counted (Nat.not_lt_zero _)

/-! ### Where the types on the way up stand -/

theorem nextParent_place (x : TypeId) : c.nextParent x.place = c.nextParent x := by
  obtain ⟨home, kind, index⟩ := x
  cases kind <;> rfl

/-- Which interfaces a type leads to by itself depends on where it stands. -/
theorem ownDepth_place {base : TypeId} (isInterface : base.kind = .interface) (x : TypeId) :
    c.ownDepth base x.place = c.ownDepth base x := by
  obtain ⟨home, kind, index⟩ := x
  obtain ⟨home', kind', index'⟩ := base
  cases isInterface
  cases kind with
  | struct => simp [ownDepth, TypeId.place, TypeKind.isDefinition, ownInterfaces, classDef?]
  | _ => rfl

namespace Nearest

variable {base sub id : TypeId} {k d : Nat} (nearest : c.Nearest base sub k id d)
include nearest

theorem exists_steps (near : j ≤ k) : ∃ x, steps c.nextParent j sub = some x := by
  have up := nearest.up
  rw [show k = j + (k - j) by omega, steps_add] at up
  obtain ⟨x, there, _⟩ := Option.bind_eq_some_iff.1 up
  exact ⟨x, there⟩

/-- Below the nearest type no place is met twice: from there on the way would be the same. -/
theorem place_ne {i : Nat} (earlier : i < j) (early : j < k)
    (atI : steps c.nextParent i sub = some x)
    (atJ : steps c.nextParent j sub = some y) : x.place ≠ y.place := by
  intro same
  have onward : steps c.nextParent (k - j) y = some id := by
    have up := nearest.up
    rw [show k = j + (k - j) by omega, steps_add, atJ] at up
    exact up
  have shortcut : steps c.nextParent (k - j) x = some id := by
    rw [show k - j = k - j - 1 + 1 by omega, steps] at onward ⊢
    rwa [← nextParent_place, same, nextParent_place]
  have nothing := nearest.first (i + (k - j)) (by omega) id (by
    rw [steps_add, atI]
    exact shortcut)
  rw [nearest.own] at nothing
  cases nothing

end Nearest

/-- What is met on the way up from a class, and leads further, is counted where it stands, if the
parents of all classes are. -/
theorem counts_of_steps
    (parents : ∀ {x d}, c.classDef? x = some d → d.parent.isValid = true → c.Counts d.parent.id)
    (isClass : sub.kind = .handle) (up : steps c.nextParent n sub = some x)
    (next : c.nextParent x = some y) : c.Counts x := by
  cases n with
  | zero =>
    cases up
    obtain ⟨d, found, _⟩ := (nextParent_eq_some_of_isDefinition (by rw [isClass]; rfl)).1 next
    exact counts_of_classDef? found
  | succ n =>
    rw [steps_add] at up
    obtain ⟨z, _, last⟩ := Option.bind_eq_some_iff.1 up
    obtain ⟨_, isNext, same⟩ := Option.bind_eq_some_iff.1 last
    cases same
    obtain ⟨valid, ⟨d, found, rfl⟩ | ⟨_, isRoot⟩⟩ := nextParent_cases isNext
    · exact parents found valid
    · refine ⟨Kernel.table, ?_⟩
      rcases isRoot with rfl | rfl | rfl <;> exact ⟨rfl, by decide⟩

/-- Steps that lead to different places make a list of them. -/
theorem exists_places_of_steps {count : Nat} {P : TypeId → Prop}
    (leads : ∀ j < count, ∃ x, steps c.nextParent j sub = some x ∧ P x.place)
    (apart : ∀ i j x y, i < j → j < count → steps c.nextParent i sub = some x →
      steps c.nextParent j sub = some y → x.place ≠ y.place) :
    ∃ places : List TypeId, places.length = count ∧ places.Nodup ∧ ∀ x ∈ places, P x := by
  choose! x there held using leads
  refine ⟨(range count).map fun j => (x j).place, by simp, ?_, ?_⟩
  · refine List.Nodup.map_on ?_ nodup_range
    intro i inI j inJ same
    rw [mem_range] at inI inJ
    rcases Nat.lt_trichotomy i j with less | equal | more
    · exact absurd same (apart i j _ _ less inJ (there i inI) (there j inJ))
    · exact equal
    · exact absurd same.symm (apart j i _ _ more inI (there j inJ) (there i inI))
  · simp
    exact held

/-! ### Depths -/

section Depths

variable {base sub id : TypeId} {k d : Nat}

/-- A class is at most one step further below another than there are types: all but the last two
types on the way are declared outside the kernel. -/
theorem Nearest.le_typeTotal_succ
    (parents : ∀ {x d}, c.classDef? x = some d → d.parent.isValid = true → c.Counts d.parent.id)
    (nearest : c.Nearest base sub k id d) (isClass : sub.kind = .handle) : k ≤ c.typeTotal + 1 := by
  have leads (j : Nat) (early : j < k - 1) :
      ∃ x, steps c.nextParent j sub = some x ∧ x.place ∈ c.typeIds := by
    obtain ⟨z, up⟩ := nearest.exists_steps (show j + 2 ≤ k by omega)
    rw [steps_add] at up
    obtain ⟨x, there, onward⟩ := Option.bind_eq_some_iff.1 up
    obtain ⟨y, next, last⟩ := Option.bind_eq_some_iff.1 onward
    have counts := counts_of_steps parents isClass there next
    refine ⟨x, there, counts.place_mem fun home => ?_⟩
    -- Two steps above a type of the kernel there is none.
    rw [eq_root_of_next home (counts.isDefinition home) next] at last
    cases last
  obtain ⟨places, length, nodup, declared⟩ := exists_places_of_steps leads
    fun i j x y earlier early => nearest.place_ne earlier (by omega)
  have total := length_le_typeTotal nodup declared
  omega

/-- The shortest way from an interface to one that it inherits leads on from as many declared
interfaces as it has links. -/
theorem exists_interfaces {i : TypeId} {m : Nat} (isInterface : i.kind = .interface)
    (path : Walk.Path c.Link m i base) (least : ∀ l, Walk.Path c.Link l i base → m ≤ l) :
    ∃ places : List TypeId, places.length = m ∧ places.Nodup ∧
      ∀ x ∈ places, x.kind = .interface ∧ x ∈ c.typeIds := by
  simp only [path_of_interface isInterface] at path least
  obtain ⟨places, length, nodup, held⟩ := path.exists_places least
  refine ⟨places, length, nodup, fun x member => ?_⟩
  obtain ⟨⟨y, link⟩, _⟩ := held x member
  obtain ⟨e, found, _⟩ := mem_baseInterfaces.1 link
  obtain ⟨kind, t, atHome, inside⟩ := interfaceDef?_eq_some.1 found
  have counts : c.Counts x := by
    refine ⟨t, atHome, ?_⟩
    rw [kind]
    exact lt_of_getElem? inside
  have outside : x.home ≠ .kernel := by
    intro home
    have definition := counts.isDefinition home
    rw [kind] at definition
    cases definition
  have place : x.place = x := by simp [TypeId.place, kind, TypeKind.isDefinition]
  exact ⟨kind, place ▸ counts.place_mem outside⟩

/-- A class that leads to an interface by itself is declared outside the kernel. -/
theorem place_mem_of_ownDepth {e : ClassDef} (isInterface : base.kind = .interface)
    (own : c.ownDepth base id = some d) (found : c.classDef? id = some e) :
    id.place.kind = .handle ∧ id.place ∈ c.typeIds := by
  have definition := (classDef?_eq_some.1 found).1
  have kind : id.place.kind = .handle := by simp [TypeId.place, definition]
  refine ⟨kind, (counts_of_classDef? found).place_mem fun home => ?_⟩
  have home' : id.place.home = .kernel := by simpa [TypeId.place, definition] using home
  rw [← ownDepth_place isInterface, ownDepth_kernel isInterface home' kind] at own
  cases own

/-- The types on the way from a class up to the nearest that leads to an interface are classes
declared outside the kernel. -/
theorem Nearest.place_mem (nearest : c.Nearest base sub k id d)
    (isInterface : base.kind = .interface) (early : j < k) :
    ∃ x, steps c.nextParent j sub = some x ∧ x.place.kind = .handle ∧ x.place ∈ c.typeIds := by
  have up := nearest.up
  rw [show k = j + (k - j - 1 + 1) by omega, steps_add] at up
  obtain ⟨x, there, onward⟩ := Option.bind_eq_some_iff.1 up
  obtain ⟨y, next, rest⟩ := Option.bind_eq_some_iff.1 onward
  have definition := nearest.classes isInterface early there
  obtain ⟨e, found, _⟩ := (nextParent_eq_some_of_isDefinition definition).1 next
  have counts := counts_of_classDef? found
  refine ⟨x, there, by simp [TypeId.place, definition], counts.place_mem fun home => ?_⟩
  -- From the kernel on there is only the root, which leads to no interface.
  rw [eq_root_of_next home (counts.isDefinition home) next] at rest
  obtain ⟨home', isClass⟩ := kernel_of_steps (by decide) (by decide) rest
  have own := nearest.own
  rw [ownDepth_kernel isInterface home' isClass] at own
  cases own

/-- A class is at most as far below an interface as there are types: those on the way up to the
nearest class, and the interfaces on the way from there, are all declared. -/
theorem Nearest.le_typeTotal (nearest : c.Nearest base sub k id d)
    (isInterface : base.kind = .interface) : k + d ≤ c.typeTotal := by
  rcases ownDepth_eq_some.1 nearest.own with
    ⟨_, rfl⟩ | ⟨_, _, definition, m, rfl, ⟨i, named, path⟩, least⟩
  · obtain ⟨places, length, nodup, declared⟩ := exists_places_of_steps
      (P := fun x => x.kind = .handle ∧ x ∈ c.typeIds)
      (fun j early => nearest.place_mem isInterface early)
      fun i j x y earlier early => nearest.place_ne earlier early
    have total := length_le_typeTotal nodup fun x member => (declared x member).2
    omega
  · obtain ⟨e, found, _⟩ := (mem_ownInterfaces_of_isDefinition definition).1 named
    have leads (j : Nat) (early : j < k + 1) : ∃ x, steps c.nextParent j sub = some x ∧
        x.place.kind = .handle ∧ x.place ∈ c.typeIds := by
      rcases Nat.lt_succ_iff_lt_or_eq.1 early with below | rfl
      · exact nearest.place_mem isInterface below
      · exact ⟨id, nearest.up, place_mem_of_ownDepth isInterface nearest.own found⟩
    obtain ⟨classes, count, nodup, declared⟩ := exists_places_of_steps
      (P := fun x => x.kind = .handle ∧ x ∈ c.typeIds) leads (by
      intro i j x y earlier early atI atJ same
      rcases Nat.lt_succ_iff_lt_or_eq.1 early with below | rfl
      · exact nearest.place_ne earlier below atI atJ same
      · cases nearest.up.symm.trans atJ
        have nothing := nearest.first i earlier x atI
        rw [← ownDepth_place isInterface, same, ownDepth_place isInterface, nearest.own] at nothing
        cases nothing)
    obtain ⟨interfaces, count', nodup', declared'⟩ := exists_interfaces
      (kind_of_mem_ownInterfaces named) path fun l path' => least ⟨i, named, path'⟩
    have apart : (classes ++ interfaces).Nodup := by
      refine nodup_append'.2 ⟨nodup, nodup', fun x inClasses inInterfaces => ?_⟩
      cases (declared x inClasses).1.symm.trans (declared' x inInterfaces).1
    have total := length_le_typeTotal apart fun x member =>
      (mem_append.1 member).elim (fun old => (declared x old).2) fun new => (declared' x new).2
    rw [length_append] at total
    omega

end Depths

/-- No type is further below another than one step more than there are types, but for two steps
that there may always be. -/
theorem inheritDepth_le
    (parents : ∀ {x d}, c.classDef? x = some d → d.parent.isValid = true → c.Counts d.parent.id)
    {base sub : TypeRef} (depth : c.inheritDepth base sub = some n) :
    n ≤ max 2 (c.typeTotal + 1) := by
  cases measured_of_inheritDepth depth with
  | same _ => exact Nat.zero_le _
  | array _ _ _ small | root _ _ _ small => exact le_max_of_le_left small.2
  | @climb base sub id k d isClass nearest =>
    apply le_max_of_le_right
    rcases ownDepth_eq_some.1 nearest.own with ⟨_, rfl⟩ | ⟨_, isInterface, _⟩
    · exact nearest.le_typeTotal_succ parents isClass
    · exact Nat.le_succ_of_le (nearest.le_typeTotal isInterface)
  | inherits isInterface path least =>
    obtain ⟨places, length, nodup, held⟩ := exists_interfaces isInterface path least
    have total := length_le_typeTotal nodup fun x member => (held x member).2
    omega

end Catalog

end Linkage
