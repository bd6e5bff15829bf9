/-
Purpose: The functions of a table are met one by one through its groups of overloads, and so are
  their bodies and the reports on overloads that repeat another.
-/
import Linkage.Proofs.Symbols.Listing

namespace Linkage

open List

namespace Table

variable {t : Table} {d : Declaration} {f : Function} {e : Entity}

/-- The groups of overloads, each with the numbers of its functions. -/
def overloadPairs (t : Table) : List (Declaration × Nat) :=
  t.overloadGroups.flatMap fun g => (range ((t.overloads g).getD []).length).map (Prod.mk g)

/-- What function a pair of a group and a number stands for. -/
def pairEntity (t : Table) (p : Declaration × Nat) : Option Entity :=
  (t.overloadDeclaration p.1 p.2).map (·.entity)

/-- The declaration by which a table gives a function of its own. -/
def Declares (t : Table) (d : Declaration) (f : Function) : Prop :=
  t.function d = some f ∧ d.home = t.home ∧ d.visibility = f.visibility

/-- An earlier function of the group takes the same types. -/
def Repeats (t : Table) (d : Declaration) (f : Function) : Prop :=
  ∃ earlier ∈ ((t.overloads d).getD []).take d.entity.numbered.2,
    earlier.paramTypes = f.paramTypes

instance : Decidable (t.Repeats d f) :=
  inferInstanceAs (Decidable (∃ _ ∈ _, _))

theorem exists_group_of_function (found : t.function d = some f) :
    ∃ entity key inner fs o, t.Group entity key inner fs ∧ fs[o]? = some f ∧
      d.entity = entity o := by
  obtain ⟨home, v, e⟩ := d
  cases e <;> simp only [function, overloads, method, Entity.group, reduceCtorEq,
    Option.bind_eq_some_iff, Option.map_eq_some_iff] at found
  case memberFunction c m o =>
    obtain ⟨_, ⟨method, ⟨_, isClass, isMethod⟩, rfl⟩, found⟩ := found
    exact ⟨_, _, _, _, o, .member isClass isMethod, found, rfl⟩
  case constructor c o =>
    obtain ⟨_, ⟨_, isClass, rfl⟩, found⟩ := found
    exact ⟨_, _, _, _, o, .constructors isClass, found, rfl⟩
  case interfaceFunction i m o =>
    obtain ⟨_, ⟨method, ⟨_, isInterface, isMethod⟩, rfl⟩, found⟩ := found
    exact ⟨_, _, _, _, o, .interface isInterface isMethod, found, rfl⟩
  case globalFunction m o =>
    obtain ⟨_, ⟨method, isMethod, rfl⟩, found⟩ := found
    exact ⟨_, _, _, _, o, .global isMethod, found, rfl⟩
  case nativeFunction m o =>
    obtain ⟨_, ⟨method, isMethod, rfl⟩, found⟩ := found
    exact ⟨_, _, _, _, o, .native isMethod, found, rfl⟩

theorem mem_functions_iff : (d, f) ∈ LinkedLibrary.functions t ↔ t.Declares d f := by
  rw [mem_functions]
  constructor
  · rintro ⟨entity, key, inner, fs, o, group, found, rfl⟩
    exact ⟨(group.function o _ _).trans found, rfl, rfl⟩
  · obtain ⟨home, v, e⟩ := d
    rintro ⟨isFunction, rfl, rfl⟩
    obtain ⟨entity, key, inner, fs, o, group, found, rfl⟩ := exists_group_of_function isFunction
    exact ⟨entity, key, inner, fs, o, group, found, rfl⟩

theorem mem_overloadPairs {p : Declaration × Nat} (inside : p ∈ t.overloadPairs) :
    ∃ entity key inner fs f, t.Group entity key inner fs ∧ t.Lists p.1 entity fs ∧
      fs[p.2]? = some f := by
  obtain ⟨listed, isListed, numbered⟩ := mem_flatMap.1 inside
  obtain ⟨o, below, rfl⟩ := mem_map.1 numbered
  obtain ⟨entity, key, inner, fs, group, lists⟩ := exists_group isListed
  rw [lists.overloads, Option.getD_some, mem_range] at below
  exact ⟨entity, key, inner, fs, fs[o], group, lists, getElem?_eq_getElem below⟩

/-- Pairs and functions are listed in the same order. -/
theorem map_pairEntity (t : Table) : t.overloadPairs.map t.pairEntity =
    ((LinkedLibrary.functions t).map (·.1.entity)).map some := by
  rw [overloadPairs, LinkedLibrary.functions, map_map, map_flatMap, map_flatMap]
  refine flatMap_congr fun listed isListed => ?_
  obtain ⟨entity, key, inner, fs, _, lists⟩ := exists_group isListed
  rw [lists.overloads, Option.getD_some, range_eq_range', ← zipIdx_map_snd, map_map, map_map,
    map_filterMap, ← filterMap_eq_map]
  refine filterMap_congr fun x inside => ?_
  have found := mk_mem_zipIdx_iff_getElem?.1 inside
  simp [pairEntity, lists.declaration found]

theorem nodup_pairEntity (t : Table) : (t.overloadPairs.map t.pairEntity).Nodup := by
  rw [map_pairEntity]
  exact t.nodup_functions.map (Option.some_injective _)

/-- A selection from the functions has each of them once. -/
theorem nodup_selected {α : Type} {select : Declaration × Function → Option α}
    {entity : α → Entity} (kept : ∀ x a, select x = some a → entity a = x.1.entity) :
    (((LinkedLibrary.functions t).filterMap select).map entity).Nodup := by
  have once := t.nodup_functions
  rw [List.Nodup, pairwise_map] at once ⊢
  refine once.filterMap select fun x y differ a isA b isB => ?_
  rwa [kept x a isA, kept y b isB]

/-- The functions that are written in the sources and repeat an earlier one. -/
def repeated (t : Table) : List (Declaration × FunctionSource) :=
  (LinkedLibrary.functions t).filterMap fun x =>
    if t.Repeats x.1 x.2 then x.2.source.map (Prod.mk x.1) else none

theorem mem_repeated {source : FunctionSource} : (d, source) ∈ t.repeated ↔
    ∃ f, t.Declares d f ∧ f.source = some source ∧ t.Repeats d f := by
  simp only [repeated, mem_filterMap, Prod.exists, mem_functions_iff, Option.ite_none_right_eq_some,
    Option.map_eq_some_iff, Prod.mk.injEq]
  grind

end Table

theorem Draft.notes_checkOverloads (draft : Draft) (c : Catalog) :
    (draft.checkOverloads c).notes = draft.table.repeated.map fun x =>
      ⟨draft.path x.2.anchor, x.2.anchor.span, .duplicateOverload (c.fullName x.1)⟩ := by
  refine (Noted.notes_forM _ _).trans ?_
  rw [Table.repeated, map_filterMap, LinkedLibrary.functions, filterMap_flatMap]
  refine flatMap_congr fun listed isListed => ?_
  obtain ⟨entity, key, inner, fs, group, lists⟩ := Table.exists_group isListed
  rw [checkGroup, Noted.notes_noteAll, lists.overloads, Option.getD_some, filterMap_filterMap]
  refine filterMap_congr fun x inside => ?_
  have found := mk_mem_zipIdx_iff_getElem?.1 inside
  have declares := lists.declaration found
  have number := Table.numbered_overloadDeclaration declares
  simp only [declares, Option.map_some, Option.getD_some, Option.bind_some, Table.Repeats,
    group.overloads, number, any_eq_true, Function.sameParams, decide_eq_true_eq]
  split
  · rw [Option.map_map]
    rfl
  · rfl

/-- Every function of a table is met once through its groups of overloads, under a declaration that
leads back to it.  The bodies of a library are then those of its functions, once each, and reports
are made of the functions that repeat the types of an earlier one, once each. -/
theorem Draft.overloads_enumerated (draft : Draft) :
    draft.table.overloadPairs.Nodup ∧
    (∀ p ∈ draft.table.overloadPairs, ∃ fs f d, draft.table.overloads p.1 = some fs ∧
      fs[p.2]? = some f ∧ draft.table.overloadDeclaration p.1 p.2 = some d ∧
      draft.table.function d = some f ∧ d.visibility = f.visibility) ∧
    (∀ d, (draft.table.function d).isSome →
      ∃! p, p ∈ draft.table.overloadPairs ∧ draft.table.pairEntity p = some d.entity) ∧
    (∀ l : LinkedLibrary, l.draft = draft → (l.bodies.map (·.1.entity)).Nodup ∧
      ∀ d source body, (d, source, body) ∈ l.bodies ↔
        ∃ f, draft.table.Declares d f ∧ f.source = some source ∧ source.body = some body) ∧
    ∀ c : Catalog, ∃ reported : List (Declaration × FunctionSource),
      (reported.map (·.1.entity)).Nodup ∧
      (∀ d source, (d, source) ∈ reported ↔
        ∃ f, draft.table.Declares d f ∧ f.source = some source ∧ draft.table.Repeats d f) ∧
      (draft.checkOverloads c).notes = reported.map fun x =>
        ⟨draft.path x.2.anchor, x.2.anchor.span, .duplicateOverload (c.fullName x.1)⟩ := by
  have once := draft.table.nodup_pairEntity
  refine ⟨once.of_map _, fun p inside => ?_, fun d isFunction => ?_, ?_, fun c => ?_⟩
  · obtain ⟨entity, key, inner, fs, f, group, lists, found⟩ := Table.mem_overloadPairs inside
    exact ⟨fs, f, _, lists.overloads, found, lists.declaration found,
      (group.function _ _ _).trans found, rfl⟩
  · obtain ⟨f, isFunction⟩ := Option.isSome_iff_exists.1 isFunction
    have declares : draft.table.Declares ⟨draft.table.home, f.visibility, d.entity⟩ f :=
      ⟨isFunction, rfl, rfl⟩
    have met : some d.entity ∈ draft.table.overloadPairs.map draft.table.pairEntity := by
      rw [Table.map_pairEntity]
      exact mem_map_of_mem (mem_map.2 ⟨_, Table.mem_functions_iff.2 declares, rfl⟩)
    obtain ⟨p, inside, stands⟩ := mem_map.1 met
    exact ⟨p, ⟨inside, stands⟩, fun p' other =>
      inj_on_of_nodup_map once other.1 inside (other.2.trans stands.symm)⟩
  · rintro l rfl
    refine ⟨Table.nodup_selected fun x a isBody => ?_, fun d source body => ?_⟩
    · obtain ⟨source, _, isBody⟩ := Option.bind_eq_some_iff.1 isBody
      obtain ⟨body, _, rfl⟩ := Option.map_eq_some_iff.1 isBody
      rfl
    · simp only [LinkedLibrary.bodies, mem_filterMap, Prod.exists, Table.mem_functions_iff,
        Option.bind_eq_some_iff, Option.map_eq_some_iff, Prod.mk.injEq]
      grind
  · refine ⟨draft.table.repeated, Table.nodup_selected fun x a isReported => ?_,
      fun _ _ => Table.mem_repeated, draft.notes_checkOverloads c⟩
    obtain ⟨_, isSource⟩ := Option.ite_none_right_eq_some.1 isReported
    obtain ⟨source, _, rfl⟩ := Option.map_eq_some_iff.1 isSource
    rfl

/-- A class with two constructors, and a function that is written twice, once with a body. -/
def Sample.scales : LinkedLibrary where
  draft :=
    let files := [⟨"a", "class Scale\n\tScale()\n\tScale(integer load)\n" ++
      "integer Weigh(integer load)\n\tload\ninteger Weigh(integer weight)\n"⟩]
    ((Draft.merge "Scales" (readFiles files).value).value.link []).value
  relies := []
  bindings := []
  options := {}

/-- The second constructor is met once, the one body is listed, and the second writing reported. -/
theorem Draft.overloads_enumerated_scales :
    (∃ d f, Sample.scales.draft.table.overloadDeclaration ⟨.here, .space, .classDef 0⟩ 1 = some d ∧
      Sample.scales.draft.table.function d = some f ∧ d.visibility = f.visibility) ∧
    (∃! p, p ∈ Sample.scales.draft.table.overloadPairs ∧
      Sample.scales.draft.table.pairEntity p = some (.constructor 0 1)) ∧
    Sample.scales.bodies.length = 1 ∧ (Sample.scales.bodies.map (·.1.entity)).Nodup ∧
    ∃ d source f, Sample.scales.draft.table.Declares d f ∧ f.source = some source ∧
      Sample.scales.draft.table.Repeats d f := by
  obtain ⟨_, pairs, met, bodies, reports⟩ := Draft.overloads_enumerated Sample.scales.draft
  obtain ⟨fs, f, d, _, _, declares⟩ :=
    pairs (⟨.here, .space, .classDef 0⟩, 1) (by decide +kernel)
  obtain ⟨reported, _, isReported, notes⟩ := reports Sample.scales.catalog
  refine ⟨⟨d, f, declares⟩, met ⟨.here, .space, .constructor 0 1⟩ (by decide +kernel),
    by decide +kernel, (bodies Sample.scales rfl).1, ?_⟩
  cases reported with
  | nil =>
    have noted : (Sample.scales.draft.checkOverloads Sample.scales.catalog).notes ≠ [] := by
      decide +kernel
    exact absurd notes noted
  | cons x rest =>
    obtain ⟨f, isRepeated⟩ := (isReported x.1 x.2).1 mem_cons_self
    exact ⟨x.1, x.2, f, isRepeated⟩

end Linkage
