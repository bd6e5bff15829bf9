/-
Purpose: How deep a type can be below another in a compilation without complaints, and that a
  tower of classes is as deep as the costs of widenings.
-/
import Linkage.Proofs.Catalog.Bound
import Linkage.Proofs.Rely.Regular

namespace Linkage

open List Surface Catalog RelyGraph

/-! ### No compilation sees deeper types -/

/-- A type that a surface of a loaded list mentions is one of those that its library has. -/
theorem RelyGraph.Loaded.counts {g : RelyGraph} {built : List Rely} (loaded : g.Loaded built)
    (own : Table) {i : Nat} {s : Surface} (atIndex : g.libraries[i]? = some s) {x : SurfaceType}
    (has : g.Has s x) (valid : x.kind ≠ .invalid) :
    (Catalog.mk own (built.map (·.table))).Counts (x.at (g.placement s i)).id := by
  have counted := has.resolve_left valid
  rw [SurfaceType.at, if_neg valid]
  cases origin : x.origin with
  | kernel =>
    refine ⟨Kernel.table, rfl, ?_⟩
    rw [origin] at counted
    cases kind : x.kind <;> rw [kind] at counted <;> exact counted
  | own =>
    rw [origin] at counted
    refine ⟨_, loaded.table atIndex, ?_⟩
    show x.index < (s.tableAt (g.placement s i)).typeCount x.kind
    rw [typeCount_tableAt]
    split
    · rename_i value
      rw [value] at counted
      exact absurd counted (Nat.not_lt_zero _)
    · exact counted
  | dependency e =>
    obtain ⟨name, k, named, atNode, place, _⟩ :=
      loaded.placement_dependency atIndex has valid origin
    obtain ⟨s', atK, _⟩ := exists_of_node? atNode
    rw [place]
    refine ⟨_, loaded.table atK, ?_⟩
    rw [typeCount_tableAt]
    simpa [origin, available, named, countOf, atNode, atK] using counted

/-- In a compilation without complaints the parents of classes are types that their libraries
have. -/
theorem Job.Passes.counts_parent {job : Job} {p : Products} {merged linked : Draft}
    (passes : job.Passes p merged linked) {x : TypeId} {d : ClassDef}
    (isClass : (p.draft.catalog p.tables).classDef? x = some d) (valid : d.parent.isValid = true) :
    (p.draft.catalog p.tables).Counts d.parent.id := by
  obtain ⟨_, t, atHome, inside⟩ := classDef?_eq_some.1 isClass
  obtain ⟨home, kind, index⟩ := x
  cases home with
  | kernel =>
    cases atHome
    rw [(Kernel.classes_plain d (mem_of_getElem? inside)).2 valid]
    exact ⟨Kernel.table, rfl, by decide⟩
  | here =>
    cases atHome
    rcases (passes.settled.classes d (mem_of_getElem? inside)).parent with
      unresolved | ⟨t, atHome, has⟩
    · rw [unresolved] at valid
      cases valid
    · exact ⟨t, atHome, has.counted⟩
  | rely i =>
    obtain ⟨s, atIndex, rfl, all, _⟩ := passes.surface_of_table atHome
    obtain ⟨c, found, rfl⟩ := class_tableAt_iff.1 inside
    have member := mem_of_getElem? found
    have has := all c.parent (class_types_subset member mem_cons_self)
    apply passes.loaded.counts _ atIndex has
    intro unresolved
    have invalid : c.parent.at (job.graph.placement s i) = .invalid := if_pos unresolved
    rw [SurfaceClass.at, invalid] at valid
    cases valid

/-! ### Towers -/

/-- The parent of a class of a tower: the class before it, or the class of the kernel that the tower
stands on. -/
def Surface.towerParent (ground : Nat) : Nat → SurfaceType
  | 0 => ⟨.kernel, .handle, ground, 0⟩
  | floor + 1 => ⟨.own, .handle, floor, 0⟩

/-- A class of a tower. -/
def Surface.towerClass (ground floor : Nat) : SurfaceClass :=
  ⟨s!"T{floor}", Table.rootSpace, towerParent ground floor, [], [], [], []⟩

/-- A library of classes, each of which derives from the one before it. -/
def Surface.tower (ground height : Nat) : Surface :=
  { empty "Tower" with classes := (range height).map (towerClass ground) }

/-- A surface by itself, in the first place and with no library that it could name. -/
def Linkup.alone (s : Surface) : Linkup := ⟨s, .rely 0, []⟩

/-- A tower is accepted. -/
theorem Linkup.instantiate_tower (ground height : Nat)
    (known : ground < Kernel.table.classes.length) :
    (alone (.tower ground height)).instantiate =
      .ok ⟨(Surface.tower ground height).tableAt (alone (.tower ground height)).places, []⟩ := by
  rw [instantiate_eq_ok]
  refine ⟨⟨?_, ?_⟩, rfl⟩
  · have types : (Surface.tower ground height).types =
        (List.range height).map (Surface.towerParent ground) := by
      simp [Surface.types, Surface.tower, Surface.empty, flatMap_map, SurfaceClass.types,
        Surface.towerClass]
      exact map_eq_flatMap.symm
    rw [alone, Surface.All, types]
    refine forall_mem_map.2 fun floor inside => .inr ?_
    cases floor with
    | zero => exact known
    | succ floor =>
      have below : floor < ((List.range height).map (Surface.towerClass ground)).length := by
        simpa using Nat.lt_of_succ_lt (mem_range.1 inside)
      exact below
  · refine ⟨?_, forall_mem_map.2 fun floor _ => .inl rfl, ?_, ?_, ?_, ?_, ?_, ?_⟩
    all_goals simp [alone, Surface.tower, Surface.empty, Surface.below]

/-- A single library that names no other is loaded if it is accepted. -/
theorem RelyGraph.load_single {name : String} {s : Surface} {r : Rely} (other : s.name ≠ name)
    (independent : s.dependencies = []) (accepted : (Linkup.alone s).instantiate = .ok r) :
    (mk name [s]).load = .ok [r] := by
  have node : (mk name [s]).node? s.name = some (.rely 0) := by
    simp [node?, other]
  have duplicates : (mk name [s]).duplicates = [] := by
    simp [duplicates, node]
  have missing : (mk name [s]).missing = [] := by
    simp [missing, independent]
  have cycles : (mk name [s]).cycles = [] := by
    simp [cycles, relyNodes, edges, Walk.loops, node, independent]
  have attempt : (mk name [s]).attempt [.pending] 0 s = pure [.built r] := by
    rw [Linkup.alone] at accepted
    simp [attempt, independent, accepted]
  have pass : (mk name [s]).pass [.pending] = pure [.built r] := by
    simp [pass, attempt]
  have settled : (mk name [s]).settle [.pending] = pure [.built r] := by
    rw [settle, pass]
    rfl
  simp [load, duplicates, missing, cycles, instantiate, settled, builtOf]

/-- A library without files is compiled without complaints whatever it relies on. -/
theorem Job.exists_completes_of_no_files {name : String} {surfaces : List Surface}
    {relies : List Rely} (loads : (RelyGraph.mk name surfaces).load = .ok relies) :
    ∃ p, (Builder.mk ⟨name, [], surfaces, {}, .plain⟩ .unstarted [] none).Completes p ∧
      p.draft = (Draft.merge name []).value ∧ p.tables = relies.map (·.table) := by
  have prepares : Job.Prepares ⟨name, [], surfaces, {}, .plain⟩ (Draft.merge name []).value
      (Draft.merge name []).value relies := ⟨loads, ⟨[], rfl, rfl⟩, rfl, rfl, rfl, rfl⟩
  obtain ⟨p, completes, same, passes⟩ := exists_completes prepares rfl
  exact ⟨p, completes, passes.draft, congrArg (map Rely.table) same⟩

/-- What a library without types sees that relies on a tower. -/
def Catalog.tower (ground height : Nat) : Catalog :=
  ⟨(Draft.merge "Yard" []).value.table,
    [(Surface.tower ground height).tableAt (Linkup.alone (.tower ground height)).places]⟩

theorem Builder.exists_completes_tower (ground height : Nat)
    (known : ground < Kernel.table.classes.length) :
    ∃ b p, Builder.Completes b p ∧ p.draft.catalog p.tables = Catalog.tower ground height := by
  have other : (Surface.tower ground height).name ≠ "Yard" := show "Tower" ≠ "Yard" by decide
  have loads := load_single other rfl (Linkup.instantiate_tower ground height known)
  obtain ⟨p, completes, draft, tables⟩ := Job.exists_completes_of_no_files loads
  refine ⟨_, p, completes, ?_⟩
  rw [draft, tables]
  rfl

namespace Catalog

variable {ground height : Nat}

theorem typeTotal_tower (ground height : Nat) : (tower ground height).typeTotal = height := by
  have own : (tower ground height).own.typeTotal = 0 := rfl
  rw [typeTotal, own]
  simp [tower, Table.typeTotal, Surface.tower, Surface.empty]

section

variable {floor : Nat} (inside : floor < height)
include inside

/-- Above a class of a tower is its parent. -/
theorem nextParent_tower : (tower ground height).nextParent ⟨.rely 0, .handle, floor⟩ =
      some ((Surface.towerParent ground floor).at
        (Linkup.alone (.tower ground height)).places).id := by
  have found : (Surface.tower ground height).classes[floor]? =
      some (Surface.towerClass ground floor) := by
    simp [Surface.tower, inside]
  have isClass : (tower ground height).classDef? ⟨.rely 0, .handle, floor⟩ =
      some ((Surface.towerClass ground floor).at
        (Linkup.alone (.tower ground height)).places floor) := by
    refine classDef?_eq_some.2 ⟨rfl, _, rfl, ?_⟩
    rw [classes_tableAt, getElem?_mapIdx, found]
    rfl
  apply nextParent_of_classDef? isClass
  cases floor <;> rfl

/-- From a class of a tower it is as many steps to the ground as there are classes up to it. -/
theorem steps_tower :
    Walk.steps (tower ground height).nextParent (floor + 1) ⟨.rely 0, .handle, floor⟩ =
      some ⟨.kernel, .handle, ground⟩ := by
  induction floor with
  | zero =>
    rw [Walk.steps, nextParent_tower inside]
    rfl
  | succ floor ih =>
    rw [Walk.steps, nextParent_tower inside]
    exact ih (by omega)

/-- On the root of handles, a tower is as deep as it is high. -/
theorem inheritDepth_tower : (tower TypeId.handle.index height).inheritDepth TypeId.handle.scalar
      (TypeId.scalar ⟨.rely 0, .handle, floor⟩) = some (floor + 1) :=
  inheritDepth_root rfl (by simp [TypeId.handle, TypeId.kernel]) (steps_tower inside)

/-- On another class of the kernel, a tower is one step deeper. -/
theorem inheritDepth_tower_array :
    (tower TypeId.array.index height).inheritDepth TypeId.handle.scalar
      (TypeId.scalar ⟨.rely 0, .handle, floor⟩) = some (floor + 2) := by
  refine inheritDepth_root rfl (by simp [TypeId.handle, TypeId.kernel]) ?_
  rw [show floor + 2 = floor + 1 + 1 from rfl, Walk.steps_add, steps_tower inside]
  rfl

end

end Catalog

namespace Builder

/-- The depths that types can have in compilations without complaints that see a number of types
outside the kernel. -/
def Depths (size : Nat) : Set Nat :=
  {n | ∃ b p, Builder.Completes b p ∧ (p.draft.catalog p.tables).typeTotal = size ∧
    ∃ base sub, (p.draft.catalog p.tables).inheritDepth base sub = some n}

theorem le_of_mem_depths {size n : Nat} (member : n ∈ Depths size) : n ≤ max 2 (size + 1) := by
  obtain ⟨b, p, completes, rfl, base, sub, depth⟩ := member
  obtain ⟨_, _, passes⟩ := Job.passes_of_completes completes
  exact inheritDepth_le passes.counts_parent depth

theorem mem_depths (size : Nat) : max 2 (size + 1) ∈ Depths size := by
  obtain ⟨b, p, completes, sees⟩ := exists_completes_tower TypeId.array.index size (by decide)
  refine ⟨b, p, completes, by rw [sees, typeTotal_tower], TypeId.handle.scalar, ?_⟩
  rw [sees]
  cases size with
  | zero =>
    -- An array is two steps below the root.
    refine ⟨⟨.integer, 1⟩, ?_⟩
    rfl
  | succ size =>
    exact ⟨_, inheritDepth_tower_array (Nat.lt_succ_self size)⟩

/-- Structural costs stay below the costs of widenings as long as there are few types.  In
compilations without complaints that see `size` types outside the kernel, the greatest depth of a
type below another is one more than that, and at least two; and all depths are below all costs of
widenings exactly if there are fewer than 254 types. -/
theorem depths_below_widenings_iff (size : Nat) : IsGreatest (Depths size) (max 2 (size + 1)) ∧
      ((∀ n ∈ Depths size, ∀ w ∈ widenings, n < w.2.2) ↔ size < 254) := by
  have greatest : IsGreatest (Depths size) (max 2 (size + 1)) :=
    ⟨mem_depths size, fun n => le_of_mem_depths⟩
  refine ⟨greatest, fun below => ?_, fun small n member w isWidening => ?_⟩
  · have cheapest : max 2 (size + 1) < 0xff :=
      below _ greatest.1 (.integer, .real, 0xff) (by decide)
    omega
  · have costs : ∀ w ∈ widenings, 0xff ≤ w.2.2 := by decide
    have bound := greatest.2 member
    have cost := costs w isWidening
    omega

/-- A compilation without complaints in which a class is as deep below another as it costs to
widen an integer: the library relies on a tower of 255 classes. -/
theorem depth_reaches_widening : ∃ b p base sub, Builder.Completes b p ∧
    (p.draft.catalog p.tables).inheritDepth base sub = some 255 ∧
    wideningCost .integer .real = some 255 := by
  obtain ⟨b, p, completes, sees⟩ := exists_completes_tower TypeId.handle.index 255 (by decide)
  have depth := inheritDepth_tower (Nat.lt_succ_self 254)
  rw [← sees] at depth
  exact ⟨b, p, _, _, completes, depth, by decide⟩

end Builder

end Linkage
