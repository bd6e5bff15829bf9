/-
Purpose: The tables that loading a rely list ends with, and where the same libraries end up
  in another rely list.
-/
import Linkage.Proofs.Rely.PlacedTable
import Linkage.Proofs.Rely.Settling
import Linkage.Proofs.Walk

namespace Linkage.RelyGraph

open List

variable {k i : Nat} {built : List Rely} {s : Surface} {g : RelyGraph} {slots : List Slot}
  {s : Surface} {name : String}

/-! ### Names of libraries -/

theorem exists_of_node? (atNode : g.node? name = some (.rely k)) :
    ∃ s, g.libraries[k]? = some s ∧ s.name = name := by
  unfold node? at atNode
  split at atNode
  · cases atNode
  · obtain ⟨i, found, same⟩ := Option.map_eq_some_iff.1 atNode
    cases same
    obtain ⟨inside, named, _⟩ := findIdx?_eq_some_iff_getElem.1 found
    exact ⟨_, getElem?_eq_getElem inside, by simpa using named⟩

/-- Every library goes by its own name. -/
def Named (g : RelyGraph) : Prop :=
  ∀ {i s}, g.libraries[i]? = some s → g.node? s.name = some (.rely i)

/-- Libraries go by their own names if all names are different. -/
theorem named_of_nodup (distinct : (g.current :: g.libraries.map (·.name)).Nodup) : g.Named := by
  intro i s found
  obtain ⟨notCurrent, different⟩ := nodup_cons.1 distinct
  have other : s.name ≠ g.current := by
    intro same
    exact notCurrent (same ▸ mem_map_of_mem (mem_of_getElem? found))
  obtain ⟨inside, rfl⟩ := List.getElem?_eq_some_iff.1 found
  have first : (g.libraries.findIdx? fun s => s.name = g.libraries[i].name) = some i := by
    refine findIdx?_eq_some_iff_getElem.2 ⟨inside, by simp, fun j earlier => ?_⟩
    intro same
    have bound : j < g.libraries.length := lt_trans earlier inside
    have images : (g.libraries.map (·.name))[j]? = (g.libraries.map (·.name))[i]? := by
      simp only [getElem?_map, getElem?_eq_getElem bound,
        getElem?_eq_getElem inside, Option.map_some]
      exact congrArg some (of_decide_eq_true same)
    have equal := (getElem?_inj (by simpa using bound) different).1 images
    omega
  rw [node?, if_neg other, first]
  rfl

/-! ### Where the libraries of a surface stand -/

/-- The place that a name leads to. -/
def homeOf (g : RelyGraph) (name : String) : Home :=
  match g.node? name with
  | some (.rely k) => .rely k
  | some .current | none => .kernel

/-- Where the libraries that a surface mentions stand, if the surface is at a position. -/
def placement (g : RelyGraph) (s : Surface) (i : Nat) : Placement
  | .kernel => .kernel
  | .own => .rely i
  | .dependency d => (s.dependencies[d]?.map g.homeOf).getD .kernel

/-- What a surface mentions stands outside the library that relies on it. -/
theorem placement_ne_here (g : RelyGraph) (s : Surface) (i : Nat) (origin : SurfaceOrigin) :
    g.placement s i origin ≠ .here := by
  cases origin with
  | kernel | own => nofun
  | dependency d =>
    rw [placement]
    cases s.dependencies[d]? with
    | none => nofun
    | some name =>
      rw [Option.map_some, homeOf]
      split <;> nofun

/-- How many types of a kind a library has for those that rely on it. -/
def countOf (g : RelyGraph) (kind : TypeKind) (name : String) : Nat :=
  match g.node? name with
  | some (.rely k) =>
    (g.libraries[k]?.map fun s => if kind = .struct then s.classes.length else s.typeCount kind).getD
      0
  | some .current | none => 0

/-- How many types of a kind the libraries have that a surface mentions. -/
def available (g : RelyGraph) (s : Surface) (kind : TypeKind) : SurfaceOrigin → Nat
  | .kernel => if kind.isDefinition then Kernel.table.classes.length else 0
  | .own => s.typeCount kind
  | .dependency d => (s.dependencies[d]?.map (g.countOf kind)).getD 0

/-- A type that a surface mentions is there, or it is the one that could not be resolved. -/
def Has (g : RelyGraph) (s : Surface) (type : SurfaceType) : Prop :=
  type.kind = .invalid ∨ type.index < g.available s type.kind type.origin

/-- A library has been built from its surface at its place. -/
def Placed (g : RelyGraph) (slots : List Slot) (k : Nat) : Prop :=
  ∃ s r, g.libraries[k]? = some s ∧ slots[k]? = some (.built r) ∧
    r.table = s.tableAt (g.placement s k)

/-- All libraries that a surface names have been built. -/
def Ready (g : RelyGraph) (slots : List Slot) (s : Surface) : Prop :=
  ∀ name ∈ s.dependencies, ∃ k, g.node? name = some (.rely k) ∧ g.Placed slots k

/-- What is known of a library that has been built. -/
theorem dependency_of_placed (atNode : g.node? name = some (.rely k)) (placed : g.Placed slots k) :
    ∃ t, g.dependency slots name = some (some t) ∧ t.home = g.homeOf name ∧
      ∀ kind, t.typeCount kind = g.countOf kind name := by
  obtain ⟨s, r, atK, built, table⟩ := placed
  refine ⟨r.table, ?_, ?_, fun kind => ?_⟩
  · simp [dependency, atNode, built]
  · rw [table, Surface.home_tableAt, homeOf, atNode]
    rfl
  · rw [table, Surface.typeCount_tableAt, countOf, atNode]
    simp [atK]

/-- The dependencies of a surface whose libraries have been built. -/
theorem Ready.known (ready : g.Ready slots s) (i : Nat) :
    ∃ dependencies, s.dependencies.mapM (g.dependency slots) = some dependencies ∧
      (Linkup.mk s (.rely i) dependencies).places = g.placement s i ∧
      (Linkup.mk s (.rely i) dependencies).Has = g.Has s := by
  have each : ∀ name ∈ s.dependencies, ∃ t, g.dependency slots name = some (some t) ∧
      t.home = g.homeOf name ∧ ∀ kind, t.typeCount kind = g.countOf kind name := by
    intro name member
    obtain ⟨k, atNode, placed⟩ := ready name member
    exact dependency_of_placed atNode placed
  let known := s.dependencies.map fun name => (g.dependency slots name).join
  have atPosition (d : Nat) : (s.dependencies[d]? = none ∧ known[d]?.join = none) ∨
      ∃ name t, s.dependencies[d]? = some name ∧ known[d]?.join = some t ∧
        t.home = g.homeOf name ∧ ∀ kind, t.typeCount kind = g.countOf kind name := by
    cases found : s.dependencies[d]? with
    | none => exact .inl ⟨rfl, by simp [known, found]⟩
    | some name =>
      obtain ⟨t, isKnown, home, counts⟩ := each name (mem_of_getElem? found)
      exact .inr ⟨name, t, rfl, by simp [known, found, isKnown], home, counts⟩
  refine ⟨known, ?_, ?_, ?_⟩
  · rw [mapM_eq_some_iff, map_map]
    apply map_congr_left
    intro name member
    obtain ⟨t, isKnown, _⟩ := each name member
    simp [isKnown]
  · funext origin
    cases origin with
    | kernel | own => rfl
    | dependency d =>
      rcases atPosition d with ⟨unnamed, unknown⟩ | ⟨name, t, named, isKnown, home, _⟩
      · simp [Linkup.places, placement, unnamed, unknown]
      · simp [Linkup.places, placement, named, isKnown, home]
  · funext type
    unfold Linkup.Has Has
    cases type.origin with
    | kernel | own => rfl
    | dependency d =>
      rcases atPosition d with ⟨unnamed, unknown⟩ | ⟨name, t, named, isKnown, _, counts⟩
      · simp [Linkup.available, available, unnamed, unknown]
      · simp [Linkup.available, available, named, isKnown, counts]

/-- A library that has been built is placed, once those it names are, and then all that it
mentions is there. -/
theorem Settling.placed_of_built (settling : g.Settling slots) {r : Rely}
    (atIndex : g.libraries[i]? = some s) (built : slots[i]? = some (.built r))
    (ready : g.Ready slots s) :
    r.table = s.tableAt (g.placement s i) ∧ s.All (g.Has s) ∧ s.Spaced := by
  obtain ⟨s', known, atIndex', isKnown, result⟩ := settling.built built
  rw [atIndex] at atIndex'
  cases atIndex'
  obtain ⟨known', isKnown', places, has⟩ := ready.known i
  rw [isKnown] at isKnown'
  cases isKnown'
  obtain ⟨⟨all, spaced⟩, rfl⟩ := Linkup.instantiate_eq_ok.1 result
  rw [← places, ← has]
  exact ⟨rfl, all, spaced⟩

/-! ### Loading -/

/-- The slots when nothing is left to build. -/
def settled (g : RelyGraph) : List Slot := (g.settle (g.libraries.map fun _ => .pending)).value

theorem settling_settled (g : RelyGraph) : g.Settling g.settled :=
  settle_settling (settling_pending g)

/-- A library is placed in the end if those it names are and all that it mentions is
there. -/
theorem placed_of_ready (atIndex : g.libraries[i]? = some s) (ready : g.Ready g.settled s)
    (all : s.All (g.Has s)) (spaced : s.Spaced) : g.Placed g.settled i := by
  obtain ⟨known, isKnown, places, has⟩ := ready.known i
  have works : (Linkup.mk s (.rely i) known).instantiate =
      .ok ⟨s.tableAt (g.placement s i), known.filterMap fun found => found.map (·.home)⟩ := by
    rw [Linkup.instantiate_eq_ok, has, places]
    exact ⟨⟨all, spaced⟩, rfl⟩
  have inside : i < g.settled.length := by
    rw [g.settling_settled.length]
    exact lt_of_getElem? atIndex
  have found := getElem?_eq_getElem inside
  cases held : g.settled[i] with
  | pending =>
    rw [held] at found
    have stuck := settle_stuck found atIndex
    rw [show (g.settle _).value = g.settled from rfl, isKnown] at stuck
    cases stuck
  | failed =>
    rw [held] at found
    obtain ⟨s', known', problem, atIndex', isKnown', fails⟩ := g.settling_settled.failed found
    rw [atIndex] at atIndex'
    cases atIndex'
    rw [isKnown] at isKnown'
    cases isKnown'
    rw [works] at fails
    cases fails
  | built r =>
    rw [held] at found
    exact ⟨s, r, atIndex, found, (g.settling_settled.placed_of_built atIndex found ready).1⟩

/-- What a rely list that was loaded guarantees: each library goes by its name, names only
libraries that are there, and has been built from its surface at its place. -/
structure Loaded (g : RelyGraph) (built : List Rely) : Prop where
  slots : g.settled = built.map Slot.built
  named : g.Named
  resolved : ∀ s ∈ g.libraries, ∀ name ∈ s.dependencies, ∃ k, g.node? name = some (.rely k)
  ordered : ∀ i, Acc g.Needs i

/-- Where no library is a duplicate, all go by their own names. -/
theorem named_of_duplicates (none : g.duplicates = []) : g.Named := by
  intro i s found
  have kept := filterMap_eq_nil_iff.1 none (s, i) (mk_mem_zipIdx_iff_getElem?.2 found)
  by_contra other
  simp [other] at kept

theorem node?_isSome_of_missing (none : g.missing = []) (member : s ∈ g.libraries)
    (isDependency : name ∈ s.dependencies) : (g.node? name).isSome = true := by
  have kept := filterMap_eq_nil_iff.1 (flatMap_eq_nil_iff.1 none s member) name
    isDependency
  by_contra nowhere
  simp [Option.not_isSome_iff_eq_none.1 nowhere] at kept

/-- Where there are no cycles, no library leads back to the one that is compiled. -/
theorem node?_ne_current_of_cycles (named : g.Named) (none : g.cycles = [])
    (member : s ∈ g.libraries) (isDependency : name ∈ s.dependencies) :
    g.node? name ≠ some .current := by
  obtain ⟨i, atIndex⟩ := mem_iff_getElem?.1 member
  have visited : RelyNode.rely i ∈ g.relyNodes := by
    refine mem_filterMap.2 ⟨(s, i), mk_mem_zipIdx_iff_getElem?.2 atIndex, ?_⟩
    simp [named atIndex]
  have noLoops : (Walk.loops g.edges g.relyNodes [.current] (g.edges .current)).2 = [] :=
    map_eq_nil_iff.1 none
  obtain ⟨_, avoids⟩ := Walk.loops_eq_nil_avoids noLoops (mem_singleton_self _)
  have gone : RelyNode.rely i ∉
      (Walk.loops g.edges g.relyNodes [.current] (g.edges .current)).1.1 :=
    Walk.not_mem_loops_left_of_mem (by simp) visited
  intro back
  refine avoids (.rely i) visited gone ?_
  simp only [edges, atIndex, Option.map_some, Option.getD_some, mem_mergeSort]
  exact mem_filterMap.2 ⟨name, isDependency, back⟩

/-- Where building all libraries succeeds, every slot holds its library in the end. -/
theorem settled_of_instantiate (builds : g.instantiate = .ok built) :
    g.settled = built.map Slot.built := by
  unfold instantiate at builds
  dsimp only at builds
  split at builds
  · rename_i quiet
    cases builds
    rw [List.isEmpty_iff] at quiet
    have unfailed : Unfailed (g.libraries.map fun _ => .pending) := by
      rintro slot member rfl
      obtain ⟨_, _, impossible⟩ := mem_map.1 member
      cases impossible
    have allBuilt : ∀ slot ∈ g.settled, ∃ r, slot = .built r := settle_built_of_quiet unfailed quiet
    show g.settled = (builtOf g.settled).map Slot.built
    generalize g.settled = slots at allBuilt ⊢
    induction slots with
    | nil => rfl
    | cons slot rest ih =>
      obtain ⟨r, rfl⟩ := allBuilt slot (mem_cons_self ..)
      have later := ih fun slot member => allBuilt slot (mem_cons_of_mem _ member)
      simpa [builtOf] using later
  · cases builds

/-- Loading without complaints checks the names and the graph, and builds everything. -/
theorem loaded_of_load (loads : g.load = .ok built) : g.Loaded built := by
  unfold load at loads
  dsimp only at loads
  split at loads
  · rename_i noProblems
    simp only [List.isEmpty_iff, append_eq_nil_iff] at noProblems
    obtain ⟨⟨noDuplicates, noneMissing⟩, noCycles⟩ := noProblems
    have named : g.Named := named_of_duplicates noDuplicates
    have slots := settled_of_instantiate loads
    refine ⟨slots, named, ?_, ?_⟩
    · intro s member name isDependency
      obtain ⟨node, leads⟩ :=
        Option.isSome_iff_exists.1 (node?_isSome_of_missing noneMissing member isDependency)
      cases node with
      | current =>
        exact absurd leads (node?_ne_current_of_cycles named noCycles member isDependency)
      | rely k => exact ⟨k, leads⟩
    · intro i
      cases found : g.settled[i]? with
      | some slot =>
        have image := found
        rw [slots, getElem?_map] at image
        obtain ⟨r, _, rfl⟩ := Option.map_eq_some_iff.1 image
        exact g.settling_settled.ordered found rfl
      | none =>
        -- Where there is no library, nothing is needed.
        rw [List.getElem?_eq_none_iff, g.settling_settled.length] at found
        refine Acc.intro i ?_
        rintro k ⟨s, name, atIndex, _⟩
        exact absurd (lt_of_getElem? atIndex) (Nat.not_lt.2 found)
  · cases loads

section

variable {built : List Rely} (loaded : g.Loaded built)
include loaded

theorem Loaded.not_needs_self (i : Nat) : ¬g.Needs i i := by
  induction loaded.ordered i with
  | intro i _ ih => exact fun needs => ih i needs needs

theorem Loaded.length_built : built.length = g.libraries.length := by
  have slots := congrArg List.length loaded.slots
  rw [g.settling_settled.length, length_map] at slots
  exact slots.symm

/-- All libraries of a loaded list are placed, and all that they mention is there. -/
theorem Loaded.placed (atIndex : g.libraries[i]? = some s) :
    g.Placed g.settled i ∧ s.All (g.Has s) ∧ s.Spaced := by
  -- Those that a library names come before it, so the induction goes up from them.
  induction loaded.ordered i generalizing s with
  | intro i _ ih =>
    have ready : g.Ready g.settled s := by
      intro name member
      obtain ⟨k, atNode⟩ := loaded.resolved s (mem_of_getElem? atIndex) name member
      obtain ⟨s', atK, _⟩ := exists_of_node? atNode
      exact ⟨k, atNode, (ih k ⟨s, name, atIndex, member, atNode⟩ atK).1⟩
    have inside : i < built.length := loaded.length_built ▸ (lt_of_getElem? atIndex)
    have found : g.settled[i]? = some (.built built[i]) := by
      rw [loaded.slots, getElem?_map, getElem?_eq_getElem inside]
      rfl
    obtain ⟨table, all, spaced⟩ := g.settling_settled.placed_of_built atIndex found ready
    exact ⟨⟨s, built[i], atIndex, found, table⟩, all, spaced⟩

theorem Loaded.table (atIndex : g.libraries[i]? = some s) :
    (built.map (·.table))[i]? = some (s.tableAt (g.placement s i)) := by
  obtain ⟨s', r, atIndex', found, table⟩ := (loaded.placed atIndex).1
  rw [atIndex] at atIndex'
  cases atIndex'
  rw [loaded.slots, getElem?_map] at found
  obtain ⟨r', there, same⟩ := Option.map_eq_some_iff.1 found
  cases same
  rw [getElem?_map, there, Option.map_some, table]

theorem Loaded.surface_of_table {t : Table} (found : (built.map (·.table))[i]? = some t) :
    ∃ s, g.libraries[i]? = some s ∧ t = s.tableAt (g.placement s i) ∧ s.All (g.Has s) ∧
      s.Spaced := by
  have inside := lt_of_getElem? found
  rw [length_map, loaded.length_built] at inside
  have atIndex := getElem?_eq_getElem inside
  obtain ⟨_, all, spaced⟩ := loaded.placed atIndex
  refine ⟨_, atIndex, ?_, all, spaced⟩
  rw [loaded.table atIndex] at found
  exact (Option.some.inj found).symm

end

/-! ### The same libraries in another list -/

/-- The libraries of one list stand in another, at the positions that `position` says. -/
structure Embeds (position : Nat → Nat) (g g' : RelyGraph) : Prop where
  named : g'.Named
  present : ∀ {i s}, g.libraries[i]? = some s → g'.libraries[position i]? = some s

namespace Embeds

variable {g' : RelyGraph} {position : Nat → Nat}

section

variable (embeds : Embeds position g g')
include embeds

theorem node? {name : String}
    (atNode : g.node? name = some (.rely k)) : g'.node? name = some (.rely (position k)) := by
  obtain ⟨s, atK, rfl⟩ := exists_of_node? atNode
  exact embeds.named (embeds.present atK)

/-- What is there for a surface in the one list is there for it in the other. -/
theorem has (resolved : ∀ name ∈ s.dependencies, ∃ k, g.node? name = some (.rely k)) :
    g'.Has s = g.Has s := by
  funext type
  unfold Has
  cases type.origin with
  | kernel | own => rfl
  | dependency d =>
    cases found : s.dependencies[d]? with
    | none => simp [available, found]
    | some name =>
      obtain ⟨k, atNode⟩ := resolved name (mem_of_getElem? found)
      obtain ⟨s', atK, _⟩ := exists_of_node? atNode
      simp [available, found, countOf, atNode, embeds.node? atNode, atK, embeds.present atK]

/-- A library of the one list is placed there and in the other in corresponding ways. -/
theorem placement (atIndex : g.libraries[i]? = some s)
    (resolved : ∀ name ∈ s.dependencies, ∃ k, g.node? name = some (.rely k))
    (origin : SurfaceOrigin) :
    (g.placement s i origin = .kernel ∧ g'.placement s (position i) origin = .kernel) ∨
      ∃ k < g.libraries.length, g.placement s i origin = .rely k ∧
        g'.placement s (position i) origin = .rely (position k) := by
  cases origin with
  | kernel => exact .inl ⟨rfl, rfl⟩
  | own => exact .inr ⟨i, (lt_of_getElem? atIndex), rfl, rfl⟩
  | dependency d =>
    cases found : s.dependencies[d]? with
    | none => exact .inl (by simp [RelyGraph.placement, found])
    | some name =>
      obtain ⟨k, atNode⟩ := resolved name (mem_of_getElem? found)
      obtain ⟨s', atK, _⟩ := exists_of_node? atNode
      refine .inr ⟨k, (lt_of_getElem? atK), ?_, ?_⟩
      · simp [RelyGraph.placement, found, homeOf, atNode]
      · simp [RelyGraph.placement, found, homeOf, embeds.node? atNode]

theorem placed (loaded : g.Loaded built)
    (atIndex : g.libraries[i]? = some s) : g'.Placed g'.settled (position i) := by
  induction loaded.ordered i generalizing s with
  | intro i _ ih =>
    have resolved := loaded.resolved s (mem_of_getElem? atIndex)
    obtain ⟨_, all, spaced⟩ := loaded.placed atIndex
    refine placed_of_ready (embeds.present atIndex) ?_ (embeds.has resolved ▸ all) spaced
    intro name member
    obtain ⟨k, atNode⟩ := resolved name member
    obtain ⟨s', atK, _⟩ := exists_of_node? atNode
    exact ⟨position k, embeds.node? atNode, ih k ⟨s, name, atIndex, member, atNode⟩ atK⟩

end

end Embeds

end Linkage.RelyGraph
