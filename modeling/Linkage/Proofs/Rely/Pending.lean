/-
Purpose: The libraries that stay pending are those below which a circle of dependencies lies,
  and these circles are the cycles that are reported apart from the library being compiled.
-/
import Linkage.Proofs.Rely.Cycles
import Linkage.Proofs.Rely.Rehomed
import Mathlib.Data.Fintype.Pigeonhole
import Mathlib.Order.Monotone.Basic
import Mathlib.Order.WellFounded

namespace Linkage

open List

variable {problem : RelyProblem} {name : String} {k : Nat} {r : Rely} {s : Surface}

namespace RelyGraph

variable {g : RelyGraph} {slots : List Slot} {problems : List RelyProblem} {i : Nat}

/-! ### Passes -/

/-- What is reported while libraries are built: those that lack something, and in the end what is
still pending, if anything is. -/
theorem mem_notes_settle : problem ∈ (g.settle slots).notes →
      problem.code = .unresolvedRely ∨
        (problem = .unresolvable (g.pendingNames (g.settle slots).value) ∧
          pendingCount (g.settle slots).value ≠ 0) := by
  have passes (slots : List Slot) : Noted.Reports
      (fun problem : RelyProblem => problem.code = .unresolvedRely) (g.pass slots) := by
    refine .foldlM fun slots (s, i) _ => ?_
    have spec := g.attempt_spec slots i s
    dsimp only
    generalize g.attempt slots i s = result at spec ⊢
    cases spec with
    | idle blocked | built pending known works => exact .pure _
    | failed pending known fails =>
      intro problem member
      rw [mem_singleton.1 member]
      exact (Linkup.lacks_instantiate _).of_error fails
  fun_induction settle g slots with
  | case1 slots after progress done | case3 slots after stuck done =>
    exact fun member => .inl (passes slots problem member)
  | case2 slots after progress more rest ih =>
    intro member
    rcases mem_append.1 member with now | later
    · exact .inl (passes slots problem now)
    · exact ih later
  | case4 slots after stuck more =>
    intro member
    rcases mem_append.1 member with now | last
    · exact .inl (passes slots problem now)
    · exact .inr ⟨mem_singleton.1 last, more⟩

theorem unresolvable_mem_notes_settle (pending : pendingCount (g.settle slots).value ≠ 0) :
    .unresolvable (g.pendingNames (g.settle slots).value) ∈ (g.settle slots).notes := by
  fun_induction settle g slots with
  | case1 slots after progress done | case3 slots after stuck done => exact absurd done pending
  | case2 slots after progress more rest ih => exact mem_append_right _ (ih pending)
  | case4 slots after stuck more => exact mem_append_right _ (mem_singleton_self _)

/-- No more passes are made than there are libraries to build, and one. -/
theorem settle_eq_iterate (g : RelyGraph) (slots : List Slot) : ∃ n ≤ pendingCount slots + 1,
      (g.settle slots).value = (fun slots => (g.pass slots).value)^[n] slots := by
  fun_induction settle g slots with
  | case1 slots after progress done | case3 slots after stuck done | case4 slots after stuck more =>
    exact ⟨1, by omega, rfl⟩
  | case2 slots after progress more rest ih =>
    obtain ⟨n, few, value⟩ := ih
    exact ⟨n + 1, by omega, value⟩

/-! ### What is still pending -/

/-- Where the library stands that a dependency names: the first of this name, unless it is the
name of the library being compiled. -/
def position? (g : RelyGraph) (name : String) : Option Nat :=
  if name = g.current then none else g.libraries.findIdx? fun s => s.name = name

/-- The library at one position names that at another among its dependencies. -/
def DependsOn (g : RelyGraph) (i k : Nat) : Prop :=
  ∃ s name, g.libraries[i]? = some s ∧ name ∈ s.dependencies ∧ g.position? name = some k

/-- From a library, dependencies lead to one that depends on itself. -/
def Stuck (g : RelyGraph) (i : Nat) : Prop :=
  ∃ k, Relation.ReflTransGen g.DependsOn i k ∧ Relation.TransGen g.DependsOn k k

theorem node?_eq_rely_iff_position? :
    g.node? name = some (.rely k) ↔ g.position? name = some k := by
  unfold node? position?
  split <;> simp

theorem dependsOn_iff_needs {i : Nat} : g.DependsOn i k ↔ g.Needs k i := by
  simp only [DependsOn, Needs, node?_eq_rely_iff_position?]

/-- Dependencies can be followed finitely often from a library that they do not lead round in a
circle from. -/
theorem not_acc_iff_stuck : ¬Acc g.Needs i ↔ g.Stuck i := by
  constructor
  · intro endless
    obtain ⟨f, start, goesOn⟩ := not_acc_iff_exists_descending_chain.1 endless
    have steps (n : Nat) : g.DependsOn (f n) (f (n + 1)) := dependsOn_iff_needs.2 (goesOn n)
    have inside (n : Nat) : f n < g.libraries.length := by
      obtain ⟨s, _, found, _⟩ := steps n
      exact lt_of_getElem? found
    -- Endlessly many steps through finitely many libraries come to one of them twice.
    obtain ⟨a, b, different, same⟩ := Finite.exists_ne_map_eq_of_infinite
      fun n => (⟨f n, inside n⟩ : Fin g.libraries.length)
    wlog earlier : a < b generalizing a b
    · exact this b a different.symm same.symm (by omega)
    have again : f a = f b := congrArg Fin.val same
    refine ⟨f a, ?_, ?_⟩
    · rw [← start]
      exact Nat.rel_of_forall_rel_succ_of_le (Relation.ReflTransGen g.DependsOn)
        (fun n => .single (steps n)) (Nat.zero_le a)
    · have round : Relation.TransGen g.DependsOn (f a) (f b) :=
        Nat.rel_of_forall_rel_succ_of_lt (Relation.TransGen g.DependsOn)
          (fun n => .single (steps n)) earlier
      rwa [← again] at round
  · rintro ⟨k, leads, round⟩ ends
    have below : Acc (fun b a => g.DependsOn a b) i := by
      simpa only [dependsOn_iff_needs] using ends
    have there : Acc (fun b a => g.DependsOn a b) k := by
      clear round
      induction leads with
      | refl => exact below
      | tail _ step ih => exact ih.inv step
    exact Walk.not_transGen_self_of_acc there round

theorem Stuck.lt (stuck : g.Stuck i) : i < g.libraries.length := by
  obtain ⟨k, leads, round⟩ := stuck
  obtain ⟨_, ⟨s, _, found, _⟩, _⟩ :=
    Relation.TransGen.head'_iff.1 (Relation.TransGen.trans_right leads round)
  exact lt_of_getElem? found

/-- Going through a list fails at one of its elements. -/
private theorem exists_of_mapM_eq_none {α β : Type} {f : α → Option β} {xs : List α}
    (fails : xs.mapM f = none) : ∃ x ∈ xs, f x = none := by
  induction xs with
  | nil => simp at fails
  | cons x rest ih =>
    cases here : f x with
    | none => exact ⟨x, mem_cons_self .., here⟩
    | some y =>
      have later : rest.mapM f = none := by
        cases results : rest.mapM f with
        | none => rfl
        | some ys => simp [here, results] at fails
      obtain ⟨z, member, missing⟩ := ih later
      exact ⟨z, mem_cons_of_mem _ member, missing⟩

/-- What has to be waited for is pending. -/
theorem pending_of_dependency_eq_none (whole : slots.length = g.libraries.length)
    (waits : g.dependency slots name = none) :
    ∃ k, g.node? name = some (.rely k) ∧ slots[k]? = some .pending := by
  unfold dependency at waits
  split at waits
  · rename_i k leads
    refine ⟨k, leads, ?_⟩
    obtain ⟨s, found, _⟩ := exists_of_node? leads
    have inside : k < slots.length := whole ▸ (lt_of_getElem? found)
    rw [getElem?_eq_getElem inside] at waits ⊢
    cases held : slots[k] with
    | pending => rfl
    | failed | built r => simp [held] at waits
  · cases waits
  · cases waits

/-- In the end a library is pending exactly if it is stuck. -/
theorem pending_iff_stuck : g.settled[i]? = some .pending ↔ g.Stuck i := by
  rw [← not_acc_iff_stuck]
  constructor
  · intro pending ends
    induction ends with
    | intro i _ ih =>
      have inside := lt_of_getElem? pending
      rw [g.settling_settled.length] at inside
      have found := getElem?_eq_getElem inside
      obtain ⟨name, member, waits⟩ := exists_of_mapM_eq_none (settle_stuck pending found)
      obtain ⟨k, leads, alsoPending⟩ :=
        pending_of_dependency_eq_none g.settling_settled.length waits
      exact ih k ⟨_, name, found, member, leads⟩ alsoPending
  · intro endless
    have inside : i < g.settled.length := by
      rw [g.settling_settled.length]
      exact (not_acc_iff_stuck.1 endless).lt
    have found := getElem?_eq_getElem inside
    cases held : g.settled[i] with
    | pending => rw [found, held]
    | failed | built r => exact absurd (g.settling_settled.ordered (held ▸ found) rfl) endless

theorem pendingCount_settled_ne_zero_iff : pendingCount g.settled ≠ 0 ↔ ∃ i, g.Stuck i := by
  rw [← Nat.pos_iff_ne_zero, pendingCount, countP_pos_iff]
  constructor
  · rintro ⟨slot, member, isPending⟩
    obtain ⟨i, found⟩ := mem_iff_getElem?.1 member
    cases slot with
    | pending => exact ⟨i, pending_iff_stuck.1 found⟩
    | failed | built r => cases isPending
  · rintro ⟨i, stuck⟩
    exact ⟨.pending, mem_of_getElem? (pending_iff_stuck.2 stuck), rfl⟩

open scoped Classical in
/-- The names of the libraries that are stuck, in the order in which they were given. -/
noncomputable def stuckNames (g : RelyGraph) : List String :=
  (g.libraries.zipIdx.filter fun (_, i) => g.Stuck i).map fun (s, _) => s.name

open scoped Classical in
/-- Where the slots of some libraries are pending just for those that are stuck, the names that
are picked by slot and by place are the same. -/
theorem pending_names_eq_stuck (g : RelyGraph) (libraries : List Surface) (slots : List Slot)
    (start : Nat) (whole : slots.length = libraries.length)
    (agree : ∀ i slot, slots[i]? = some slot → (slot.isPending = true ↔ g.Stuck (start + i))) :
    ((libraries.zip slots).filterMap fun (s, slot) =>
        if slot.isPending then some s.name else none) =
      ((libraries.zipIdx start).filter fun (_, i) => g.Stuck i).map fun (s, _) => s.name := by
  induction libraries generalizing slots start with
  | nil => simp
  | cons s libraries ih =>
    obtain ⟨slot, slots, rfl⟩ := exists_cons_of_length_eq_add_one whole
    have here := agree 0 slot rfl
    have later := ih slots (start + 1) (by simpa using whole) fun i slot found => by
      rw [add_assoc, add_comm 1 i]
      exact agree (i + 1) slot found
    by_cases stuck : g.Stuck start
    · simp [here.2 stuck, stuck, later]
    · have notPending : slot.isPending = false := by
        rw [← Bool.not_eq_true]
        exact fun pending => stuck (here.1 pending)
      simp [notPending, stuck, later]

/-- What is reported as pending are the libraries that are stuck. -/
theorem pendingNames_settled (g : RelyGraph) : g.pendingNames g.settled = g.stuckNames := by
  refine g.pending_names_eq_stuck g.libraries g.settled 0 g.settling_settled.length
    fun i slot found => ?_
  rw [zero_add, ← pending_iff_stuck, found]
  cases slot <;> simp [Slot.isPending]

/-! ### Circles apart from the library being compiled -/

/-- A circle apart from the library being compiled is one of libraries that depend on one
another. -/
theorem Circle.stuck {circle : List RelyNode} (met : g.Circle circle)
    (apart : .current ∉ circle) : ∃ i, g.Stuck i := by
  have isRely (node : RelyNode) (member : node ∈ circle) : node = .rely (node.rank - 1) := by
    cases node with
    | current => exact absurd member apart
    | rely i => rfl
  have loop : Walk.IsLoop g.DependsOn (circle.map fun node => node.rank - 1) := by
    refine met.loop.map ?_ ?_
    · intro a inA b inB same
      rw [isRely a inA, isRely b inB, same]
    · intro a inA b inB edge
      rw [isRely a inA, isRely b inB] at edge
      exact dependsOn_iff_needs.2 (mem_edges_rely.1 edge)
  obtain ⟨k, _, round⟩ := loop.transGen
  exact ⟨k, k, .refl, round⟩

/-- Where all circles go through the library being compiled, dependencies can be followed only
finitely often. -/
theorem acc_needs_of_circles (through : ∀ circle ∈ g.circles, .current ∈ circle) (i : Nat) :
    Acc g.Needs i := by
  have starts : ∀ circle ∈ g.circles, ∀ a ∈ circle.head?, a = RelyNode.current := by
    intro circle met a first
    rw [(circle_of_mem met).start (through circle met)] at first
    exact (Option.some.inj first).symm
  have standing (k : Nat) (stands : g.Stands (.rely k)) : Acc g.Needs k := by
    have ends := acc_of_circles starts stands
    generalize isNode : RelyNode.rely k = node at ends
    induction ends generalizing k with
    | intro node _ ih =>
      subst isNode
      refine Acc.intro k fun j needs => ?_
      have edge := mem_edges_rely.2 needs
      exact ih (.rely j) ⟨edge, nofun⟩ j (stands_of_mem_edges edge) rfl
  refine Acc.intro i fun k needs => standing k ?_
  exact stands_of_mem_edges (mem_edges_rely.2 needs)

/-- A library is stuck exactly if a cycle is reported apart from the library being compiled. -/
theorem exists_stuck_iff :
    (∃ i, g.Stuck i) ↔ ∃ chain, .cycle chain ∈ g.cycles ∧ g.current ∉ chain := by
  have onNames {circle : List RelyNode} (met : g.Circle circle) :
      g.current ∈ circle.map g.nodeName ↔ .current ∈ circle := by
    constructor
    · intro member
      obtain ⟨node, inCircle, named⟩ := mem_map.1 member
      exact (met.stands node inCircle).eq_of_nodeName g.stands_current named ▸ inCircle
    · exact fun member => mem_map.2 ⟨_, member, rfl⟩
  constructor
  · rintro ⟨i, stuck⟩
    by_contra none
    refine not_acc_iff_stuck.2 stuck (acc_needs_of_circles (fun circle met => ?_) i)
    by_contra apart
    refine none ⟨circle.map g.nodeName, ?_, mt (onNames (circle_of_mem met)).1 apart⟩
    exact mem_map_of_mem met
  · rintro ⟨chain, reported, apart⟩
    obtain ⟨circle, met, same⟩ := mem_map.1 reported
    cases same
    exact (circle_of_mem met).stuck (mt (onNames (circle_of_mem met)).2 apart)

/-! ### What was built -/

theorem Settling.name_home (settling : g.Settling slots) (built : slots[i]? = some (.built r)) :
    (∃ s, g.libraries[i]? = some s ∧ r.table.name = s.name) ∧ r.table.home = .rely i := by
  obtain ⟨s, dependencies, found, _, result⟩ := settling.built built
  obtain ⟨_, rfl⟩ := Linkup.instantiate_eq_ok.1 result
  exact ⟨⟨s, found, Surface.name_tableAt⟩, Surface.home_tableAt⟩

/-- Where all libraries have been built, each holds the places of those that it names. -/
theorem Settling.dependencies_eq (settling : g.Settling slots)
    (all : ∀ slot ∈ slots, ∃ r, slot = .built r)
    (found : g.libraries[i]? = some s) (built : slots[i]? = some (.built r)) :
    r.dependencies = s.dependencies.filterMap fun name => (g.position? name).map .rely := by
  obtain ⟨s', known, found', isKnown, result⟩ := settling.built built
  rw [found] at found'
  cases found'
  obtain ⟨_, rfl⟩ := Linkup.instantiate_eq_ok.1 result
  have homes (name : String) (d : Option Table) (knows : g.dependency slots name = some d) :
      d.map (·.home) = (g.position? name).map .rely := by
    unfold dependency at knows
    split at knows
    · rename_i k leads
      rw [node?_eq_rely_iff_position?.1 leads]
      cases held : slots[k]? with
      | none => simp [held] at knows
      | some slot =>
        obtain ⟨r', rfl⟩ := all slot (mem_of_getElem? held)
        simp only [held, Option.some.injEq] at knows
        rw [← knows, Option.map_some, (settling.name_home held).2]
        rfl
    · rename_i leads
      cases knows
      have isCurrent := nodeName_of_node? leads
      simp [position?, ← isCurrent, nodeName]
    · rename_i leads
      cases knows
      cases at_ : g.position? name with
      | none => rfl
      | some k =>
        rw [node?_eq_rely_iff_position?.2 at_] at leads
        cases leads
  have aligned := mapM_eq_some_iff.1 isKnown
  calc known.filterMap (fun d => d.map (·.home))
      = (known.map some).filterMap fun found => found.bind fun d => d.map (·.home) := by
        rw [filterMap_map]
        rfl
    _ = s.dependencies.filterMap fun name =>
          (g.dependency slots name).bind fun d => d.map (·.home) := by
        rw [← aligned, filterMap_map]
        rfl
    _ = s.dependencies.filterMap fun name => (g.position? name).map .rely := by
        refine filterMap_congr fun name member => ?_
        have image : g.dependency slots name ∈ known.map some :=
          aligned ▸ mem_map_of_mem member
        obtain ⟨d, _, knows⟩ := mem_map.1 image
        rw [← knows, Option.bind_some, homes name d knows.symm]

theorem instantiate_eq_error : g.instantiate = .error problems ↔
      problems = (g.settle (g.libraries.map fun _ => .pending)).notes ∧ problems ≠ [] := by
  unfold instantiate
  dsimp only
  split
  · rename_i quiet
    rw [List.isEmpty_iff] at quiet
    rw [quiet]
    simp
  · rename_i loud
    rw [List.isEmpty_iff] at loud
    simp only [Except.error.injEq]
    exact ⟨fun same => ⟨same.symm, same ▸ loud⟩, fun same => same.1.symm⟩

/-- Libraries that cannot be resolved are reported exactly if a cycle is that the library being
compiled is not on. -/
theorem unresolvable_iff :
    (∃ problems pending, g.instantiate = .error problems ∧ .unresolvable pending ∈ problems) ↔
      ∃ chain, .cycle chain ∈ g.cycles ∧ g.current ∉ chain := by
  rw [← exists_stuck_iff, ← pendingCount_settled_ne_zero_iff]
  constructor
  · rintro ⟨problems, pending, fails, member⟩
    rw [(instantiate_eq_error.1 fails).1] at member
    rcases mem_notes_settle member with lacks | ⟨_, some⟩
    · cases lacks
    · exact some
  · intro some
    have member := unresolvable_mem_notes_settle some
    exact ⟨_, _, instantiate_eq_error.2 ⟨rfl, ne_nil_of_mem member⟩, member⟩

/-- The libraries that are reported as pending are those that are stuck. -/
theorem eq_stuckNames_of_unresolvable {pending : List String}
    (fails : g.instantiate = .error problems) (member : .unresolvable pending ∈ problems) :
    pending = g.stuckNames := by
  rw [(instantiate_eq_error.1 fails).1] at member
  rcases mem_notes_settle member with lacks | ⟨same, _⟩
  · cases lacks
  · rw [RelyProblem.unresolvable.inj same]
    exact g.pendingNames_settled

/-- Once names and cycles have been checked, nothing is unresolvable. -/
theorem code_ne_of_load (fails : g.load = .error problems)
    (member : problem ∈ problems) : problem.code ≠ .unresolvableRely := by
  unfold load at fails
  dsimp only at fails
  split at fails
  · rename_i checked
    simp only [List.isEmpty_iff, append_eq_nil_iff] at checked
    intro isUnresolvable
    cases problem with
    | unresolvable pending =>
      obtain ⟨chain, reported, _⟩ := unresolvable_iff.1 ⟨problems, pending, fails, member⟩
      rw [checked.2] at reported
      cases reported
    | _ => cases isUnresolvable
  · cases fails
    simp only [mem_append] at member
    rcases member with (duplicate | missing) | cycle
    · obtain ⟨⟨s, i⟩, _, kept⟩ := mem_filterMap.1 duplicate
      dsimp only at kept
      split at kept
      · cases kept
      · cases kept
        nofun
    · obtain ⟨s, _, inner⟩ := mem_flatMap.1 missing
      obtain ⟨name, _, kept⟩ := mem_filterMap.1 inner
      split at kept
      · cases kept
        nofun
      · cases kept
    · obtain ⟨circle, _, rfl⟩ := mem_map.1 (g.cycles_eq ▸ cycle)
      nofun

/-- Where building succeeds there is a result for every library. -/
theorem results_of_instantiate {built : List Rely} (builds : g.instantiate = .ok built)
    (found : g.libraries[i]? = some s) :
    ∃ r : Rely, built[i]? = some r ∧ r.table.name = s.name ∧ r.table.home = .rely i ∧
      r.dependencies = s.dependencies.filterMap fun name => (g.position? name).map .rely := by
  have slots := settled_of_instantiate builds
  have inside : i < g.settled.length := by
    rw [g.settling_settled.length]
    exact lt_of_getElem? found
  have all : ∀ slot ∈ g.settled, ∃ r, slot = .built r := by
    rw [slots]
    intro slot member
    obtain ⟨r, _, rfl⟩ := mem_map.1 member
    exact ⟨r, rfl⟩
  obtain ⟨r, isBuilt⟩ := all _ (getElem_mem inside)
  have held : g.settled[i]? = some (.built r) := isBuilt ▸ getElem?_eq_getElem inside
  obtain ⟨⟨s', found', name⟩, home⟩ := g.settling_settled.name_home held
  rw [found] at found'
  cases found'
  refine ⟨r, ?_, name, home, g.settling_settled.dependencies_eq all found held⟩
  rw [slots, getElem?_map] at held
  obtain ⟨r', there, same⟩ := Option.map_eq_some_iff.1 held
  cases same
  exact there

/-- Building all libraries takes at most one pass more than there are libraries.  It reports
libraries that cannot be resolved exactly if a cycle is reported that the library being compiled
is not on, and then names, in order, those from which dependencies lead round in a circle.  If it
succeeds there is one result for each library, with its name, its place and the places of the
libraries that its dependencies name.  Once cycles have been ruled out nothing is
unresolvable. -/
theorem instantiate_exact (g : RelyGraph) : (∃ n ≤ g.libraries.length + 1, g.settled =
      (fun slots => (g.pass slots).value)^[n] (g.libraries.map fun _ => .pending)) ∧
    ((∃ problems pending, g.instantiate = .error problems ∧ .unresolvable pending ∈ problems) ↔
      ∃ chain, .cycle chain ∈ g.cycles ∧ g.current ∉ chain) ∧
    (∀ problems pending, g.instantiate = .error problems → .unresolvable pending ∈ problems →
      pending = g.stuckNames) ∧
    (∀ built, g.instantiate = .ok built → built.length = g.libraries.length ∧
      ∀ (i : Nat) (s : Surface), g.libraries[i]? = some s → ∃ r : Rely, built[i]? = some r ∧
        r.table.name = s.name ∧ r.table.home = .rely i ∧
        r.dependencies = s.dependencies.filterMap fun name => (g.position? name).map .rely) ∧
    ∀ problems, g.load = .error problems →
      ∀ problem ∈ problems, problem.code ≠ .unresolvableRely := by
  refine ⟨?_, unresolvable_iff, fun _ _ => eq_stuckNames_of_unresolvable, fun built builds => ?_,
    fun _ fails _ => code_ne_of_load fails⟩
  · obtain ⟨n, few, value⟩ := g.settle_eq_iterate (g.libraries.map fun _ => .pending)
    refine ⟨n, few.trans (Nat.add_le_add_right ?_ 1), value⟩
    exact countP_le_length.trans (length_map _).le
  · refine ⟨?_, fun i s found => results_of_instantiate builds found⟩
    rw [← g.settling_settled.length, settled_of_instantiate builds, length_map]

end RelyGraph

end Linkage
