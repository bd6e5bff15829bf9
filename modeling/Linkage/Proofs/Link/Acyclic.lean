/-
Purpose: The cycles of classes are broken and complained about once each, at the lowest of their
  classes, and nothing else is.
-/
import Linkage.Compile.Pipeline
import Linkage.Proofs.Link.Dropped

namespace Linkage

open List Walk Noted

namespace Draft

variable {classes : List ClassDef}

theorem mem_range_of_ownParent {i j : Nat}
    (isParent : ownParent classes i = some j) : i ∈ range classes.length := by
  obtain ⟨c, found, _⟩ := Option.bind_eq_some_iff.1 isParent
  exact mem_range.2 (List.getElem?_eq_some_iff.1 found).1

/-- Classes that are not their own ancestors have finitely many ancestors. -/
theorem acc_ownParent
    (noReturn : ∀ i n, steps (ownParent classes) (n + 1) i ≠ some i) (i : Nat) :
    Acc (Walk.Onward (ownParent classes)) i :=
  acc_of_no_return (fun _ _ _ _ => mem_range_of_ownParent) fun n i => noReturn i n

/-- The parents of classes are all that their cycles depend on. -/
theorem ownParent_congr {classes classes' : List ClassDef}
    (same : classes'.map (·.parent) = classes.map (·.parent)) :
    ownParent classes' = ownParent classes := by
  funext i
  have parents := congrArg (fun l => l[i]?) same
  simp only [getElem?_map] at parents
  unfold ownParent
  cases found : classes'[i]? <;> cases found' : classes[i]? <;>
    rw [found, found'] at parents <;> simp_all

/-- A class that is its own ancestor is found to be on a cycle. -/
theorem classCycle_of_return {n i : Nat}
    (back : steps (ownParent classes) (n + 1) i = some i) :
    ∃ cycle, classCycle classes i = some cycle ∧ Walk.Round (ownParent classes) i cycle := by
  obtain ⟨last, round⟩ := round_chain back fun _ _ => mem_range_of_ownParent
  exact ⟨_, if_pos last, round⟩

/-- A class that is found to be on a cycle is its own ancestor. -/
theorem return_of_classCycle {i : Nat} (found : (classCycle classes i).isSome = true) :
    ∃ n, steps (ownParent classes) (n + 1) i = some i := by
  have back : (chain (ownParent classes) (range classes.length) i).getLast?.bind
      (ownParent classes) = some i := by
    by_contra away
    rw [classCycle, if_neg away] at found
    cases found
  obtain ⟨last, isLast, go⟩ := Option.bind_eq_some_iff.1 back
  obtain ⟨n, reached⟩ := forall_mem_chain
    (P := fun j => ∃ n, steps (ownParent classes) n i = some j)
    (fun j k ⟨n, reached⟩ go => ⟨n + 1, by rw [steps_succ, reached]; exact go⟩) ⟨0, rfl⟩
    last (mem_of_getLast? isLast)
  exact ⟨n, by rw [steps_succ, reached]; exact go⟩

/-! ### Cycles are broken -/

/-- The classes after some of them got the root of all handles as their parent. -/
def rooted (classes : List ClassDef) (heads : List Nat) : List ClassDef :=
  classes.mapIdx fun i c => if i ∈ heads then { c with parent := TypeId.handle.scalar } else c

theorem getElem?_rooted (classes : List ClassDef) (heads : List Nat) (i : Nat) :
    (rooted classes heads)[i]? = classes[i]?.map fun c =>
      if i ∈ heads then { c with parent := TypeId.handle.scalar } else c :=
  getElem?_mapIdx ..

theorem ownParent_rooted (classes : List ClassDef) (heads : List Nat) (i : Nat) :
    ownParent (rooted classes heads) i = if i ∈ heads then none else ownParent classes i := by
  unfold ownParent
  rw [getElem?_rooted]
  by_cases cut : i ∈ heads
  · cases classes[i]? <;> simp [cut, TypeId.handle, TypeId.kernel, TypeId.scalar]
  · simp [cut]

theorem ownParent_of_rooted (classes : List ClassDef) (heads : List Nat) (i j : Nat)
    (isParent : ownParent (rooted classes heads) i = some j) : ownParent classes i = some j := by
  rw [ownParent_rooted] at isParent
  split at isParent
  · cases isParent
  · exact isParent

theorem rooted_nil (classes : List ClassDef) : rooted classes [] = classes := by
  apply ext_getElem?
  simp [getElem?_rooted]

theorem rooted_append (classes : List ClassDef) (heads : List Nat) (index : Nat) :
    rooted classes (heads ++ [index]) =
      (rooted classes heads).modify index fun c => { c with parent := TypeId.handle.scalar } := by
  apply ext_getElem?
  intro i
  rw [getElem?_modify, getElem?_rooted, getElem?_rooted]
  by_cases here : index = i
  · subst here
    cases classes[index]? with
    | none => rfl
    | some c => by_cases cut : index ∈ heads <;> simp [cut]
  · simp [here, Ne.symm here]

variable (d : Draft)

/-- The draft after some of its classes got the root of all handles as their parent. -/
def withRooted (heads : List Nat) : Draft :=
  { d with table := { d.table with classes := rooted d.table.classes heads } }

/-- The report of a cycle, given by the class where it is broken and the classes from there back
to it. -/
def reportCycle (cycle : Nat × List Nat) : Reported Unit :=
  d.reportAt? (d.table.classes[cycle.1]?.bind fun c => c.source.map (·.anchor))
    (.circularInheritance (cycle.2.map d.className))

theorem className_withRooted (heads : List Nat) : (d.withRooted heads).className = d.className := by
  funext i
  simp only [className, withRooted, getElem?_rooted]
  cases d.table.classes[i]? with
  | none => rfl
  | some c => by_cases cut : i ∈ heads <;> simp [cut]

/-- A class that has not been touched loses its parent if it is on a cycle. -/
theorem breakClassCycle_withRooted {heads : List Nat} {index : Nat} {cycle : List Nat}
    (untouched : index ∉ heads)
    (found : classCycle (rooted d.table.classes heads) index = some cycle) :
    (d.withRooted heads).breakClassCycle index =
      ⟨d.withRooted (heads ++ [index]), (d.reportCycle (index, cycle)).notes⟩ := by
  have here : (d.withRooted heads).table.classes[index]? = d.table.classes[index]? := by
    simp [withRooted, getElem?_rooted, untouched]
  unfold breakClassCycle
  rw [show classCycle (d.withRooted heads).table.classes index = some cycle from found, here,
    className_withRooted]
  apply Noted.ext
  · simp [withRooted, rooted_append]
  · simp [reportCycle, reportAt?, reportAt, path, withRooted]

/-- What has been done about the cycles when the first classes have been looked at. -/
theorem breakClassCycles_upTo (count : Nat) : ∃ cycles : List (Nat × List Nat),
      (range count).foldlM breakClassCycle d = ⟨d.withRooted (cycles.map (·.1)),
          cycles.flatMap fun cycle => (d.reportCycle cycle).notes⟩ ∧
      (cycles.map (·.1)).Pairwise (· < ·) ∧
      (∀ i, i ∈ cycles.map (·.1) ↔ i < count ∧ Walk.Heads (ownParent d.table.classes) i) ∧
      ∀ cycle ∈ cycles, Walk.Round (ownParent d.table.classes) cycle.1 cycle.2 := by
  induction count with
  | zero =>
    refine ⟨[], ?_, .nil, fun i => by simp, forall_mem_nil _⟩
    rw [map_nil, withRooted, rooted_nil]
    rfl
  | succ count ih =>
    obtain ⟨cycles, before, sorted, heads, rounds⟩ := ih
    have untouched : count ∉ cycles.map (·.1) := fun member =>
      lt_irrefl _ ((heads count).1 member).1
    rw [range_succ, foldlM_append, before]
    by_cases first : Walk.Heads (ownParent d.table.classes) count
    · -- The classes of the cycle come later, so that none of them has been touched.
      have same : ∀ n, steps (ownParent (rooted d.table.classes (cycles.map (·.1)))) n count =
          steps (ownParent d.table.classes) n count := by
        refine steps_congr fun n j reached => ?_
        rw [ownParent_rooted, if_neg fun member => ?_]
        exact not_lt.2 (first.2 n j reached) ((heads j).1 member).1
      obtain ⟨n, back⟩ := first.1
      obtain ⟨cycle, found, round⟩ := classCycle_of_return ((same _).trans back)
      refine ⟨cycles ++ [(count, cycle)], ?_, ?_, fun i => ?_, ?_⟩
      · apply Noted.ext <;> simp [d.breakClassCycle_withRooted untouched found]
      · rw [map_append, pairwise_append]
        refine ⟨sorted, pairwise_singleton .., fun i member j isLast => ?_⟩
        rw [mem_singleton.1 isLast]
        exact ((heads i).1 member).1
      · rw [map_append, mem_append, heads]
        simp only [map_cons, map_nil, mem_singleton]
        constructor
        · rintro (⟨less, isHead⟩ | rfl)
          · exact ⟨by omega, isHead⟩
          · exact ⟨by omega, first⟩
        · rintro ⟨less, isHead⟩
          by_cases last : i = count
          · exact .inr last
          · exact .inl ⟨by omega, isHead⟩
      · rw [forall_mem_append, forall_mem_singleton]
        exact ⟨rounds, round.congr same⟩
    · -- A cycle that is left would have its lowest class among those looked at.
      have fewer := ownParent_of_rooted d.table.classes (cycles.map (·.1))
      have none : classCycle (d.withRooted (cycles.map (·.1))).table.classes count = none := by
        by_contra some
        obtain ⟨n, back⟩ := return_of_classCycle (Option.isSome_iff_ne_none.2 some)
        obtain ⟨h, isHead, ⟨m, path⟩, ⟨k, onward⟩⟩ := exists_heads (steps_mono fewer back)
        have less : h < count := by
          refine lt_of_le_of_ne (isHead.2 k count onward) ?_
          rintro rfl
          exact first isHead
        refine no_return_of_cut fewer path ?_ back
        exact (ownParent_rooted ..).trans (if_pos ((heads h).2 ⟨less, isHead⟩))
      refine ⟨cycles, ?_, sorted, fun i => ?_, rounds⟩
      · apply Noted.ext <;> simp [breakClassCycle, none]
      · rw [heads]
        refine and_congr_left fun isHead => ?_
        have other : i ≠ count := by
          rintro rfl
          exact first isHead
        omega

/-- Exactly the lowest classes of cycles get the root as their parent, in their order, and each
cycle is reported with the classes from there back to it. -/
theorem breakClassCycles_eq : ∃ cycles : List (Nat × List Nat),
      d.breakClassCycles = ⟨d.withRooted (cycles.map (·.1)),
        cycles.flatMap fun cycle => (d.reportCycle cycle).notes⟩ ∧
      (cycles.map (·.1)).Pairwise (· < ·) ∧
      (∀ i, i ∈ cycles.map (·.1) ↔ Walk.Heads (ownParent d.table.classes) i) ∧
      ∀ cycle ∈ cycles, Walk.Round (ownParent d.table.classes) cycle.1 cycle.2 := by
  obtain ⟨cycles, result, sorted, heads, rounds⟩ := d.breakClassCycles_upTo d.table.classes.length
  refine ⟨cycles, result, sorted, fun i => ?_, rounds⟩
  rw [heads, and_iff_right_iff_imp]
  rintro ⟨⟨n, back⟩, _⟩
  obtain ⟨_, isParent, _⟩ := Option.bind_eq_some_iff.1 back
  exact mem_range.1 (mem_range_of_ownParent isParent)

theorem acc_ownParent_breakClassCycles (i : Nat) :
    Acc (Walk.Onward (ownParent d.breakClassCycles.value.table.classes)) i := by
  obtain ⟨cycles, result, _, heads, _⟩ := d.breakClassCycles_eq
  rw [result]
  have fewer := ownParent_of_rooted d.table.classes (cycles.map (·.1))
  refine acc_ownParent (fun j n back => ?_) i
  obtain ⟨h, isHead, ⟨m, path⟩, _⟩ := exists_heads (steps_mono fewer back)
  exact no_return_of_cut fewer path
    ((ownParent_rooted ..).trans (if_pos ((heads h).2 isHead))) back

/-- Where no class is its own ancestor there is nothing to break. -/
theorem breakClassCycles_eq_pure
    (ends : ∀ i, Acc (Walk.Onward (ownParent d.table.classes)) i) : d.breakClassCycles = pure d := by
  obtain ⟨cycles, result, _, heads, _⟩ := d.breakClassCycles_eq
  obtain rfl : cycles = [] := by
    refine eq_nil_iff_forall_not_mem.2 fun cycle member => ?_
    obtain ⟨⟨n, back⟩, _⟩ := (heads cycle.1).1 (mem_map_of_mem member)
    exact steps_succ_ne_self (ends cycle.1) n back
  rw [result, map_nil, withRooted, rooted_nil]
  rfl

theorem breakInterfaceCycles_classes :
    d.breakInterfaceCycles.value.table.classes = d.table.classes := by
  refine value_foldlM_of_step (P := fun d' : Draft => d'.table.classes = d.table.classes) ?_
    rfl
  intro d' index _ same
  rw [value_breakInterfaceCycle]
  exact same

theorem linkSignatures_parents (relies : List Table) :
    (d.linkSignatures relies).value.table.classes.map (·.parent) =
      d.table.classes.map (·.parent) := by
  simp only [linkSignatures, value_bind, value_pure, value_traverse, map_map]
  rfl

/-- After linking no class is its own ancestor. -/
theorem acc_ownParent_of_link (relies : List Table) (i : Nat) :
    Acc (Walk.Onward (ownParent (d.link relies).value.table.classes)) i := by
  simp only [link, value_bind]
  rw [ownParent_congr (linkSignatures_parents _ relies), breakInterfaceCycles_classes]
  exact acc_ownParent_breakClassCycles _ i

/-! ### Cycles are complained about -/

/-- A complaint where a class was written that lists the classes from there back to it. -/
def BlamesCycle (i : Nat) (n : Diagnostic) : Prop :=
  ∃ c source cycle, d.table.classes[i]? = some c ∧ c.source = some source ∧
    Walk.Round (ownParent d.table.classes) i cycle ∧ n.path = d.path source.anchor ∧
    n.span = source.anchor.span ∧ n.code.text = "V002" ∧
    n.message = "circular inheritance: " ++ String.intercalate " -> " (cycle.map d.className)

variable {d} (sourced : ∀ c ∈ d.table.classes, c.source.isSome = true)
include sourced

/-- Each cycle is complained about once. -/
theorem blamesCycle_reports {cycles : List (Nat × List Nat)}
    (rounds : ∀ cycle ∈ cycles, Walk.Round (ownParent d.table.classes) cycle.1 cycle.2) :
    List.Forall₂ d.BlamesCycle (cycles.map (·.1))
      (cycles.flatMap fun cycle => (d.reportCycle cycle).notes) := by
  induction cycles with
  | nil => exact .nil
  | cons cycle rest ih =>
    obtain ⟨round, later⟩ := forall_mem_cons.1 rounds
    have ⟨n, back, _⟩ := round
    obtain ⟨_, isParent, _⟩ := Option.bind_eq_some_iff.1 back
    obtain ⟨c, found, _⟩ := Option.bind_eq_some_iff.1 isParent
    obtain ⟨source, isSource⟩ := Option.isSome_iff_exists.1 (sourced c (mem_of_getElem? found))
    have note : (d.reportCycle cycle).notes = [⟨d.path source.anchor, source.anchor.span,
        .circularInheritance (cycle.2.map d.className)⟩] := by
      simp [reportCycle, found, isSource, reportAt?, reportAt]
    rw [map_cons, flatMap_cons, note]
    exact .cons ⟨c, source, cycle.2, found, isSource, round, rfl, rfl, rfl, rfl⟩ (ih later)

theorem breakClassCycles_of_quiet (quiet : d.breakClassCycles.notes = []) :
    d.breakClassCycles.value = d ∧ ∀ i, Acc (Walk.Onward (ownParent d.table.classes)) i := by
  obtain ⟨cycles, result, _, _, rounds⟩ := d.breakClassCycles_eq
  have same : d.breakClassCycles.value = d := by
    have blamed := blamesCycle_reports sourced rounds
    rw [show (cycles.flatMap fun cycle => (d.reportCycle cycle).notes) = [] by
      rw [← quiet, result]] at blamed
    rw [result, forall₂_nil_right_iff.1 blamed, withRooted, rooted_nil]
  refine ⟨same, fun i => ?_⟩
  have ends := d.acc_ownParent_breakClassCycles i
  rwa [same] at ends

omit sourced in
/-- Breaking the cycles of classes leaves no cycle.  Each cycle is complained about once, at the
lowest of its classes; these get the root of all handles as their parent, and nothing else
changes. -/
theorem breakClassCycles_heads (d : Draft)
    (sourced : ∀ c ∈ d.table.classes, c.source.isSome = true) :
    let next := ownParent d.table.classes
    (∀ i, Acc (Walk.Onward (ownParent d.breakClassCycles.value.table.classes)) i) ∧
    ∃ heads : List Nat, heads.Pairwise (· < ·) ∧ (∀ i, i ∈ heads ↔ Walk.Heads next i) ∧
      (∀ i n, Walk.steps next (n + 1) i = some i →
        ∃! h, h ∈ heads ∧ ∃ m, Walk.steps next m i = some h) ∧
      d.breakClassCycles.value = { d with table := { d.table with
        classes := d.table.classes.mapIdx fun i c =>
          if i ∈ heads then { c with parent := TypeId.handle.scalar } else c } } ∧
      List.Forall₂ d.BlamesCycle heads d.breakClassCycles.notes := by
  obtain ⟨cycles, result, sorted, heads, rounds⟩ := d.breakClassCycles_eq
  refine ⟨d.acc_ownParent_breakClassCycles, cycles.map (·.1), sorted, heads, ?_,
    by rw [result]; rfl, by rw [result]; exact blamesCycle_reports sourced rounds⟩
  intro i n back
  obtain ⟨h, isHead, ⟨m, path⟩, ⟨k, onward⟩⟩ := exists_heads back
  refine ⟨h, ⟨(heads h).2 isHead, m, path⟩, ?_⟩
  rintro h' ⟨member, m', path'⟩
  have isHead' := (heads h').1 member
  obtain ⟨b, k', reached, onward'⟩ := return_of_steps back m'
  obtain rfl := Option.some.inj (path'.symm.trans reached)
  have ahead : Walk.steps (ownParent d.table.classes) (k + m') h = some h' := by
    rw [steps_add, onward]
    exact path'
  have behind : Walk.steps (ownParent d.table.classes) (k' + 1 + m) h' = some h := by
    rw [steps_add, onward']
    exact path
  exact isHead.unique isHead' ahead behind

end Draft

/-- Two classes that derive from each other, and one that derives from one of them. -/
def Sample.ties : Draft :=
  ((Draft.merge "Ties" (readFiles [⟨"ties",
    "class Tail : Ring\nclass Loop : Ring\nclass Ring : Loop\n"⟩]).value).value.linkInherits []).value

/-- The cycle is complained about and broken. -/
theorem Draft.breakClassCycles_heads_ties : Sample.ties.breakClassCycles.notes ≠ [] ∧
      ∀ i, Acc (Walk.Onward (Draft.ownParent Sample.ties.breakClassCycles.value.table.classes)) i := by
  have ⟨sourced, back⟩ : (∀ c ∈ Sample.ties.table.classes, c.source.isSome = true) ∧
      Walk.steps (Draft.ownParent Sample.ties.table.classes) 2 1 = some 1 := by decide +kernel
  obtain ⟨ends, heads, _, _, once, _, blamed⟩ := Draft.breakClassCycles_heads Sample.ties sourced
  refine ⟨fun none => ?_, ends⟩
  obtain ⟨h, ⟨member, _⟩, _⟩ := once 1 1 back
  rw [none] at blamed
  cases blamed
  cases member

end Linkage
