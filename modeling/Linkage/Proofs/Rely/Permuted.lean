/-
Purpose: The order in which libraries are given decides their numbers and nothing else.
-/
import Linkage.Proofs.Rely.Pending
import Mathlib

namespace Linkage

open List

variable {i j index : Nat} {s : Surface} {name : String} {slots' : List Slot}
  {problem : RelyProblem} {names : List String} {problems : List RelyProblem}

/-- The slot with every place in it replaced. -/
def RelyGraph.Slot.rehome (φ : Home → Home) : Slot → Slot
  | .pending => .pending
  | .failed => .failed
  | .built r => .built (r.rehome φ)

/-- Going through a list follows along if each of its elements does. -/
theorem mapM_map_option {α β γ : Type} {f : α → Option β} {k : α → Option γ} {h : β → γ}
    {xs : List α} (each : ∀ a ∈ xs, k a = (f a).map h) :
    xs.mapM k = (xs.mapM f).map (List.map h) := by
  induction xs with
  | nil => rfl
  | cons a rest ih =>
    rw [mapM_cons, mapM_cons, each a (mem_cons_self ..),
      ih fun a member => each a (mem_cons_of_mem _ member)]
    cases f a with
    | none => rfl
    | some b => cases rest.mapM f <;> rfl

namespace RelyGraph

variable {g g' : RelyGraph} {slots : List Slot}

/-! ### The end of building as a fixed point -/

/-- What a library comes to while the others are as given. -/
def next (g : RelyGraph) (slots : List Slot) (i : Nat) (s : Surface) : Slot :=
  match s.dependencies.mapM (g.dependency slots) with
  | none => .pending
  | some known =>
    match (Linkup.mk s (.rely i) known).instantiate with
    | .ok r => .built r
    | .error _ => .failed

/-- When nothing is left to build, each library is what it comes to. -/
theorem settled_eq_next (found : g.libraries[i]? = some s) :
    g.settled[i]? = some (g.next g.settled i s) := by
  have inside : i < g.settled.length := by
    rw [g.settling_settled.length]
    exact lt_of_getElem? found
  have held := getElem?_eq_getElem inside
  unfold next
  cases slot : g.settled[i] with
  | pending =>
    rw [slot] at held
    have stuck : s.dependencies.mapM (g.dependency g.settled) = none := settle_stuck held found
    rw [held, stuck]
  | failed =>
    rw [slot] at held
    obtain ⟨s', known, problem, found', isKnown, fails⟩ := g.settling_settled.failed held
    rw [found] at found'
    cases found'
    rw [held, isKnown]
    dsimp only
    rw [fails]
  | built r =>
    rw [slot] at held
    obtain ⟨s', known, found', isKnown, works⟩ := g.settling_settled.built held
    rw [found] at found'
    cases found'
    rw [held, isKnown]
    dsimp only
    rw [works]

/-! ### The same libraries in another order -/

/-- The place in one rely list as a place in another: that of the library of the same name. -/
def carry (g g' : RelyGraph) : Home → Home
  | .rely i => (g.libraries[i]?.map fun s => g'.homeOf s.name).getD (.rely i)
  | home => home

/-- The same libraries, in whatever order, with names that are all different. -/
structure SameLibraries (g g' : RelyGraph) : Prop where
  current : g.current = g'.current
  libraries : g.libraries.Perm g'.libraries
  distinct : (g.current :: g.libraries.map (·.name)).Nodup

namespace SameLibraries

section

variable (same : g.SameLibraries g') {s : Surface}

include same

theorem symm : g'.SameLibraries g where
  current := same.current.symm
  libraries := same.libraries.symm
  distinct := by
    rw [← same.current]
    exact ((same.libraries.map (·.name)).cons _).nodup_iff.1 same.distinct

theorem exists_getElem? (found : g.libraries[i]? = some s) : ∃ j : Nat, g'.libraries[j]? = some s :=
  mem_iff_getElem?.1 (same.libraries.mem_iff.1 (mem_of_getElem? found))

theorem carry_eq (found : g.libraries[i]? = some s)
    (found' : g'.libraries[j]? = some s) : g.carry g' (.rely i) = .rely j := by
  have leads : g'.node? s.name = some (.rely j) := named_of_nodup same.symm.distinct found'
  simp [carry, found, homeOf, leads]

theorem exists_node? (leads : g.node? name = some (.rely i)) :
    ∃ s j, g.libraries[i]? = some s ∧ g'.libraries[j]? = some s ∧
      g'.node? name = some (.rely j) := by
  obtain ⟨s, found, rfl⟩ := exists_of_node? leads
  obtain ⟨j, found'⟩ := same.exists_getElem? found
  exact ⟨s, j, found, found', named_of_nodup same.symm.distinct found'⟩

/-- What is known of a dependency is the same at another place, if its library has come to the
same. -/
theorem dependency_eq {φ : Home → Home} (alike : ∀ {i j : Nat} {s}, g.node? name = some (.rely i) →
      g.libraries[i]? = some s → g'.libraries[j]? = some s →
      slots'[j]? = slots[i]?.map (Slot.rehome φ)) :
    g'.dependency slots' name = (g.dependency slots name).map (Option.map (Table.rehome φ)) := by
  cases leads : g.node? name with
  | some node =>
    cases node with
    | rely i =>
      obtain ⟨s, j, found, found', leads'⟩ := same.exists_node? leads
      have slot := alike leads found found'
      simp only [dependency, leads, leads', slot]
      cases slots[i]? with
      | none => rfl
      | some held => cases held <;> rfl
    | current =>
      have isCurrent : g'.node? name = some .current := by
        unfold node? at leads ⊢
        split at leads
        · rename_i named
          rw [if_pos (named.trans same.current)]
        · simp at leads
      simp [dependency, leads, isCurrent]
  | none =>
    have missing : g'.dependency slots' name = some none := by
      unfold dependency
      cases leads' : g'.node? name with
      | none => rfl
      | some node =>
        cases node with
        | current => rfl
        | rely j =>
          obtain ⟨_, i, _, _, there⟩ := same.symm.exists_node? leads'
          rw [leads] at there
          cases there
    rw [missing]
    simp [dependency, leads]

/-- A library comes to the same at another place, if those it names do. -/
theorem next_eq (found : g.libraries[i]? = some s) (found' : g'.libraries[j]? = some s)
    (known : ∀ name ∈ s.dependencies, g'.dependency slots' name =
      (g.dependency slots name).map (Option.map (Table.rehome (g.carry g')))) :
    g'.next slots' j s = (g.next slots i s).rehome (g.carry g') := by
  unfold next
  rw [mapM_map_option known]
  cases s.dependencies.mapM (g.dependency slots) with
  | none => rfl
  | some dependencies =>
    have built :=
      ((Linkup.mk s (.rely i) dependencies).instantiate_rehome (φ := g.carry g') rfl).same
    rw [Linkup.rehome, same.carry_eq found found'] at built
    simp only [Option.map_some, built]
    cases (Linkup.mk s (.rely i) dependencies).instantiate <;> rfl

/-- A library below which nothing goes on for ever comes to the same in both lists. -/
theorem settled_eq_of_acc (ends : Acc g.Needs i) :
    ∀ {j : Nat} {s}, g.libraries[i]? = some s → g'.libraries[j]? = some s →
      g'.settled[j]? = g.settled[i]?.map (Slot.rehome (g.carry g')) := by
  induction ends with
  | intro i _ ih =>
    intro j s found found'
    rw [settled_eq_next found, settled_eq_next found', Option.map_some,
      same.next_eq found found' fun name isDependency => same.dependency_eq
        fun {k _ _} leads => ih k ⟨s, name, found, isDependency, leads⟩]

/-- Every library comes to the same in both lists. -/
theorem settled_eq (found : g.libraries[i]? = some s) (found' : g'.libraries[j]? = some s) :
    g'.settled[j]? = g.settled[i]?.map (Slot.rehome (g.carry g')) := by
  by_cases ends : Acc g.Needs i
  · exact same.settled_eq_of_acc ends found found'
  · -- One that is stuck here is stuck there, since otherwise it would be built there.
    have pending := pending_iff_stuck.2 (not_acc_iff_stuck.1 ends)
    have endless : ¬ Acc g'.Needs j := by
      intro ends'
      have back := same.symm.settled_eq_of_acc ends' found' found
      rw [pending, settled_eq_next found'] at back
      have notPending : g'.settled[j]? ≠ some .pending := fun stuck =>
        not_acc_iff_stuck.2 (pending_iff_stuck.1 stuck) ends'
      rw [settled_eq_next found'] at notPending
      cases slot : g'.next g'.settled j s with
      | pending => exact notPending (congrArg some slot)
      | failed | built r => simp [slot, Slot.rehome] at back
    rw [pending, pending_iff_stuck.2 (not_acc_iff_stuck.1 endless)]
    rfl

end

end SameLibraries

/-! ### Who is to blame -/

/-- A library is complained about: with what is known of its dependencies it cannot be built. -/
def Blamed (g : RelyGraph) (slots : List Slot) (name : String) (problem : RelyProblem) : Prop :=
  ∃ (i : Nat) (s : Surface) (known : List (Option Table)), g.libraries[i]? = some s ∧
    s.name = name ∧ s.dependencies.mapM (g.dependency slots) = some known ∧
    (Linkup.mk s (.rely i) known).instantiate = .error problem

/-- The libraries that could not be built, with a complaint about each of them. -/
structure Blames (g : RelyGraph) (slots : List Slot) (names : List String)
    (problems : List RelyProblem) : Prop where
  distinct : names.Nodup
  failed : ∀ name, name ∈ names ↔
    ∃ (i : Nat) (s : Surface), g.libraries[i]? = some s ∧ s.name = name ∧ slots[i]? = some .failed
  blamed : List.Forall₂ (g.Blamed slots) names problems

theorem Blamed.set (slot : Slot) (pending : slots[index]? = some .pending)
    (blamed : g.Blamed slots name problem) : g.Blamed (slots.set index slot) name problem := by
  obtain ⟨i, s, known, found, named, isKnown, fails⟩ := blamed
  exact ⟨i, s, known, found, named, mapM_dependency_set pending isKnown, fails⟩

/-- A library is complained about in one way only. -/
theorem Blamed.unique (named : g.Named) {problem' : RelyProblem}
    (blamed : g.Blamed slots name problem) (blamed' : g.Blamed slots name problem') :
    problem = problem' := by
  obtain ⟨i, s, known, found, rfl, isKnown, fails⟩ := blamed
  obtain ⟨i', s', known', found', sameName, isKnown', fails'⟩ := blamed'
  have leads := named found'
  rw [sameName, named found] at leads
  cases leads
  rw [found] at found'
  cases found'
  rw [isKnown] at isKnown'
  cases isKnown'
  rw [fails] at fails'
  exact Except.error.inj fails'

/-- Building a library blames nobody. -/
theorem Blames.built
    (blames : g.Blames slots names problems) (pending : slots[index]? = some .pending)
    (r : Rely) : g.Blames (slots.set index (.built r)) names problems := by
  refine ⟨blames.distinct, fun name => ?_, ?_⟩
  · rw [blames.failed]
    refine exists_congr fun i => exists_congr fun s' => and_congr_right fun _ =>
      and_congr_right fun _ => ?_
    by_cases here : index = i
    · subst here
      rw [getElem?_set_self (lt_of_getElem? pending), pending]
      simp
    · rw [getElem?_set_ne here]
  · exact blames.blamed.imp fun _ _ blamed => blamed.set (.built r) pending

section

variable (named : g.Named) {names : List String} {problems : List RelyProblem}
    (blames : g.Blames slots names problems)
include named blames

/-- A library that cannot be built is blamed for it. -/
theorem Blames.fail (found : g.libraries[index]? = some s) (pending : slots[index]? = some .pending)
    {known : List (Option Table)} (isKnown : s.dependencies.mapM (g.dependency slots) = some known)
    (fails : (Linkup.mk s (.rely index) known).instantiate = .error problem) :
    g.Blames (slots.set index .failed) (names ++ [s.name]) (problems ++ [problem]) := by
  have inside := lt_of_getElem? pending
  have notFailed : slots[index]? ≠ some .failed := by simp [pending]
  have new : s.name ∉ names := by
    intro member
    obtain ⟨i, s', found', sameName, isFailed⟩ := (blames.failed s.name).1 member
    have leads := named found'
    rw [sameName, named found] at leads
    cases leads
    exact notFailed isFailed
  refine ⟨blames.distinct.append (nodup_singleton _) (by simpa using new), fun name => ?_, ?_⟩
  · rw [mem_append, blames.failed, mem_singleton]
    constructor
    · rintro (⟨i, s', found', sameName, isFailed⟩ | rfl)
      · have other : index ≠ i := by
          rintro rfl
          exact notFailed isFailed
        exact ⟨i, s', found', sameName, by rwa [getElem?_set_ne other]⟩
      · exact ⟨index, s, found, rfl, getElem?_set_self inside⟩
    · rintro ⟨i, s', found', rfl, isFailed⟩
      by_cases here : index = i
      · subst here
        rw [found] at found'
        cases found'
        exact .inr rfl
      · rw [getElem?_set_ne here] at isFailed
        exact .inl ⟨i, s', found', rfl, isFailed⟩
  · have older := blames.blamed.imp fun _ _ blamed => blamed.set .failed pending
    exact rel_append older (.cons ⟨index, s, known, found, rfl,
      mapM_dependency_set pending isKnown, fails⟩ .nil)

theorem attempt_blames (found : g.libraries[index]? = some s) :
    ∃ names', g.Blames (g.attempt slots index s).value names'
      (problems ++ (g.attempt slots index s).notes) := by
  have spec := g.attempt_spec slots index s
  generalize g.attempt slots index s = result at spec ⊢
  cases spec with
  | idle blocked => exact ⟨names, by simpa using blames⟩
  | @built dependencies r pending known works =>
    exact ⟨names, by simpa using blames.built pending r⟩
  | @failed dependencies problem pending known fails =>
    exact ⟨names ++ [s.name], blames.fail named found pending known fails⟩

theorem pass_blames :
    ∃ names', g.Blames (g.pass slots).value names' (problems ++ (g.pass slots).notes) := by
  refine Noted.foldlM_of_step (P := fun slots problems => ∃ names, g.Blames slots names problems)
    ?_ ⟨names, blames⟩
  rintro slots problems entry member ⟨names, blames⟩
  exact attempt_blames named blames (mem_zipIdx_iff_getElem?.1 member)

end

end RelyGraph

/-- Something that a library mentions is not there: a type, or a space or its parent. -/
def RelyProblem.isLack : RelyProblem → Bool
  | .unresolvedType .. | .spaceWithoutParent .. | .unknownParent .. | .unknownSpace .. => true
  | .duplicate _ | .cycle _ | .missing .. | .unresolvable _ => false

theorem RelyProblem.isLack_iff (problem : RelyProblem) :
    problem.isLack = true ↔ problem.code = .unresolvedRely := by
  cases problem <;> simp [isLack, code]

namespace RelyGraph

variable {g g' : RelyGraph} {slots : List Slot}

theorem Blames.filter_isLack
    (blames : g.Blames slots names problems) : problems.filter (·.isLack) = problems := by
  refine filter_eq_self.2 fun problem member => ?_
  obtain ⟨i, inside, rfl⟩ := getElem_of_mem member
  obtain ⟨_, _, _, _, _, _, fails⟩ := List.forall₂_iff_get.1 blames.blamed |>.2 i
    (blames.blamed.length_eq ▸ inside) inside
  rw [RelyProblem.isLack_iff]
  exact (Linkup.lacks_instantiate _).of_error fails

/-- When nothing is left to build, each complaint but the last is about one of the libraries that
could not be built. -/
theorem settle_blames (named : g.Named) : ∀ {names : List String} {problems : List RelyProblem},
    g.Blames slots names problems → ∃ names', g.Blames (g.settle slots).value names'
      (problems ++ (g.settle slots).notes.filter (·.isLack)) := by
  have passes {slots : List Slot} {names : List String} {problems : List RelyProblem}
      (blames : g.Blames slots names problems) : ∃ names', g.Blames (g.pass slots).value names'
        (problems ++ (g.pass slots).notes.filter (·.isLack)) := by
    obtain ⟨names', after⟩ := pass_blames named blames
    have filtered := after.filter_isLack
    rw [filter_append, blames.filter_isLack] at filtered
    exact ⟨names', filtered.symm ▸ after⟩
  fun_induction settle g slots with
  | case1 | case3 => exact passes
  | case2 =>
    rename_i ih
    intro names problems blames
    obtain ⟨names', blames'⟩ := passes blames
    obtain ⟨names'', blames''⟩ := ih blames'
    refine ⟨names'', ?_⟩
    rwa [append_assoc, ← filter_append] at blames''
  | case4 =>
    intro names problems blames
    simpa [RelyProblem.isLack] using passes blames

/-- The complaints about libraries that could not be built when nothing is left to build. -/
theorem exists_blames (named : g.Named) : ∃ names, g.Blames g.settled names
      ((g.settle (g.libraries.map fun _ => .pending)).notes.filter (·.isLack)) := by
  have start : g.Blames (g.libraries.map fun _ => .pending) [] [] := by
    refine ⟨nodup_nil, fun name => ⟨nofun, ?_⟩, .nil⟩
    rintro ⟨i, s, found, _, isFailed⟩
    rw [getElem?_map, found] at isFailed
    cases isFailed
  exact settle_blames named start

/-! ### Permutations -/

/-- All libraries are built exactly if nothing is complained about. -/
theorem exists_instantiate_iff (named : g.Named) :
    (∃ built, g.instantiate = .ok built) ↔ ∀ slot ∈ g.settled, ∃ r, slot = .built r := by
  constructor
  · rintro ⟨built, builds⟩ slot member
    rw [settled_of_instantiate builds] at member
    obtain ⟨r, _, rfl⟩ := mem_map.1 member
    exact ⟨r, rfl⟩
  · intro all
    cases result : g.instantiate with
    | ok built => exact ⟨built, rfl⟩
    | error problems =>
      obtain ⟨isNotes, some⟩ := instantiate_eq_error.1 result
      obtain ⟨problem, member⟩ := exists_mem_of_ne_nil _ some
      rw [isNotes] at member
      rcases mem_notes_settle member with lacks | ⟨_, pending⟩
      · obtain ⟨names, blames⟩ := exists_blames named
        have blamed := mem_filter.2 ⟨member, problem.isLack_iff.2 lacks⟩
        obtain ⟨name, inNames⟩ : ∃ name, name ∈ names := by
          refine exists_mem_of_length_pos ?_
          rw [blames.blamed.length_eq]
          exact length_pos_of_mem blamed
        obtain ⟨i, _, _, _, isFailed⟩ := (blames.failed name).1 inNames
        obtain ⟨r, isBuilt⟩ := all _ (mem_of_getElem? isFailed)
        cases isBuilt
      · refine absurd (countP_eq_zero.2 fun slot inSlots => ?_) pending
        obtain ⟨r, rfl⟩ := all slot inSlots
        simp [Slot.isPending]

namespace SameLibraries

section

variable (same : g.SameLibraries g')
include same

/-- If all libraries are built in one order, they are in every other. -/
theorem all_built (all : ∀ slot ∈ g.settled, ∃ r, slot = .built r) :
    ∀ slot ∈ g'.settled, ∃ r, slot = .built r := by
  intro slot member
  obtain ⟨j, held⟩ := mem_iff_getElem?.1 member
  have inside : j < g'.libraries.length := by
    rw [← g'.settling_settled.length]
    exact lt_of_getElem? held
  have found' := getElem?_eq_getElem inside
  obtain ⟨i, found⟩ := same.symm.exists_getElem? found'
  obtain ⟨r, isBuilt⟩ := all _ (mem_of_getElem? (settled_eq_next found))
  rw [same.settled_eq found found', settled_eq_next found, isBuilt] at held
  exact ⟨_, (Option.some.inj held).symm⟩

/-- A library is complained about in the same way in both lists. -/
theorem blamed (blamed : g.Blamed g.settled name problem) : g'.Blamed g'.settled name problem := by
  obtain ⟨i, s, known, found, named, isKnown, fails⟩ := blamed
  obtain ⟨j, found'⟩ := same.exists_getElem? found
  have each : ∀ name ∈ s.dependencies, g'.dependency g'.settled name =
      (g.dependency g.settled name).map (Option.map (Table.rehome (g.carry g'))) :=
    fun name _ => same.dependency_eq fun _ => same.settled_eq
  have isKnown' := mapM_map_option each
  rw [isKnown] at isKnown'
  have built := ((Linkup.mk s (.rely i) known).instantiate_rehome (φ := g.carry g') rfl).same
  rw [Linkup.rehome, same.carry_eq found found', fails] at built
  exact ⟨j, s, _, found', named, isKnown', built⟩

/-- The complaints about libraries that could not be built are the same in both lists. -/
theorem filter_notes_perm :
    ((g.settle (g.libraries.map fun _ => .pending)).notes.filter (·.isLack)).Perm
      ((g'.settle (g'.libraries.map fun _ => .pending)).notes.filter (·.isLack)) := by
  have named : g.Named := named_of_nodup same.distinct
  obtain ⟨names, blames⟩ := exists_blames named
  obtain ⟨names', blames'⟩ := exists_blames (named_of_nodup same.symm.distinct)
  have sameNames : names.Perm names' := by
    refine (perm_ext_iff_of_nodup blames.distinct blames'.distinct).2 fun name => ?_
    rw [blames.failed, blames'.failed]
    constructor
    · rintro ⟨i, s, found, isName, isFailed⟩
      obtain ⟨j, found'⟩ := same.exists_getElem? found
      exact ⟨j, s, found', isName, by rw [same.settled_eq found found', isFailed]; rfl⟩
    · rintro ⟨j, s, found', isName, isFailed⟩
      obtain ⟨i, found⟩ := same.symm.exists_getElem? found'
      exact ⟨i, s, found, isName, by rw [same.symm.settled_eq found' found, isFailed]; rfl⟩
  have blamed' := blames'.blamed.imp fun _ _ blamed => same.symm.blamed blamed
  have unique : Relator.RightUnique (g.Blamed g.settled) :=
    fun _ _ _ blamed blamed' => blamed.unique named blamed'
  exact rel_perm_imp unique blames.blamed blamed' sameNames

/-- A library that is built in one list is built in the other, with the places of the other. -/
theorem built_eq {built built' : List Rely} (builds : g.instantiate = .ok built)
    (builds' : g'.instantiate = .ok built') (found : g.libraries[i]? = some s)
    (found' : g'.libraries[j]? = some s) :
    ∃ r, built[i]? = some r ∧ r.table.name = s.name ∧
      built'[j]? = some (r.rehome (g.carry g')) := by
  obtain ⟨r, isBuilt, name, _⟩ := results_of_instantiate builds found
  refine ⟨r, isBuilt, name, ?_⟩
  have slots := same.settled_eq found found'
  rw [settled_of_instantiate builds, settled_of_instantiate builds', getElem?_map,
    getElem?_map, isBuilt] at slots
  obtain ⟨r', isBuilt', sameSlot⟩ := Option.map_eq_some_iff.1 slots
  rw [isBuilt', Slot.built.inj sameSlot]

end

end SameLibraries

/-- The order in which libraries are given only numbers them.  In any other order they can be built
just as well; each of them comes to the same with the numbers that the other order gives; and the
complaints about libraries that lack something are the same. -/
theorem instantiate_perm (current : String) {libraries libraries' : List Surface}
    (perm : libraries.Perm libraries') (distinct : (current :: libraries.map (·.name)).Nodup) :
    ((∃ built, instantiate ⟨current, libraries⟩ = .ok built) ↔
        ∃ built', instantiate ⟨current, libraries'⟩ = .ok built') ∧
      (∀ {built built' : List Rely}, instantiate ⟨current, libraries⟩ = .ok built →
        instantiate ⟨current, libraries'⟩ = .ok built' →
        ∀ {i j : Nat} {s : Surface}, libraries[i]? = some s → libraries'[j]? = some s →
          carry ⟨current, libraries⟩ ⟨current, libraries'⟩ (.rely i) = .rely j ∧
            ∃ r, built[i]? = some r ∧ r.table.name = s.name ∧
              built'[j]? = some (r.rehome (carry ⟨current, libraries⟩ ⟨current, libraries'⟩))) ∧
      ∀ {problems problems' : List RelyProblem},
        instantiate ⟨current, libraries⟩ = .error problems →
        instantiate ⟨current, libraries'⟩ = .error problems' →
          (problems.filter (·.isLack)).Perm (problems'.filter (·.isLack)) := by
  have same : SameLibraries ⟨current, libraries⟩ ⟨current, libraries'⟩ := ⟨rfl, perm, distinct⟩
  refine ⟨?_, fun builds builds' _ _ _ found found' => ?_, fun fails fails' => ?_⟩
  · rw [exists_instantiate_iff (named_of_nodup same.distinct),
      exists_instantiate_iff (named_of_nodup same.symm.distinct)]
    exact ⟨same.all_built, same.symm.all_built⟩
  · exact ⟨same.carry_eq found found', same.built_eq builds builds' found found'⟩
  · rw [(instantiate_eq_error.1 fails).1, (instantiate_eq_error.1 fails').1]
    exact same.filter_notes_perm

end RelyGraph

namespace Sample

/-- A library with a class. -/
def stone : Surface :=
  { Surface.empty "Stone" with
    classes := [⟨"Block", 0, ⟨.kernel, .handle, 10, 0⟩, [], [], [], []⟩] }

/-- A library with a class that derives from the one above. -/
def tower : Surface :=
  { Surface.empty "Tower" with
    dependencies := ["Stone"]
    classes := [⟨"Storey", 0, ⟨.dependency 0, .handle, 0, 0⟩, [], [], [], []⟩] }

/-- A library with a variable whose type is the class above. -/
def town : Surface :=
  { Surface.empty "Town" with
    dependencies := ["Stone", "Tower"]
    globals := [⟨"top", 0, false, ⟨.dependency 1, .handle, 0, 1⟩⟩] }

/-- The libraries of a rely list as they are built, if they are. -/
def builtIn (libraries : List Surface) : List Rely :=
  ((RelyGraph.mk "Site" libraries).instantiate.toOption).getD []

set_option maxRecDepth 10000 in
theorem town_builds :
    RelyGraph.instantiate ⟨"Site", [town, tower, stone]⟩ = .ok (builtIn [town, tower, stone]) := by
  cbv

end Sample

open Sample in
theorem RelyGraph.instantiate_perm_town : [town, tower, stone].Perm [stone, town, tower] ∧
      ("Site" :: [town, tower, stone].map (·.name)).Nodup ∧
      ∃ built', instantiate ⟨"Site", [stone, town, tower]⟩ = .ok built' ∧
        ∃ r, (builtIn [town, tower, stone])[0]? = some r ∧ r.table.name = "Town" ∧
          built'[1]? = some (r.rehome
            (carry ⟨"Site", [town, tower, stone]⟩ ⟨"Site", [stone, town, tower]⟩)) := by
  have perm : ([town, tower] ++ [stone]).Perm ([stone] ++ [town, tower]) := perm_append_comm
  have distinct : ("Site" :: [town, tower, stone].map (·.name)).Nodup := by decide
  obtain ⟨builds, alike, _⟩ := instantiate_perm "Site" perm distinct
  obtain ⟨built', builds'⟩ := builds.1 ⟨_, town_builds⟩
  have same := (alike town_builds builds' (i := 0) (j := 1) rfl rfl).2
  exact ⟨perm, distinct, built', builds', same⟩

end Linkage
