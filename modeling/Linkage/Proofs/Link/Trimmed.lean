/-
Purpose: Breaking the cycles of interfaces takes away links of cycles only, as many as are complained
  about, until there are no cycles left.
-/
import Linkage.Compile.Pipeline
import Linkage.Proofs.Link.Dropped

namespace Linkage

open List Noted

namespace Draft

variable {i index : Nat} {x : InterfaceDef} {d : Draft}

open Relation (ReflTransGen TransGen)

/-! ### Links that are taken away -/

/-- Interfaces that have only lost entries of their inheritance lists that led back to them. -/
structure Trimmed (before after : List InterfaceDef) : Prop where
  length : after.length = before.length
  entries : ∀ {i x}, before[i]? = some x → ∃ stays, after[i]? = some { x with inherits := stays } ∧
    stays.Sublist x.inherits ∧ ∀ type, stays.count type < x.inherits.count type →
      type.id.home = .here ∧ ReflTransGen (fun i j => j ∈ ownBases before i) type.id.index i

namespace Trimmed

variable {before between after : List InterfaceDef}

theorem refl (interfaces : List InterfaceDef) : Trimmed interfaces interfaces where
  length := rfl
  entries found := ⟨_, found, .refl _, fun _ less => absurd less (lt_irrefl _)⟩

/-- Every interface was there before, with a longer list. -/
theorem exists_before (trimmed : Trimmed before after) {y : InterfaceDef}
    (found : after[i]? = some y) : ∃ x, before[i]? = some x ∧
      y.source = x.source ∧ y.inherits.Sublist x.inherits := by
  have inside := trimmed.length ▸ (List.getElem?_eq_some_iff.1 found).1
  refine ⟨before[i], getElem?_eq_getElem inside, ?_⟩
  obtain ⟨stays, same, fewer, _⟩ := trimmed.entries (getElem?_eq_getElem inside)
  obtain rfl := Option.some.inj (found.symm.trans same)
  exact ⟨rfl, fewer⟩

theorem mem_ownBases (trimmed : Trimmed before after) {j : Nat}
    (isBase : j ∈ ownBases after i) : j ∈ ownBases before i := by
  obtain ⟨y, found, type, member, own⟩ := Draft.mem_ownBases.1 isBase
  obtain ⟨x, found', _, fewer⟩ := trimmed.exists_before found
  exact Draft.mem_ownBases.2 ⟨x, found', type, fewer.subset member, own⟩

theorem trans (first : Trimmed before between) (second : Trimmed between after) :
    Trimmed before after where
  length := second.length.trans first.length
  entries {i x} found := by
    obtain ⟨most, found', fewer, leads⟩ := first.entries found
    obtain ⟨stays, found'', fewer', leads'⟩ := second.entries found'
    refine ⟨stays, found'', fewer'.trans fewer, fun type less => ?_⟩
    by_cases lost : most.count type < x.inherits.count type
    · exact leads type lost
    · obtain ⟨own, back⟩ := leads' type (lt_of_lt_of_le less (Nat.le_of_not_lt lost))
      exact ⟨own, ReflTransGen.mono (fun _ _ => first.mem_ownBases) _ _ back⟩

end Trimmed

theorem breakInterfaceCycle_trimmed (d : Draft) (index : Nat) :
    Trimmed d.table.interfaces (d.breakInterfaceCycle index).value.table.interfaces := by
  rw [value_breakInterfaceCycle]
  refine ⟨length_modify .., fun {i x} found => ?_⟩
  by_cases here : index = i
  · subst here
    rw [getElem?_modify_eq, found]
    refine ⟨_, rfl, filter_sublist, fun type less => ?_⟩
    rw [← leadsBack_iff]
    by_contra stays
    rw [count_filter (by simpa using stays)] at less
    exact lt_irrefl _ less
  · rw [getElem?_modify_ne _ _ here, found]
    exact ⟨_, rfl, .refl _, fun _ less => absurd less (lt_irrefl _)⟩

/-- An interface whose cycles were broken does not inherit itself. -/
theorem no_round_of_breakInterfaceCycle (d : Draft) (index : Nat) :
    ¬TransGen (fun i j => j ∈ ownBases (d.breakInterfaceCycle index).value.table.interfaces i)
      index index := by
  intro round
  obtain ⟨j, isBase, back⟩ := TransGen.head'_iff.1 round
  have before := ReflTransGen.mono
    (fun _ _ => (d.breakInterfaceCycle_trimmed index).mem_ownBases) _ _ back
  obtain ⟨x, found, type, member, own, _, rfl⟩ := mem_ownBases.1 isBase
  rw [value_breakInterfaceCycle, getElem?_modify_eq] at found
  obtain ⟨old, _, rfl⟩ := Option.map_eq_some_iff.1 found
  have stays := (mem_filter.1 member).2
  rw [leadsBack_iff.2 ⟨own, before⟩] at stays
  cases stays

/-- The interfaces that have been looked at do not inherit themselves. -/
theorem no_round_of_lt (d : Draft) {count : Nat} (seen : i < count) :
    ¬TransGen (fun i j => j ∈ ownBases
      ((range count).foldlM breakInterfaceCycle d).value.table.interfaces i) i i := by
  refine value_foldlM_range
    (P := fun i d => ¬TransGen (fun i j => j ∈ ownBases d.table.interfaces i) i i)
    no_round_of_breakInterfaceCycle (fun d i index none round => none ?_) d seen
  exact TransGen.mono (fun _ _ => (d.breakInterfaceCycle_trimmed index).mem_ownBases) _ _ round

theorem breakInterfaceCycles_trimmed (d : Draft) :
    Trimmed d.table.interfaces d.breakInterfaceCycles.value.table.interfaces :=
  value_foldlM_of_step (P := fun e : Draft => Trimmed d.table.interfaces e.table.interfaces)
    (fun e index _ trimmed => trimmed.trans (e.breakInterfaceCycle_trimmed index)) (.refl _)

theorem acc_ownBases_breakInterfaceCycles (d : Draft) (i : Nat) :
    Acc (fun k j => k ∈ ownBases d.breakInterfaceCycles.value.table.interfaces j) i := by
  refine Walk.acc_of_no_round (fun _ _ _ => mem_range_of_ownBases) fun j round => ?_
  obtain ⟨k, isBase, _⟩ := TransGen.head'_iff.1 round
  have inside := mem_range.1 (mem_range_of_ownBases isBase)
  exact no_round_of_lt d (d.breakInterfaceCycles_trimmed.length ▸ inside) round

/-! ### Complaints -/

/-- The number of entries in all inheritance lists. -/
def links (interfaces : List InterfaceDef) : Nat := (interfaces.flatMap (·.inherits)).length

theorem links_modify {f : InterfaceDef → InterfaceDef} {interfaces : List InterfaceDef}
    (found : interfaces[index]? = some x) :
    links (interfaces.modify index f) + x.inherits.length =
      links interfaces + (f x).inherits.length := by
  induction interfaces generalizing index with
  | nil => cases found
  | cons y rest ih =>
    cases index with
    | zero =>
      cases found
      simp only [links, modify_zero_cons, flatMap_cons, length_append]
      omega
    | succ index =>
      have later := ih found
      simp only [links, modify_succ_cons, flatMap_cons, length_append] at later ⊢
      omega

/-- There are as many complaints as an interface loses entries. -/
theorem notes_breakInterfaceCycle_links
    (found : d.table.interfaces[index]? = some x) (sourced : x.source.isSome = true) :
    (d.breakInterfaceCycle index).notes.length +
        links (d.breakInterfaceCycle index).value.table.interfaces =
      links d.table.interfaces ∧
    ∀ n ∈ (d.breakInterfaceCycle index).notes, n.code.text = "V005" := by
  obtain ⟨source, isSource⟩ := Option.isSome_iff_exists.1 sourced
  obtain ⟨names, count, notes⟩ := notes_breakInterfaceCycle found
  simp only [isSource, Option.map_some, reportAt?, reportAt, notes_report, ← map_eq_flatMap]
    at notes
  rw [notes, value_breakInterfaceCycle]
  constructor
  · have changed := links_modify (f := fun x => { x with
      inherits := x.inherits.filter fun type => !d.leadsBack index type }) found
    have parts : x.inherits.length = x.inherits.countP (d.leadsBack index) +
        (x.inherits.filter fun type => !d.leadsBack index type).length := by
      rw [← countP_eq_length_filter, length_eq_countP_add_countP (d.leadsBack index)]
      simp
    rw [length_map]
    dsimp only at changed ⊢
    omega
  · refine forall_mem_map.2 fun cycle _ => ?_
    rfl

/-- A draft whose interfaces have lost entries, with a complaint about each. -/
structure Untangles (d e : Draft) (notes : List Diagnostic) : Prop where
  draft : ∃ interfaces, e = { d with table := { d.table with interfaces } }
  trimmed : Trimmed d.table.interfaces e.table.interfaces
  count : notes.length + links e.table.interfaces = links d.table.interfaces
  codes : ∀ n ∈ notes, n.code.text = "V005"

theorem breakInterfaceCycles_untangles
    (sourced : ∀ x ∈ d.table.interfaces, x.source.isSome = true) :
    d.Untangles d.breakInterfaceCycles.value d.breakInterfaceCycles.notes := by
  have start : d.Untangles d [] := ⟨⟨_, rfl⟩, .refl _, Nat.zero_add _, forall_mem_nil _⟩
  refine foldlM_of_step ?_ start
  rintro e notes index member ⟨⟨interfaces, rfl⟩, trimmed, count, codes⟩
  have found := getElem?_eq_getElem (trimmed.length ▸ mem_range.1 member)
  obtain ⟨x, found', source, _⟩ := trimmed.exists_before found
  obtain ⟨count', codes'⟩ := notes_breakInterfaceCycle_links found
    (source ▸ sourced x (mem_of_getElem? found'))
  refine ⟨?_, trimmed.trans (breakInterfaceCycle_trimmed _ index), ?_, ?_⟩
  · rw [value_breakInterfaceCycle]
    exact ⟨_, rfl⟩
  · rw [length_append]
    omega
  · exact forall_mem_append.2 ⟨codes, codes'⟩

/-! ### Interfaces without cycles -/

section

variable {d : Draft} {index : Nat} {x : InterfaceDef} (found : d.table.interfaces[index]? = some x)
include found

/-- Where no entry leads back there is nothing to drop. -/
theorem breakInterfaceCycle_eq_pure (stays : ∀ type ∈ x.inherits, d.leadsBack index type = false) :
    d.breakInterfaceCycle index = pure d := by
  apply Noted.ext
  · have same : (x.inherits.filter fun type => !d.leadsBack index type) = x.inherits :=
      filter_eq_self.2 fun type member => by rw [stays type member]; rfl
    rw [value_breakInterfaceCycle]
    refine congrArg (fun interfaces => { d with table := { d.table with interfaces } }) ?_
    refine ext_getElem? fun i => ?_
    by_cases here : index = i
    · subst here
      simp [found, same]
    · simp [here]
  · obtain ⟨names, count, notes⟩ := notes_breakInterfaceCycle found
    rw [countP_eq_zero.2 fun type member => by simp [stays type member]] at count
    rw [notes, length_eq_zero_iff.1 count]
    rfl

/-- An interface about which there is no complaint keeps its entries. -/
theorem breakInterfaceCycle_of_quiet (sourced : x.source.isSome = true)
    (quiet : (d.breakInterfaceCycle index).notes = []) :
    (d.breakInterfaceCycle index).value = d := by
  obtain ⟨source, isSource⟩ := Option.isSome_iff_exists.1 sourced
  obtain ⟨names, count, notes⟩ := notes_breakInterfaceCycle found
  have none : names = [] := by
    apply eq_nil_iff_forall_not_mem.2
    intro cycle member
    have silent := flatMap_eq_nil_iff.1 (notes.symm.trans quiet) cycle member
    simp [isSource, reportAt?, reportAt] at silent
  rw [none] at count
  rw [breakInterfaceCycle_eq_pure found (by simpa using countP_eq_zero.1 count.symm)]
  rfl

end

variable {d : Draft}

/-- Where no interface inherits itself there is nothing to break. -/
theorem breakInterfaceCycles_eq_pure
    (resolved : ∀ x ∈ d.table.interfaces, ∀ type ∈ x.inherits, type.isInterface = true)
    (ends : ∀ i, Acc (fun k j => k ∈ ownBases d.table.interfaces j) i) :
    d.breakInterfaceCycles = pure d := by
  refine foldlM_eq_pure fun i member => ?_
  have found := getElem?_eq_getElem (mem_range.1 member)
  refine breakInterfaceCycle_eq_pure found fun type member => ?_
  by_contra back
  obtain ⟨own, back⟩ := leadsBack_iff.1 (Bool.not_eq_false _ ▸ back)
  have kind := resolved _ (mem_of_getElem? found) type member
  simp only [TypeRef.isInterface, Bool.and_eq_true, decide_eq_true_eq] at kind
  have isBase := mem_ownBases.2 ⟨_, found, type, member, own, kind.2, rfl⟩
  exact Walk.not_transGen_self (ends i) (Relation.transGen_swap.1 (.head' isBase back))

theorem breakInterfaceCycles_of_quiet (sourced : ∀ x ∈ d.table.interfaces, x.source.isSome = true)
    (quiet : d.breakInterfaceCycles.notes = []) :
    d.breakInterfaceCycles.value = d ∧
      ∀ i, Acc (fun k j => k ∈ ownBases d.table.interfaces j) i := by
  have same : d.breakInterfaceCycles.value = d := by
    refine (foldlM_eq_of_notes_nil (fun i member silent => ?_) quiet).1
    have found := getElem?_eq_getElem (mem_range.1 member)
    exact breakInterfaceCycle_of_quiet found (sourced _ (mem_of_getElem? found)) silent
  refine ⟨same, fun i => ?_⟩
  have ends := d.acc_ownBases_breakInterfaceCycles i
  rwa [same] at ends

/-- Breaking the cycles of interfaces leaves no cycle.  It takes nothing away but links that lay on
cycles of what the interfaces inherited, and complains as often as it does, so never if there were no
cycles. -/
theorem breakInterfaceCycles_trims (d : Draft)
    (resolved : ∀ x ∈ d.table.interfaces, ∀ type ∈ x.inherits, type.isInterface = true)
    (sourced : ∀ x ∈ d.table.interfaces, x.source.isSome = true) :
    let bases := ownBases d.table.interfaces
    let after := d.breakInterfaceCycles.value.table.interfaces
    d.breakInterfaceCycles.value = { d with table := { d.table with interfaces := after } } ∧
    after.length = d.table.interfaces.length ∧
    (∀ i x, d.table.interfaces[i]? = some x →
      ∃ stays, after[i]? = some { x with inherits := stays } ∧ stays.Sublist x.inherits ∧
        ∀ type, stays.count type < x.inherits.count type → type.id.home = .here ∧
          type.id.index ∈ bases i ∧ ReflTransGen (fun i j => j ∈ bases i) type.id.index i) ∧
    (∀ i, Acc (fun k j => k ∈ ownBases after j) i) ∧
    (∀ n ∈ d.breakInterfaceCycles.notes, n.code.text = "V005") ∧
    d.breakInterfaceCycles.notes.length + links after = links d.table.interfaces ∧
    (d.breakInterfaceCycles.notes = [] ↔ ∀ i, Acc (fun k j => k ∈ bases j) i) := by
  obtain ⟨⟨interfaces, draft⟩, trimmed, count, codes⟩ := breakInterfaceCycles_untangles sourced
  refine ⟨by rw [draft], trimmed.length, ?_, d.acc_ownBases_breakInterfaceCycles, codes, count, ?_⟩
  · intro i x found
    obtain ⟨stays, found', fewer, leads⟩ := trimmed.entries found
    refine ⟨stays, found', fewer, fun type less => ?_⟩
    obtain ⟨own, back⟩ := leads type less
    have member : type ∈ x.inherits := count_pos_iff.1 (Nat.zero_lt_of_lt less)
    have kind := resolved x (mem_of_getElem? found) type member
    simp only [TypeRef.isInterface, Bool.and_eq_true, decide_eq_true_eq] at kind
    exact ⟨own, mem_ownBases.2 ⟨x, found, type, member, own, kind.2, rfl⟩, back⟩
  · refine ⟨fun quiet => (breakInterfaceCycles_of_quiet sourced quiet).2, fun ends => ?_⟩
    rw [breakInterfaceCycles_eq_pure resolved ends]
    rfl

end Draft

/-- Two interfaces that inherit each other, and a third that one of them inherits, too. -/
def Sample.rings : Draft :=
  ((Draft.merge "Rings" (readFiles [⟨"rings",
    "interface Left : Right\ninterface Right : Top, Left\ninterface Top\n"⟩]).value).value.linkInherits
    []).value

/-- The cycle is complained about and broken. -/
theorem Draft.breakInterfaceCycles_trims_rings :
    Sample.rings.breakInterfaceCycles.notes ≠ [] ∧ ∀ i, Acc (fun k j =>
      k ∈ Draft.ownBases Sample.rings.breakInterfaceCycles.value.table.interfaces j) i := by
  have ⟨resolved, sourced, right, left⟩ :
      (∀ x ∈ Sample.rings.table.interfaces, ∀ type ∈ x.inherits, type.isInterface = true) ∧
      (∀ x ∈ Sample.rings.table.interfaces, x.source.isSome = true) ∧
      1 ∈ Draft.ownBases Sample.rings.table.interfaces 0 ∧
      0 ∈ Draft.ownBases Sample.rings.table.interfaces 1 := by decide +kernel
  obtain ⟨_, _, _, ends, _, _, quiet⟩ :=
    Draft.breakInterfaceCycles_trims Sample.rings resolved sourced
  refine ⟨fun none => ?_, ends⟩
  exact Walk.not_transGen_self (quiet.1 none 0) (.head left (.single right))

end Linkage
