/-
Purpose: An interface loses the entries of its inheritance list that lead back to it, each with one
  complaint, and no others.
-/
import Linkage.Draft.Inheritance
import Linkage.Proofs.Noted
import Linkage.Proofs.Walk

namespace Linkage.Draft

open List

open Relation (ReflTransGen)

variable {interfaces : List InterfaceDef}

theorem mem_ownBases {i j : Nat} : j ∈ ownBases interfaces i ↔ ∃ x, interfaces[i]? = some x ∧
      ∃ type ∈ x.inherits, type.id.home = .here ∧ type.id.kind = .interface ∧
        type.id.index = j := by
  unfold ownBases
  cases interfaces[i]? <;> simp [mem_filterMap, and_assoc]

theorem mem_range_of_ownBases {i j : Nat}
    (isBase : j ∈ ownBases interfaces i) : i ∈ List.range interfaces.length := by
  obtain ⟨x, found, _⟩ := mem_ownBases.1 isBase
  exact mem_range.2 (List.getElem?_eq_some_iff.1 found).1

/-- A route is found from an interface to another if and only if it inherits it. -/
theorem interfaceRoute_isSome_iff {start goal : Nat} :
    (interfaceRoute interfaces start goal).isSome = true ↔
      ReflTransGen (fun i j => j ∈ ownBases interfaces i) start goal := by
  constructor
  · intro found
    obtain ⟨_, isStart, reaches⟩ := Walk.reaches_of_route_isSome found
    rwa [mem_singleton.1 isStart] at reaches
  · intro reaches
    by_contra none
    exact Walk.not_reaches_of_route_eq_none (fun _ _ => mem_range_of_ownBases)
      (Option.not_isSome_iff_eq_none.1 none) (mem_singleton_self start) reaches

/-! ### Entries that lead back -/

variable {d : Draft} {index : Nat} {type : TypeRef}

/-- Whether an entry in the inheritance list of an interface leads back to it. -/
def leadsBack (d : Draft) (index : Nat) (type : TypeRef) : Bool :=
  type.id.home = .here && (interfaceRoute d.table.interfaces type.id.index index).isSome

theorem leadsBack_iff : d.leadsBack index type = true ↔ type.id.home = .here ∧
      ReflTransGen (fun i j => j ∈ ownBases d.table.interfaces i) type.id.index index := by
  rw [leadsBack, Bool.and_eq_true, decide_eq_true_iff, interfaceRoute_isSome_iff]

theorem ownBases_setInherits_of_ne {inherits : List TypeRef} {i : Nat} (other : i ≠ index) :
    ownBases (d.setInherits index inherits).table.interfaces i = ownBases d.table.interfaces i := by
  simp [ownBases, setInherits, other.symm]

/-- The list of an interface has no part in whether its entries lead back. -/
theorem leadsBack_setInherits (d : Draft) (index : Nat) (inherits : List TypeRef)
    (type : TypeRef) : (d.setInherits index inherits).leadsBack index type =
      d.leadsBack index type := by
  rw [Bool.eq_iff_iff, leadsBack_iff, leadsBack_iff]
  refine and_congr_right fun _ => ⟨Walk.reaches_congr fun i other => ?_, Walk.reaches_congr ?_⟩
  · exact (ownBases_setInherits_of_ne other).symm
  · exact fun i other => ownBases_setInherits_of_ne other

/-- Going through a list drops the entries that lead back, and reports each of them. -/
theorem dropCycles_eq (d : Draft) (index : Nat) (kept rest : List TypeRef) :
    ∃ names : List (List String), names.length = rest.countP (d.leadsBack index) ∧
      d.dropCycles index kept rest =
        ⟨d.setInherits index (kept ++ rest.filter fun type => !d.leadsBack index type),
          names.flatMap fun cycle => (d.reportAt?
            (d.table.interfaces[index]?.bind fun i => i.source.map (·.anchor))
            (.circularInterfaces cycle)).notes⟩ := by
  induction rest generalizing kept with
  | nil =>
    refine ⟨[], rfl, ?_⟩
    rw [filter_nil, append_nil]
    rfl
  | cons type rest ih =>
    have back : (if type.id.home = .here then interfaceRoute
        (d.setInherits index (kept ++ type :: rest)).table.interfaces type.id.index index
        else none).isSome = d.leadsBack index type := by
      rw [← d.leadsBack_setInherits index (kept ++ type :: rest), leadsBack]
      split <;> simp_all
    unfold dropCycles
    dsimp only
    split
    · rename_i none
      rw [none] at back
      obtain ⟨names, count, same⟩ := ih (kept ++ [type])
      refine ⟨names, by simpa [← back] using count, ?_⟩
      simp [same, ← back]
    · rename_i route some
      rw [some] at back
      obtain ⟨names, count, same⟩ := ih kept
      refine ⟨(index :: route).map d.interfaceName :: names, by simp [← back, count], ?_⟩
      apply Noted.ext <;> simp [same, ← back]

theorem value_breakInterfaceCycle (d : Draft) (index : Nat) :
    (d.breakInterfaceCycle index).value = { d with table := { d.table with
      interfaces := d.table.interfaces.modify index fun x =>
        { x with inherits := x.inherits.filter fun type => !d.leadsBack index type } } } := by
  obtain ⟨_, _, same⟩ := d.dropCycles_eq index []
    ((d.table.interfaces[index]?.map (·.inherits)).getD [])
  rw [breakInterfaceCycle, same]
  refine congrArg (fun interfaces => { d with table := { d.table with interfaces } }) ?_
  apply ext_getElem?
  intro i
  rw [getElem?_modify, getElem?_modify]
  by_cases here : index = i
  · subst here
    cases d.table.interfaces[index]? <;> rfl
  · simp [here]

/-- Each entry that leads back is reported where the interface was written. -/
theorem notes_breakInterfaceCycle {x : InterfaceDef} (found : d.table.interfaces[index]? = some x) :
    ∃ names : List (List String), names.length = x.inherits.countP (d.leadsBack index) ∧
      (d.breakInterfaceCycle index).notes = names.flatMap fun cycle =>
        (d.reportAt? (x.source.map (·.anchor)) (.circularInterfaces cycle)).notes := by
  obtain ⟨names, count, same⟩ := d.dropCycles_eq index [] x.inherits
  refine ⟨names, count, ?_⟩
  rw [found] at same
  rw [breakInterfaceCycle, found]
  exact congrArg Noted.notes same

end Linkage.Draft
