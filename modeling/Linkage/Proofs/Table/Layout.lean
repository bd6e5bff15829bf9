/-
Purpose: Laying out a library gives its variables their places and changes nothing else.  The places
  are aligned, and lie side by side without a gap that alignment does not ask for.
-/
import Linkage.Draft.Layout
import Linkage.Proofs.Table.Types
import Mathlib.Order.Bounds.Defs

namespace Linkage

open List

variable {size offset stop : Nat}

/-- A variable of a class without its place. -/
def MemberVariable.unplaced (v : MemberVariable) : MemberVariable := { v with offset := 0 }

/-- A class without the places of its variables. -/
def ClassDef.unplaced (c : ClassDef) : ClassDef :=
  { c with fields := c.fields.map MemberVariable.unplaced, size := 0 }

/-- A variable of a space without its address. -/
def VariableDef.unplaced (v : VariableDef) : VariableDef := { v with address := 0 }

/-- A table without addresses. -/
def Table.unplaced (t : Table) : Table :=
  { t with
    classes := t.classes.map ClassDef.unplaced
    globals := t.globals.map VariableDef.unplaced }

theorem placeMembers_unplaced (offset : Nat) (fields : List MemberVariable) :
    (placeMembers offset fields).1.map MemberVariable.unplaced =
      fields.map MemberVariable.unplaced := by
  induction fields generalizing offset with
  | nil => rfl
  | cons v rest ih =>
    simp only [placeMembers, map_cons, ih]
    rfl

theorem placeVariables_unplaced (layout : Layout) (globals : List VariableDef) :
    (placeVariables layout globals).1.map VariableDef.unplaced =
      globals.map VariableDef.unplaced := by
  induction globals generalizing layout with
  | nil => rfl
  | cons v rest ih =>
    simp only [placeVariables, map_cons, ih]
    rfl

namespace Table

/-- Giving variables their addresses changes nothing else. -/
theorem assignAddresses_unplaced (t : Table) : t.assignAddresses.1.unplaced = t.unplaced := by
  have classes : (t.classes.map fun c =>
      { c with fields := (placeMembers 0 c.fields).1, size := (placeMembers 0 c.fields).2 }).map
        ClassDef.unplaced = t.classes.map ClassDef.unplaced := by
    rw [map_map]
    apply map_congr_left
    simp [ClassDef.unplaced, placeMembers_unplaced]
  simp [assignAddresses, unplaced, classes, placeVariables_unplaced]

/-- Whatever does not look at addresses is the same after they were given. -/
theorem assignAddresses_keeps {γ : Sort*} (view : Table → γ) (blind : ∀ t, view t.unplaced = view t)
    (t : Table) : view t.assignAddresses.1 = view t := by
  rw [← blind, assignAddresses_unplaced, blind]

theorem assignAddresses_skeleton (t : Table) : t.assignAddresses.1.skeleton = t.skeleton := by
  refine assignAddresses_keeps skeleton (fun t => ?_) t
  simp [skeleton, unplaced, Function.comp_def, ClassDef.skeleton, ClassDef.unplaced,
    MemberVariable.skeleton, MemberVariable.unplaced, VariableDef.skeleton, VariableDef.unplaced]

end Table

/-! ### Types -/

variable {P : TypeRef → Prop}

theorem ClassDef.settled_unplaced {c : ClassDef} : c.unplaced.Settled P ↔ c.Settled P := by
  have fields : (∀ v ∈ c.fields.map MemberVariable.unplaced, P v.type) ↔
      ∀ v ∈ c.fields, P v.type := forall_mem_map
  constructor
  · exact fun held => { held with fields := fields.1 held.fields }
  · exact fun held => { held with fields := fields.2 held.fields }

theorem Table.settled_unplaced (t : Table) : t.unplaced.Settled P ↔ t.Settled P := by
  have classes : (∀ c ∈ t.classes.map ClassDef.unplaced, c.Settled P) ↔
      ∀ c ∈ t.classes, c.Settled P := by
    rw [forall_mem_map]
    exact forall₂_congr fun _ _ => ClassDef.settled_unplaced
  have globals : (∀ v ∈ t.globals.map VariableDef.unplaced, P v.type) ↔
      ∀ v ∈ t.globals, P v.type := forall_mem_map
  constructor
  · exact fun held => { held with
      classes := classes.1 held.classes, globals := globals.1 held.globals }
  · exact fun held => { held with
      classes := classes.2 held.classes, globals := globals.2 held.globals }

theorem Table.assignAddresses_settled (t : Table) : t.assignAddresses.1.Settled P = t.Settled P :=
  assignAddresses_keeps (Table.Settled P) (fun t => propext t.settled_unplaced) t

/-! ### Alignment -/

theorem TypeRef.slotSize_pos (x : TypeRef) : 0 < x.slotSize := by
  unfold slotSize
  split
  · exact Nat.succ_pos 3
  · split <;> exact Nat.succ_pos _

theorem alignment_eq_min (positive : 0 < size) : alignment size = min size 8 := by
  unfold alignment
  rw [if_neg (by omega)]
  split <;> omega

/-- Aligning gives the first multiple of the alignment that is not below the offset. -/
theorem isLeast_align (offset : Nat) (positive : 0 < size) :
    IsLeast {a | min size 8 ∣ a ∧ offset ≤ a} (align offset size) := by
  rw [align, alignment_eq_min positive]
  have unit : 0 < min size 8 := by omega
  generalize min size 8 = unit' at unit
  constructor
  · refine ⟨Nat.dvd_mul_left _ _, ?_⟩
    have below := Nat.lt_div_mul_add (a := offset + (unit' - 1)) unit
    omega
  · rintro _ ⟨⟨count, rfl⟩, reached⟩
    rw [Nat.mul_comm unit']
    refine Nat.mul_le_mul_right unit' (Nat.lt_succ_iff.1 (Nat.div_lt_of_lt_mul ?_))
    rw [Nat.mul_succ]
    omega

/-! ### Slots in order -/

/-- Slots, given by start and size, from an offset to the end of the last.  Each starts at the least
multiple of its alignment, which is its size but at most 8, that is not below the end of the slot
before it. -/
inductive Packed : Nat → List (Nat × Nat) → Nat → Prop
  | nil {offset : Nat} : Packed offset [] offset
  | cons {offset start size stop : Nat} {rest : List (Nat × Nat)}
      (least : IsLeast {a | min size 8 ∣ a ∧ offset ≤ a} start)
      (later : Packed (start + size) rest stop) : Packed offset ((start, size) :: rest) stop

theorem Packed.offset_le {slots : List (Nat × Nat)}
    (packed : Packed offset slots stop) : ∀ s ∈ slots, offset ≤ s.1 := by
  induction packed with
  | nil => exact forall_mem_nil _
  | cons least later ih =>
    refine forall_mem_cons.2 ⟨least.1.2, fun s member => ?_⟩
    exact Nat.le_trans least.1.2 (Nat.le_trans (Nat.le_add_right ..) (ih s member))

theorem Packed.apart {slots : List (Nat × Nat)}
    (packed : Packed offset slots stop) : slots.Pairwise fun a b => a.1 + a.2 ≤ b.1 := by
  induction packed with
  | nil => exact .nil
  | cons least later ih => exact .cons later.offset_le ih

/-- A region or block of a certain size is filled with slots that do not overlap. -/
structure Region (slots : List (Nat × Nat)) (size : Nat) : Prop where
  packed : Packed 0 slots size
  apart : slots.Pairwise fun a b => a.1 + a.2 ≤ b.1

theorem Packed.region {slots : List (Nat × Nat)} (packed : Packed 0 slots size) :
    Region slots size := ⟨packed, packed.apart⟩

/-- The slots of the variables of a class. -/
def ClassDef.slots (c : ClassDef) : List (Nat × Nat) :=
  c.fields.map fun v => (v.offset, v.type.slotSize)

/-- The slots of constants, or of the other variables of spaces. -/
def slotsOf (constant : Bool) (globals : List VariableDef) : List (Nat × Nat) :=
  (globals.filter (·.constant == constant)).map fun v => (v.address, v.type.slotSize)

/-! ### Addresses -/

theorem placeMembers_packed (offset : Nat) (fields : List MemberVariable) :
    Packed offset ((placeMembers offset fields).1.map fun v => (v.offset, v.type.slotSize))
      (placeMembers offset fields).2 := by
  induction fields generalizing offset with
  | nil => exact .nil
  | cons v rest ih => exact .cons (isLeast_align offset v.type.slotSize_pos) (ih _)

/-- Every variable goes to the end of its own region and leaves the other as it is. -/
theorem placeVariables_packed (layout : Layout) (globals : List VariableDef) :
    Packed layout.constantSize (slotsOf true (placeVariables layout globals).1)
        (placeVariables layout globals).2.constantSize ∧
      Packed layout.dataSize (slotsOf false (placeVariables layout globals).1)
        (placeVariables layout globals).2.dataSize := by
  induction globals generalizing layout with
  | nil => exact ⟨.nil, .nil⟩
  | cons v rest ih =>
    cases isConstant : v.constant with
    | true =>
      have later := ih { layout with
        constantSize := align layout.constantSize v.type.slotSize + v.type.slotSize }
      simp only [placeVariables, slotsOf, filter_cons, isConstant] at later ⊢
      exact ⟨.cons (isLeast_align _ v.type.slotSize_pos) later.1, later.2⟩
    | false =>
      have later := ih { layout with
        dataSize := align layout.dataSize v.type.slotSize + v.type.slotSize }
      simp only [placeVariables, slotsOf, filter_cons, isConstant] at later ⊢
      exact ⟨later.1, .cons (isLeast_align _ v.type.slotSize_pos) later.2⟩

/-- The constants, the other variables of spaces and the variables of each class are placed side by
side in a region or block of their own, and nothing but addresses and sizes changes. -/
theorem Table.assignAddresses_packs (t : Table) :
    Region (slotsOf true t.assignAddresses.1.globals) t.assignAddresses.2.constantSize ∧
    Region (slotsOf false t.assignAddresses.1.globals) t.assignAddresses.2.dataSize ∧
    (∀ c ∈ t.assignAddresses.1.classes, Region c.slots c.size) ∧
    t.assignAddresses.1.unplaced = t.unplaced := by
  obtain ⟨constants, others⟩ := placeVariables_packed ⟨0, 0⟩ t.globals
  refine ⟨constants.region, others.region, ?_, t.assignAddresses_unplaced⟩
  refine forall_mem_map.2 fun c _ => ?_
  exact (placeMembers_packed 0 c.fields).region

end Linkage
