/-
Purpose: What stays of a table when its types and addresses are taken away: what is declared,
  where, under which name and by which source.
-/
import Linkage.Proofs.Lists
import Linkage.Proofs.Table.Names

namespace Linkage

variable {i : Nat} {c c' : ClassDef} {d d' : InterfaceDef}

/-! ### Skeletons

Linking writes types and laying out writes addresses.  Everything else that the stages
after merging rely on is in the skeleton, so it is carried over by one equation. -/

/-- A function without its types. -/
def Function.skeleton (f : Function) : Function :=
  { f with params := f.params.map fun p => { p with type := .invalid }, returns := [] }

/-- A method without its types. -/
def Method.skeleton (m : Method) : Method :=
  { m with functions := m.functions.map Function.skeleton }

/-- A variable of a class without its type and place. -/
def MemberVariable.skeleton (v : MemberVariable) : MemberVariable :=
  { v with type := .invalid, offset := 0 }

/-- A class without its types and places. -/
def ClassDef.skeleton (c : ClassDef) : ClassDef :=
  { c with
    parent := .invalid, interfaces := [], fields := c.fields.map MemberVariable.skeleton
    methods := c.methods.map Method.skeleton
    constructors := c.constructors.map Function.skeleton, size := 0 }

/-- An interface without its types. -/
def InterfaceDef.skeleton (i : InterfaceDef) : InterfaceDef :=
  { i with inherits := [], methods := i.methods.map Method.skeleton }

/-- A delegate without its types. -/
def DelegateDef.skeleton (d : DelegateDef) : DelegateDef :=
  { d with params := d.params.map fun p => { p with type := .invalid }, returns := [] }

/-- A coroutine without its types. -/
def CoroutineDef.skeleton (c : CoroutineDef) : CoroutineDef := { c with returns := [] }

/-- A variable of a space without its type and address. -/
def VariableDef.skeleton (v : VariableDef) : VariableDef :=
  { v with type := .invalid, address := 0 }

namespace Table

/-- A table without its types and addresses. -/
def skeleton (t : Table) : Table :=
  { t with
    classes := t.classes.map ClassDef.skeleton
    interfaces := t.interfaces.map InterfaceDef.skeleton
    delegates := t.delegates.map DelegateDef.skeleton
    coroutines := t.coroutines.map CoroutineDef.skeleton
    globals := t.globals.map VariableDef.skeleton
    methods := t.methods.map Method.skeleton
    natives := t.natives.map Method.skeleton }

variable {t t' : Table}

theorem spaces_eq_of_skeleton (same : t.skeleton = t'.skeleton) : t.spaces = t'.spaces :=
  (congrArg Table.spaces same :)

theorem home_eq_of_skeleton (same : t.skeleton = t'.skeleton) : t.home = t'.home :=
  (congrArg Table.home same :)

private theorem entryAt_skeleton (t : Table) (e : Entity) : t.skeleton.entryAt e = t.entryAt e := by
  cases e <;> simp [entryAt, skeleton, Function.comp_def, ClassDef.skeleton,
    InterfaceDef.skeleton, DelegateDef.skeleton, CoroutineDef.skeleton, VariableDef.skeleton,
    Method.skeleton]

theorem entryAt_eq_of_skeleton (same : t.skeleton = t'.skeleton) (e : Entity) :
    t.entryAt e = t'.entryAt e := by
  rw [← entryAt_skeleton t, ← entryAt_skeleton t', same]

private theorem visibilities_skeleton (t : Table) (e : Entity) :
    t.skeleton.visibilities e = t.visibilities e := by
  cases e <;> simp [visibilities, skeleton, Function.comp_def, ClassDef.skeleton,
    InterfaceDef.skeleton, DelegateDef.skeleton, CoroutineDef.skeleton, VariableDef.skeleton,
    Method.visibilities, Method.skeleton, Function.skeleton]

section

variable (same : t.skeleton = t'.skeleton)
include same

theorem visibilities_eq_of_skeleton (e : Entity) : t.visibilities e = t'.visibilities e := by
  rw [← visibilities_skeleton t, ← visibilities_skeleton t', same]

theorem find_eq_of_skeleton (key : Nat × String) : t.find key = t'.find key := by
  unfold find lookup
  rw [spaces_eq_of_skeleton same]

theorem exists_class_of_skeleton (found : t.classes[i]? = some c) :
    ∃ c', t'.classes[i]? = some c' ∧ c'.skeleton = c.skeleton :=
  exists_getElem?_of_map_eq (congrArg Table.classes same) found

theorem exists_interface_of_skeleton (found : t.interfaces[i]? = some d) :
    ∃ d', t'.interfaces[i]? = some d' ∧ d'.skeleton = d.skeleton :=
  exists_getElem?_of_map_eq (congrArg Table.interfaces same) found

end

end Table

theorem ClassDef.memberAt_eq_of_skeleton (same : c.skeleton = c'.skeleton)
    (index : Nat) (e : Entity) : c.memberAt index e = c'.memberAt index e := by
  have forget (c : ClassDef) : c.skeleton.memberAt index e = c.memberAt index e := by
    cases e <;> simp [memberAt, classMemberAt, skeleton, Function.comp_def,
      MemberVariable.skeleton, Method.skeleton]
  rw [← forget c, ← forget c', same]

theorem ClassDef.memberVisibilities_eq_of_skeleton
    (same : c.skeleton = c'.skeleton) (index : Nat) (e : Entity) :
    classMemberVisibilities c.fields c.methods index e =
      classMemberVisibilities c'.fields c'.methods index e := by
  have forget (c : ClassDef) : classMemberVisibilities c.skeleton.fields c.skeleton.methods index e
      = classMemberVisibilities c.fields c.methods index e := by
    cases e <;> simp [classMemberVisibilities, skeleton, Function.comp_def,
      MemberVariable.skeleton, Method.visibilities, Method.skeleton, Function.skeleton]
  rw [← forget c, ← forget c', same]

theorem InterfaceDef.memberVisibilities_eq_of_skeleton
    (same : d.skeleton = d'.skeleton) (index : Nat) (e : Entity) :
    interfaceMemberVisibilities d.methods index e =
      interfaceMemberVisibilities d'.methods index e := by
  have forget (d : InterfaceDef) : interfaceMemberVisibilities d.skeleton.methods index e =
      interfaceMemberVisibilities d.methods index e := by
    cases e <;> simp [interfaceMemberVisibilities, skeleton, Function.comp_def,
      Method.visibilities, Method.skeleton, Function.skeleton]
  rw [← forget d, ← forget d', same]

theorem InterfaceDef.memberAt_eq_of_skeleton (same : d.skeleton = d'.skeleton)
    (index : Nat) (e : Entity) : d.memberAt index e = d'.memberAt index e := by
  have forget (d : InterfaceDef) : d.skeleton.memberAt index e = d.memberAt index e := by
    cases e <;> simp [memberAt, interfaceMemberAt, skeleton, Function.comp_def, Method.skeleton]
  rw [← forget d, ← forget d', same]

namespace Table

variable {t t' : Table}

/-! ### Types that exist -/

/-- The table has a type of this kind with this index. -/
structure HasType (t : Table) (kind : TypeKind) (index : Nat) : Prop where
  counted : index < t.typeCount kind
  fits : kind.isDefinition = true → ∀ c, t.classes[index]? = some c → c.kind = kind

private theorem typeCount_skeleton (t : Table) (kind : TypeKind) :
    t.skeleton.typeCount kind = t.typeCount kind := by
  cases kind <;> simp [typeCount, skeleton]

theorem typeCount_eq_of_skeleton (same : t.skeleton = t'.skeleton) (kind : TypeKind) :
    t.typeCount kind = t'.typeCount kind := by
  rw [← typeCount_skeleton t, ← typeCount_skeleton t', same]

theorem HasType.of_skeleton (same : t.skeleton = t'.skeleton) {kind : TypeKind} {index : Nat}
    (has : t.HasType kind index) : t'.HasType kind index where
  counted := typeCount_eq_of_skeleton same kind ▸ has.counted
  fits := by
    intro definition c' found
    obtain ⟨c, found', alike⟩ := exists_class_of_skeleton same.symm found
    have kinds : c.kind = c'.kind := (congrArg ClassDef.kind alike :)
    rw [← kinds]
    exact has.fits definition c found'

end Table

end Linkage
