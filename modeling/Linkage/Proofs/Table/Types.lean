/-
Purpose: What holds of every type that a table mentions.
-/
import Linkage.Draft.Inheritance
import Linkage.Proofs.Table.Skeleton
import Mathlib.Tactic.MkIffOfInductiveProp

namespace Linkage

open List

variable {P Q : TypeRef → Prop}

/-- The types of a signature satisfy `P`. -/
@[mk_iff]
structure Function.Settled (P : TypeRef → Prop) (f : Function) : Prop where
  params : ∀ p ∈ f.params, P p.type
  returns : ∀ r ∈ f.returns, P r

/-- The types of all functions of a method satisfy `P`. -/
def Method.Settled (P : TypeRef → Prop) (m : Method) : Prop := ∀ f ∈ m.functions, f.Settled P

/-- The types of a class satisfy `P`.  Its parent can be one, and its interfaces are
interfaces. -/
@[mk_iff]
structure ClassDef.Settled (P : TypeRef → Prop) (c : ClassDef) : Prop where
  parent : P c.parent
  canBeParent : c.parent.canBeParent = true
  interfaces : ∀ i ∈ c.interfaces, P i ∧ i.isInterface = true
  fields : ∀ v ∈ c.fields, P v.type
  methods : ∀ m ∈ c.methods, m.Settled P
  constructors : ∀ f ∈ c.constructors, f.Settled P

/-- The types of an interface satisfy `P`, and it inherits only interfaces. -/
@[mk_iff]
structure InterfaceDef.Settled (P : TypeRef → Prop) (i : InterfaceDef) : Prop where
  inherits : ∀ base ∈ i.inherits, P base ∧ base.isInterface = true
  methods : ∀ m ∈ i.methods, m.Settled P

/-- The types of a delegate satisfy `P`. -/
@[mk_iff]
structure DelegateDef.Settled (P : TypeRef → Prop) (d : DelegateDef) : Prop where
  params : ∀ p ∈ d.params, P p.type
  returns : ∀ r ∈ d.returns, P r

/-- All types that a table mentions satisfy `P`. -/
@[mk_iff]
structure Table.Settled (P : TypeRef → Prop) (t : Table) : Prop where
  classes : ∀ c ∈ t.classes, c.Settled P
  interfaces : ∀ i ∈ t.interfaces, i.Settled P
  delegates : ∀ d ∈ t.delegates, d.Settled P
  coroutines : ∀ c ∈ t.coroutines, ∀ r ∈ c.returns, P r
  globals : ∀ v ∈ t.globals, P v.type
  methods : ∀ m ∈ t.methods, m.Settled P
  natives : ∀ m ∈ t.natives, m.Settled P

/-! ### The types that stand in a table -/

/-- The types of a signature. -/
def Function.types (f : Function) : List TypeRef := f.paramTypes ++ f.returns

/-- The types of the functions of a method. -/
def Method.types (m : Method) : List TypeRef := m.functions.flatMap (·.types)

/-- The types of a class: its parent, its interfaces and those of its members. -/
def ClassDef.types (c : ClassDef) : List TypeRef :=
  c.parent :: (c.interfaces ++ c.fields.map (·.type) ++ c.methods.flatMap (·.types) ++
    c.constructors.flatMap (·.types))

/-- The types of an interface: its base interfaces and those of its methods. -/
def InterfaceDef.types (i : InterfaceDef) : List TypeRef :=
  i.inherits ++ i.methods.flatMap (·.types)

/-- The types of the signature of a delegate. -/
def DelegateDef.types (d : DelegateDef) : List TypeRef := d.params.map (·.type) ++ d.returns

/-- Every type that stands somewhere in a table. -/
def Table.types (t : Table) : List TypeRef :=
  t.classes.flatMap (·.types) ++ t.interfaces.flatMap (·.types) ++ t.delegates.flatMap (·.types) ++
    t.coroutines.flatMap (·.returns) ++ t.globals.map (·.type) ++ t.methods.flatMap (·.types) ++
    t.natives.flatMap (·.types)

namespace Table

variable {t : Table}

/-- Parents can be parents, and interfaces are interfaces. -/
@[mk_iff]
structure Inherits (t : Table) : Prop where
  parents : ∀ c ∈ t.classes, c.parent.canBeParent = true
  interfaces : ∀ c ∈ t.classes, ∀ i ∈ c.interfaces, i.isInterface = true
  bases : ∀ i ∈ t.interfaces, ∀ base ∈ i.inherits, base.isInterface = true

theorem settled_iff_types : t.Settled P ↔ t.Inherits ∧ ∀ x ∈ t.types, P x := by
  have function (f : Function) : (∀ x ∈ f.types, P x) ↔ f.Settled P := by
    simp [Function.settled_iff, Function.types, Function.paramTypes, or_imp, forall_and]
  have method (m : Method) : (∀ x ∈ m.types, P x) ↔ m.Settled P := by
    simp only [Method.Settled, Method.types, forall_mem_flatMap, function]
  have delegate (d : DelegateDef) : (∀ x ∈ d.types, P x) ↔ d.Settled P := by
    simp [DelegateDef.settled_iff, DelegateDef.types, or_imp, forall_and]
  simp only [Table.settled_iff, ClassDef.settled_iff, InterfaceDef.settled_iff, inherits_iff, types,
    ClassDef.types, InterfaceDef.types, forall_mem_append, forall_mem_flatMap,
    forall_mem_map, forall_mem_cons, function, method, delegate, imp_and, forall_and]
  grind

theorem Settled.imp (settled : t.Settled P) (weaker : ∀ x, P x → Q x) : t.Settled Q := by
  obtain ⟨inherits, types⟩ := settled_iff_types.1 settled
  exact settled_iff_types.2 ⟨inherits, fun x member => weaker x (types x member)⟩

theorem Settled.and (one : t.Settled P) (other : t.Settled Q) : t.Settled fun x => P x ∧ Q x := by
  obtain ⟨inherits, types⟩ := settled_iff_types.1 one
  obtain ⟨-, types'⟩ := settled_iff_types.1 other
  exact settled_iff_types.2 ⟨inherits, fun x member => ⟨types x member, types' x member⟩⟩

end Table

/-! ### Signatures -/

/-- What was written of a signature, the space that it was written in, the names of its parameters,
and the types that stand in it. -/
structure Signature where
  space : Nat
  source : Option FunctionSource
  names : List String
  params : List TypeRef
  returns : List TypeRef

def Signature.types (s : Signature) : List TypeRef := s.params ++ s.returns

/-- A signature without its types. -/
def Signature.skeleton (s : Signature) : Signature :=
  { s with params := s.params.map fun _ => .invalid, returns := [] }

def Function.signature (space : Nat) (f : Function) : Signature :=
  ⟨space, f.source, f.params.map (·.name), f.paramTypes, f.returns⟩

def DelegateDef.signature (d : DelegateDef) : Signature :=
  ⟨d.space, d.source, d.params.map (·.name), d.params.map (·.type), d.returns⟩

def CoroutineDef.signature (c : CoroutineDef) : Signature := ⟨c.space, c.source, [], [], c.returns⟩

/-- A variable is written like a signature that returns its type. -/
def VariableSource.signature (source : VariableSource) : FunctionSource :=
  ⟨source.anchor, [], [source.type], none⟩

def MemberVariable.signature (space : Nat) (v : MemberVariable) : Signature :=
  ⟨space, v.source.map (·.signature), [], [], [v.type]⟩

def VariableDef.signature (v : VariableDef) : Signature :=
  ⟨v.space, v.source.map (·.signature), [], [], [v.type]⟩

/-- The signatures of the functions of a method, for a member with the space of its owner. -/
def Method.signatures (space : Nat) (m : Method) : List Signature :=
  m.functions.map (·.signature space)

/-- The signatures of the members of a class. -/
def ClassDef.signatures (c : ClassDef) : List Signature :=
  c.fields.map (·.signature c.space) ++ c.methods.flatMap (·.signatures c.space) ++
    c.constructors.map (·.signature c.space)

def InterfaceDef.signatures (i : InterfaceDef) : List Signature :=
  i.methods.flatMap (·.signatures i.space)

namespace Table

variable {t : Table}

/-- The signatures of everything in a table that has one. -/
def signatures (t : Table) : List Signature :=
  t.classes.flatMap (·.signatures) ++ t.interfaces.flatMap (·.signatures) ++
    t.methods.flatMap (fun m => m.signatures m.space) ++
    t.natives.flatMap (fun m => m.signatures m.space) ++ t.delegates.map (·.signature) ++
    t.coroutines.map (·.signature) ++ t.globals.map (·.signature)

/-- The types that types of a table inherit from. -/
def supertypes (t : Table) : List TypeRef :=
  t.classes.flatMap (fun c => c.parent :: c.interfaces) ++ t.interfaces.flatMap (·.inherits)

/-- The types of a table are those that are inherited from and those of signatures. -/
theorem settled_iff_signatures : t.Settled P ↔
    t.Inherits ∧ (∀ x ∈ t.supertypes, P x) ∧ ∀ s ∈ t.signatures, ∀ x ∈ s.types, P x := by
  have function (space : Nat) (f : Function) : (f.signature space).types = f.types := rfl
  have method (space : Nat) (m : Method) :
      (∀ s ∈ m.signatures space, ∀ x ∈ s.types, P x) ↔ ∀ x ∈ m.types, P x := by
    simp only [Method.types, Method.signatures, forall_mem_map, forall_mem_flatMap,
      function]
  have delegate (d : DelegateDef) : d.signature.types = d.types := rfl
  have coroutine (c : CoroutineDef) : c.signature.types = c.returns := rfl
  have field (space : Nat) (v : MemberVariable) : (v.signature space).types = [v.type] := rfl
  have global (v : VariableDef) : v.signature.types = [v.type] := rfl
  rw [settled_iff_types]
  simp only [types, ClassDef.types, InterfaceDef.types, supertypes, signatures,
    ClassDef.signatures, InterfaceDef.signatures, forall_mem_append, forall_mem_flatMap,
    forall_mem_map, forall_mem_cons, function, method, delegate, coroutine, field, global,
    imp_and, forall_and]
  grind

theorem map_skeleton_signatures (t : Table) :
    t.skeleton.signatures.map Signature.skeleton = t.signatures.map Signature.skeleton := by
  simp [signatures, skeleton, Signature.skeleton, map_flatMap, flatMap_map,
    Function.comp_def, ClassDef.signatures, ClassDef.skeleton, InterfaceDef.signatures,
    InterfaceDef.skeleton, Method.signatures, Method.skeleton, Function.signature,
    Function.skeleton, Function.paramTypes, MemberVariable.signature, MemberVariable.skeleton,
    VariableDef.signature, VariableDef.skeleton, DelegateDef.signature, DelegateDef.skeleton,
    CoroutineDef.signature, CoroutineDef.skeleton]

/-- What the skeletons of signatures decide carries over to a table of the same skeleton. -/
theorem forall_signatures_of_skeleton {t' : Table} {Q : Signature → Prop}
    (decided : ∀ s s' : Signature, s.skeleton = s'.skeleton → Q s → Q s')
    (same : t.skeleton = t'.skeleton) (all : ∀ s ∈ t.signatures, Q s) :
    ∀ s ∈ t'.signatures, Q s := by
  refine forall_mem_of_map_eq decided ?_ all
  rw [← map_skeleton_signatures t, same, map_skeleton_signatures]

end Table

end Linkage
