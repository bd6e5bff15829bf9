/-
Purpose: Linking writes types that exist into a draft and leaves everything else as it is.
-/
import Linkage.Draft.Link
import Linkage.Proofs.Link.Dropped
import Linkage.Proofs.Merge.Growth
import Linkage.Proofs.Scope.Precedence

namespace Linkage

open List Noted

variable {t t' : Table} {type : TypeRef} {types : List TypeRef} {s : Scope} {c : ClassDef}
  {P : TypeRef → Prop}

/-- Nothing but types has changed, and those still satisfy `P` if they did. -/
structure Table.Refits (P : TypeRef → Prop) (t t' : Table) : Prop where
  skeleton : t'.skeleton = t.skeleton
  settled : t.Settled P → t'.Settled P

namespace Table.Refits

theorem refl (t : Table) : Refits P t t := ⟨rfl, id⟩

theorem trans {t'' : Table} (first : Refits P t t') (second : Refits P t' t'') : Refits P t t'' :=
  ⟨second.skeleton.trans first.skeleton, fun held => second.settled (first.settled held)⟩

end Table.Refits

/-- A type of the catalog, or the mark of one that could not be resolved. -/
def Catalog.Fits (c : Catalog) (type : TypeRef) : Prop := type = .invalid ∨ c.HasType type.id

/-- A catalog whose own table changes nothing but types has the same types. -/
theorem Catalog.Fits.of_skeleton {relies : List Table} (same : t.skeleton = t'.skeleton)
    (fits : Catalog.Fits ⟨t, relies⟩ type) : Catalog.Fits ⟨t', relies⟩ type := by
  refine fits.imp_right ?_
  rintro ⟨u, atHome, has⟩
  cases home : type.id.home with
  | here =>
    rw [home] at atHome
    cases atHome
    exact ⟨t', by rw [home]; rfl, has.of_skeleton same⟩
  | kernel | rely i =>
    rw [home] at atHome
    exact ⟨u, by rw [home]; exact atHome, has⟩

namespace Draft

variable {d : Draft} {relies : List Table}

/-- Whatever an expression in the draft is resolved to satisfies `P`, and so do the types that
linking falls back to. -/
structure Resolves (P : TypeRef → Prop) (d : Draft) (relies : List Table) : Prop where
  found : ∀ {space anchor e type},
    ((d.scope relies space none anchor).findType e).value = some type → P type
  unresolved : P .invalid
  root : P TypeId.handle.scalar

theorem Resolves.any (d : Draft) (relies : List Table) : d.Resolves (fun _ => True) relies :=
  ⟨fun _ => ⟨⟩, ⟨⟩, ⟨⟩⟩

section

variable (own : d.table.Sound .here)
    (others : ∀ {i : Nat} {t : Table}, relies[i]? = some t → t.Sound (.rely i))
include own others

/-- A draft with sound names stands beside sound libraries. -/
theorem catalog_sound : (d.catalog relies).Sound := by
  intro home t atHome
  cases home with
  | kernel =>
    cases atHome
    exact Kernel.sound_table
  | here =>
    cases atHome
    exact own
  | rely i => exact others atHome

/-- A draft with sound names beside sound libraries resolves to types of its catalog. -/
theorem resolves_of_sound : d.Resolves (d.catalog relies).Fits relies where
  found := fun found => .inr (Scope.hasType_of_findType (catalog_sound own others) rfl found)
  unresolved := .inl rfl
  root := .inr ⟨Kernel.table, rfl, by decide, by decide⟩

end

/-! ### Signatures -/

section Signatures

variable (d : Draft) (relies : List Table) (space : Nat)

/-- Link what was written of a signature.  A parameter that nothing was written for keeps its
type. -/
def linkSignature (s : Signature) : Reported Signature :=
  match s.source with
  | none => pure s
  | some source => do
    let (params, returns) ← d.linkSource relies s.space source
    return { s with params := params.take s.params.length ++ s.params.drop params.length, returns }

theorem map_type_fillTypes (params : List Parameter) (types : List TypeRef) :
    (fillTypes params types).map (·.type) =
      types.take params.length ++ (params.map (·.type)).drop types.length := by
  fun_induction fillTypes params types with
  | case1 p params type types ih => simp [ih]
  | case2 params types noMore =>
    cases params with
    | nil => simp
    | cons p params =>
      cases types with
      | nil => rfl
      | cons type types => exact absurd rfl (noMore p params type types rfl)

theorem map_name_fillTypes (params : List Parameter) (types : List TypeRef) :
    (fillTypes params types).map (·.name) = params.map (·.name) := by
  fun_induction fillTypes params types with
  | case1 p params type types ih => simp [ih]
  | case2 params types noMore => rfl

theorem linkFunction_signature (f : Function) :
    (·.signature space) <$> d.linkFunction relies space f =
      d.linkSignature relies (f.signature space) := by
  apply Noted.ext <;> cases source : f.source <;>
    simp [linkFunction, linkSignature, Function.signature, Function.paramTypes, source,
      map_type_fillTypes, map_name_fillTypes]

theorem linkMember_signature (v : MemberVariable) :
    (·.signature space) <$> d.linkMember relies space v =
      d.linkSignature relies (v.signature space) := by
  apply Noted.ext <;> cases source : v.source <;>
    simp [linkMember, linkSignature, MemberVariable.signature, source, linkSource,
      VariableSource.signature]

theorem linkVariable_signature (v : VariableDef) :
    (·.signature) <$> d.linkVariable relies v = d.linkSignature relies v.signature := by
  apply Noted.ext <;> cases source : v.source <;>
    simp [linkVariable, linkSignature, VariableDef.signature, source, linkSource,
      VariableSource.signature]

theorem linkDelegate_signature (x : DelegateDef) :
    (·.signature) <$> d.linkDelegate relies x = d.linkSignature relies x.signature := by
  apply Noted.ext <;> cases source : x.source <;>
    simp [linkDelegate, linkSignature, DelegateDef.signature, source, map_type_fillTypes,
      map_name_fillTypes]

theorem linkCoroutine_signature (x : CoroutineDef) :
    (·.signature) <$> d.linkCoroutine relies x = d.linkSignature relies x.signature := by
  apply Noted.ext <;> cases source : x.source <;>
    simp [linkCoroutine, linkSignature, CoroutineDef.signature, source]

/-- Linking links every signature, one after the other. -/
theorem linkSignatures_signatures : (·.table.signatures) <$> d.linkSignatures relies =
    Noted.traverse (d.linkSignature relies) d.table.signatures := by
  apply Noted.ext <;>
    simp [linkSignatures, linkMembers, linkMethod, Table.signatures, ClassDef.signatures,
      InterfaceDef.signatures, Method.signatures, Function.comp_def, flatMap_map,
      map_flatMap, flatMap_assoc, ← linkFunction_signature, ← linkMember_signature,
      ← linkVariable_signature, ← linkDelegate_signature, ← linkCoroutine_signature]

end Signatures

theorem linkType_settled (resolves : d.Resolves P relies) (space : Nat) (anchor : Anchor)
    (e : TypeExpr) : P (linkType (d.scope relies space none anchor) e).value := by
  simp only [linkType, value_bind, value_pure]
  cases found : ((d.scope relies space none anchor).findType e).value with
  | none => exact resolves.unresolved
  | some type => exact resolves.found found

theorem linkSignature_settled (resolves : d.Resolves P relies) {s : Signature}
    (settled : ∀ x ∈ s.types, P x) : ∀ x ∈ (d.linkSignature relies s).value.types, P x := by
  unfold linkSignature
  split
  · exact settled
  · rename_i source _
    simp only [Signature.types, linkSource, value_bind, value_pure,
      value_traverse, forall_mem_append, forall_mem_map] at settled ⊢
    refine ⟨⟨fun x member => ?_, fun x member => ?_⟩, fun e _ => ?_⟩
    · obtain ⟨e, _, rfl⟩ := mem_map.1 (mem_of_mem_take member)
      exact linkType_settled resolves s.space source.anchor e
    · exact settled.1 x (mem_of_mem_drop member)
    · exact linkType_settled resolves s.space source.anchor e

theorem fillTypes_skeleton (params : List Parameter) (types : List TypeRef) :
    (fillTypes params types).map (fun p => { p with type := .invalid }) =
      params.map fun p => { p with type := .invalid } := by
  fun_induction fillTypes params types with
  | case1 p params type types ih => simp [ih]
  | case2 params types => rfl

theorem linkFunction_skeleton (space : Nat) (f : Function) :
    (d.linkFunction relies space f).value.skeleton = f.skeleton := by
  unfold linkFunction
  split
  · rfl
  · simp [Function.skeleton, fillTypes_skeleton]

theorem linkMethod_skeleton (space : Nat) (m : Method) :
    (d.linkMethod relies space m).value.skeleton = m.skeleton := by
  simp [linkMethod, Method.skeleton, linkFunction_skeleton]

theorem linkMember_skeleton (space : Nat) (v : MemberVariable) :
    (d.linkMember relies space v).value.skeleton = v.skeleton := by
  unfold linkMember
  split <;> rfl

theorem linkVariable_skeleton (v : VariableDef) :
    (d.linkVariable relies v).value.skeleton = v.skeleton := by
  unfold linkVariable
  split <;> rfl

theorem linkMembers_skeleton (c : ClassDef) :
    (d.linkMembers relies c).value.skeleton = c.skeleton := by
  simp [linkMembers, ClassDef.skeleton, linkMember_skeleton, linkMethod_skeleton,
    linkFunction_skeleton]

theorem linkDelegate_skeleton (x : DelegateDef) :
    (d.linkDelegate relies x).value.skeleton = x.skeleton := by
  unfold linkDelegate
  split
  · rfl
  · simp [DelegateDef.skeleton, fillTypes_skeleton]

theorem linkCoroutine_skeleton (x : CoroutineDef) :
    (d.linkCoroutine relies x).value.skeleton = x.skeleton := by
  unfold linkCoroutine
  split <;> rfl

/-- Linking the signatures refits the table. -/
theorem linkSignatures_refits (resolves : d.Resolves P relies) :
    d.table.Refits P (d.linkSignatures relies).value.table where
  skeleton := by
    simp [linkSignatures, Table.skeleton, linkMembers_skeleton, linkMethod_skeleton,
      linkDelegate_skeleton, linkCoroutine_skeleton, linkVariable_skeleton,
      InterfaceDef.skeleton, Function.comp_def]
  settled := by
    intro settled
    obtain ⟨inherits, above, types⟩ := Table.settled_iff_signatures.1 settled
    have linked : (d.linkSignatures relies).value.table.signatures = _ :=
      congrArg value (d.linkSignatures_signatures relies)
    refine Table.settled_iff_signatures.2 ⟨?_, ?_, ?_⟩
    · simpa [Table.inherits_iff, linkSignatures, linkMembers] using inherits
    · simpa [Table.supertypes, linkSignatures, linkMembers, flatMap_map] using above
    · rw [linked, value_traverse]
      exact forall_mem_map.2 fun s member => linkSignature_settled resolves (types s member)

/-! ### Inheritance lists -/

theorem forall_mem_appendNew {Q : TypeRef → Prop}
    (old : ∀ x ∈ types, Q x) (new : Q type) : ∀ x ∈ appendNew types type, Q x := by
  unfold appendNew
  split
  · exact old
  · exact forall_mem_append.2 ⟨old, by simpa using new⟩

theorem addInherits_skeleton (s : Scope) (first : Bool) (es : List TypeExpr) (c : ClassDef) :
    (addInherits s first es c).value.skeleton = c.skeleton := by
  induction es generalizing first c with
  | nil => rfl
  | cons e rest ih =>
    simp only [addInherits, value_bind]
    split
    · exact ih _ _
    · split
      · exact ih _ _
      · split
        · exact ih _ _
        · exact ih _ _

theorem addInherits_settled (found : ∀ e type, (s.findType e).value = some type → P type)
    (first : Bool) (es : List TypeExpr) (settled : c.Settled P) :
    (addInherits s first es c).value.Settled P := by
  induction es generalizing first c with
  | nil => exact settled
  | cons e rest ih =>
    simp only [addInherits, value_bind]
    split
    · exact ih _ settled
    · rename_i type isType
      have holds := found e type isType
      split
      · rename_i isInterface
        refine ih _ { settled with interfaces := ?_ }
        exact forall_mem_appendNew settled.interfaces ⟨holds, isInterface⟩
      · split
        · rename_i asParent
          simp at asParent
          exact ih _ { settled with parent := holds, canBeParent := asParent.2 }
        · exact ih _ settled

theorem linkClass_skeleton (c : ClassDef) : (d.linkClass relies c).value.skeleton = c.skeleton := by
  unfold linkClass
  split
  · rfl
  · rw [addInherits_skeleton]
    rfl

theorem linkClass_settled (resolves : d.Resolves P relies)
    (settled : c.Settled P) : (d.linkClass relies c).value.Settled P := by
  unfold linkClass
  split
  · exact settled
  · refine addInherits_settled (fun e type found => resolves.found found) _ _ ?_
    exact { settled with
      parent := resolves.root, canBeParent := rfl
      interfaces := forall_mem_nil _ }

theorem baseInterfaces_settled (found : ∀ e type, (s.findType e).value = some type → P type)
    (name : String) (es : List TypeExpr) (old : ∀ x ∈ types, P x ∧ x.isInterface = true) :
    ∀ x ∈ (baseInterfaces s name types es).value, P x ∧ x.isInterface = true := by
  induction es generalizing types with
  | nil => exact old
  | cons e rest ih =>
    simp only [baseInterfaces, value_bind]
    split
    · exact ih old
    · rename_i type isType
      split
      · rename_i isInterface
        exact ih (forall_mem_appendNew old ⟨found e type isType, isInterface⟩)
      · exact ih old

theorem linkInterface_skeleton (i : InterfaceDef) :
    (d.linkInterface relies i).value.skeleton = i.skeleton := by
  unfold linkInterface
  split <;> rfl

theorem linkInterface_settled (resolves : d.Resolves P relies) {i : InterfaceDef}
    (settled : i.Settled P) : (d.linkInterface relies i).value.Settled P := by
  unfold linkInterface
  split
  · exact settled
  · refine { settled with inherits := ?_ }
    exact baseInterfaces_settled (fun e type found => resolves.found found) _ _
      (forall_mem_nil _)

/-- Linking the inheritance lists refits the table. -/
theorem linkInherits_refits (resolves : d.Resolves P relies) :
    d.table.Refits P (d.linkInherits relies).value.table where
  skeleton := by
    simp [linkInherits, Table.skeleton, linkClass_skeleton, linkInterface_skeleton]
  settled := by
    intro settled
    simp only [linkInherits, value_bind, value_pure, value_traverse]
    refine { settled with classes := ?_, interfaces := ?_ } <;> rw [forall_mem_map]
    · exact fun c member => linkClass_settled resolves (settled.classes c member)
    · exact fun i member => linkInterface_settled resolves (settled.interfaces i member)

/-! ### Cycles -/

theorem breakClassCycle_refits (root : P TypeId.handle.scalar) (d : Draft) (index : Nat) :
    d.table.Refits P (d.breakClassCycle index).value.table := by
  unfold breakClassCycle
  split
  · exact .refl _
  · refine ⟨?_, ?_⟩
    · simp only [Table.skeleton, value_bind, value_pure]
      rw [map_modify_of_keeps (fun c => by rfl)]
    · intro settled
      refine { settled with classes := ?_ }
      exact forall_mem_modify
        (fun c held => { held with parent := root, canBeParent := rfl }) settled.classes index

theorem breakClassCycles_refits (root : P TypeId.handle.scalar) (d : Draft) :
    d.table.Refits P d.breakClassCycles.value.table :=
  value_foldlM_of_step (P := fun d' => d.table.Refits P d'.table)
    (fun d' index _ held => held.trans (breakClassCycle_refits root d' index)) (.refl _)

theorem breakInterfaceCycle_refits (d : Draft) (index : Nat) :
    d.table.Refits P (d.breakInterfaceCycle index).value.table := by
  rw [value_breakInterfaceCycle]
  refine ⟨?_, ?_⟩
  · simp only [Table.skeleton]
    rw [map_modify_of_keeps (fun i => by rfl)]
  · intro settled
    refine { settled with interfaces := ?_ }
    refine forall_mem_modify (fun i held => ?_) settled.interfaces index
    exact { held with
      inherits := fun base inside => held.inherits base (mem_of_mem_filter inside) }

theorem breakInterfaceCycles_refits (d : Draft) :
    d.table.Refits P d.breakInterfaceCycles.value.table :=
  value_foldlM_of_step (P := fun d' => d.table.Refits P d'.table)
    (fun d' index _ held => held.trans (breakInterfaceCycle_refits d' index)) (.refl _)

/-! ### Linking -/

/-- Linking refits the table, if types are resolved well in all drafts that differ from this
one in types alone. -/
theorem link_refits
    (resolves : ∀ d' : Draft, d'.table.skeleton = d.table.skeleton → d'.Resolves P relies) :
    d.table.Refits P (d.link relies).value.table := by
  have root : P TypeId.handle.scalar := (resolves d rfl).root
  simp only [link, value_bind]
  have imports : (d.linkImports relies).value.table = d.table := rfl
  generalize (d.linkImports relies).value = imported at imports ⊢
  have inherits := linkInherits_refits (resolves imported (by rw [imports]))
  rw [imports] at inherits
  generalize (imported.linkInherits relies).value = inherited at inherits ⊢
  have classes := inherits.trans (breakClassCycles_refits root inherited)
  generalize inherited.breakClassCycles.value = broken at classes ⊢
  have interfaces := classes.trans (breakInterfaceCycles_refits broken)
  exact interfaces.trans (linkSignatures_refits (resolves _ interfaces.skeleton))

theorem link_skeleton (d : Draft) (relies : List Table) :
    (d.link relies).value.table.skeleton = d.table.skeleton :=
  (link_refits fun d _ => .any d relies).skeleton

end Draft

/-- The names of a table from source lead to entries of it. -/
theorem Table.WellMade.sound {t : Table} (made : t.WellMade) : t.Sound .here where
  home := made.home
  kinds := by
    intro c member
    obtain ⟨i, found⟩ := mem_iff_getElem?.1 member
    rw [(made.classes found).kind]
    rfl
  names := made.names.sound

namespace Draft

variable {d : Draft} {relies : List Table}

/-- Linking changes nothing but types, and writes only types that exist. -/
theorem link_refits_of_sound (made : d.table.WellMade)
    (others : ∀ {i : Nat} {t : Table}, relies[i]? = some t → t.Sound (.rely i)) :
    d.table.Refits (d.catalog relies).Fits (d.link relies).value.table := by
  refine link_refits fun d' same => ?_
  have resolves := resolves_of_sound (made.of_skeleton same.symm).sound others
  exact ⟨fun found => (resolves.found found).of_skeleton same,
    resolves.unresolved.of_skeleton same, resolves.root.of_skeleton same⟩

theorem link_wellMade (made : d.table.WellMade) : (d.link relies).value.table.WellMade :=
  made.of_skeleton (d.link_skeleton relies).symm

/-- All types of a linked table exist, or could not be resolved. -/
theorem link_settled (made : d.table.WellMade) (unlinked : d.table.Settled IsOpen)
    (others : ∀ {i : Nat} {t : Table}, relies[i]? = some t → t.Sound (.rely i)) :
    (d.link relies).value.table.Settled ((d.link relies).value.catalog relies).Fits := by
  have refits := link_refits_of_sound made others
  have before : d.table.Settled (d.catalog relies).Fits := by
    refine unlinked.imp ?_
    rintro type (rfl | rfl)
    · exact .inl rfl
    · exact .inr ⟨Kernel.table, rfl, by decide, by decide⟩
  exact (refits.settled before).imp fun _ fits => fits.of_skeleton refits.skeleton.symm

end Draft

end Linkage
