/-
Purpose: Linking fills every slot of a merged library with the type that was written for it, and
  changes nothing else.
-/
import Linkage.Proofs.Ledger.Sources
import Linkage.Proofs.Scope.Bare
import Linkage.Proofs.Source.Accounts

namespace Linkage

open List Noted

variable {s : Signature} {source : FunctionSource} {written : FunctionSource × List ParameterDecl}

theorem Catalog.HasType.valid {c : Catalog} {x : TypeRef} (has : c.HasType x.id) :
    x ≠ .invalid := by
  rintro rfl
  obtain ⟨t, _, below, _⟩ := has
  exact Nat.not_lt_zero _ below

theorem Table.Inherits.valid {t : Table} (inherits : t.Inherits) :
    ∀ x ∈ t.supertypes, x ≠ .invalid := by
  have neither : TypeRef.invalid.canBeParent = false ∧ TypeRef.invalid.isInterface = false :=
    ⟨rfl, rfl⟩
  rintro x isSuper rfl
  obtain ⟨parents, interfaces, bases⟩ := inherits
  simp only [supertypes, mem_append, mem_flatMap, mem_cons] at isSuper
  grind

/-! ### What is recorded -/

/-- What was written of a signature is known, and all of it satisfies `R`. -/
def Signature.Recorded (R : TypeExpr → Prop) (s : Signature) : Prop :=
  ∃ written, s.From written ∧ ∀ e ∈ written.1.params ++ written.1.returns, R e

theorem Signature.Recorded.of_skeleton {R : TypeExpr → Prop} {s' : Signature}
    (same : s.skeleton = s'.skeleton) (recorded : s.Recorded R) : s'.Recorded R := by
  obtain ⟨written, isFrom, all⟩ := recorded
  have params := congrArg (fun s => s.params.length) same
  simp only [skeleton, length_map] at params
  exact ⟨written, ⟨(congrArg Signature.source same).symm.trans isFrom.isSource,
    params.symm.trans isFrom.counted, (congrArg Signature.names same).symm.trans isFrom.named⟩, all⟩

/-- The types that an item writes have names. -/
theorem Leaf.named_of_mem_sources {m : Merge} {leaf : Leaf} (spelled : leaf.item.Spelled) :
    ∀ written ∈ leaf.sources m, ∀ e ∈ written.1.params ++ written.1.returns, e.path ≠ [] := by
  cases leaf with
  | classDecl decl =>
    obtain ⟨_, fields, functions, constructors⟩ := spelled
    simp only [sources, map_append, forall_mem_append, forall_mem_map]
    exact ⟨fun v member => forall_mem_append.1 (fields v member).2,
      fun f member => forall_mem_append.1 (functions f member).2,
      fun f member => forall_mem_append.1 (constructors f member).2⟩
  | interfaceDecl decl => exact forall_mem_map.2 fun f member => (spelled.functions f member).2
  | functionDecl kind decl => cases kind <;> exact forall_mem_singleton.2 spelled.2
  | _ => exact forall_mem_singleton.2 spelled.2

namespace Draft

variable {name : String} {files : List (SourceFile × Outline)}

theorem merge_recorded (name : String) (files : List (SourceFile × Outline)) :
    ∀ s ∈ (Draft.merge name files).value.table.signatures, s.Recorded fun _ => True :=
  forall_signatures (P := fun _ _ => True) name (fun _ _ _ => trivial) (fun _ _ _ => trivial)
    fun _ _ _ written _ _ isFrom => ⟨written, isFrom, fun _ _ => trivial⟩

theorem merge_named (name : String) (read : ∀ p ∈ files, Outline.ofSource p.1.text = .ok p.2) :
    ∀ s ∈ (Draft.merge name files).value.table.signatures, s.Recorded fun e => e.path ≠ [] := by
  refine forall_signatures name (fun isFile => ?_)
    (fun spelled => Item.allSpelled_iff.1 spelled.2)
    fun m leaf spelled written isWritten s isFrom => ?_
  · have outline := read _ (mem_of_getElem? isFile)
    exact Item.allSpelled_iff.1 ((Outline.ofSource_ends _).of_ok outline).2
  · exact ⟨written, isFrom, leaf.named_of_mem_sources spelled written isWritten⟩

/-! ### What is found -/

/-- The type that an expression stands for where it was written, invalid if it stands for none. -/
def typeAt (d : Draft) (relies : List Table) (space : Nat) (anchor : Anchor) (e : TypeExpr) :
    TypeRef :=
  ((d.scope relies space none anchor).findType e).value.getD .invalid

variable {d : Draft} {relies : List Table}

/-- Signatures are linked where their types are not read, so they are found as before. -/
theorem value_findType_linkSignatures (space : Nat) (anchor : Anchor) (e : TypeExpr) :
    (((d.linkSignatures relies).value.scope relies space none anchor).findType e).value =
      ((d.scope relies space none anchor).findType e).value := by
  have same : (d.linkSignatures relies).value.table.skeleton = d.table.skeleton :=
    (linkSignatures_refits (.any d relies)).skeleton
  have bare : ((d.linkSignatures relies).value.scope relies space none anchor).bare =
      (d.scope relies space none anchor).bare := by
    simp only [Scope.bare, Catalog.bare, scope, catalog, same]
    rfl
  rw [← Scope.value_findType_bare rfl, bare, Scope.value_findType_bare rfl]

theorem exists_of_mem_linkSignatures
    (member : s ∈ (d.linkSignatures relies).value.table.signatures) :
    ∃ before ∈ d.table.signatures, (d.linkSignature relies before).value = s ∧
      ((d.linkSignatures relies).notes = [] → (d.linkSignature relies before).notes = []) := by
  have linked := linkSignatures_signatures d relies
  have values := congrArg Noted.value linked
  have notes := congrArg Noted.notes linked
  simp at values
  simp at notes
  rw [values] at member
  obtain ⟨before, isBefore, rfl⟩ := mem_map.1 member
  refine ⟨before, isBefore, rfl, fun quiet => ?_⟩
  rw [notes, flatMap_eq_nil_iff] at quiet
  exact quiet before isBefore

/-- A recorded signature is filled with the types that were written. -/
theorem value_linkSignature (isFrom : s.From written) :
    (d.linkSignature relies s).value = ⟨s.space, some written.1, s.names,
      written.1.params.map (d.typeAt relies s.space written.1.anchor),
      written.1.returns.map (d.typeAt relies s.space written.1.anchor)⟩ := by
  have linked (e : TypeExpr) : (linkType (d.scope relies s.space none written.1.anchor) e).value =
      d.typeAt relies s.space written.1.anchor e := rfl
  have rest : s.params.drop written.1.params.length = [] := drop_of_length_le isFrom.counted.le
  simp [linkSignature, isFrom.isSource, linkSource, linked, isFrom.counted, rest,
    take_of_length_le]

theorem quiet_of_linkSignature
    (isSource : s.source = some source) (quiet : (d.linkSignature relies s).notes = []) :
    ∀ e ∈ source.params ++ source.returns,
      ((d.scope relies s.space none source.anchor).findType e).notes = [] := by
  simpa [linkSignature, isSource, linkSource, linkType, or_imp, forall_and] using quiet

/-- Linking ends with the signatures, of a draft that differs in types alone. -/
theorem exists_unlinked (d : Draft) (relies : List Table) : ∃ before : Reported Draft,
    before.value.table.skeleton = d.table.skeleton ∧
    d.link relies = before >>= fun d => d.linkSignatures relies := by
  have linking : d.link relies = (do
      let d ← d.linkImports relies
      let d ← d.linkInherits relies
      let d ← d.breakClassCycles
      d.breakInterfaceCycles) >>= fun d => d.linkSignatures relies := by
    simp only [link, bind_assoc]
  refine ⟨_, ?_, linking⟩
  have skeleton := d.link_skeleton relies
  exact (linkSignatures_refits (.any _ relies)).skeleton.symm.trans skeleton

/-- Every slot of a signature holds what was written for it. -/
theorem linkSignatures_fills (recorded : ∀ s ∈ d.table.signatures, s.Recorded fun _ => True) :
    ∀ s ∈ (d.linkSignatures relies).value.table.signatures, ∃ source, s.source = some source ∧
      s.params = source.params.map
        ((d.linkSignatures relies).value.typeAt relies s.space source.anchor) ∧
      s.returns = source.returns.map
        ((d.linkSignatures relies).value.typeAt relies s.space source.anchor) := by
  have typeAt_eq : (d.linkSignatures relies).value.typeAt relies = d.typeAt relies := by
    funext space anchor e
    exact congrArg (·.getD .invalid) (value_findType_linkSignatures space anchor e)
  intro s member
  obtain ⟨before, isBefore, rfl, _⟩ := exists_of_mem_linkSignatures member
  obtain ⟨written, isFrom, _⟩ := recorded before isBefore
  rw [value_linkSignature isFrom, typeAt_eq]
  exact ⟨written.1, rfl, rfl, rfl⟩

/-- If nothing is reported, something was found for every slot. -/
theorem linkSignatures_finds (named : ∀ s ∈ d.table.signatures, s.Recorded fun e => e.path ≠ [])
    (quiet : (d.linkSignatures relies).notes = []) :
    ∀ s ∈ (d.linkSignatures relies).value.table.signatures, ∀ x ∈ s.types, ∃ anchor e,
      (((d.linkSignatures relies).value.scope relies s.space none anchor).findType e).value =
        some x := by
  intro s member x isType
  obtain ⟨before, isBefore, rfl, hushed⟩ := exists_of_mem_linkSignatures member
  obtain ⟨⟨source, decls⟩, isFrom, all⟩ := named before isBefore
  rw [value_linkSignature isFrom] at isType ⊢
  rw [Signature.types, ← map_append] at isType
  obtain ⟨e, written, rfl⟩ := mem_map.1 isType
  have silent := quiet_of_linkSignature isFrom.isSource (hushed quiet) e written
  obtain ⟨x, found⟩ := Scope.exists_of_findType (all e written) silent
  refine ⟨source.anchor, e, ?_⟩
  rw [value_findType_linkSignatures, typeAt, found]
  rfl

/-- If nothing is reported, every type that linking leaves exists. -/
theorem settled_of_quiet_link (made : d.table.WellMade) (unlinked : d.table.Settled IsOpen)
    (named : ∀ s ∈ d.table.signatures, s.Recorded fun e => e.path ≠ [])
    (others : ∀ {i : Nat} {t : Table}, relies[i]? = some t → t.Sound (.rely i))
    (quiet : (d.link relies).notes = []) :
    (d.link relies).value.table.Settled fun x =>
      x ≠ .invalid ∧ ((d.link relies).value.catalog relies).HasType x.id := by
  obtain ⟨inherits, fits, _⟩ := Table.settled_iff_signatures.1 (link_settled made unlinked others)
  have sound : ((d.link relies).value.catalog relies).Sound :=
    catalog_sound (link_wellMade made).sound others
  obtain ⟨before, same, linking⟩ := d.exists_unlinked relies
  rw [linking, notes_bind, append_eq_nil_iff] at quiet
  rw [linking] at inherits fits sound ⊢
  refine Table.settled_iff_signatures.2 ⟨inherits, fun x isSuper => ?_, fun s member x isType => ?_⟩
  · have valid := inherits.valid x isSuper
    exact ⟨valid, (fits x isSuper).resolve_left valid⟩
  · have named := Table.forall_signatures_of_skeleton
      (fun _ _ => Signature.Recorded.of_skeleton) same.symm named
    obtain ⟨anchor, e, found⟩ := linkSignatures_finds named quiet.2 s member x isType
    have has := Scope.hasType_of_findType sound rfl found
    exact ⟨has.valid, has⟩

/-- Linking fills every slot with what was written for it and changes nothing else. -/
theorem link_fills (name : String) (files : List (SourceFile × Outline)) (relies : List Table) :
    let merged := (Draft.merge name files).value
    let linked := (merged.link relies).value
    linked.table.skeleton = merged.table.skeleton ∧
    (∀ s ∈ linked.table.signatures, ∃ source, s.source = some source ∧
      s.params = source.params.map (linked.typeAt relies s.space source.anchor) ∧
      s.returns = source.returns.map (linked.typeAt relies s.space source.anchor)) ∧
    ((∀ p ∈ files, Outline.ofSource p.1.text = .ok p.2) →
      (∀ {i : Nat} {t : Table}, relies[i]? = some t → t.Sound (.rely i)) →
      (merged.link relies).notes = [] →
      linked.table.Settled fun x => x ≠ .invalid ∧ (linked.catalog relies).HasType x.id) := by
  refine ⟨Draft.link_skeleton _ relies, ?_,
    fun read => settled_of_quiet_link (merge_wellMade name files) (merge_settled name files)
      (merge_named name read)⟩
  obtain ⟨before, same, linking⟩ := (Draft.merge name files).value.exists_unlinked relies
  rw [linking, value_bind]
  exact linkSignatures_fills (Table.forall_signatures_of_skeleton
    (fun _ _ => Signature.Recorded.of_skeleton) same.symm (merge_recorded name files))

end Draft

end Linkage
