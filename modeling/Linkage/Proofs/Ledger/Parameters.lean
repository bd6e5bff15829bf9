/-
Purpose: The names of the parameters in a merged table, and when they are distinct.
-/
import Linkage.Compile.Pipeline
import Linkage.Proofs.Ledger.Sources
import Mathlib

namespace Linkage

open List Noted

variable {decls : List ParameterDecl}

namespace ParameterDecl

/-- A parameter is named as one without a name is called for its position. -/
def Clash (decls : List ParameterDecl) : Prop :=
  ∃ (i j : Nat) (p q : ParameterDecl), decls[i]? = some p ∧ decls[j]? = some q ∧
    p.name = some s!"arg{j}" ∧ q.name = none

theorem nodup_names (distinct : (decls.filterMap (·.name)).Nodup) :
    (names decls).Nodup ↔ ¬Clash decls := by
  have named {i : Nat} {p : ParameterDecl} (found : decls[i]? = some p) :
      (names decls)[i]? = some (p.name.getD s!"arg{i}") := by
    rw [names, getElem?_mapIdx, found, Option.map_some]
  constructor
  · rintro apart ⟨i, j, p, q, atI, atJ, isName, unnamed⟩
    have same : (names decls)[i]? = (names decls)[j]? := by
      rw [named atI, named atJ, isName, unnamed]
      rfl
    obtain rfl := (getElem?_inj (lt_of_getElem? (named atI)) apart).1 same
    cases atI.symm.trans atJ
    cases isName.symm.trans unnamed
  · intro apart
    refine nodup_iff_getElem?_ne_getElem?.2 fun i j before inside same => ?_
    have inside : j < decls.length := by simpa [names] using inside
    have atI := getElem?_eq_getElem (Nat.lt_trans before inside)
    have atJ := getElem?_eq_getElem inside
    rw [named atI, named atJ, Option.some.injEq] at same
    cases isI : decls[i].name <;> cases isJ : decls[j].name <;> rw [isI, isJ] at same
    · have number : i = j := Nat.repr_injective (by simpa using same)
      omega
    · exact apart ⟨j, i, _, _, atJ, atI, isJ.trans (congrArg some same.symm), isI⟩
    · exact apart ⟨i, j, _, _, atI, atJ, isI.trans (congrArg some same), isJ⟩
    · exact pairwise_iff_getElem.1 (pairwise_filterMap.1 distinct) i j _ inside before _ isI _ isJ
        same

end ParameterDecl

open ParameterDecl (names nodup_names Clash)

/-! ### What is read without complaints -/

theorem Noted.exists_quiet_of_foldlM {ν σ α : Type} {f : σ → α → Noted ν σ} {xs : List α} {s : σ}
    (quiet : (xs.foldlM f s).notes = []) : ∀ a ∈ xs, ∃ s, (f s a).notes = [] := by
  induction xs generalizing s with
  | nil => exact forall_mem_nil _
  | cons a rest ih =>
    rw [foldlM_cons, notes_bind, append_eq_nil_iff] at quiet
    exact forall_mem_cons.2 ⟨⟨s, quiet.1⟩, ih quiet.2⟩

namespace Merge

variable {m : Merge}

theorem nodup_of_reportRepeated {seen : List String}
    (quiet : (m.reportRepeated seen decls).notes = []) :
    (decls.filterMap (·.name)).Nodup ∧ ∀ name ∈ decls.filterMap (·.name), name ∉ seen := by
  fun_induction reportRepeated m seen decls with
  | case1 seen => simp
  | case2 seen p rest unnamed ih => simpa [unnamed] using ih quiet
  | case3 seen p rest name isName again ih => simp [note] at quiet
  | case4 seen p rest name isName new ih =>
    obtain ⟨distinct, apart⟩ := ih quiet
    simp only [filterMap_cons, isName, nodup_cons, forall_mem_cons]
    refine ⟨⟨fun again => apart name again (mem_cons_self ..), distinct⟩, new, ?_⟩
    exact fun other member inside => apart other member (mem_cons_of_mem _ inside)

theorem nodup_of_params (quiet : (m.params decls).notes = []) :
    (decls.filterMap (·.name)).Nodup := by
  have reported : (m.reportRepeated [] decls).notes = [] := by simpa [params] using quiet
  exact (nodup_of_reportRepeated reported).1

theorem quiet_of_addMemberFunction {owner : String} {index space : Nat} {members : Members}
    {decl : FunctionDecl} (quiet : (m.addMemberFunction owner index space members decl).notes = []) :
    (m.params decl.params).notes = [] := by
  unfold addMemberFunction at quiet
  split at quiet
  · simp [note] at quiet
  · dsimp only at quiet
    split at quiet <;> simp_all [note, function]

theorem quiet_of_function {decl : FunctionDecl} {v : Visibility}
    (quiet : (m.function decl v).notes = []) : (m.params decl.params).notes = [] := by
  simpa [function] using quiet

/-- Nothing is wrong with the parameters of a declaration that nothing is wrong with. -/
theorem Fine.quiet_params {leaf : Leaf} (fine : m.Fine leaf) :
    ∀ written ∈ leaf.sources m, (m.params written.2).notes = [] := by
  have quiet := fine.2
  cases leaf with
  | classDecl decl =>
    simp only [entry, classEntry, notes_map, notes_bind, notes_pure, append_eq_nil_iff,
      notes_traverse, flatMap_eq_nil_iff] at quiet
    obtain ⟨_, functions, constructors, _⟩ := quiet
    simp only [Leaf.sources, forall_mem_append, forall_mem_map, map_append]
    refine ⟨fun _ _ => rfl, fun f member => ?_, fun f member => ?_⟩
    · obtain ⟨_, quiet⟩ := exists_quiet_of_foldlM functions f member
      exact quiet_of_addMemberFunction quiet
    · exact quiet_of_function (constructors f member)
  | interfaceDecl decl =>
    simp only [entry, interfaceEntry, notes_map, notes_bind, notes_pure, append_nil] at quiet
    refine forall_mem_map.2 fun f member => ?_
    obtain ⟨_, quiet⟩ := exists_quiet_of_foldlM quiet f member
    rw [Numbering.notes_addInterfaceFunction, append_eq_nil_iff] at quiet
    exact quiet_of_function quiet.2
  | delegateDecl decl => exact forall_mem_singleton.2 (by simpa [entry] using quiet)
  | coroutineDecl decl | variableDecl decl => exact forall_mem_singleton.2 rfl
  | functionDecl kind decl =>
    rw [notes_entry_functionDecl] at quiet
    exact forall_mem_singleton.2 (quiet_of_function quiet)

/-- Nothing is wrong with a declaration that is added without complaints. -/
theorem fine_of_addItem {leaf : Leaf} {t : Table} {space : Nat}
    (quiet : (m.addItem space leaf.item t).notes = []) : m.Fine leaf := by
  cases group : leaf.group t space with
  | some method =>
    obtain ⟨kind, decl, rfl, isGroup⟩ := Leaf.group_eq_some.1 group
    rw [addItem_of_group isGroup] at quiet
    simpa [Fine, notes_entry_functionDecl] using quiet
  | none =>
    cases taken : takenBy t space leaf.name with
    | none =>
      rw [(addItem_of_free taken).2, append_eq_nil_iff, m.notes_entry _ 0 0] at quiet
      exact quiet
    | some kind => simp [addItem_of_taken taken group] at quiet

end Merge

/-- The parameters in the table of files that are merged without complaints have the names that are
written or given to them.  They are distinct just if none is written that is given to another. -/
theorem Draft.parameterNames_merge {name : String} {files : List (SourceFile × Outline)}
    (quiet : (Draft.merge name files).notes = []) :
    ∀ s ∈ (Draft.merge name files).value.table.signatures,
      ∃ v ∈ visits name files, ∃ leaf : Leaf, v.item = leaf.item ∧
        ∃ written ∈ leaf.sources v.merge, s.source = some written.1 ∧
          s.names = names written.2 ∧ (s.names.Nodup ↔ ¬Clash written.2) := by
  intro s member
  obtain ⟨v, isVisit, leaf, isLeaf, written, isWritten, isFrom⟩ := exists_visit member
  rw [(visited name files).notes, flatMap_eq_nil_iff] at quiet
  have own := quiet v isVisit
  rw [Visit.own, isLeaf, leaf.alone_item] at own
  have distinct := Merge.nodup_of_params ((Merge.fine_of_addItem own).quiet_params _ isWritten)
  exact ⟨v, isVisit, leaf, isLeaf, written, isWritten, isFrom.isSource, isFrom.named,
    isFrom.named ▸ nodup_names distinct⟩

/-- A function whose second parameter has no name, and whose first has the one it is given. -/
def Sample.namesakes : Reported Draft :=
  Draft.merge "Namesakes" (readFiles [⟨"a", "f(integer arg1, real)\n"⟩]).value

/-- Both parameters are written, and one of them is named as the other is called. -/
theorem Draft.parameterNames_merge_namesakes : ∃ s ∈ Sample.namesakes.value.table.signatures,
    s.names = ["arg1", "arg1"] ∧ ∃ decls, s.names = names decls ∧ Clash decls := by
  have quiet : Sample.namesakes.notes = [] := by decide +kernel
  have shape : ["arg1", "arg1"] ∈ Sample.namesakes.value.table.signatures.map (·.names) := by
    decide +kernel
  obtain ⟨s, member, shown⟩ := mem_map.1 shape
  obtain ⟨_, _, _, _, written, _, _, same, distinct⟩ := Draft.parameterNames_merge quiet s member
  refine ⟨s, member, shown, written.2, same, not_not.1 fun apart => ?_⟩
  rw [← distinct, shown] at apart
  exact absurd apart (by decide)

/-- Nothing is reported about them, and the names of the parameters are not distinct. -/
theorem Draft.parameterNames_repeated : Sample.namesakes.notes = [] ∧
    ∃ f ∈ Sample.namesakes.value.table.methods.flatMap (·.functions),
      ¬(f.params.map (·.name)).Nodup := by
  decide +kernel

end Linkage
