/-
Purpose: Every body of a library stands on lines of its files, from the reading of the files to
  the artifact, so that an artifact can always be built.
-/
import Linkage.Proofs.Ledger.Sources
import Linkage.Proofs.Rely.Placed
import Linkage.Proofs.Source.Accounts

namespace Linkage

open List

variable {t : Table} {source : FunctionSource} {body : Body}

/-- What holds of all signatures of a table holds of the functions of a group. -/
theorem Table.exists_signature_of_overloads {Q : Signature → Prop}
    (all : ∀ s ∈ t.signatures, Q s) {group : Declaration} {fs : List Function}
    (found : t.overloads group = some fs) : ∀ f ∈ fs, ∃ space, Q (f.signature space) := by
  simp only [signatures, ClassDef.signatures, InterfaceDef.signatures, Method.signatures,
    forall_mem_append, forall_mem_flatMap, forall_mem_map] at all
  obtain ⟨⟨⟨⟨⟨⟨classes, interfaces⟩, methods⟩, natives⟩, -⟩, -⟩, -⟩ := all
  have ofMethod {method : Method} (isMethod : t.method group = some method) :
      ∀ f ∈ method.functions, ∃ space, Q (f.signature space) := by
    intro f member
    unfold Table.method at isMethod
    split at isMethod
    · obtain ⟨c, isClass, inClass⟩ := Option.bind_eq_some_iff.1 isMethod
      have held := (classes c (mem_of_getElem? isClass)).1.2
      exact ⟨_, held method (mem_of_getElem? inClass) f member⟩
    · obtain ⟨i, isInterface, inside⟩ := Option.bind_eq_some_iff.1 isMethod
      have held := interfaces i (mem_of_getElem? isInterface)
      exact ⟨_, held method (mem_of_getElem? inside) f member⟩
    · exact ⟨_, methods method (mem_of_getElem? isMethod) f member⟩
    · exact ⟨_, natives method (mem_of_getElem? isMethod) f member⟩
    · cases isMethod
  unfold Table.overloads at found
  split at found
  all_goals
    obtain ⟨owner, isOwner, rfl⟩ := Option.map_eq_some_iff.1 found
  · exact fun f member => ⟨_, (classes owner (mem_of_getElem? isOwner)).2 f member⟩
  · exact fun f member => ⟨_, (classes owner (mem_of_getElem? isOwner)).2 f member⟩
  · exact ofMethod isOwner
/-! ### Lines of files -/

/-- What has a body was written, with it, on lines of one of the files, which have `counts`
lines. -/
def FunctionSource.Anchored (counts : List Nat) (source : FunctionSource) : Prop :=
  ∀ body, source.body = some body → ∃ count, counts[source.anchor.file]? = some count ∧
    source.anchor.span.line ≤ count ∧ body.firstLine ≤ body.lastLine ∧ body.lastLine ≤ count

/-- A signature that comes from source was written on lines of one of the files. -/
def Signature.Anchored (counts : List Nat) (s : Signature) : Prop :=
  ∀ source, s.source = some source → source.Anchored counts

/-- What a declaration says is anchored if its functions stand on lines of its file. -/
theorem Leaf.anchored_of_mem_sources {counts : List Nat} {count : Nat} {m : Merge}
    (isFile : counts[m.file]? = some count) {leaf : Leaf}
    (within : ∀ f ∈ leaf.item.callables, f.Within count) :
    ∀ written ∈ leaf.sources m, written.1.Anchored counts := by
  have function (f : FunctionDecl) (inside : f ∈ leaf.item.callables) :
      (m.functionSource f).1.Anchored counts := fun body isBody =>
    ⟨count, isFile, (within f inside).line, (within f inside).body isBody⟩
  have noBody (source : FunctionSource) (none : source.body = none) : source.Anchored counts := by
    intro body isBody
    cases none.symm.trans isBody
  cases leaf with
  | classDecl decl =>
    refine forall_mem_append.2 ⟨forall_mem_map.2 fun v _ => noBody _ rfl, ?_⟩
    exact forall_mem_map.2 function
  | interfaceDecl decl => exact forall_mem_map.2 function
  | functionDecl kind decl =>
    refine forall_mem_singleton.2 (function decl ?_)
    cases kind <;> exact mem_singleton_self _
  | _ => exact forall_mem_singleton.2 (noBody _ rfl)

namespace Draft

/-- How many lines each file has. -/
def lineCounts (d : Draft) : List Nat := d.files.map (·.lineCount)

/-- All bodies were written on lines of the files. -/
def Anchored (d : Draft) : Prop := ∀ s ∈ d.table.signatures, s.Anchored d.lineCounts

theorem lineCounts_merge (name : String) (files : List (SourceFile × Outline)) :
    (merge name files).value.lineCounts =
      files.map fun p => (Text.lines p.1.text.toList).length := by
  have from_ (index : Nat) (d : Draft) : (mergeFiles index files d).value.lineCounts =
      d.lineCounts ++ files.map fun p => (Text.lines p.1.text.toList).length := by
    induction files generalizing index d with
    | nil => exact (append_nil _).symm
    | cons p rest ih =>
      rw [mergeFiles, Noted.value_bind, ih]
      simp [lineCounts]
  exact from_ 0 _

/-- The bodies of a merged draft were written on lines of its files. -/
theorem merge_anchored (name : String) {files : List (SourceFile × Outline)}
    (within : ∀ p ∈ files, ∀ f ∈ p.2.callables, f.Within (Text.lines p.1.text.toList).length) :
    (merge name files).value.Anchored := by
  refine forall_signatures (P := fun m item => ∃ count, (merge name files).value.lineCounts[
    m.file]? = some count ∧ ∀ f ∈ item.callables, f.Within count) name ?_ ?_ ?_
  · intro i file outline isFile item member
    refine ⟨_, by rw [lineCounts_merge, getElem?_map, isFile, Option.map_some], ?_⟩
    exact fun f inside => within _ (mem_of_getElem? isFile) f
      (Item.callables_subset member inside)
  · rintro m _ _ items ⟨count, isCount, all⟩ item member
    exact ⟨count, isCount, fun f inside => all f (Item.callables_subset member inside)⟩
  · rintro m leaf ⟨count, isCount, all⟩ written isWritten s isFrom _ isSource
    cases isFrom.isSource.symm.trans isSource
    exact leaf.anchored_of_mem_sources isCount all written isWritten

/-! ### Linking -/

theorem lineCounts_linkImports (d : Draft) (relies : List Table) :
    (d.linkImports relies).value.lineCounts = d.lineCounts := by
  simp [linkImports, lineCounts, Function.comp_def]

theorem files_breakClassCycle (d : Draft) (index : Nat) :
    (d.breakClassCycle index).value.files = d.files := by
  unfold breakClassCycle
  split <;> rfl

/-- Linking changes no file but in what its imports stand for. -/
theorem lineCounts_link (d : Draft) (relies : List Table) :
    (d.link relies).value.lineCounts = d.lineCounts := by
  have classes (d : Draft) : d.breakClassCycles.value.files = d.files :=
    Noted.value_foldlM_of_step (P := fun e : Draft => e.files = d.files)
      (fun e index _ same => (e.files_breakClassCycle index).trans same) rfl
  have interfaces (d : Draft) : d.breakInterfaceCycles.value.files = d.files :=
    Noted.value_foldlM_of_step (P := fun e : Draft => e.files = d.files)
      (fun e index _ same => (congrArg files (e.value_breakInterfaceCycle index)).trans same)
      rfl
  show lineCounts ⟨_, (breakInterfaceCycles _).value.files⟩ = _
  rw [interfaces, classes]
  exact d.lineCounts_linkImports relies

variable {d : Draft} {relies : List Table}

theorem Anchored.of_skeleton (anchored : d.Anchored)
    (same : d.table.skeleton = t.skeleton) : ∀ s ∈ t.signatures, s.Anchored d.lineCounts := by
  refine Table.forall_signatures_of_skeleton (fun s s' alike held source isSource => ?_) same
    anchored
  exact held source ((congrArg Signature.source alike).trans isSource)

theorem Anchored.link (anchored : d.Anchored) : (d.link relies).value.Anchored := by
  unfold Anchored
  rw [lineCounts_link]
  exact anchored.of_skeleton (d.link_skeleton relies).symm

theorem Anchored.assignAddresses (anchored : d.Anchored) :
    Anchored { d with table := d.table.assignAddresses.1 } :=
  anchored.of_skeleton d.table.assignAddresses_skeleton.symm

end Draft

/-! ### Artifacts -/

namespace LinkedLibrary

variable {l : LinkedLibrary}

/-- What has a body in the library was written on lines of its files. -/
theorem anchored_of_mem_bodies (anchored : l.draft.Anchored) {d : Declaration}
    (member : (d, source, body) ∈ l.bodies) :
    source.Anchored l.draft.lineCounts ∧ source.body = some body := by
  obtain ⟨⟨d', f⟩, isFunction, hasBody⟩ := mem_filterMap.1 member
  obtain ⟨group, _, inGroup⟩ := mem_flatMap.1 isFunction
  obtain ⟨⟨f', i⟩, atIndex, named⟩ := mem_filterMap.1 inGroup
  obtain ⟨_, _, same⟩ := Option.map_eq_some_iff.1 named
  obtain ⟨source', isSource, hasBody⟩ := Option.bind_eq_some_iff.1 hasBody
  obtain ⟨body', isBody, same'⟩ := Option.map_eq_some_iff.1 hasBody
  cases same
  cases same'
  refine ⟨?_, isBody⟩
  have overload := mem_of_getElem? (mem_zipIdx_iff_getElem?.1 atIndex)
  cases found : l.draft.table.overloads group with
  | none => simp [found] at overload
  | some fs =>
    rw [found] at overload
    obtain ⟨_, held⟩ := Table.exists_signature_of_overloads anchored found f overload
    exact held source isSource

/-- The lines of a body that was written on lines of the files can be found. -/
theorem exists_debugEntry (anchored : source.Anchored l.draft.lineCounts)
    (hasBody : source.body = some body) (d : Declaration) :
    ∃ entry, l.debugEntry d source body = .ok entry := by
  obtain ⟨count, isCount, line, ordered, inFile⟩ := anchored body hasBody
  rw [Draft.lineCounts, getElem?_map] at isCount
  obtain ⟨file, isFile, rfl⟩ := Option.map_eq_some_iff.1 isCount
  refine ⟨⟨l.catalog.fullName d, d, file.path, body.firstLine, body.lastLine⟩, ?_⟩
  unfold debugEntry
  rw [isFile]
  dsimp only
  rw [if_neg]
  split <;> omega

theorem exists_debugEntries (anchored : l.draft.Anchored) :
    ∃ entries, l.debugEntries = .ok entries := by
  have found : Ends (fun _ => False) (fun _ => True) l.debugEntries := by
    refine Ends.bind (Ends.mapM (R := fun _ => True) fun (d, source, body) member => ?_)
      fun _ _ => .pure trivial
    obtain ⟨held, hasBody⟩ := anchored_of_mem_bodies anchored member
    obtain ⟨entry, isEntry⟩ := exists_debugEntry held hasBody d
    dsimp only
    rw [isEntry]
    trivial
  cases entries : l.debugEntries with
  | ok list => exact ⟨list, rfl⟩
  | error accident => exact (found.of_error entries).elim

/-- The artifact of a library whose functions were written on lines of its files can be
built. -/
theorem exists_artifact (anchored : l.draft.Anchored) (layout : Layout) (generated : Generated) :
    ∃ artifact, Artifact.build l layout generated = .ok artifact := by
  obtain ⟨entries, found⟩ := exists_debugEntries anchored
  unfold Artifact.build
  dsimp only
  split
  · rw [found]
    exact ⟨_, rfl⟩
  · exact ⟨_, rfl⟩

end LinkedLibrary

end Linkage
