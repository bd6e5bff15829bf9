/-
Purpose: Every signature of a merged table was written in one of the files.
-/
import Linkage.Proofs.Ledger.Conserved

namespace Linkage

open List

/-! ### What is written -/

/-- The names of parameters: those that are written, and one for its position where none is. -/
def ParameterDecl.names (decls : List ParameterDecl) : List String :=
  decls.mapIdx fun i p => p.name.getD s!"arg{i}"

/-- What is known of the signature of a function when it is read, and its parameters. -/
def Merge.functionSource (m : Merge) (decl : FunctionDecl) :
    FunctionSource × List ParameterDecl :=
  (m.source decl.span decl.params decl.returns decl.body, decl.params)

def Merge.variableSource (m : Merge) (decl : VariableDecl) : FunctionSource × List ParameterDecl :=
  (VariableSource.signature ⟨m.anchor decl.span, decl.type⟩, [])

/-- The signatures that are written in a declaration. -/
def Leaf.sources (m : Merge) : Leaf → List (FunctionSource × List ParameterDecl)
  | classDecl decl =>
    decl.fields.map m.variableSource ++ (decl.functions ++ decl.constructors).map m.functionSource
  | interfaceDecl decl => decl.functions.map m.functionSource
  | delegateDecl decl => [(m.source decl.span decl.params decl.returns none, decl.params)]
  | coroutineDecl decl => [(m.source decl.span [] decl.returns none, [])]
  | variableDecl decl => [m.variableSource decl]
  | functionDecl _ decl => [m.functionSource decl]

/-- A signature has a certain source, with the parameters that were written. -/
structure Signature.From (s : Signature) (written : FunctionSource × List ParameterDecl) :
    Prop where
  isSource : s.source = some written.1
  counted : s.params.length = written.1.params.length
  named : s.names = ParameterDecl.names written.2

/-! ### What is read -/

/-- The signatures of an entry. -/
def NewEntry.signatures : NewEntry → List Signature
  | classDef c => c.signatures
  | interface i => i.signatures
  | delegate d => [d.signature]
  | coroutine c => [c.signature]
  | global v => [v.signature]
  | method m | native m => m.signatures m.space

/-- The functions that were gathered in a method were in methods of its space and name. -/
theorem Method.exists_of_mem_gather {ms : List Method} {m : Method} (member : m ∈ gather ms)
    {f : Function} (inside : f ∈ m.functions) : ∃ m' ∈ ms, m'.key = m.key ∧ f ∈ m'.functions := by
  obtain ⟨key, _, rfl⟩ := mem_map.1 member
  obtain ⟨m', kept, isFunction⟩ := mem_flatMap.1 inside
  obtain ⟨old, same⟩ := mem_filter.1 kept
  exact ⟨m', old, of_decide_eq_true same, isFunction⟩

namespace Merge

variable (m : Merge)

theorem map_name_params (decls : List ParameterDecl) :
    (m.params decls).value.map (·.name) = ParameterDecl.names decls := by
  apply ext_getElem?
  simp [params, ParameterDecl.names, Function.comp_def]

theorem function_from (decl : FunctionDecl) (v : Visibility) (space : Nat) :
    ((m.function decl v).value.signature space).From (m.functionSource decl) := by
  refine ⟨rfl, ?_, m.map_name_params decl.params⟩
  simp [function, Function.signature, Function.paramTypes, params, functionSource, source]

theorem signature_of_mem_methodsOf {space : Nat} {read : FunctionDecl → Function}
    {decls : List FunctionDecl} {place : Nat} {s : Signature}
    (member : s ∈ (methodsOf space read decls).flatMap (·.signatures place)) :
    ∃ decl ∈ decls, s = (read decl).signature place := by
  obtain ⟨method, isMethod, inMethod⟩ := mem_flatMap.1 member
  obtain ⟨f, isFunction, rfl⟩ := mem_map.1 inMethod
  obtain ⟨_, old, _, single⟩ := Method.exists_of_mem_gather isMethod isFunction
  obtain ⟨decl, isDecl, rfl⟩ := mem_map.1 old
  exact ⟨decl, isDecl, congrArg _ (mem_singleton.1 single)⟩

theorem read_from (index space : Nat) (leaf : Leaf) :
    ∀ s ∈ (m.read index space leaf).signatures, ∃ source ∈ leaf.sources m, s.From source := by
  cases leaf with
  | classDecl decl =>
    obtain ⟨sorting, accounts⟩ := m.classEntry_accounts (m.shown (.classDecl decl)).value index
      space decl
    show ∀ s ∈ ClassDef.signatures _, ∃ source ∈ _ ++ List.map _ _, _
    rw [ClassDef.signatures, accounts.storedFields, accounts.storedMethods, accounts.constructors]
    simp only [forall_mem_append, forall_mem_map, map_append]
    refine ⟨⟨fun field kept => ?_, fun s member => ?_⟩, fun f member => ?_⟩
    · have inside := (accounts.fields.free_of_mem kept).1
      exact ⟨_, mem_append_left _ (mem_map_of_mem inside), rfl, rfl, rfl⟩
    · obtain ⟨f, kept, rfl⟩ := signature_of_mem_methodsOf member
      have inside := mem_map_of_mem (f := m.functionSource)
        (accounts.functions.free_of_mem kept).1
      exact ⟨_, mem_append_right _ (mem_append_left _ inside), m.function_from f _ _⟩
    · have inside := mem_map_of_mem (f := m.functionSource) member
      exact ⟨_, mem_append_right _ (mem_append_right _ inside), m.function_from f _ _⟩
  | interfaceDecl decl =>
    show ∀ s ∈ InterfaceDef.signatures _, ∃ source ∈ List.map _ _, _
    rw [InterfaceDef.signatures, m.methods_interfaceEntry]
    intro s member
    obtain ⟨f, isFunction, rfl⟩ := signature_of_mem_methodsOf member
    exact ⟨_, mem_map_of_mem isFunction, m.function_from f _ _⟩
  | delegateDecl decl =>
    refine forall_mem_singleton.2 ⟨_, mem_singleton_self _, rfl, ?_, m.map_name_params _⟩
    simp [DelegateDef.signature, params, source]
  | coroutineDecl decl | variableDecl decl =>
    exact forall_mem_singleton.2 ⟨_, mem_singleton_self _, rfl, rfl, rfl⟩
  | functionDecl kind decl =>
    have isFrom := m.function_from decl (m.shown (.functionDecl kind decl)).value space
    cases kind <;> exact forall_mem_singleton.2 ⟨_, mem_singleton_self _, isFrom⟩

end Merge

/-! ### What is merged -/

/-- The signatures of a table are those of the entries that it holds. -/
theorem Table.Holds.exists_signature {t : Table} {entries : List NewEntry} (holds : t.Holds entries)
    {s : Signature} (member : s ∈ t.signatures) : ∃ n ∈ entries, s ∈ n.signatures := by
  have gathered (kind : MethodKind)
      (member : s ∈ (kind.list t).flatMap fun m => m.signatures m.space) :
      ∃ n ∈ entries, s ∈ n.signatures := by
    rw [holds.methods kind] at member
    obtain ⟨method, isMethod, inMethod⟩ := mem_flatMap.1 member
    obtain ⟨f, isFunction, rfl⟩ := mem_map.1 inMethod
    obtain ⟨m', old, same, inside⟩ := Method.exists_of_mem_gather isMethod isFunction
    obtain ⟨n, isEntry, isOld⟩ := mem_filterMap.1 old
    refine ⟨n, isEntry, ?_⟩
    rw [← show m'.space = method.space from congrArg Prod.fst same]
    cases kind <;> cases n <;> cases isOld <;> exact mem_map_of_mem inside
  simp only [signatures, holds.classes, holds.interfaces, holds.delegates, holds.coroutines,
    holds.globals, mem_append, mem_flatMap, mem_map, mem_filterMap] at member
  rcases member with (((((⟨c, ⟨n, isEntry, isClass⟩, inside⟩ | ⟨i, ⟨n, isEntry, isInterface⟩,
    inside⟩) | inMethods) | inNatives) | ⟨x, ⟨n, isEntry, isDelegate⟩, rfl⟩) |
    ⟨x, ⟨n, isEntry, isCoroutine⟩, rfl⟩) | ⟨v, ⟨n, isEntry, isGlobal⟩, rfl⟩
  · cases n <;> cases isClass
    exact ⟨_, isEntry, inside⟩
  · cases n <;> cases isInterface
    exact ⟨_, isEntry, inside⟩
  · exact gathered .global (mem_flatMap.2 inMethods)
  · exact gathered .native (mem_flatMap.2 inNatives)
  · cases n <;> cases isDelegate
    exact ⟨_, isEntry, mem_singleton_self _⟩
  · cases n <;> cases isCoroutine
    exact ⟨_, isEntry, mem_singleton_self _⟩
  · cases n <;> cases isGlobal
    exact ⟨_, isEntry, mem_singleton_self _⟩

/-- Every signature of a merged table is read from a declaration that is visited and accepted. -/
theorem Draft.exists_visit {name : String} {files : List (SourceFile × Outline)} {s : Signature}
    (member : s ∈ (Draft.merge name files).value.table.signatures) :
    ∃ v ∈ visits name files, ∃ leaf : Leaf, v.item = leaf.item ∧
      ∃ written ∈ leaf.sources v.merge, s.From written := by
  obtain ⟨n, isEntry, inEntry⟩ := (visited name files).holds.exists_signature member
  obtain ⟨v, isVisit, isAdded⟩ := mem_filterMap.1 isEntry
  unfold Visit.added at isAdded
  split at isAdded
  · cases isAdded
  · obtain ⟨leaf, isLeaf, rfl⟩ := Option.map_eq_some_iff.1 isAdded
    exact ⟨v, isVisit, leaf, Item.eq_of_leaf? isLeaf, v.merge.read_from _ _ leaf s inEntry⟩

/-- What holds of everything that is written in the files holds of all signatures of a merged
table. -/
theorem Draft.forall_signatures {P : Merge → Item → Prop} {Q : Signature → Prop} (name : String)
    {files : List (SourceFile × Outline)}
    (roots : ∀ {i file outline}, files[i]? = some (file, outline) → ∀ item ∈ outline.items,
      P ⟨i, file.path⟩ item)
    (inner : ∀ {m name span items}, P m (.space name span items) → ∀ item ∈ items, P m item)
    (each : ∀ m (leaf : Leaf), P m leaf.item → ∀ written ∈ leaf.sources m, ∀ s : Signature,
      s.From written → Q s) : ∀ s ∈ (Draft.merge name files).value.table.signatures, Q s := by
  intro s member
  obtain ⟨v, isVisit, leaf, isLeaf, written, isWritten, isFrom⟩ := exists_visit member
  have holds := forall_visits name roots inner v isVisit
  rw [isLeaf] at holds
  exact each v.merge leaf holds written isWritten s isFrom

end Linkage
