/-
Purpose: The entry that a declaration of a space is read into, and what adding the declaration
  to a table does with it.
-/
import Linkage.Proofs.Merge.Members

namespace Linkage

/-! ### Entries of spaces -/

/-- Something that a space can declare, with its place and its name. -/
inductive NewEntry where
  | classDef (c : ClassDef)
  | interface (i : InterfaceDef)
  | delegate (d : DelegateDef)
  | coroutine (c : CoroutineDef)
  | global (v : VariableDef)
  | method (m : Method)
  | native (m : Method)

namespace NewEntry

/-- The space and the name of an entry. -/
def key : NewEntry → Nat × String
  | classDef c => (c.space, c.name)
  | interface i => (i.space, i.name)
  | delegate d => (d.space, d.name)
  | coroutine c => (c.space, c.name)
  | global v => (v.space, v.name)
  | method m => (m.space, m.name)
  | native m => (m.space, m.name)

/-- What the entry becomes as the next one of its kind. -/
def entity (t : Table) : NewEntry → Entity
  | classDef _ => .classDef t.classes.length
  | interface _ => .interface t.interfaces.length
  | delegate _ => .delegate t.delegates.length
  | coroutine _ => .coroutine t.coroutines.length
  | global _ => .globalVariable t.globals.length
  | method _ => .globalMethod t.methods.length
  | native _ => .nativeMethod t.natives.length

/-- The table with the entry at the end of its list. -/
def addTo (t : Table) : NewEntry → Table
  | classDef c => { t with classes := t.classes ++ [c] }
  | interface i => { t with interfaces := t.interfaces ++ [i] }
  | delegate d => { t with delegates := t.delegates ++ [d] }
  | coroutine c => { t with coroutines := t.coroutines ++ [c] }
  | global v => { t with globals := t.globals ++ [v] }
  | method m => { t with methods := t.methods ++ [m] }
  | native m => { t with natives := t.natives ++ [m] }

/-- The visibilities that the entry comes with. -/
def visibilities : NewEntry → List Visibility
  | classDef c => [c.visibility]
  | interface i => [i.visibility]
  | delegate d => [d.visibility]
  | coroutine c => [c.visibility]
  | global v => [v.visibility]
  | method m => m.visibilities
  | native m => m.visibilities

/-- The entry is as it comes from source. -/
def Fresh (t : Table) : NewEntry → Prop
  | classDef c => c.WellMade t.classes.length ∧ c.Settled IsOpen
  | interface i => i.WellMade t.interfaces.length ∧ i.Settled IsOpen
  | delegate d => d.source.isSome = true ∧ d.Settled IsOpen
  | coroutine c => c.source.isSome = true ∧ ∀ r ∈ c.returns, IsOpen r
  | global v => v.source.isSome = true ∧ IsOpen v.type
  | method m => m.Fresh
  | native m => m.Fresh

section

variable (t : Table) (n : NewEntry)
include t n

@[simp] theorem spaces_addTo : (n.addTo t).spaces = t.spaces := by
  cases n <;> rfl

theorem find_addTo (key : Nat × String) : (n.addTo t).find key = t.find key := by
  unfold Table.find Table.lookup
  rw [spaces_addTo]

theorem entryAt_entity : t.entryAt (n.entity t) = none := by
  cases n <;> simp [entity, Table.entryAt]

/-- The new entry stands at its own place, and the others stay where they are. -/
theorem entryAt_addTo (e : Entity) :
    (n.addTo t).entryAt e = if e = n.entity t then some n.key else t.entryAt e := by
  cases n <;> cases e <;>
    simp only [addTo, entity, key, Table.entryAt, getElem?_append_singleton, reduceCtorEq,
      if_false, Entity.classDef.injEq, Entity.interface.injEq, Entity.delegate.injEq,
      Entity.coroutine.injEq, Entity.globalVariable.injEq, Entity.globalMethod.injEq,
      Entity.nativeMethod.injEq] <;>
    split <;> rfl

/-- The new entry comes with its own visibilities, and the others with theirs. -/
theorem visibilities_addTo (e : Entity) :
    (n.addTo t).visibilities e = if e = n.entity t then n.visibilities else t.visibilities e := by
  cases n <;> cases e <;>
    simp only [addTo, entity, visibilities, Table.visibilities, getElem?_append_singleton,
      reduceCtorEq, if_false, Entity.classDef.injEq, Entity.interface.injEq,
      Entity.delegate.injEq, Entity.coroutine.injEq, Entity.globalVariable.injEq,
      Entity.globalMethod.injEq, Entity.nativeMethod.injEq] <;>
    split <;> rfl

end

end NewEntry

/-- Add an entry and declare its name. -/
def Table.register (t : Table) (n : NewEntry) (v : Visibility) : Table :=
  (n.addTo t).declare n.key.1 n.key.2 ⟨.here, v, n.entity t⟩

theorem NewEntry.find_register {t : Table} (n : NewEntry) (inside : n.key.1 < t.spaces.length)
    {v : Visibility} (key : Nat × String) :
    (t.register n v).find key =
      if key = n.key then some ⟨.here, v, n.entity t⟩ else t.find key := by
  have inside' : n.key.1 < (n.addTo t).spaces.length := by simpa using inside
  rw [Table.register, Table.find_declare inside', n.find_addTo]

theorem NewEntry.childSpace_register (t : Table) (n : NewEntry) (v : Visibility) (space : Nat)
    (name : String) : (t.register n v).childSpace space name = t.childSpace space name := by
  rw [Table.register, Table.declare, Table.childSpace_modifySpace _ _ fun _ => by rfl]
  exact Table.childSpace_of_frames (by rw [spaces_addTo]) space name

/-! ### Overloads -/

/-- The two kinds of methods that spaces declare. -/
inductive MethodKind where
  | global
  | native

namespace MethodKind

/-- The method of this kind with a given number. -/
def entity (method : Nat) : MethodKind → Entity
  | global => .globalMethod method
  | native => .nativeMethod method

/-- Append a function to a method of this kind. -/
def append (t : Table) (method : Nat) (f : Function) : MethodKind → Table
  | global => { t with methods := t.methods.modify method (Merge.appendFunction f) }
  | native => { t with natives := t.natives.modify method (Merge.appendFunction f) }

@[simp] theorem spaces_append (t : Table) (method : Nat) (f : Function) (kind : MethodKind) :
    (kind.append t method f).spaces = t.spaces := by
  cases kind <;> rfl

/-- One more function in a method moves no entry. -/
theorem entryAt_append (t : Table) (method : Nat) (f : Function) (kind : MethodKind)
    (e : Entity) : (kind.append t method f).entryAt e = t.entryAt e := by
  have keys (ms : List Method) (i : Nat) :
      (ms.modify method (Merge.appendFunction f))[i]?.map (fun m => (m.space, m.name)) =
        ms[i]?.map fun m => (m.space, m.name) := by
    rw [List.getElem?_modify]
    split <;> simp [Function.comp_def, Merge.appendFunction]
  cases kind with
  | global =>
    cases e with
    | globalMethod i => exact keys t.methods i
    | _ => rfl
  | native =>
    cases e with
    | nativeMethod i => exact keys t.natives i
    | _ => rfl

/-- How many methods of this kind there are. -/
def count (t : Table) : MethodKind → Nat
  | global => t.methods.length
  | native => t.natives.length

/-- One more function in a method adds its visibility to those of the method. -/
theorem visibilities_append {t : Table} {method : Nat} {kind : MethodKind}
    (inside : method < kind.count t) (f : Function) (e : Entity) :
    (kind.append t method f).visibilities e =
      if e = kind.entity method then t.visibilities e ++ [f.visibility] else t.visibilities e := by
  cases kind with
  | global =>
    cases e with
    | globalMethod i =>
      simp only [append, entity, Table.visibilities, Entity.globalMethod.injEq]
      exact Merge.visibilities_modify_appendFunction inside f i
    | _ => simp [append, entity, Table.visibilities]
  | native =>
    cases e with
    | nativeMethod i =>
      simp only [append, entity, Table.visibilities, Entity.nativeMethod.injEq]
      exact Merge.visibilities_modify_appendFunction inside f i
    | _ => simp [append, entity, Table.visibilities]

theorem lt_count_of_entryAt {t : Table} {method : Nat} {kind : MethodKind} {key : Nat × String}
    (stands : t.entryAt (kind.entity method) = some key) : method < kind.count t := by
  cases kind <;>
    · obtain ⟨_, found, _⟩ := Option.map_eq_some_iff.1 stands
      exact lt_of_getElem? found

end MethodKind

/-- Add a function to the method that a space declares under a name. -/
def Table.overload (t : Table) (kind : MethodKind) (space method : Nat) (name : String)
    (f : Function) : Table :=
  (kind.append t method f).modifySpace space fun s =>
    { s with declarations := s.declarations.modify name (Merge.widen f.visibility) }

/-- The method of a name is found with a wider visibility, and all else as before. -/
theorem Table.find_overload (t : Table) (kind : MethodKind) (space method : Nat) (name : String)
    (f : Function) (key : Nat × String) :
    (t.overload kind space method name f).find key =
      if key = (space, name) then (t.find key).map fun d =>
        { d with visibility := d.visibility.widest f.visibility }
      else t.find key := by
  obtain ⟨space', name'⟩ := key
  rw [overload, find_modifySpace, kind.spaces_append]
  unfold find lookup
  by_cases here : space' = space
  · subst here
    cases t.spaces[space']? with
    | none => simp
    | some s => simp [Merge.find?_modify_widen]
  · simp [here]

theorem Table.childSpace_overload (t : Table) (kind : MethodKind) (space method : Nat)
    (name : String) (f : Function) (other : Nat) (name' : String) :
    (t.overload kind space method name f).childSpace other name' = t.childSpace other name' := by
  rw [overload, childSpace_modifySpace _ _ fun _ => by rfl]
  exact childSpace_of_frames (by rw [kind.spaces_append]) other name'

/-! ### Declarations -/

/-- A declaration of a space that is no space itself. -/
inductive Leaf where
  | classDecl (decl : ClassDecl)
  | interfaceDecl (decl : InterfaceDecl)
  | delegateDecl (decl : DelegateDecl)
  | coroutineDecl (decl : CoroutineDecl)
  | variableDecl (decl : VariableDecl)
  | functionDecl (kind : MethodKind) (decl : FunctionDecl)

namespace Leaf

/-- The declaration as an item of a file. -/
def item : Leaf → Item
  | classDecl decl => .classDecl decl
  | interfaceDecl decl => .interfaceDecl decl
  | delegateDecl decl => .delegateDecl decl
  | coroutineDecl decl => .coroutineDecl decl
  | variableDecl decl => .variableDecl decl
  | functionDecl .global decl => .functionDecl decl
  | functionDecl .native decl => .nativeDecl decl

def name : Leaf → String
  | classDecl decl => decl.name
  | interfaceDecl decl => decl.name
  | delegateDecl decl => decl.name
  | coroutineDecl decl => decl.name
  | variableDecl decl => decl.name
  | functionDecl _ decl => decl.name

def span : Leaf → Span
  | classDecl decl => decl.span
  | interfaceDecl decl => decl.span
  | delegateDecl decl => decl.span
  | coroutineDecl decl => decl.span
  | variableDecl decl => decl.span
  | functionDecl _ decl => decl.span

/-- The visibility that was written, if one was. -/
def visibility : Leaf → Option Visibility
  | classDecl decl => decl.visibility
  | interfaceDecl decl => decl.visibility
  | delegateDecl decl => decl.visibility
  | coroutineDecl decl => decl.visibility
  | variableDecl decl => decl.visibility
  | functionDecl _ decl => decl.visibility

/-- What the declaration becomes under a number. -/
def entity (index : Nat) : Leaf → Entity
  | classDecl _ => .classDef index
  | interfaceDecl _ => .interface index
  | delegateDecl _ => .delegate index
  | coroutineDecl _ => .coroutine index
  | variableDecl _ => .globalVariable index
  | functionDecl kind _ => kind.entity index

/-- The number that the next entry of its sort gets. -/
def next (t : Table) : Leaf → Nat
  | classDecl _ => t.classes.length
  | interfaceDecl _ => t.interfaces.length
  | delegateDecl _ => t.delegates.length
  | coroutineDecl _ => t.coroutines.length
  | variableDecl _ => t.globals.length
  | functionDecl kind _ => kind.count t

/-- The sort of methods that the declaration can join. -/
def joins : Leaf → Option MethodKind
  | functionDecl kind _ => some kind
  | _ => none

/-- Only functions of a sort become methods of it. -/
theorem joins_of_entity {l : Leaf} {i method : Nat} {kind : MethodKind}
    (same : l.entity i = kind.entity method) : l.joins = some kind := by
  cases kind <;> cases l with
  | functionDecl sort decl => cases sort <;> first | rfl | cases same
  | _ => cases same

/-- The method of its sort that the name of a declaration stands for, if there is one. -/
def group (leaf : Leaf) (t : Table) (space : Nat) : Option Nat :=
  match leaf.joins, (t.lookup space leaf.name).map Declaration.entity with
  | some .global, some (.globalMethod method) => some method
  | some .native, some (.nativeMethod method) => some method
  | _, _ => none

variable {leaf : Leaf} {t : Table} {space : Nat}

/-- Only functions have a method to join, and it is the one that their name stands for. -/
theorem group_eq_some {method : Nat} : leaf.group t space = some method ↔
    ∃ kind decl, leaf = .functionDecl kind decl ∧
      (t.lookup space decl.name).map Declaration.entity = some (kind.entity method) := by
  constructor
  · intro joins
    cases leaf with
    | functionDecl kind decl =>
      refine ⟨kind, decl, rfl, ?_⟩
      unfold group at joins
      split at joins
      · rename_i isKind found
        cases isKind
        cases joins
        exact found
      · rename_i isKind found
        cases isKind
        cases joins
        exact found
      · cases joins
    | _ => cases joins
  · rintro ⟨kind, decl, rfl, found⟩
    cases kind <;>
      · unfold group
        rw [show (t.lookup space (functionDecl _ decl).name).map Declaration.entity = _
          from found]
        rfl

end Leaf

namespace Item

/-- An item that is no space. -/
def leaf? : Item → Option Leaf
  | space .. => none
  | classDecl decl => some (.classDecl decl)
  | interfaceDecl decl => some (.interfaceDecl decl)
  | delegateDecl decl => some (.delegateDecl decl)
  | coroutineDecl decl => some (.coroutineDecl decl)
  | variableDecl decl => some (.variableDecl decl)
  | functionDecl decl => some (.functionDecl .global decl)
  | nativeDecl decl => some (.functionDecl .native decl)

theorem eq_of_leaf? {item : Item} {leaf : Leaf} (isLeaf : item.leaf? = some leaf) :
    item = leaf.item := by
  cases item <;> cases isLeaf <;> rfl

/-- What holds of every declaration holds of an item that is no space. -/
theorem of_leaf {P : Item → Prop} (each : ∀ leaf : Leaf, P leaf.item) {item : Item} {leaf : Leaf}
    (isLeaf : item.leaf? = some leaf) : P item :=
  eq_of_leaf? isLeaf ▸ each leaf

theorem cases_leaf (item : Item) :
    (∃ name span items, item = .space name span items) ∨ ∃ leaf : Leaf, item = leaf.item := by
  cases item with
  | space name span items => exact .inl ⟨name, span, items, rfl⟩
  | _ => exact .inr (of_leaf (P := fun item => ∃ leaf : Leaf, item = leaf.item) (⟨·, rfl⟩) rfl)

end Item

/-- The method of a sort as an entry. -/
def MethodKind.entry (m : Method) : MethodKind → NewEntry
  | global => .method m
  | native => .native m

/-! ### Reading a declaration -/

namespace Merge

variable {add : Reported Table} {kind : String}

/-- The visibility of a declaration of a space. -/
def shown (m : Merge) (leaf : Leaf) : Reported Visibility :=
  m.spaceVisibility leaf.visibility leaf.span

/-- The class that a declaration is read into. -/
def classEntry (m : Merge) (v : Visibility) (index space : Nat) (decl : ClassDecl) :
    Reported ClassDef := do
  let members ← decl.fields.foldlM (m.addMemberVariable decl.name index) {}
  let members ← decl.functions.foldlM (m.addMemberFunction decl.name index space) members
  let constructors ← Noted.traverse
    (fun f => m.function f (memberVisibility f.visibility)) decl.constructors
  return {
    name := decl.name, space, visibility := v, kind := .handle, parent := TypeId.handle.scalar
    interfaces := [], fields := members.fields, methods := members.methods, constructors
    members := members.names, size := 0
    source := some ⟨m.anchor decl.span, decl.inherits⟩ }

/-- The interface that a declaration is read into. -/
def interfaceEntry (m : Merge) (v : Visibility) (index space : Nat) (decl : InterfaceDecl) :
    Reported InterfaceDef := do
  let members ← decl.functions.foldlM (m.addInterfaceFunction index space) {}
  return ⟨decl.name, space, v, [], members.methods, members.names,
    some ⟨m.anchor decl.span, decl.inherits⟩⟩

/-- The entry that a declaration is read into, as the first of its name. -/
def entry (m : Merge) (v : Visibility) (index space : Nat) : Leaf → Reported NewEntry
  | .classDecl decl => .classDef <$> m.classEntry v index space decl
  | .interfaceDecl decl => .interface <$> m.interfaceEntry v index space decl
  | .delegateDecl decl => do
    return .delegate ⟨decl.name, space, v, ← m.params decl.params, openTypes decl.returns,
      some (m.source decl.span decl.params decl.returns none)⟩
  | .coroutineDecl decl =>
    pure (.coroutine ⟨decl.name, space, v, openTypes decl.returns,
      some (m.source decl.span [] decl.returns none)⟩)
  | .variableDecl decl =>
    pure (.global ⟨decl.name, space, v, decl.constant, .invalid, decl.initializer, 0,
      some ⟨m.anchor decl.span, decl.type⟩⟩)
  | .functionDecl .global decl => do
    return .method (newMethod decl.name space (← m.function decl v))
  | .functionDecl .native decl => do
    return .native (newMethod decl.name space (← m.function decl v))

variable {m : Merge} {space : Nat} {t : Table} {leaf : Leaf}

theorem takenBy_eq_none {name : String} :
    takenBy t space name = none ↔ t.lookup space name = none ∧ t.childSpace space name = none := by
  unfold takenBy
  cases t.lookup space name <;> simp

theorem register_of_free {name : String} {span : Span}
    (free : takenBy t space name = none) : m.register space name span t add = add := by
  unfold register
  rw [free]

/-- A name that is taken is reported, and nothing else happens. -/
theorem register_of_taken {name : String} {span : Span} (taken : takenBy t space name = some kind) :
    m.register space name span t add =
      ⟨t, [⟨m.path, span, .alreadyDeclared name kind (scopeName t space)⟩]⟩ := by
  unfold register
  rw [taken]
  rfl

/-- A declaration that has no method to join is registered as an entry of its own. -/
theorem addItem_of_alone (alone : leaf.group t space = none) : addItem m space leaf.item t = (do
      let v ← m.shown leaf
      m.register space leaf.name leaf.span t do
        return t.register (← m.entry v (leaf.next t) space leaf) v) := by
  have function {kind : MethodKind} {decl : FunctionDecl}
      (isFunction : leaf = .functionDecl kind decl)
      (method : Nat) : (t.lookup space decl.name).map Declaration.entity ≠
        some (kind.entity method) := by
    intro found
    rw [Leaf.group_eq_some.2 ⟨kind, decl, isFunction, found⟩] at alone
    cases alone
  cases leaf with
  | classDecl decl =>
    simp only [entry, classEntry, bind_map_left, bind_assoc, pure_bind]
    rfl
  | interfaceDecl decl =>
    simp only [entry, interfaceEntry, bind_map_left, bind_assoc, pure_bind]
    rfl
  | delegateDecl decl =>
    simp only [entry, bind_assoc, pure_bind]
    rfl
  | coroutineDecl decl | variableDecl decl => rfl
  | functionDecl kind decl =>
    cases kind <;>
      · simp only [entry, bind_assoc, pure_bind]
        refine bind_congr fun v => ?_
        split
        · rename_i method group
          exact absurd group (function rfl method)
        · rfl

/-- A function joins the method of its name. -/
theorem addItem_of_group {kind : MethodKind} {decl : FunctionDecl} {method : Nat}
    (group : (t.lookup space decl.name).map Declaration.entity = some (kind.entity method)) :
    addItem m space (Leaf.functionDecl kind decl).item t = (do
      let v ← m.shown (.functionDecl kind decl)
      return t.overload kind space method decl.name (← m.function decl v)) := by
  cases kind with
  | global =>
    simp only [Leaf.item, addItem, addFunction, group]
    rfl
  | native =>
    simp only [Leaf.item, addItem, addNative, group]
    rfl

theorem addItem_of_free (free : takenBy t space leaf.name = none) :
    (addItem m space leaf.item t).value =
        t.register (m.entry (m.shown leaf).value (leaf.next t) space leaf).value
          (m.shown leaf).value ∧
      (addItem m space leaf.item t).notes = (m.shown leaf).notes ++
        (m.entry (m.shown leaf).value (leaf.next t) space leaf).notes := by
  have alone : leaf.group t space = none := by
    simp [Leaf.group, (takenBy_eq_none.1 free).1]
  simp [addItem_of_alone alone, register_of_free free]

/-- A declaration of a taken name that has no method to join is passed over. -/
theorem addItem_of_taken (taken : takenBy t space leaf.name = some kind)
    (alone : leaf.group t space = none) :
    addItem m space leaf.item t = ⟨t, (m.shown leaf).notes ++
      [⟨m.path, leaf.span, .alreadyDeclared leaf.name kind (scopeName t space)⟩]⟩ := by
  simp only [addItem_of_alone alone, register_of_taken taken]
  rfl

theorem key_entry (v : Visibility) (index : Nat) :
    (m.entry v index space leaf).value.key = (space, leaf.name) := by
  cases leaf with
  | functionDecl kind decl => cases kind <;> rfl
  | _ => rfl

theorem visibilities_entry (v : Visibility) (index : Nat) :
    (m.entry v index space leaf).value.visibilities = [v] := by
  cases leaf with
  | functionDecl kind decl => cases kind <;> rfl
  | _ => rfl

end Merge

open Noted (Reports)

/-- The complaint is about a declaration by itself, whatever else is declared. -/
def Diagnostic.IsInner (d : Diagnostic) : Prop :=
  d.code ∈ [Code.visibilityNotAllowed, .duplicateParameter, .duplicateMember, .memberNamedAsClass]

namespace Merge

variable (m : Merge)

theorem spaceVisibility_reports (visibility : Option Visibility) (span : Span) :
    Reports (·.code = .visibilityNotAllowed) (m.spaceVisibility visibility span) := by
  cases visibility with
  | none => exact .pure _
  | some visibility =>
    cases visibility with
    | protected_ =>
      exact .note rfl
    | _ => exact .pure _

/-- Only the visibility that is written is complained about. -/
theorem shown_reports (leaf : Leaf) : Reports Diagnostic.IsInner (m.shown leaf) :=
  (m.spaceVisibility_reports leaf.visibility leaf.span).imp fun d isVisibility => by
    simp [Diagnostic.IsInner, isVisibility]

/-- Only parameters are complained about in a function. -/
theorem reportRepeated_reports (seen : List String) (ps : List ParameterDecl) :
    Reports (·.code = .duplicateParameter) (m.reportRepeated seen ps) := by
  fun_induction reportRepeated m seen ps with
  | case1 => exact .pure _
  | case2 seen p rest unnamed ih => exact ih
  | case3 seen p rest name named repeated ih =>
    refine .bind ?_ ih
    exact .note rfl
  | case4 seen p rest name named new ih => exact ih

theorem function_reports (decl : FunctionDecl) (v : Visibility) :
    Reports (·.code = .duplicateParameter) (m.function decl v) :=
  ((m.reportRepeated_reports [] decl.params).bind (.pure _)).bind (.pure _)

theorem inner_function (decl : FunctionDecl) (v : Visibility) :
    Reports Diagnostic.IsInner (m.function decl v) :=
  (m.function_reports decl v).imp fun d isParameter => by simp [Diagnostic.IsInner, isParameter]

private theorem inner_note {span : Span} {problem : Problem} {code : Code}
    (isCode : problem.code = code) (listed : [Code.visibilityNotAllowed, .duplicateParameter,
      .duplicateMember, .memberNamedAsClass].elem code = true) :
    Reports Diagnostic.IsInner (m.note span problem) :=
  .note (show problem.code ∈ _ from isCode ▸ List.mem_of_elem_eq_true listed)

theorem addMemberVariable_reports (owner : String) (index : Nat) (members : Members)
    (decl : VariableDecl) :
    Reports Diagnostic.IsInner (m.addMemberVariable owner index members decl) :=
  .ite ((m.inner_note rfl rfl).bind (.pure _)) (.pure _)

theorem addMemberFunction_reports (owner : String) (index space : Nat) (members : Members)
    (decl : FunctionDecl) :
    Reports Diagnostic.IsInner (m.addMemberFunction owner index space members decl) := by
  have function := m.inner_function decl (memberVisibility decl.visibility)
  refine .ite ((m.inner_note rfl rfl).bind (.pure _)) ?_
  cases (members.names.find? decl.name).map Declaration.entity with
  | none => exact function.bind (.pure _)
  | some entity =>
    cases entity with
    | memberMethod owner method => exact function.bind (.pure _)
    | _ => exact (m.inner_note rfl rfl).bind (.pure _)

theorem addInterfaceFunction_reports (index space : Nat) (members : Members) (decl : FunctionDecl) :
    Reports Diagnostic.IsInner (m.addInterfaceFunction index space members decl) := by
  unfold addInterfaceFunction
  dsimp only
  split
  -- Only a visibility that is not allowed is complained about before the function is added.
  case' h_3 => refine (m.inner_note rfl rfl).bind ?_
  all_goals
    refine (m.inner_function decl .public_).bind ?_
    split <;> exact .pure _

/-- What a declaration says by itself can be wrong by itself only. -/
theorem entry_reports (v : Visibility) (index space : Nat) (leaf : Leaf) :
    Reports Diagnostic.IsInner (m.entry v index space leaf) := by
  cases leaf with
  | classDecl decl =>
    refine .bind ?_ (.pure _)
    refine .bind (.foldlM fun members v _ =>
      m.addMemberVariable_reports decl.name index members v) ?_
    refine .bind (.foldlM fun members f _ =>
      m.addMemberFunction_reports decl.name index space members f) ?_
    exact .bind (.traverse fun f _ => m.inner_function f _) (.pure _)
  | interfaceDecl decl =>
    refine .bind (.bind (.foldlM fun members f _ => ?_) (.pure _)) (.pure _)
    exact m.addInterfaceFunction_reports index space members f
  | delegateDecl decl =>
    refine .bind (.bind ((m.reportRepeated_reports [] decl.params).imp fun d isParameter => ?_)
      (.pure _)) (.pure _)
    simp [Diagnostic.IsInner, isParameter]
  | coroutineDecl decl | variableDecl decl => exact .pure _
  | functionDecl kind decl => cases kind <;> exact (m.inner_function decl v).bind (.pure _)

end Merge

end Linkage
