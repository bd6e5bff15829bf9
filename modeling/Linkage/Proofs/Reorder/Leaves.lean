/-
Purpose: The entry that a declaration of a space is read into depends on the file, the space and
  the number of the entry in no way but by mentioning them.
-/
import Linkage.Proofs.Merge.Growth
import Linkage.Proofs.Reorder.Numbering

namespace Linkage

open List Noted

namespace Numbering

variable (n : Numbering)

/-- A file under its new number. -/
def merge (m : Merge) : Merge := { m with file := n.files m.file }

/-- The members of a type under new numbers. -/
def memberSet (members : Merge.Members) : Merge.Members where
  fields := members.fields.map n.field
  methods := members.methods.map (n.method .here)
  names := n.members members.names

/-- An entry under new numbers. -/
def newEntry : NewEntry → NewEntry
  | .classDef c => .classDef (n.classDef .here c)
  | .interface i => .interface (n.interfaceDef .here i)
  | .delegate d => .delegate (n.delegateDef .here d)
  | .coroutine c => .coroutine (n.coroutineDef .here c)
  | .global v => .global (n.variableDef .here v)
  | .method m => .method (n.method .here m)
  | .native m => .native (n.method .here m)

/-- The new number of a method of a sort. -/
def ofMethodKind : MethodKind → Equiv.Perm Nat
  | .global => n.methods
  | .native => n.natives

/-- The new number of the entry of a declaration. -/
def ofLeaf : Leaf → Equiv.Perm Nat
  | .classDecl _ => n.classes
  | .interfaceDecl _ => n.interfaces
  | .delegateDecl _ => n.delegates
  | .coroutineDecl _ => n.coroutines
  | .variableDecl _ => n.globals
  | .functionDecl kind _ => n.ofMethodKind kind

theorem entity_leaf (leaf : Leaf) (i : Nat) :
    leaf.entity (n.ofLeaf leaf i) = n.entity (leaf.entity i) := by
  cases leaf with
  | functionDecl kind decl => cases kind <;> rfl
  | _ => rfl

/-! #### Names -/

section

variable (names : NameMap Declaration) (name : String)
include names name

theorem contains_members : (n.members names).contains name = names.contains name := by
  rw [NameMap.contains, NameMap.contains, n.find?_members, Option.isSome_map]

theorem insert_members (d : Declaration) :
    (n.members names).insert name (n.declaration d) = n.members (names.insert name d) := by
  unfold NameMap.insert
  rw [n.contains_members]
  split
  · simp only [members, map_map]
    congr 1
    apply map_congr_left
    intro entry _
    simp only [Function.comp_apply]
    split <;> rfl
  · simp [members]

theorem modify_members (v : Visibility) : (n.members names).modify name (Merge.widen v) =
      n.members (names.modify name (Merge.widen v)) := by
  simp only [NameMap.modify, members, map_map]
  congr 1
  apply map_congr_left
  intro entry _
  simp only [Function.comp_apply]
  split <;> rfl

end

/-! #### Signatures -/

theorem reportRepeated_merge (m : Merge) (seen : List String) (ps : List ParameterDecl) :
    (n.merge m).reportRepeated seen ps = m.reportRepeated seen ps := by
  induction ps generalizing seen with
  | nil => rfl
  | cons p rest ih =>
    unfold Merge.reportRepeated
    simp only [ih]
    rfl

theorem params_merge (m : Merge) (ps : List ParameterDecl) :
    (n.merge m).params ps = m.params ps := by
  unfold Merge.params
  rw [n.reportRepeated_merge]

theorem map_parameter_params (m : Merge) (ps : List ParameterDecl) :
    (m.params ps).value.map n.parameter = (m.params ps).value := by
  refine (map_congr_left fun p member => ?_).trans (map_id _)
  obtain ⟨i, inside, rfl⟩ := mem_mapIdx.1 member
  rfl

theorem map_ref_openTypes (exprs : List TypeExpr) :
    (Merge.openTypes exprs).map n.ref = Merge.openTypes exprs := by
  simp only [Merge.openTypes, map_map]
  rfl

theorem function_merge (m : Merge) (decl : FunctionDecl) (v : Visibility) :
    (n.merge m).function decl v = n.function <$> m.function decl v := by
  unfold Merge.function
  rw [n.params_merge]
  apply Noted.ext
  · simp only [value_bind, value_pure, value_map, Numbering.function,
      n.map_parameter_params, n.map_ref_openTypes]
    rfl
  · simp

/-! #### Members -/

theorem appendFunction_method (f : Function) (method : Method) :
    Merge.appendFunction (n.function f) (n.method .here method) =
      n.method .here (Merge.appendFunction f method) := by
  simp [Merge.appendFunction, Numbering.method]

theorem modify_method (f : Function) (methods : List Method) (i : Nat) :
    (methods.map (n.method .here)).modify i (Merge.appendFunction (n.function f)) =
      (methods.modify i (Merge.appendFunction f)).map (n.method .here) := by
  apply ext_getElem?
  intro k
  simp only [getElem?_modify, getElem?_map]
  split
  · cases methods[k]? with
    | none => rfl
    | some method => exact congrArg some (n.appendFunction_method f method)
  · cases methods[k]? <;> rfl

theorem addMemberVariable_merge (m : Merge) (className : String) (index : Nat)
    (members : Merge.Members) (decl : VariableDecl) :
    (n.merge m).addMemberVariable className (n.classes index) (n.memberSet members) decl =
      n.memberSet <$> m.addMemberVariable className index members decl := by
  unfold Merge.addMemberVariable
  rw [show (n.memberSet members).names = n.members members.names from rfl, n.contains_members]
  split
  · rfl
  · apply Noted.ext
    · simp only [value_pure, value_map, memberSet, map_append, length_map,
        ← n.insert_members]
      rfl
    · simp

theorem addMemberFunction_merge (m : Merge) (className : String) (index space : Nat)
    (members : Merge.Members) (decl : FunctionDecl) :
    (n.merge m).addMemberFunction className (n.classes index) (n.spaces space)
        (n.memberSet members) decl =
      n.memberSet <$> m.addMemberFunction className index space members decl := by
  unfold Merge.addMemberFunction
  split
  · rfl
  · rw [show (n.memberSet members).names = n.members members.names from rfl, n.find?_members]
    cases members.names.find? decl.name with
    | none =>
      simp only [Option.map_none, n.function_merge, bind_map_left, map_bind]
      apply Noted.ext
      · simp only [value_bind, value_pure, value_map, memberSet,
          map_append, length_map, ← n.insert_members]
        rfl
      · simp
    | some d =>
      obtain ⟨home, v, e⟩ := d
      cases e with
      | memberMethod c k =>
        simp only [Option.map_some, declaration, entity, n.function_merge, bind_map_left, map_bind]
        apply Noted.ext
        · simp only [value_bind, value_pure, value_map, memberSet,
            n.modify_method, n.modify_members]
        · simp
      | _ => rfl

/-- What is complained about in a function of an interface: its visibility and its signature. -/
theorem notes_addInterfaceFunction (m : Merge) (index space : Nat) (members : Merge.Members)
    (decl : FunctionDecl) :
    (m.addInterfaceFunction index space members decl).notes = (match decl.visibility with
        | none | some .public_ => []
        | some v => (m.note decl.span (.interfaceVisibility v decl.name)).notes) ++
      (m.function decl .public_).notes := by
  unfold Merge.addInterfaceFunction
  generalize (members.names.find? decl.name).map Declaration.entity = found
  rcases found with _ | e
  · rcases decl.visibility with _ | v
    · simp
    · cases v <;> simp
  · rcases decl.visibility with _ | v
    · cases e <;> simp
    · cases v <;> cases e <;> simp

theorem addInterfaceFunction_merge (m : Merge) (index space : Nat) (members : Merge.Members)
    (decl : FunctionDecl) :
    (n.merge m).addInterfaceFunction (n.interfaces index) (n.spaces space) (n.memberSet members)
        decl =
      n.memberSet <$> m.addInterfaceFunction index space members decl := by
  apply Noted.ext
  · rw [value_map, Merge.value_addInterfaceFunction, Merge.value_addInterfaceFunction,
      show (n.memberSet members).names = n.members members.names from rfl, n.find?_members,
      n.function_merge, value_map]
    have joined (d : NameMap Declaration) (f : Function) :
        Merge.Members.mk (n.memberSet members).fields
          ((n.memberSet members).methods ++ [Merge.newMethod decl.name (n.spaces space)
            (n.function f)])
          ((n.members d).insert decl.name ⟨.here, .public_,
            .interfaceMethod (n.interfaces index) (n.memberSet members).methods.length⟩) =
        n.memberSet ⟨members.fields, members.methods ++ [Merge.newMethod decl.name space f],
          d.insert decl.name ⟨.here, .public_, .interfaceMethod index members.methods.length⟩⟩ := by
      simp only [memberSet, map_append, length_map, ← n.insert_members]
      rfl
    cases members.names.find? decl.name with
    | none => exact joined _ _
    | some d =>
      obtain ⟨home, v, e⟩ := d
      cases e with
      | interfaceMethod i k =>
        simp only [Option.map_some, declaration, entity, memberSet, n.modify_method]
      | _ => exact joined _ _
  · rw [notes_map, notes_addInterfaceFunction, notes_addInterfaceFunction, n.function_merge,
      notes_map]
    rfl

/-! #### Entries -/

section

variable (m : Merge) (v : Visibility) (index space : Nat)
include m v index space

theorem classEntry_merge (decl : ClassDecl) :
    (n.merge m).classEntry v (n.classes index) (n.spaces space) decl =
      n.classDef .here <$> m.classEntry v index space decl := by
  have fields := foldlM_map (n.addMemberVariable_merge m decl.name index) {} decl.fields
  have functions (members : Merge.Members) :=
    foldlM_map (n.addMemberFunction_merge m decl.name index space) members decl.functions
  have constructors := traverse_map
    (fun f : FunctionDecl => n.function_merge m f (Merge.memberVisibility f.visibility))
    decl.constructors
  have start : n.memberSet {} = {} := rfl
  rw [start] at fields
  unfold Merge.classEntry
  rw [fields, constructors]
  simp only [bind_map_left, functions, map_bind]
  apply Noted.ext
  · rfl
  · simp

theorem interfaceEntry_merge (decl : InterfaceDecl) :
    (n.merge m).interfaceEntry v (n.interfaces index) (n.spaces space) decl =
      n.interfaceDef .here <$> m.interfaceEntry v index space decl := by
  have functions := foldlM_map (n.addInterfaceFunction_merge m index space) {} decl.functions
  have start : n.memberSet {} = {} := rfl
  rw [start] at functions
  unfold Merge.interfaceEntry
  rw [functions]
  apply Noted.ext
  · rfl
  · simp

/-- Under new numbers a declaration is read into the entry under new numbers, with the same
complaints. -/
theorem entry_merge (leaf : Leaf) :
    (n.merge m).entry v (n.ofLeaf leaf index) (n.spaces space) leaf =
      n.newEntry <$> m.entry v index space leaf := by
  cases leaf with
  | classDecl decl =>
    simp only [Merge.entry, ofLeaf, n.classEntry_merge]
    rfl
  | interfaceDecl decl =>
    simp only [Merge.entry, ofLeaf, n.interfaceEntry_merge]
    rfl
  | delegateDecl decl =>
    apply Noted.ext
    · simp only [Merge.entry, n.params_merge, value_bind, value_pure,
        value_map, newEntry, delegateDef, n.map_parameter_params, n.map_ref_openTypes]
      rfl
    · simp [Merge.entry, n.params_merge]
  | coroutineDecl decl =>
    apply Noted.ext
    · simp only [Merge.entry, value_pure, value_map, newEntry, coroutineDef,
        n.map_ref_openTypes]
      rfl
    · simp [Merge.entry]
  | variableDecl decl => rfl
  | functionDecl kind decl =>
    cases kind <;>
      · simp only [Merge.entry, n.function_merge, bind_map_left, map_bind]
        rfl

end

end Numbering

end Linkage
