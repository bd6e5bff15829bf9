/-
Purpose: The members of a type stay consistent while they are added one after the other.
-/
import Linkage.Draft.Merge
import Linkage.Proofs.Noted
import Linkage.Proofs.Table.Types
import Linkage.Proofs.Table.WellMade

namespace Linkage

open List NameMap Option

/-- A type before linking: still open, or the parent that every class has to begin with. -/
def IsOpen (type : TypeRef) : Prop := type = .invalid ∨ type = TypeId.handle.scalar

/-- A function as it comes from source. -/
structure Function.Fresh (f : Function) : Prop where
  source : f.source.isSome = true
  types : f.Settled IsOpen

/-- A method as it comes from source. -/
structure Method.Fresh (m : Method) : Prop where
  inhabited : m.functions ≠ []
  functions : ∀ f ∈ m.functions, f.Fresh

theorem Method.Fresh.sourced {m : Method} (fresh : m.Fresh) : m.Sourced :=
  fun f member => (fresh.functions f member).source

theorem Method.Fresh.settled {m : Method} (fresh : m.Fresh) : m.Settled IsOpen :=
  fun f member => (fresh.functions f member).types

namespace Merge

variable {members : Members} {index : Nat} (m : Merge) (className : String)

theorem isOpen_of_mem_openTypes {exprs : List TypeExpr} {type : TypeRef}
    (member : type ∈ openTypes exprs) : IsOpen type := by
  obtain ⟨_, _, rfl⟩ := mem_map.1 member
  exact .inl rfl

theorem isOpen_of_mem_params {ps : List ParameterDecl} {p : Parameter}
    (member : p ∈ (m.params ps).value) : IsOpen p.type := by
  obtain ⟨_, _, rfl⟩ := mem_mapIdx.1 member
  exact .inl rfl

/-- A function that is read from source knows where it was written, and its types are
open. -/
theorem fresh_function (decl : FunctionDecl) (v : Visibility) :
    (m.function decl v).value.Fresh where
  source := rfl
  types :=
    { params := fun _ member => m.isOpen_of_mem_params member
      returns := fun _ member => isOpen_of_mem_openTypes member }

theorem fresh_newMethod (name : String) (space : Nat) {f : Function} (fresh : f.Fresh) :
    (newMethod name space f).Fresh where
  inhabited := cons_ne_nil _ _
  functions := by
    intro f' member
    rw [mem_singleton.1 member]
    exact fresh

theorem fresh_appendFunction {f : Function} (fresh : f.Fresh) {method : Method}
    (freshMethod : method.Fresh) : (appendFunction f method).Fresh where
  inhabited := by simp [appendFunction]
  functions := by
    intro f' member
    rcases mem_append.1 member with old | new
    · exact freshMethod.functions f' old
    · rw [mem_singleton.1 new]
      exact fresh

/-! ### Members of classes -/

/-- The members of a class, as far as they have been added: each name leads to the variable
or method that bears it, and all of them are as they come from source. -/
structure Members.OfClass (index : Nat) (members : Members) : Prop where
  names : Faithful .here members.names.find? (classMemberAt members.fields members.methods index)
  shown : Shown members.names.find? (classMemberVisibilities members.fields members.methods index)
  fields : ∀ v ∈ members.fields, v.source.isSome = true ∧ IsOpen v.type
  methods : ∀ method ∈ members.methods, method.Fresh

theorem Members.OfClass.nil (index : Nat) : Members.OfClass index {} where
  names := by
    refine ⟨?_, ?_⟩
    · intro k d found
      cases found
    · intro e k stands
      cases e <;> simp [classMemberAt] at stands
  shown := ⟨fun found => by cases found⟩
  fields := by simp
  methods := by simp

theorem name_modify_appendFunction (methods : List Method) (i : Nat) (f : Function) (k : Nat) :
    (methods.modify i (appendFunction f))[k]?.map (·.name) = methods[k]?.map (·.name) := by
  have names : (methods.modify i (appendFunction f)).map (·.name) = methods.map (·.name) :=
    map_modify_of_keeps (fun _ => by rfl) methods i
  rw [← getElem?_map, names, getElem?_map]

section

variable (fields : List MemberVariable) (methods : List Method)
include fields methods

theorem classMemberAt_append_field (index : Nat) (v : MemberVariable) (e : Entity) :
    classMemberAt (fields ++ [v]) methods index e =
      if e = .memberVariable index fields.length then some v.name
      else classMemberAt fields methods index e := by
  cases e with
  | memberVariable owner i =>
    simp only [classMemberAt, getElem?_append_singleton, Entity.memberVariable.injEq]
    by_cases own : owner = index <;> by_cases last : i = fields.length <;> simp [own, last]
  | _ => simp [classMemberAt]

theorem classMemberAt_append_method (index : Nat) (method : Method) (e : Entity) :
    classMemberAt fields (methods ++ [method]) index e =
      if e = .memberMethod index methods.length then some method.name
      else classMemberAt fields methods index e := by
  cases e with
  | memberMethod owner i =>
    simp only [classMemberAt, getElem?_append_singleton, Entity.memberMethod.injEq]
    by_cases own : owner = index <;> by_cases last : i = methods.length <;> simp [own, last]
  | _ => simp [classMemberAt]

theorem classMemberAt_appendFunction (index i : Nat) (f : Function) (e : Entity) :
    classMemberAt fields (methods.modify i (appendFunction f)) index e =
      classMemberAt fields methods index e := by
  cases e with
  | memberMethod owner k => simp [classMemberAt, name_modify_appendFunction]
  | _ => rfl

theorem classMemberVisibilities_append_field (index : Nat) (v : MemberVariable) (e : Entity) :
    classMemberVisibilities (fields ++ [v]) methods index e =
      if e = .memberVariable index fields.length then [v.visibility]
      else classMemberVisibilities fields methods index e := by
  cases e with
  | memberVariable owner i =>
    simp only [classMemberVisibilities, getElem?_append_singleton, Entity.memberVariable.injEq]
    by_cases own : owner = index <;> by_cases last : i = fields.length <;> simp [own, last]
  | _ => simp [classMemberVisibilities]

theorem classMemberVisibilities_append_method (index : Nat) (method : Method) (e : Entity) :
    classMemberVisibilities fields (methods ++ [method]) index e =
      if e = .memberMethod index methods.length then method.visibilities
      else classMemberVisibilities fields methods index e := by
  cases e with
  | memberMethod owner i =>
    simp only [classMemberVisibilities, getElem?_append_singleton, Entity.memberMethod.injEq]
    by_cases own : owner = index <;> by_cases last : i = methods.length <;> simp [own, last]
  | _ => simp [classMemberVisibilities]

end

theorem visibilities_appendFunction (f : Function) (method : Method) :
    (appendFunction f method).visibilities = method.visibilities ++ [f.visibility] := by
  simp [Method.visibilities, appendFunction]

theorem visibilities_modify_appendFunction {methods : List Method} {i : Nat}
    (inside : i < methods.length) (f : Function) (k : Nat) :
    ((methods.modify i (appendFunction f))[k]?.map (·.visibilities)).getD [] =
      if k = i then (methods[k]?.map (·.visibilities)).getD [] ++ [f.visibility]
      else (methods[k]?.map (·.visibilities)).getD [] := by
  by_cases here : k = i
  · subst here
    simp [getElem?_eq_getElem inside, visibilities_appendFunction]
  · simp [here, Ne.symm here]

theorem classMemberVisibilities_appendFunction (fields : List MemberVariable)
    {methods : List Method} (index : Nat) {i : Nat} (inside : i < methods.length) (f : Function)
    (e : Entity) :
    classMemberVisibilities fields (methods.modify i (appendFunction f)) index e =
      if e = .memberMethod index i then
        classMemberVisibilities fields methods index e ++ [f.visibility]
      else classMemberVisibilities fields methods index e := by
  cases e with
  | memberMethod owner k =>
    simp only [classMemberVisibilities, visibilities_modify_appendFunction inside,
      Entity.memberMethod.injEq]
    by_cases own : owner = index <;> by_cases here : k = i <;> simp [own, here]
  | _ => simp [classMemberVisibilities]

theorem find?_modify_widen (names : NameMap Declaration) (name : String) (v : Visibility)
    (other : String) :
    (names.modify name (widen v)).find? other =
      if other = name then (names.find? other).map fun d =>
        { d with visibility := d.visibility.widest v }
      else names.find? other :=
  find?_modify names name other (widen v)

/-- Widening a visibility changes nothing else. -/
theorem find?_widen (names : NameMap Declaration) (name : String) (v : Visibility)
    (other : String) :
    ((names.modify name (widen v)).find? other).map (fun d => (d.home, d.entity)) =
      (names.find? other).map fun d => (d.home, d.entity) := by
  rw [find?_modify]
  split
  · rw [Option.map_map]
    rfl
  · rfl

/-- Adding a variable keeps the members of a class consistent. -/
theorem addMemberVariable_ofClass (decl : VariableDecl) (held : members.OfClass index) :
    (m.addMemberVariable className index members decl).value.OfClass index := by
  unfold addMemberVariable
  split
  · exact held
  · rename_i absent
    have free : members.names.find? decl.name = none := not_isSome_iff_eq_none.1 absent
    have new : classMemberAt members.fields members.methods index
        (.memberVariable index members.fields.length) = none := by
      simp [classMemberAt]
    refine ⟨?_, ?_, ?_, held.methods⟩
    · exact held.names.insert free new (fun name => find?_insert _ _ _ _)
        (fun e => classMemberAt_append_field _ _ _ _ _)
    · exact held.shown.insert held.names new
        (fun name => find?_insert _ _ _ _) (.singleton _)
        (fun e => classMemberVisibilities_append_field _ _ _ _ _)
    · intro v member
      rcases mem_append.1 member with old | new
      · exact held.fields v old
      · rw [mem_singleton.1 new]
        exact ⟨rfl, .inl rfl⟩

theorem Members.OfClass.method_of_find (held : members.OfClass index) {name : String}
    {d : Declaration} (stored : members.names.find? name = some d) {owner method : Nat}
    (isMethod : d.entity = .memberMethod owner method) :
    owner = index ∧ method < members.methods.length := by
  have stands := (held.names.sound stored).2
  rw [isMethod] at stands
  obtain ⟨own, named⟩ := ite_none_right_eq_some.1 stands
  obtain ⟨_, found, _⟩ := map_eq_some_iff.1 named
  exact ⟨own, (lt_of_getElem? found)⟩

/-- Adding a function keeps the members of a class consistent. -/
theorem addMemberFunction_ofClass (space : Nat) (decl : FunctionDecl)
    (held : members.OfClass index) :
    (m.addMemberFunction className index space members decl).value.OfClass index := by
  have fresh := m.fresh_function decl (memberVisibility decl.visibility)
  unfold addMemberFunction
  split
  · exact held
  · split
    · rename_i owner method found
      obtain ⟨d, stored, isMethod⟩ := map_eq_some_iff.1 found
      obtain ⟨own, inside⟩ := held.method_of_find stored isMethod
      refine ⟨?_, ?_, held.fields, ?_⟩
      · exact held.names.congr (find?_widen _ _ _) (classMemberAt_appendFunction _ _ _ _ _)
      · refine held.shown.widen held.names stored (find?_modify_widen _ _ _) fun e => ?_
        rw [isMethod, own]
        exact classMemberVisibilities_appendFunction _ _ inside _ e
      · exact forall_mem_modify (fun _ freshMethod => fresh_appendFunction fresh freshMethod)
          held.methods method
    · exact held
    · rename_i absent
      have free : members.names.find? decl.name = none := map_eq_none_iff.1 absent
      have new : classMemberAt members.fields members.methods index
          (.memberMethod index members.methods.length) = none := by
        simp [classMemberAt]
      refine ⟨?_, ?_, held.fields, ?_⟩
      · exact held.names.insert free new (fun name => find?_insert _ _ _ _)
          (fun e => classMemberAt_append_method _ _ _ (newMethod decl.name space _) _)
      · exact held.shown.insert held.names new
          (fun name => find?_insert _ _ _ _) (.singleton _)
          (fun e => classMemberVisibilities_append_method _ _ _ (newMethod decl.name space _) _)
      · intro method member
        rcases mem_append.1 member with old | new
        · exact held.methods method old
        · rw [mem_singleton.1 new]
          exact fresh_newMethod _ _ fresh

theorem classMembers_ofClass (index space : Nat)
    (fields : List VariableDecl) (functions : List FunctionDecl) :
    (functions.foldlM (m.addMemberFunction className index space)
      (fields.foldlM (m.addMemberVariable className index) {}).value).value.OfClass index := by
  have start : Members.OfClass index
      (fields.foldlM (m.addMemberVariable className index) {}).value :=
    Noted.value_foldlM_of_step
      (fun _ decl _ held => m.addMemberVariable_ofClass className decl held) (.nil index)
  exact Noted.value_foldlM_of_step
    (fun _ decl _ held => m.addMemberFunction_ofClass className space decl held) start

/-! ### Members of interfaces -/

/-- The members of an interface, as far as they have been added.  All of them are public. -/
structure Members.OfInterface (index : Nat) (members : Members) : Prop where
  names : Faithful .here members.names.find? (interfaceMemberAt members.methods index)
  open_ : ∀ {name d}, members.names.find? name = some d → d.visibility = .public_
  methods : ∀ method ∈ members.methods, method.Fresh ∧ ∀ v ∈ method.visibilities, v = .public_

/-- The methods of an interface are as visible as their functions. -/
theorem Members.OfInterface.shown (held : members.OfInterface index) :
    Shown members.names.find? (interfaceMemberVisibilities members.methods index) := by
  refine ⟨fun {name d} found => ?_⟩
  have stands := (held.names.sound found).2
  rw [held.open_ found]
  cases kind : d.entity with
  | interfaceMethod owner i =>
    rw [kind] at stands
    obtain ⟨own, named⟩ := ite_none_right_eq_some.1 stands
    obtain ⟨method, atIndex, _⟩ := map_eq_some_iff.1 named
    obtain ⟨fresh, open_⟩ := held.methods method (mem_of_getElem? atIndex)
    have comes : interfaceMemberVisibilities members.methods index (.interfaceMethod owner i) =
        method.visibilities := by
      simp [interfaceMemberVisibilities, own, atIndex]
    rw [comes]
    obtain ⟨v, member⟩ := exists_mem_of_ne_nil method.visibilities
      (by simpa [Method.visibilities] using fresh.inhabited)
    refine ⟨open_ v member ▸ member, fun w inside => ?_⟩
    exact Nat.le_of_eq (congrArg Visibility.breadth (open_ w inside))
  | _ => rw [kind] at stands; simp [interfaceMemberAt] at stands

theorem Members.OfInterface.nil (index : Nat) : Members.OfInterface index {} where
  names := by
    refine ⟨?_, ?_⟩
    · intro k d found
      cases found
    · intro e k stands
      cases e <;> simp [interfaceMemberAt] at stands
  open_ := by
    intro name d found
    cases found
  methods := by simp

theorem interfaceMemberAt_append (methods : List Method) (index : Nat) (method : Method)
    (e : Entity) :
    interfaceMemberAt (methods ++ [method]) index e =
      if e = .interfaceMethod index methods.length then some method.name
      else interfaceMemberAt methods index e := by
  cases e with
  | interfaceMethod owner i =>
    simp only [interfaceMemberAt, getElem?_append_singleton, Entity.interfaceMethod.injEq]
    by_cases own : owner = index <;> by_cases last : i = methods.length <;> simp [own, last]
  | _ => simp [interfaceMemberAt]

theorem interfaceMemberAt_appendFunction (methods : List Method) (index i : Nat) (f : Function)
    (e : Entity) :
    interfaceMemberAt (methods.modify i (appendFunction f)) index e =
      interfaceMemberAt methods index e := by
  cases e with
  | interfaceMethod owner k => simp [interfaceMemberAt, name_modify_appendFunction]
  | _ => rfl

/-- A complaint about its visibility does not change how a function is added. -/
theorem value_addInterfaceFunction (index space : Nat) (members : Members) (decl : FunctionDecl) :
    (m.addInterfaceFunction index space members decl).value =
      match (members.names.find? decl.name).map Declaration.entity with
      | some (.interfaceMethod _ method) =>
        { members with
          methods := members.methods.modify method
            (appendFunction (m.function decl .public_).value) }
      | _ =>
        { members with
          methods := members.methods ++ [newMethod decl.name space (m.function decl .public_).value]
          names := members.names.insert decl.name
            ⟨.here, .public_, .interfaceMethod index members.methods.length⟩ } := by
  unfold addInterfaceFunction
  generalize (members.names.find? decl.name).map Declaration.entity = found
  rcases found with _ | e
  · rcases decl.visibility with _ | v
    · rfl
    · cases v <;> rfl
  · rcases decl.visibility with _ | v
    · cases e <;> rfl
    · cases v <;> cases e <;> rfl

/-- Adding a function keeps the members of an interface consistent. -/
theorem addInterfaceFunction_ofInterface (space : Nat) (decl : FunctionDecl)
    (held : members.OfInterface index) :
    (m.addInterfaceFunction index space members decl).value.OfInterface index := by
  have fresh := m.fresh_function decl .public_
  rw [value_addInterfaceFunction]
  split
  · rename_i owner method found
    refine ⟨?_, held.open_, ?_⟩
    · exact held.names.congr (fun _ => rfl) (interfaceMemberAt_appendFunction _ _ _ _)
    · refine forall_mem_modify (fun old kept => ⟨fresh_appendFunction fresh kept.1, ?_⟩)
        held.methods method
      rw [visibilities_appendFunction, forall_mem_append]
      exact ⟨kept.2, by simp [function]⟩
  · rename_i other
    -- All members of an interface are methods, so the name is not taken.
    have free : members.names.find? decl.name = none := by
      rw [← map_eq_none_iff (f := Declaration.entity), eq_none_iff_forall_ne_some]
      intro e found
      cases e with
      | interfaceMethod owner method => exact other owner method found
      | _ => cases held.names.entity_iff.1 found
    refine ⟨?_, ?_, ?_⟩
    · refine held.names.insert free ?_ (fun name => find?_insert _ _ _ _)
        (fun e => interfaceMemberAt_append _ _ (newMethod decl.name space _) _)
      simp [interfaceMemberAt]
    · intro name d found
      rw [find?_insert] at found
      split at found
      · cases found
        rfl
      · exact held.open_ found
    · intro method member
      rcases mem_append.1 member with old | new
      · exact held.methods method old
      · rw [mem_singleton.1 new]
        exact ⟨fresh_newMethod _ _ fresh, by simp [newMethod, Method.visibilities, function]⟩

theorem interfaceMembers_ofInterface (index space : Nat) (functions : List FunctionDecl) :
    (functions.foldlM (m.addInterfaceFunction index space) {}).value.OfInterface index :=
  Noted.value_foldlM_of_step
    (fun _ decl _ held => m.addInterfaceFunction_ofInterface space decl held) (.nil index)

end Merge

end Linkage
