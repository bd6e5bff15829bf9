/-
Purpose: What becomes of every member of a class or an interface when its declaration is read.
-/
import Linkage.Proofs.Reorder.Leaves

namespace Linkage

open List Noted Declaration

variable {old : Method} {i index : Nat} {e : Entity} {name : String} {members : Members} {m : Merge}

open Noted (Reports)

/-! ### Sifting -/

/-- Elements gone through one after the other.  Each of them is kept, unless it clashes with what
was kept before it: then it is passed over with one complaint. -/
inductive Sifted {α ν : Type} (clash : List α → α → Option ν) : List α → List α → List ν → Prop
  | nil : Sifted clash [] [] []
  | keep {past kept : List α} {complaints : List ν} {a : α}
      (before : Sifted clash past kept complaints) (free : clash kept a = none) :
      Sifted clash (past ++ [a]) (kept ++ [a]) complaints
  | drop {past kept : List α} {complaints : List ν} {a : α} {complaint : ν}
      (before : Sifted clash past kept complaints) (clashes : clash kept a = some complaint) :
      Sifted clash (past ++ [a]) kept (complaints ++ [complaint])

section

variable {α ν : Type} {clash : List α → α → Option ν} {past kept : List α} {complaints : List ν}
    (sifted : Sifted clash past kept complaints)
include sifted

theorem Sifted.clash_of_mem {complaint : ν}
    (member : complaint ∈ complaints) : ∃ kept' a, clash kept' a = some complaint := by
  induction sifted with
  | nil => cases member
  | keep before free ih => exact ih member
  | drop before clashes ih =>
    rcases mem_append.1 member with earlier | last
    · exact ih earlier
    · rw [mem_singleton.1 last]
      exact ⟨_, _, clashes⟩

theorem Sifted.free_of_mem {a : α}
    (member : a ∈ kept) : a ∈ past ∧ ∃ kept', clash kept' a = none := by
  induction sifted with
  | nil => cases member
  | keep before free ih =>
    rcases mem_append.1 member with earlier | last
    · obtain ⟨inside, free⟩ := ih earlier
      exact ⟨mem_append_left _ inside, free⟩
    · rw [mem_singleton.1 last]
      exact ⟨mem_append_right _ (mem_singleton_self _), _, free⟩
  | drop before clashes ih =>
    obtain ⟨inside, free⟩ := ih member
    exact ⟨mem_append_left _ inside, free⟩

end

/-! ### Gathering functions in methods -/

namespace Method

variable {ms : List Method} {m : Method}

/-- The space and the name of a method. -/
def key (m : Method) : Nat × String := (m.space, m.name)

/-- Put methods of one space and name together.  They come in the order of their first functions,
and their functions in the order in which they were. -/
def gather (ms : List Method) : List Method :=
  (ms.map key).eraseDups.map fun k =>
    ⟨k.2, k.1, (ms.filter fun m => m.key = k).flatMap functions⟩

theorem map_key_gather (ms : List Method) : (gather ms).map key = (ms.map key).eraseDups := by
  simp [gather, Function.comp_def, key]

theorem key_of_mem_gather (member : m ∈ gather ms) : m.key ∈ ms.map key := by
  rw [← mem_eraseDups, ← map_key_gather]
  exact mem_map_of_mem member

/-- A method of a new space and name comes last. -/
theorem gather_append_of_new
    (new : ∀ old ∈ gather ms, old.key ≠ m.key) : gather (ms ++ [m]) = gather ms ++ [m] := by
  have unknown : m.key ∉ ms.map key := by
    rw [← mem_eraseDups, ← map_key_gather]
    intro known
    obtain ⟨old, member, same⟩ := mem_map.1 known
    exact new old member same
  have none_before : ms.filter (fun m' => m'.key = m.key) = [] := by
    refine filter_eq_nil_iff.2 fun m' member => ?_
    rw [decide_eq_true_eq]
    exact fun same => unknown (mem_map.2 ⟨m', member, same⟩)
  have keys : ((ms ++ [m]).map key).eraseDups = (ms.map key).eraseDups ++ [m.key] := by
    rw [map_append, map_singleton, eraseDups_append_singleton, if_neg unknown]
  unfold gather
  rw [keys, map_append]
  congr 1
  · refine map_congr_left fun k known => ?_
    have other : m.key ≠ k := fun same => unknown (same ▸ mem_eraseDups.1 known)
    simp [other]
  · simp only [map_singleton, filter_append, none_before]
    simp [key]

/-- A method of a known space and name adds its functions to those that are there. -/
theorem gather_append_of_old (found : (gather ms)[i]? = some old) (same : old.key = m.key) :
    gather (ms ++ [m]) =
      (gather ms).modify i fun o => { o with functions := o.functions ++ m.functions } := by
  have place : (ms.map key).eraseDups[i]? = some m.key := by
    rw [← map_key_gather, getElem?_map, found, Option.map_some, same]
  have known : m.key ∈ ms.map key := mem_eraseDups.1 (mem_of_getElem? place)
  have keys : ((ms ++ [m]).map key).eraseDups = (ms.map key).eraseDups := by
    rw [map_append, map_singleton, eraseDups_append_singleton, if_pos known]
  apply ext_getElem?
  intro k
  unfold gather
  rw [keys, getElem?_modify, getElem?_map, getElem?_map]
  by_cases here : i = k
  · subst here
    simp [place]
  · -- No other method has that space and name.
    cases other : (ms.map key).eraseDups[k]? with
    | none => simp
    | some key' =>
      have different : m.key ≠ key' := by
        rintro rfl
        have inside := lt_of_getElem? place
        exact here ((getElem?_inj inside (nodup_eraseDups _)).1 (place.trans other.symm))
      simp [here, different]

end Method

namespace Merge

/-- The methods that functions of one space make up. -/
def methodsOf (space : Nat) (read : FunctionDecl → Function) (decls : List FunctionDecl) :
    List Method :=
  Method.gather (decls.map fun decl => newMethod decl.name space (read decl))

section MethodsOf

variable {space : Nat} {read : FunctionDecl → Function} {decls : List FunctionDecl}
  {decl : FunctionDecl}

theorem space_of_mem_methodsOf (member : old ∈ methodsOf space read decls) : old.space = space := by
  obtain ⟨first, inside, same⟩ := mem_map.1 (Method.key_of_mem_gather member)
  obtain ⟨decl, _, rfl⟩ := mem_map.1 inside
  exact (congrArg Prod.fst same).symm

theorem methodsOf_append_of_new (new : ∀ old ∈ methodsOf space read decls, old.name ≠ decl.name) :
    methodsOf space read (decls ++ [decl]) =
      methodsOf space read decls ++ [newMethod decl.name space (read decl)] := by
  rw [methodsOf, map_append, map_singleton, Method.gather_append_of_new, methodsOf]
  exact fun old member same => new old member (congrArg Prod.snd same)

/-- A later function of a name joins the method. -/
theorem methodsOf_append_of_old
    (found : (methodsOf space read decls)[i]? = some old) (named : old.name = decl.name) :
    methodsOf space read (decls ++ [decl]) =
      (methodsOf space read decls).modify i (appendFunction (read decl)) := by
  have inSpace := space_of_mem_methodsOf (mem_of_getElem? found)
  have same : old.key = (newMethod decl.name space (read decl)).key := Prod.ext inSpace named
  rw [methodsOf, map_append, map_singleton, Method.gather_append_of_old found same,
    methodsOf]
  rfl

end MethodsOf

end Merge

/-! ### Complaints -/

/-- The complaint is that a member clashes with its class or with another member. -/
def Diagnostic.isMemberClash (d : Diagnostic) : Bool :=
  d.code = .duplicateMember || d.code = .memberNamedAsClass

namespace Merge

theorem filter_isMemberClash_function (m : Merge) (decl : FunctionDecl) (v : Visibility) :
    (m.function decl v).notes.filter Diagnostic.isMemberClash = [] := by
  refine Reports.filter_eq_nil ((m.function_reports decl v).imp fun d isParameter => ?_)
  simp [Diagnostic.isMemberClash, isParameter]

/-! ### Members of classes -/

/-- The variable that a member of a class is read into. -/
def memberVariable (m : Merge) (decl : VariableDecl) : MemberVariable :=
  ⟨decl.name, memberVisibility decl.visibility, .invalid, 0, some ⟨m.anchor decl.span, decl.type⟩⟩

/-- The function that a member of a class is read into. -/
def memberFunction (m : Merge) (decl : FunctionDecl) : Function :=
  (m.function decl (memberVisibility decl.visibility)).value

/-- What is wrong with a variable of a class, after others were kept: one of them has its name. -/
def fieldClash (m : Merge) (owner : String) (kept : List VariableDecl) (decl : VariableDecl) :
    Option Diagnostic :=
  if decl.name ∈ kept.map VariableDecl.name then
    some ⟨m.path, decl.span, .alreadyMember decl.name owner⟩
  else none

/-- What is wrong with a function of a class with given variables: it has the name of the class or
of one of them. -/
def functionClash (m : Merge) (owner : String) (fields : List VariableDecl)
    (decl : FunctionDecl) : Option Diagnostic :=
  if decl.name = owner then some ⟨m.path, decl.span, .memberNamedAsClass decl.name⟩
  else if decl.name ∈ fields.map VariableDecl.name then
    some ⟨m.path, decl.span, .alreadyMember decl.name owner⟩
  else none

theorem map_name_memberVariable (m : Merge) (fields : List VariableDecl) :
    (fields.map m.memberVariable).map (·.name) = fields.map VariableDecl.name := by
  rw [map_map]
  rfl

namespace Members.OfClass

variable {index : Nat} {members : Members} {name : String}

/-- What a name leads to is a variable or a method of the class. -/
theorem entity_cases (held : members.OfClass index)
    (found : (members.names.find? name).map entity = some e) :
    (∃ i, e = .memberVariable index i ∧ name ∈ members.fields.map (·.name)) ∨
      ∃ i old, e = .memberMethod index i ∧ members.methods[i]? = some old ∧ old.name = name := by
  rw [held.names.entity_iff] at found
  cases e with
  | memberVariable owner i =>
    obtain ⟨rfl, named⟩ := Option.ite_none_right_eq_some.1 found
    obtain ⟨v, atIndex, rfl⟩ := Option.map_eq_some_iff.1 named
    exact .inl ⟨i, rfl, mem_map_of_mem (mem_of_getElem? atIndex)⟩
  | memberMethod owner i =>
    obtain ⟨rfl, named⟩ := Option.ite_none_right_eq_some.1 found
    obtain ⟨old, atIndex, isName⟩ := Option.map_eq_some_iff.1 named
    exact .inr ⟨i, old, rfl, atIndex, isName⟩
  | _ => cases found

theorem find_field (held : members.OfClass index) (known : name ∈ members.fields.map (·.name)) :
    ∃ i, (members.names.find? name).map entity = some (.memberVariable index i) := by
  obtain ⟨v, member, rfl⟩ := mem_map.1 known
  obtain ⟨i, atIndex⟩ := mem_iff_getElem?.1 member
  exact ⟨i, held.names.entity_iff.2 (by simp [classMemberAt, atIndex])⟩

theorem find_method (held : members.OfClass index) (member : old ∈ members.methods) :
    ∃ i, (members.names.find? old.name).map entity = some (.memberMethod index i) := by
  obtain ⟨i, atIndex⟩ := mem_iff_getElem?.1 member
  exact ⟨i, held.names.entity_iff.2 (by simp [classMemberAt, atIndex])⟩

end Members.OfClass

/-- The variables of a class, as far as they have been gone through. -/
structure FieldsRead (m : Merge) (owner : String) (index : Nat) (past kept : List VariableDecl)
    (members : Members) (notes : List Diagnostic) : Prop where
  sifted : Sifted (m.fieldClash owner) past kept notes
  fields : members.fields = kept.map m.memberVariable
  methods : members.methods = []
  held : members.OfClass index

section

variable {m : Merge} {owner : String} {index : Nat} {past kept : List VariableDecl}
    {members : Members} {notes : List Diagnostic}
    (read : FieldsRead m owner index past kept members notes)
include read

/-- While a class has no methods, the names that are taken are those of its variables. -/
theorem FieldsRead.contains_iff (name : String) :
    members.names.contains name = true ↔ name ∈ kept.map VariableDecl.name := by
  rw [← m.map_name_memberVariable, ← read.fields, NameMap.contains]
  constructor
  · intro taken
    obtain ⟨d, found⟩ := Option.isSome_iff_exists.1 taken
    obtain ⟨_, _, known⟩ | ⟨_, _, _, atIndex, _⟩ :=
      read.held.entity_cases (congrArg (Option.map entity) found)
    · exact known
    · rw [read.methods] at atIndex
      cases atIndex
  · intro known
    obtain ⟨i, found⟩ := read.held.find_field known
    obtain ⟨d, stored, _⟩ := Option.map_eq_some_iff.1 found
    rw [stored, Option.isSome_some]

/-- One more variable is kept or complained about. -/
theorem FieldsRead.step (decl : VariableDecl) :
    ∃ kept', FieldsRead m owner index (past ++ [decl]) kept'
      (m.addMemberVariable owner index members decl).value
      (notes ++ (m.addMemberVariable owner index members decl).notes) := by
  have held := m.addMemberVariable_ofClass owner decl read.held
  by_cases known : decl.name ∈ kept.map VariableDecl.name
  · have passed : m.addMemberVariable owner index members decl =
        ⟨members, [⟨m.path, decl.span, .alreadyMember decl.name owner⟩]⟩ := by
      rw [addMemberVariable, if_pos ((read.contains_iff _).2 known)]
      rfl
    rw [passed] at held ⊢
    exact ⟨kept, read.sifted.drop (if_pos known), read.fields, read.methods, held⟩
  · have free : ¬members.names.contains decl.name = true := mt (read.contains_iff _).1 known
    refine ⟨kept ++ [decl], ?_, ?_, ?_, held⟩
    · rw [addMemberVariable, if_neg free, notes_pure, append_nil]
      exact read.sifted.keep (if_neg known)
    · rw [addMemberVariable, if_neg free, map_append, ← read.fields]
      rfl
    · rw [addMemberVariable, if_neg free]
      exact read.methods

end

/-- The functions of a class with given variables, as far as they have been gone through. -/
structure FunctionsRead (m : Merge) (owner : String) (index space : Nat)
    (fields : List VariableDecl) (past kept : List FunctionDecl) (complaints : List Diagnostic)
    (members : Members) (notes : List Diagnostic) : Prop where
  sifted : Sifted (fun _ => m.functionClash owner fields) past kept complaints
  notes : notes.filter Diagnostic.isMemberClash = complaints
  fields : members.fields = fields.map m.memberVariable
  methods : members.methods = methodsOf space m.memberFunction kept
  held : members.OfClass index

namespace FunctionsRead

variable {m : Merge} {owner : String} {index space : Nat} {fields : List VariableDecl}
  {past kept : List FunctionDecl} {complaints : List Diagnostic} {members : Members}
  {notes : List Diagnostic} {decl : FunctionDecl}

section

variable (read : FunctionsRead m owner index space fields past kept complaints members notes)
include read

theorem mem_fields_iff :
    name ∈ fields.map VariableDecl.name ↔ ∃ i, (members.names.find? name).map entity =
      some (.memberVariable index i) := by
  rw [← m.map_name_memberVariable, ← read.fields]
  refine ⟨read.held.find_field, ?_⟩
  rintro ⟨i, found⟩
  obtain ⟨_, _, known⟩ | ⟨_, _, other, _⟩ := read.held.entity_cases found
  · exact known
  · cases other

/-- A function that clashes is passed over. -/
theorem drop {d : Diagnostic} (clash : m.functionClash owner fields decl = some d)
    (picked : d.isMemberClash = true)
    (passed : m.addMemberFunction owner index space members decl = ⟨members, [d]⟩) :
    FunctionsRead m owner index space fields (past ++ [decl]) kept (complaints ++ [d])
      (m.addMemberFunction owner index space members decl).value
      (notes ++ (m.addMemberFunction owner index space members decl).notes) := by
  rw [passed]
  refine ⟨read.sifted.drop clash, ?_, read.fields, read.methods, read.held⟩
  rw [filter_append, read.notes, filter_cons_of_pos picked, filter_nil]

/-- A function that does not clash comes into the class. -/
theorem keep (isOther : decl.name ≠ owner) (unknown : decl.name ∉ fields.map VariableDecl.name) :
    FunctionsRead m owner index space fields (past ++ [decl]) (kept ++ [decl]) complaints
      (m.addMemberFunction owner index space members decl).value
      (notes ++ (m.addMemberFunction owner index space members decl).notes) := by
  have held := m.addMemberFunction_ofClass owner space decl read.held
  have free : m.functionClash owner fields decl = none := by
    rw [functionClash, if_neg isOther, if_neg unknown]
  have quiet : (notes ++ (m.function decl (memberVisibility decl.visibility)).notes).filter
      Diagnostic.isMemberClash = complaints := by
    rw [filter_append, read.notes, filter_isMemberClash_function, append_nil]
  cases found : (members.names.find? decl.name).map entity with
  | none =>
    have new : ∀ old ∈ members.methods, old.name ≠ decl.name := by
      intro old member same
      obtain ⟨i, isMethod⟩ := read.held.find_method member
      rw [same, found] at isMethod
      cases isMethod
    simp only [addMemberFunction, if_neg isOther, found, notes_bind, notes_pure,
      value_bind, value_pure, append_nil] at held ⊢
    refine ⟨read.sifted.keep free, quiet, read.fields, ?_, held⟩
    rw [read.methods] at new
    rw [methodsOf_append_of_new new, ← read.methods]
    rfl
  | some e =>
    obtain ⟨i, rfl, _⟩ | ⟨i, old, rfl, atIndex, named⟩ := read.held.entity_cases found
    · exact absurd (read.mem_fields_iff.2 ⟨i, found⟩) unknown
    · rw [read.methods] at atIndex
      simp only [addMemberFunction, if_neg isOther, found, notes_bind, notes_pure,
        value_bind, value_pure, append_nil] at held ⊢
      refine ⟨read.sifted.keep free, quiet, read.fields, ?_, held⟩
      rw [methodsOf_append_of_old atIndex named, ← read.methods]
      rfl

/-- One more function is kept or complained about. -/
theorem step (decl : FunctionDecl) :
    ∃ kept' complaints', FunctionsRead m owner index space fields (past ++ [decl]) kept'
      complaints' (m.addMemberFunction owner index space members decl).value
      (notes ++ (m.addMemberFunction owner index space members decl).notes) := by
  by_cases isOwner : decl.name = owner
  · refine ⟨_, _, read.drop (if_pos isOwner) rfl ?_⟩
    rw [addMemberFunction, if_pos isOwner]
    rfl
  by_cases known : decl.name ∈ fields.map VariableDecl.name
  · obtain ⟨i, found⟩ := read.mem_fields_iff.1 known
    have clash : m.functionClash owner fields decl =
        some ⟨m.path, decl.span, .alreadyMember decl.name owner⟩ := by
      rw [functionClash, if_neg isOwner, if_pos known]
    refine ⟨_, _, read.drop clash rfl ?_⟩
    simp only [addMemberFunction, if_neg isOwner, found]
    rfl
  · exact ⟨_, _, read.keep isOwner known⟩

end

end FunctionsRead

/-- How the members of a class were sorted: those that were kept, and the complaints about the
others. -/
structure Sorting where
  fields : List VariableDecl
  lostFields : List Diagnostic
  functions : List FunctionDecl
  lostFunctions : List Diagnostic

/-- A class and what was noted about it account for every member of its declaration.  Each variable
is stored or complained about, and so is each function, and every constructor is stored, all in
their order. -/
structure Sorting.Accounts (s : Sorting) (m : Merge) (decl : ClassDecl) (c : ClassDef)
    (notes : List Diagnostic) : Prop where
  fields : Sifted (m.fieldClash decl.name) decl.fields s.fields s.lostFields
  functions : Sifted (fun _ => m.functionClash decl.name s.fields) decl.functions s.functions
    s.lostFunctions
  notes : notes.filter Diagnostic.isMemberClash = s.lostFields ++ s.lostFunctions
  storedFields : c.fields = s.fields.map m.memberVariable
  storedMethods : c.methods = methodsOf c.space m.memberFunction s.functions
  constructors : c.constructors = decl.constructors.map m.memberFunction

theorem foldlM_addMemberVariable (m : Merge) (owner : String) (index : Nat)
    (fields : List VariableDecl) :
    ∃ kept, FieldsRead m owner index fields kept
      (fields.foldlM (m.addMemberVariable owner index) {}).value
      (fields.foldlM (m.addMemberVariable owner index) {}).notes := by
  refine foldlM_of_past
    (P := fun past members notes => ∃ kept, FieldsRead m owner index past kept members notes)
    ?_ ⟨[], .nil, rfl, rfl, .nil index⟩ fields
  rintro past members notes decl ⟨kept, read⟩
  exact read.step decl

theorem foldlM_addMemberFunction (m : Merge) (owner : String) (index space : Nat)
    {past kept : List VariableDecl} {notes : List Diagnostic}
    (read : FieldsRead m owner index past kept members notes) (functions : List FunctionDecl) :
    ∃ kept' complaints, FunctionsRead m owner index space kept functions kept' complaints
      (functions.foldlM (m.addMemberFunction owner index space) members).value
      (functions.foldlM (m.addMemberFunction owner index space) members).notes := by
  refine foldlM_of_past (P := fun past members notes => ∃ kept' complaints,
      FunctionsRead m owner index space kept past kept' complaints members notes)
    ?_ ⟨[], [], .nil, rfl, read.fields, read.methods, read.held⟩ functions
  rintro past members notes decl ⟨kept', complaints, read⟩
  exact read.step decl

/-- All that is wrong with variables is that they clash. -/
theorem filter_isMemberClash_of_sifted {owner : String} {past kept : List VariableDecl}
    {complaints : List Diagnostic} (sifted : Sifted (m.fieldClash owner) past kept complaints) :
    complaints.filter Diagnostic.isMemberClash = complaints := by
  refine filter_eq_self.2 fun d member => ?_
  obtain ⟨kept', decl, clash⟩ := sifted.clash_of_mem member
  obtain ⟨_, same⟩ := Option.ite_none_right_eq_some.1 clash
  cases same
  rfl

/-- Reading a class accounts for its members. -/
theorem classEntry_accounts (m : Merge) (v : Visibility) (index space : Nat) (decl : ClassDecl) :
    ∃ s : Sorting, s.Accounts m decl (m.classEntry v index space decl).value
      (m.classEntry v index space decl).notes := by
  obtain ⟨fields, readFields⟩ := m.foldlM_addMemberVariable decl.name index decl.fields
  obtain ⟨functions, lost, read⟩ :=
    m.foldlM_addMemberFunction decl.name index space readFields decl.functions
  refine ⟨⟨fields, _, functions, lost⟩, readFields.sifted, read.sifted, ?_, read.fields,
    read.methods, ?_⟩
  · have constructors : (decl.constructors.flatMap fun f =>
        (m.function f (memberVisibility f.visibility)).notes).filter
          Diagnostic.isMemberClash = [] := by
      simp [filter_flatMap, filter_isMemberClash_function]
    simp only [classEntry, notes_bind, notes_pure, notes_traverse,
      filter_append, append_nil, read.notes, constructors,
      filter_isMemberClash_of_sifted readFields.sifted]
  · simp only [classEntry, value_bind, value_pure, value_traverse]
    rfl

/-! ### Members of interfaces -/

/-- The function that a member of an interface is read into. -/
def interfaceFunction (m : Merge) (decl : FunctionDecl) : Function :=
  (m.function decl .public_).value

/-- The functions of an interface, as far as they have been gone through: all of them are kept. -/
structure InterfaceRead (m : Merge) (index space : Nat) (past : List FunctionDecl)
    (members : Members) : Prop where
  methods : members.methods = methodsOf space m.interfaceFunction past
  held : members.OfInterface index

theorem Members.OfInterface.entity_cases (held : members.OfInterface index)
    (found : (members.names.find? name).map entity = some e) :
    ∃ i old, e = .interfaceMethod index i ∧ members.methods[i]? = some old ∧ old.name = name := by
  rw [held.names.entity_iff] at found
  cases e with
  | interfaceMethod owner i =>
    obtain ⟨rfl, named⟩ := Option.ite_none_right_eq_some.1 found
    obtain ⟨old, atIndex, isName⟩ := Option.map_eq_some_iff.1 named
    exact ⟨i, old, rfl, atIndex, isName⟩
  | _ => cases found

theorem Members.OfInterface.find_method
    (held : members.OfInterface index) (member : old ∈ members.methods) :
    ∃ i, (members.names.find? old.name).map entity =
      some (.interfaceMethod index i) := by
  obtain ⟨i, atIndex⟩ := mem_iff_getElem?.1 member
  exact ⟨i, held.names.entity_iff.2 (by simp [interfaceMemberAt, atIndex])⟩

/-- One more function comes into the interface. -/
theorem InterfaceRead.step {space : Nat} {past : List FunctionDecl}
    (read : InterfaceRead m index space past members) (decl : FunctionDecl) :
    InterfaceRead m index space (past ++ [decl])
      (m.addInterfaceFunction index space members decl).value := by
  have held := m.addInterfaceFunction_ofInterface space decl read.held
  refine ⟨?_, held⟩
  rw [value_addInterfaceFunction]
  cases found : (members.names.find? decl.name).map entity with
  | none =>
    have new : ∀ old ∈ members.methods, old.name ≠ decl.name := by
      intro old member same
      obtain ⟨i, isMethod⟩ := read.held.find_method member
      rw [same, found] at isMethod
      cases isMethod
    rw [read.methods] at new
    rw [methodsOf_append_of_new new, ← read.methods]
    rfl
  | some e =>
    obtain ⟨i, old, rfl, atIndex, named⟩ := read.held.entity_cases found
    rw [read.methods] at atIndex
    rw [methodsOf_append_of_old atIndex named, ← read.methods]
    rfl

theorem methods_interfaceEntry (m : Merge) (v : Visibility) (index space : Nat)
    (decl : InterfaceDecl) :
    (m.interfaceEntry v index space decl).value.methods =
      methodsOf space m.interfaceFunction decl.functions :=
  (foldlM_of_past (P := fun past members _ => InterfaceRead m index space past members)
    (fun _ _ _ decl read => read.step decl) ⟨rfl, .nil index⟩ decl.functions).methods

end Merge

end Linkage
