/-
Purpose: Catalogs in which a name and parameter types leave no choice of a member function, and
  what going up from class to class finds in them.
-/
import Linkage.Draft.Inheritance
import Linkage.Proofs.Catalog.Embedding
import Linkage.Proofs.Table.Names

namespace Linkage

open List Walk Option

variable {x y id : TypeId} {c : Catalog} {m o : Nat} {f f' required : Function} {d : ClassDef}
  {method : Method} {group : Declaration}

/-! ### Regular catalogs -/

/-- The member names of a class lead exactly to its variables and methods, no two functions of a
method take the same types, and its parent can be one. -/
structure ClassDef.Regular (home : Home) (index : Nat) (c : ClassDef) : Prop where
  names : Faithful home c.members.find? (c.memberAt index)
  overloads : ∀ m ∈ c.methods, (m.functions.map Function.paramTypes).Nodup
  parent : c.parent = .invalid ∨ c.parent.canBeParent = true

/-- The member names of an interface lead exactly to its methods, which are public. -/
structure InterfaceDef.Regular (home : Home) (index : Nat) (i : InterfaceDef) : Prop where
  names : Faithful home i.members.find? (i.memberAt index)
  open_ : ∀ {name d}, i.members.find? name = some d → d.visibility = .public_

/-- The types of a table are regular.  Only the kernel has value types. -/
structure Table.Regular (place : Home) (t : Table) : Prop where
  home : t.home = place
  classes : ∀ {i : Nat} {c : ClassDef}, t.classes[i]? = some c → c.Regular place i
  kinds : place ≠ .kernel → ∀ c ∈ t.classes, c.kind = .handle
  interfaces : ∀ {i : Nat} {d : InterfaceDef}, t.interfaces[i]? = some d → d.Regular place i

/-- All tables are regular, and no type is its own ancestor. -/
structure Catalog.Regular (c : Catalog) : Prop where
  tables : ∀ {home : Home} {t : Table}, c.table? home = some t → t.Regular home
  ends : ∀ x, Acc (Walk.Onward c.nextParent) x

theorem TypeRef.canBeParent_iff {x : TypeRef} : x.canBeParent = true ↔
    x.dimension = 0 ∧ x.id.kind = .handle ∧ (x.id.home ≠ .kernel ∨ x.id = .handle) := by
  simp [canBeParent, isArray, and_assoc]

/-! ### Member functions -/

theorem TypeId.eq_of_parts (home : x.home = y.home) (kind : x.kind = y.kind)
    (index : x.index = y.index) : x = y := by
  cases y
  cases home
  cases kind
  cases index
  rfl

/-- A function of a class as other types name it. -/
def TypeId.function (id : TypeId) (m o : Nat) (f : Function) : Declaration :=
  ⟨id.home, f.visibility, .memberFunction id.index m o⟩

namespace Catalog

/-- The overload `o` of the method `m` of a class, which has this name, is `f`. -/
def MemberFunction (c : Catalog) (id : TypeId) (name : String) (m o : Nat) (f : Function) : Prop :=
  ∃ d method, c.classDef? id = some d ∧ d.methods[m]? = some method ∧ method.name = name ∧
    method.functions[o]? = some f

/-- A method and an overload of a class tell a function and its name. -/
theorem MemberFunction.eq {name name' : String} (one : c.MemberFunction id name m o f)
    (other : c.MemberFunction id name' m o f') : name = name' ∧ f = f' := by
  obtain ⟨d, method, isClass, isMethod, rfl, isFunction⟩ := one
  obtain ⟨d', method', isClass', isMethod', rfl, isFunction'⟩ := other
  rw [isClass] at isClass'
  cases isClass'
  rw [isMethod] at isMethod'
  cases isMethod'
  rw [isFunction] at isFunction'
  exact ⟨rfl, some.inj isFunction'⟩

/-- Going up from a type, `f` is the first function with a name and parameter types, and the only
one in its class. -/
structure FirstMatch (c : Catalog) (owner : TypeId) (name : String) (types : List TypeRef)
    (id : TypeId) (m o : Nat) (f : Function) : Prop where
  member : c.MemberFunction id name m o f
  params : f.paramTypes = types
  unique : ∀ m' o' f', c.MemberFunction id name m' o' f' → f'.paramTypes = types →
    m' = m ∧ o' = o ∧ f' = f
  first : ∃ n, steps c.nextParent n owner = some id ∧
    ∀ n' < n, ∀ id', steps c.nextParent n' owner = some id' →
      ∀ m' o' f', c.MemberFunction id' name m' o' f' → f'.paramTypes ≠ types

/-- The function of a name with exactly the given parameter types that a type has itself. -/
def implementationIn (c : Catalog) (name : String) (required : Function) (id : TypeId) :
    Option (Declaration × Function) :=
  (c.findMethod id name).bind fun group =>
    (((c.overloads group).getD []).zipIdx.find? fun (f, _) => f.sameParams required).bind
      fun (f, i) => (group.overload? i).map fun d => ({ d with visibility := f.visibility }, f)

theorem findImplementation_eq_findSome? (c : Catalog) (owner : TypeId) (name : String)
    (required : Function) : c.findImplementation owner name required =
      (c.typeChain owner).findSome? (c.implementationIn name required) := rfl

theorem overloads_memberMethod (found : c.classDef? id = some d)
    (isMethod : d.methods[m]? = some method) (v : Visibility) :
    c.overloads ⟨id.home, v, .memberMethod id.index m⟩ = some method.functions := by
  obtain ⟨_, t, atHome, inside⟩ := classDef?_eq_some.1 found
  simp [overloads, atHome, Table.overloads, Table.method, Entity.group, inside, isMethod]

namespace Regular

variable {c : Catalog} (regular : c.Regular) {id : TypeId}

include regular

theorem classDef (found : c.classDef? id = some d) : d.Regular id.home id.index := by
  obtain ⟨_, t, atHome, inside⟩ := classDef?_eq_some.1 found
  exact (regular.tables atHome).classes inside

theorem interfaceDef {d : InterfaceDef} (found : c.interfaceDef? id = some d) :
    d.Regular id.home id.index := by
  obtain ⟨_, t, atHome, inside⟩ := interfaceDef?_eq_some.1 found
  exact (regular.tables atHome).interfaces inside

/-- A method that is found in a type, unless that is an interface, is one of its class. -/
theorem exists_of_findMethod (noInterface : id.kind ≠ .interface) {name : String}
    (found : c.findMethod id name = some group) :
    ∃ d m method, c.classDef? id = some d ∧ d.methods[m]? = some method ∧ method.name = name ∧
      group = ⟨id.home, group.visibility, .memberMethod id.index m⟩ := by
  obtain ⟨member, isMethod⟩ := filter_eq_some_iff.1 found
  cases isClass : c.classDef? id with
  | none => simp [findMember, isClass, interfaceDef?, noInterface] at member
  | some d =>
    rw [findMember, isClass] at member
    obtain ⟨home, stands⟩ := (regular.classDef isClass).names.sound member
    obtain ⟨groupHome, v, entity⟩ := group
    obtain rfl : groupHome = id.home := home
    cases entity with
    | memberMethod owner m =>
      simp only [ClassDef.memberAt, classMemberAt, ite_none_right_eq_some,
        map_eq_some_iff] at stands
      obtain ⟨rfl, method, inside, named⟩ := stands
      exact ⟨d, m, method, rfl, inside, named, rfl⟩
    | memberVariable owner i => cases isMethod
    | _ => cases stands

theorem exists_findMethod (isClass : c.classDef? id = some d)
    (isMethod : d.methods[m]? = some method) :
    ∃ v, c.findMethod id method.name = some ⟨id.home, v, .memberMethod id.index m⟩ := by
  have stands : d.memberAt id.index (.memberMethod id.index m) = some method.name := by
    simp [ClassDef.memberAt, classMemberAt, isMethod]
  obtain ⟨v, found⟩ := (regular.classDef isClass).names.find_eq_of_place stands
  refine ⟨v, ?_⟩
  rw [findMethod, findMember, isClass]
  exact filter_eq_some_iff.2 ⟨found, rfl⟩

/-- A class has at most one function with a name and parameter types. -/
theorem memberFunction_unique {name : String} {m' o' : Nat}
    (one : c.MemberFunction id name m o f) (other : c.MemberFunction id name m' o' f')
    (same : f.paramTypes = f'.paramTypes) : m = m' ∧ o = o' ∧ f = f' := by
  obtain ⟨d, method, isClass, isMethod, rfl, isFunction⟩ := one
  obtain ⟨d', method', isClass', isMethod', named, isFunction'⟩ := other
  rw [isClass] at isClass'
  cases isClass'
  obtain ⟨v, found⟩ := regular.exists_findMethod isClass isMethod
  obtain ⟨v', found'⟩ := regular.exists_findMethod isClass isMethod'
  rw [named, found] at found'
  cases found'
  rw [isMethod] at isMethod'
  cases isMethod'
  have distinct := (regular.classDef isClass).overloads method (mem_of_getElem? isMethod)
  have inside : o < (method.functions.map Function.paramTypes).length := by
    rw [length_map]
    exact (List.getElem?_eq_some_iff.1 isFunction).1
  obtain rfl : o = o' := by
    refine (getElem?_inj inside distinct).1 ?_
    simp [isFunction, isFunction', same]
  rw [isFunction] at isFunction'
  exact ⟨rfl, rfl, some.inj isFunction'⟩

/-- What a class offers as an implementation is its function with the name and the parameter
types. -/
theorem implementationIn_eq_some (noInterface : id.kind ≠ .interface)
    {name : String} {d : Declaration} :
    c.implementationIn name required id = some (d, f) ↔
      ∃ m o, c.MemberFunction id name m o f ∧ f.paramTypes = required.paramTypes ∧
        d = id.function m o f := by
  constructor
  · intro found
    obtain ⟨group, isGroup, later⟩ := bind_eq_some_iff.1 found
    obtain ⟨⟨f', o⟩, selected, declared⟩ := bind_eq_some_iff.1 later
    obtain ⟨definition, m, method, isClass, isMethod, named, isMember⟩ :=
      regular.exists_of_findMethod noInterface isGroup
    rw [isMember] at selected declared
    rw [overloads_memberMethod isClass isMethod] at selected
    obtain ⟨d', isOverload, same⟩ := map_eq_some_iff.1 declared
    cases isOverload
    cases same
    have isFunction := mk_mem_zipIdx_iff_getElem?.1 (mem_of_find?_eq_some selected)
    have params := find?_some selected
    exact ⟨m, o, ⟨definition, method, isClass, isMethod, named, isFunction⟩,
      of_decide_eq_true params, rfl⟩
  · rintro ⟨m, o, member, params, rfl⟩
    obtain ⟨definition, method, isClass, isMethod, named, isFunction⟩ := member
    obtain ⟨v, isGroup⟩ := regular.exists_findMethod isClass isMethod
    rw [named] at isGroup
    have inList := mk_mem_zipIdx_iff_getElem?.2 isFunction
    obtain ⟨⟨f', o'⟩, selected⟩ : ∃ entry, (method.functions.zipIdx.find? fun entry =>
        entry.1.sameParams required) = some entry := by
      rw [← isSome_iff_exists, find?_isSome]
      exact ⟨(f, o), inList, decide_eq_true params⟩
    have isFunction' := mk_mem_zipIdx_iff_getElem?.1 (mem_of_find?_eq_some selected)
    have hit := find?_some selected
    have params' : f'.paramTypes = required.paramTypes := of_decide_eq_true hit
    obtain ⟨_, rfl, rfl⟩ := regular.memberFunction_unique
      ⟨definition, method, isClass, isMethod, named, isFunction⟩
      ⟨definition, method, isClass, isMethod, named, isFunction'⟩ (params.trans params'.symm)
    simp [implementationIn, isGroup, overloads_memberMethod isClass isMethod, selected,
      Declaration.overload?, Entity.overload?, TypeId.function]

/-! ### Going up -/

/-- What a type is derived from is a class or a root of the kernel, which are handles. -/
theorem kind_of_nextParent (next : c.nextParent x = some y) :
    y.kind = .handle ∧ ∀ d, c.classDef? y = some d → d.kind = .handle := by
  obtain ⟨valid, ⟨definition, isClass, rfl⟩ | ⟨_, isRoot⟩⟩ := nextParent_cases next
  · rcases (regular.classDef isClass).parent with unresolved | asParent
    · rw [unresolved] at valid
      cases valid
    · obtain ⟨_, kind, place⟩ := TypeRef.canBeParent_iff.1 asParent
      refine ⟨kind, fun d found => ?_⟩
      obtain ⟨_, t, atHome, inside⟩ := classDef?_eq_some.1 found
      rcases place with elsewhere | root
      · exact (regular.tables atHome).kinds elsewhere d (mem_of_getElem? inside)
      · rw [root] at atHome inside
        cases atHome
        cases inside
        rfl
  · rcases isRoot with rfl | rfl | rfl <;>
      · refine ⟨rfl, fun d found => ?_⟩
        cases found
        rfl

theorem getElem?_ancestors (x : TypeId) (n : Nat) :
    (c.ancestors x)[n]? = steps c.nextParent (n + 1) x := by
  unfold ancestors
  rw [steps]
  cases next : c.nextParent x with
  | none => rfl
  | some y =>
    exact getElem?_chain_of_acc (regular.ends y) (mem_parents_of_nextParent next)
      (fun _ _ => mem_parents_of_nextParent) n

theorem getElem?_typeChain (valid : x.isValid = true) (n : Nat) :
    (c.typeChain x)[n]? = steps c.nextParent n x := by
  rw [typeChain, if_pos valid]
  exact getElem?_chain_of_acc (regular.ends x) (mem_cons_self ..)
    (fun _ _ next => mem_cons_of_mem _ (mem_parents_of_nextParent next)) n

theorem kind_of_steps {n : Nat} (handle : x.kind = .handle)
    (path : steps c.nextParent n x = some y) : y.kind = .handle :=
  steps_keep (P := fun x => x.kind = .handle)
    (fun _ _ _ next => (regular.kind_of_nextParent next).1) handle path

/-- The implementation that is found is the first function that matches. -/
theorem firstMatch_of_findImplementation {owner : TypeId} (handle : owner.kind = .handle)
    {name : String} {d : Declaration}
    (found : c.findImplementation owner name required = some (d, f)) :
    ∃ id m o, c.FirstMatch owner name required.paramTypes id m o f ∧ d = id.function m o f := by
  have valid : owner.isValid = true := by simp [TypeId.isValid, handle]
  rw [findImplementation_eq_findSome?] at found
  obtain ⟨before, id, after, chain, isFound, none⟩ := findSome?_eq_some_iff.1 found
  have place (n : Nat) : steps c.nextParent n owner = (before ++ id :: after)[n]? := by
    rw [← chain, regular.getElem?_typeChain valid]
  have path : steps c.nextParent before.length owner = some id := by simp [place]
  have noInterface {x : TypeId} {n : Nat} (path : steps c.nextParent n owner = some x) :
      x.kind ≠ .interface := by
    rw [regular.kind_of_steps handle path]
    decide
  obtain ⟨m, o, member, params, rfl⟩ :=
    (regular.implementationIn_eq_some (noInterface path)).1 isFound
  refine ⟨id, m, o, ⟨member, params, ?_, before.length, path, ?_⟩, rfl⟩
  · intro m' o' f' member' params'
    exact regular.memberFunction_unique member' member (params'.trans params.symm)
  · intro n earlier id' path' m' o' f' member' params'
    have isBefore : id' ∈ before := by
      rw [place, getElem?_append_left earlier] at path'
      exact mem_of_getElem? path'
    have offered := (regular.implementationIn_eq_some (noInterface path')).2
      ⟨m', o', member', params', rfl⟩
    rw [none id' isBefore] at offered
    cases offered

/-! ### All methods above a class -/

/-- Behind a type that is met going up come the types above it. -/
theorem ancestors_of_append {before after : List TypeId}
    (split : c.ancestors x = before ++ y :: after) : after = c.ancestors y := by
  have path : steps c.nextParent (before.length + 1) x = some y := by
    rw [← regular.getElem?_ancestors, split]
    simp
  apply ext_getElem?
  intro n
  have shifted : after[n]? = (c.ancestors x)[before.length + 1 + n]? := by
    rw [split, getElem?_append_right (by omega),
      show before.length + 1 + n - before.length = n + 1 by omega, getElem?_cons_succ]
  rw [shifted, regular.getElem?_ancestors, regular.getElem?_ancestors, Nat.add_assoc,
    steps_add, path]
  rfl

theorem mem_ancestors :
    y ∈ c.ancestors x ↔ ∃ n, steps c.nextParent (n + 1) x = some y := by
  simp only [mem_iff_getElem?, regular.getElem?_ancestors]

theorem kind_of_mem_ancestors (member : y ∈ c.ancestors x) :
    y.kind = .handle ∧ ∀ d, c.classDef? y = some d → d.kind = .handle := by
  obtain ⟨n, path⟩ := regular.mem_ancestors.1 member
  rw [steps_add] at path
  obtain ⟨z, _, last⟩ := bind_eq_some_iff.1 path
  exact regular.kind_of_nextParent (by simpa [steps] using last)

theorem ne_interface_of_mem_ancestors (member : y ∈ c.ancestors x) : y.kind ≠ .interface := by
  rw [(regular.kind_of_mem_ancestors member).1]
  decide

theorem not_mem_ancestors_self (x : TypeId) : x ∉ c.ancestors x := by
  intro member
  obtain ⟨n, back⟩ := regular.mem_ancestors.1 member
  exact steps_succ_ne_self (regular.ends x) n back

theorem nodup_ancestors (x : TypeId) : (c.ancestors x).Nodup := by
  rw [nodup_iff_getElem?_ne_getElem?]
  intro i j earlier inside same
  obtain ⟨y, found⟩ : ∃ y, (c.ancestors x)[j]? = some y := ⟨_, getElem?_eq_getElem inside⟩
  rw [found, regular.getElem?_ancestors] at same
  rw [regular.getElem?_ancestors] at found
  exact steps_ne_of_lt (regular.ends x) (Nat.succ_lt_succ earlier) found same

/-- The owner of a method that is found above a class is the class where it is found. -/
theorem ownerType_of_findMethod (member : y ∈ c.ancestors x) {name : String}
    (found : c.findMethod y name = some group) :
    c.ownerType group = some y ∧ ∃ d, c.classDef? y = some d := by
  obtain ⟨handle, kinds⟩ := regular.kind_of_mem_ancestors member
  obtain ⟨d, m, method, isClass, _, _, isMember⟩ :=
    regular.exists_of_findMethod (regular.ne_interface_of_mem_ancestors member) found
  refine ⟨?_, d, isClass⟩
  obtain ⟨_, t, atHome, inside⟩ := classDef?_eq_some.1 isClass
  rw [isMember]
  simp only [ownerType, atHome, bind_some, Table.ownerType, inside, map_some,
    (regular.tables atHome).home, kinds d isClass, ← handle]

section

variable {x : TypeId} (handle : x.kind = .handle) (name : String)
include handle name

/-- The nearest method above a class. -/
theorem overriddenMethod_eq :
    c.overriddenMethod x name = (c.ancestors x).findSome? (c.findMethod · name) := by
  unfold overriddenMethod
  rw [handle]
  dsimp only
  rw [searchAncestors_eq_findSome?, ← head?_filterMap, ← head?_filterMap]
  congr 1
  apply filterMap_congr
  intro y member
  rw [(regular.kind_of_mem_ancestors member).1]
  rfl

/-- Going on from owner to owner passes through all classes above that have a method of the name,
as long as there is room for them. -/
theorem overriddenFrom_eq {room : List TypeId}
    (spacious : ∀ y ∈ c.ancestors x, ∀ d, c.classDef? y = some d → y ∈ room) :
    c.overriddenFrom name room x = (c.ancestors x).filterMap (c.findMethod · name) := by
  induction size : (c.ancestors x).length using Nat.strongRecOn generalizing x room with
  | ind size ih =>
    rw [overriddenFrom, regular.overriddenMethod_eq handle]
    cases found : (c.ancestors x).findSome? (c.findMethod · name) with
    | none => exact (filterMap_eq_nil_iff.2 (findSome?_eq_none_iff.1 found)).symm
    | some group =>
      obtain ⟨before, base, after, split, isGroup, none⟩ := findSome?_eq_some_iff.1 found
      have isAbove : base ∈ c.ancestors x := split ▸ mem_append_cons_self
      obtain rfl := regular.ancestors_of_append split
      obtain ⟨owner, d, isClass⟩ := regular.ownerType_of_findMethod isAbove isGroup
      have other : base ≠ x := by
        rintro rfl
        exact regular.not_mem_ancestors_self base isAbove
      have later : c.overriddenFrom name (without room base) base =
          (c.ancestors base).filterMap (c.findMethod · name) := by
        refine ih (c.ancestors base).length ?_ (regular.kind_of_mem_ancestors isAbove).1 ?_ rfl
        · rw [← size, split, length_append, length_cons]
          omega
        · intro y member d' isClass'
          refine mem_without.2 ⟨spacious y ?_ d' isClass', ?_⟩
          · rw [split]
            exact mem_append_right _ (mem_cons_of_mem _ member)
          · rintro rfl
            exact regular.not_mem_ancestors_self y member
      dsimp only
      rw [owner]
      dsimp only
      rw [if_pos ⟨other, spacious base isAbove d isClass⟩, later, split, filterMap_append,
        filterMap_eq_nil_iff.2 none, filterMap_cons, isGroup]
      rfl

/-- The methods that a function of a class can override are those of its name in the classes
above, nearest first. -/
theorem overriddenMethods_eq :
    c.overriddenMethods x name = (c.ancestors x).filterMap (c.findMethod · name) := by
  refine regular.overriddenFrom_eq handle name fun y member d isClass => ?_
  obtain ⟨kind, kinds⟩ := regular.kind_of_mem_ancestors member
  obtain ⟨_, t, atHome, inside⟩ := classDef?_eq_some.1 isClass
  refine mem_flatMap.2 ⟨t, mem_tables_of_table? atHome, mem_mapIdx.2 ?_⟩
  obtain ⟨bound, rfl⟩ := List.getElem?_eq_some_iff.1 inside
  refine ⟨y.index, bound, ?_⟩
  rw [(regular.tables atHome).home, kinds _ isClass, ← kind]

end

end Regular

end Catalog

end Linkage
