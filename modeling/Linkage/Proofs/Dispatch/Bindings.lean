/-
Purpose: The dispatch tables of the classes of a library, entry by entry: which functions of
  ancestors and of interfaces are looked at, and what each is bound to.
-/
import Linkage.Draft.Binding
import Linkage.Proofs.Catalog.Regular
import Linkage.Proofs.Noted

namespace Linkage

open List Noted Option

variable {n m o k l index : Nat} {id owner base : TypeId} {method : Method} {name : String}
  {f g : Function} {found : Selection} {x : Binding} {group : Declaration}

/-! ### Entries of nested lists -/

section Nested

variable {α β : Type}

/-- Of the lists that are strung together, only one matters if all that is looked for stands in
it. -/
theorem filter_flatMap_of_unique {wanted : β → Bool} {f : α → List β} {xs : List α}
    {a : α} (found : xs[n]? = some a)
    (others : ∀ k b, xs[k]? = some b → k ≠ n → ∀ y ∈ f b, wanted y = false) :
    (xs.flatMap f).filter wanted = (f a).filter wanted := by
  induction xs generalizing n with
  | nil => cases found
  | cons x rest ih =>
    rw [flatMap_cons, filter_append]
    cases n with
    | zero =>
      cases found
      have nothing : (rest.flatMap f).filter wanted = [] := by
        rw [filter_eq_nil_iff]
        intro y member
        obtain ⟨b, inRest, inList⟩ := mem_flatMap.1 member
        obtain ⟨k, atK⟩ := mem_iff_getElem?.1 inRest
        simp [others (k + 1) b atK (by omega) y inList]
      rw [nothing, append_nil]
    | succ n =>
      have nothing : (f x).filter wanted = [] := by
        rw [filter_eq_nil_iff]
        intro y member
        simp [others 0 x rfl (by omega) y member]
      rw [nothing]
      exact ih found fun k b atK different => others (k + 1) b atK (by omega)

theorem flatMap_eq_zipIdx_flatMap {f : α → List β} {g : α × Nat → List β} {xs : List α}
    (same : ∀ k a, xs[k]? = some a → f a = g (a, k)) : xs.flatMap f = xs.zipIdx.flatMap g := by
  conv_lhs => rw [← zipIdx_map_fst 0 xs, flatMap_map]
  rw [flatMap_def]
  congr 1
  apply map_congr_left
  rintro ⟨a, k⟩ member
  exact same k a (mk_mem_zipIdx_iff_getElem?.1 member)

/-- The same for lists that depend on elements and their positions. -/
theorem filter_zipIdx_flatMap_of_unique {wanted : β → Bool} {f : α × Nat → List β} {xs : List α}
    {a : α} (found : xs[n]? = some a)
    (others : ∀ k b, xs[k]? = some b → k ≠ n → ∀ y ∈ f (b, k), wanted y = false) :
    (xs.zipIdx.flatMap f).filter wanted = (f (a, n)).filter wanted := by
  refine filter_flatMap_of_unique (n := n) (by simp [getElem?_zipIdx, found]) ?_
  intro k entry atK different
  rw [getElem?_zipIdx] at atK
  obtain ⟨b, isB, rfl⟩ := map_eq_some_iff.1 atK
  rw [Nat.zero_add]
  exact others k b isB different

end Nested

/-! ### The entries of a class -/

/-- A function of a class has the name and the parameter types of a function that is not private
in a class above. -/
structure Catalog.Overrides (c : Catalog) (owner : TypeId) (m o : Nat) (f : Function)
    (base : TypeId) (k l : Nat) (g : Function) : Prop where
  named : ∃ name, c.MemberFunction owner name m o f ∧ c.MemberFunction base name k l g
  above : ∃ n, Walk.steps c.nextParent (n + 1) owner = some base
  params : g.paramTypes = f.paramTypes
  visible : g.visibility ≠ .private_

/-- A function of an interface as classes name it. -/
def TypeId.interfaceFunction (id : TypeId) (m o : Nat) : Declaration :=
  ⟨id.home, .public_, .interfaceFunction id.index m o⟩

namespace Catalog

/-- The methods of an interface. -/
def interfaceMethods (c : Catalog) (id : TypeId) : List Method :=
  ((c.interfaceDef? id).map (·.methods)).getD []

/-- What a function of an interface is bound to in a class. -/
def dispatch (c : Catalog) (owner : TypeId) (name : String) (required : Function)
    (base : Declaration) : Option Binding :=
  (c.findImplementation owner name required).bind fun (implementation, found) =>
    if found.returns = required.returns then some ⟨owner, base, implementation⟩ else none

/-- The function of an ancestor that a function overrides there. -/
def overriddenIn (c : Catalog) (name : String) (f : Function) (id : TypeId) : Option Selection :=
  (c.findMethod id name).bind fun group =>
    c.selectFunctionWhere (fun base => decide (base.visibility ≠ .private_)) group f.paramTypes
      (some f.returns)

variable {c : Catalog}

/-- Selecting a function of a method of a class by its exact signature. -/
theorem selectFunctionWhere_memberMethod {d : ClassDef}
    (isClass : c.classDef? id = some d) (isMethod : d.methods[m]? = some method) (v : Visibility)
    (accept : Declaration → Bool) (params returns : List TypeRef) :
    c.selectFunctionWhere accept ⟨id.home, v, .memberMethod id.index m⟩ params (some returns) =
      method.functions.zipIdx.findSome? fun g =>
        if g.1.paramTypes = params ∧ g.1.returns = returns ∧
          accept (id.function m g.2 g.1) = true then some ⟨id.function m g.2 g.1, 0⟩ else none := by
  have overloads := overloads_memberMethod isClass isMethod v
  simp only [selectFunctionWhere, Declaration.group, Entity.group, Entity.isMethod, if_true,
    overloads, bind_some, exact]
  congr 1
  funext entry
  obtain ⟨g, o⟩ := entry
  show (if g.paramTypes = params ∧ g.returns = returns then
    ((some (id.function m o g)).filter accept).map (Selection.mk · 0) else none) = _
  by_cases fits : g.paramTypes = params ∧ g.returns = returns
  · by_cases accepted : accept (id.function m o g) = true
    · rw [if_pos fits, if_pos ⟨fits.1, fits.2, accepted⟩, filter_some_pos accepted]
      rfl
    · rw [if_pos fits, if_neg fun all => accepted all.2.2,
        filter_some_neg (Bool.eq_false_iff.2 accepted)]
      rfl
  · rw [if_neg fits, if_neg fun all => fits ⟨all.1, all.2.1⟩]

/-- What a function overrides in a class above its own is the function there that is not private
and has exactly its name and signature. -/
theorem Regular.overriddenIn_eq_some (regular : c.Regular) (noInterface : id.kind ≠ .interface) :
    c.overriddenIn name f id = some found ↔
      ∃ m o g, c.MemberFunction id name m o g ∧ g.visibility ≠ .private_ ∧
        g.paramTypes = f.paramTypes ∧ g.returns = f.returns ∧ found = ⟨id.function m o g, 0⟩ := by
  have sound {found : Selection} (selected : c.overriddenIn name f id = some found) :
      ∃ m o g, c.MemberFunction id name m o g ∧ g.visibility ≠ .private_ ∧
        g.paramTypes = f.paramTypes ∧ g.returns = f.returns ∧ found = ⟨id.function m o g, 0⟩ := by
    obtain ⟨group, isGroup, isSelected⟩ := bind_eq_some_iff.1 selected
    obtain ⟨d, m, method, isClass, isMethod, named, isMember⟩ :=
      regular.exists_of_findMethod noInterface isGroup
    rw [isMember, selectFunctionWhere_memberMethod isClass isMethod] at isSelected
    obtain ⟨⟨g, o⟩, member, hit⟩ := exists_of_findSome?_eq_some isSelected
    simp only [ite_none_right_eq_some, some.injEq] at hit
    obtain ⟨⟨params, returns, visible⟩, rfl⟩ := hit
    exact ⟨m, o, g, ⟨d, method, isClass, isMethod, named,
      mk_mem_zipIdx_iff_getElem?.1 member⟩, of_decide_eq_true visible, params, returns, rfl⟩
  refine ⟨sound, ?_⟩
  rintro ⟨m, o, g, member, visible, params, returns, rfl⟩
  -- Something is selected, and nothing else has the name and the parameter types.
  obtain ⟨found, selected⟩ : ∃ found, c.overriddenIn name f id = some found := by
    obtain ⟨d, method, isClass, isMethod, rfl, isFunction⟩ := member
    obtain ⟨v, isGroup⟩ := regular.exists_findMethod isClass isMethod
    rw [← isSome_iff_exists, overriddenIn, isGroup, bind_some,
      selectFunctionWhere_memberMethod isClass isMethod, findSome?_isSome_iff]
    refine ⟨(g, o), mk_mem_zipIdx_iff_getElem?.2 isFunction, ?_⟩
    rw [if_pos ⟨params, returns, decide_eq_true visible⟩]
    rfl
  obtain ⟨m', o', g', member', _, params', _, rfl⟩ := sound selected
  obtain ⟨rfl, rfl, rfl⟩ := regular.memberFunction_unique member' member (params'.trans params.symm)
  exact selected

/-- What a member function overrides in a type above its class. -/
theorem Regular.overriddenIn_iff (regular : c.Regular)
    (isMember : c.MemberFunction owner name m o f) (above : base ∈ c.ancestors owner) :
    c.overriddenIn name f base = some found ↔ ∃ k l g, c.Overrides owner m o f base k l g ∧
      g.returns = f.returns ∧ found = ⟨base.function k l g, 0⟩ := by
  rw [regular.overriddenIn_eq_some (regular.ne_interface_of_mem_ancestors above)]
  constructor
  · rintro ⟨k, l, g, member, visible, params, returns, rfl⟩
    exact ⟨k, l, g, ⟨⟨name, isMember, member⟩, regular.mem_ancestors.1 above, params, visible⟩,
      returns, rfl⟩
  · rintro ⟨k, l, g, ⟨⟨name', isMember', member⟩, _, params, visible⟩, returns, rfl⟩
    obtain ⟨rfl, _⟩ := isMember.eq isMember'
    exact ⟨k, l, g, member, visible, params, returns, rfl⟩

/-- A function that is overridden gives away which function overrides it, and where it stands
itself. -/
theorem Regular.overrides_unique (regular : c.Regular) {base' : TypeId}
    {m' o' : Nat} {f' g' : Function} (one : c.Overrides owner m o f base k l g)
    (other : c.Overrides owner m' o' f' base' k l g') (home : base'.home = base.home)
    (index : base'.index = base.index) : m' = m ∧ o' = o ∧ base' = base := by
  obtain ⟨⟨name, isMember, member⟩, path, params, _⟩ := one
  obtain ⟨⟨name', isMember', member'⟩, path', params', _⟩ := other
  have kind := (regular.kind_of_mem_ancestors (regular.mem_ancestors.2 path)).1
  have kind' := (regular.kind_of_mem_ancestors (regular.mem_ancestors.2 path')).1
  obtain rfl := TypeId.eq_of_parts home (kind'.trans kind.symm) index
  obtain ⟨rfl, rfl⟩ := member.eq member'
  obtain ⟨rfl, rfl, _⟩ :=
    regular.memberFunction_unique isMember' isMember (params'.symm.trans params)
  exact ⟨rfl, rfl, rfl⟩

end Catalog

namespace Draft

variable {d : Draft} {c : Catalog} {definition : ClassDef} {owner : TypeId} {relies : List Table}

theorem value_bindings (d : Draft) (relies : List Table) :
    (d.bindings relies).value = d.table.classes.zipIdx.flatMap fun entry =>
      (d.overrideBindings (d.catalog relies) ⟨.here, entry.1.kind, entry.2⟩ entry.1).value ++
        interfaceBindings (d.catalog relies) ⟨.here, entry.1.kind, entry.2⟩ := by
  simp [bindings, flatMap_def]

/-- A function is bound to what is selected in a method above its class. -/
theorem value_bindOverride (owner : TypeId) (f : Function) (implementation group : Declaration) :
    (d.bindOverride c owner f implementation group).value =
      ((c.selectFunctionWhere (fun base => decide (base.visibility ≠ .private_)) group f.paramTypes
        (some f.returns)).map fun found => ⟨owner, found.declaration, implementation⟩).toList := by
  unfold bindOverride
  dsimp only
  cases c.selectFunctionWhere (fun base => decide (base.visibility ≠ .private_)) group f.paramTypes
    (some f.returns) with
  | some found => rfl
  | none =>
    dsimp only
    split <;> rfl

/-- The functions of a class are bound to those that they override in the types above. -/
theorem value_overrideBindings (regular : c.Regular)
    (handle : owner.kind = .handle) (definition : ClassDef) :
    (d.overrideBindings c owner definition).value =
      definition.methods.zipIdx.flatMap fun m => m.1.functions.zipIdx.flatMap fun f =>
        (c.ancestors owner).flatMap fun id =>
          ((c.overriddenIn m.1.name f.1 id).map fun found =>
            (⟨owner, found.declaration,
              ⟨.here, f.1.visibility, .memberFunction owner.index m.2 f.2⟩⟩ : Binding)).toList := by
  have function (name : String) (f : Function) (implementation : Declaration) :
      (d.bindFunction c owner name f implementation).value =
        (c.ancestors owner).flatMap fun id => ((c.overriddenIn name f id).map fun found =>
          (⟨owner, found.declaration, implementation⟩ : Binding)).toList := by
    simp only [bindFunction, value_bind, value_traverse, value_pure,
      ← flatMap_def, value_bindOverride, regular.overriddenMethods_eq handle,
      filterMap_eq_flatMap_toList, flatMap_assoc]
    congr 1
    funext id
    unfold Catalog.overriddenIn
    cases c.findMethod id name <;> simp
  simp only [overrideBindings, value_bind, value_traverse, value_pure,
    ← flatMap_def, function, flatMap_assoc, flatMap_map]

/-- The functions of the interfaces of a class are bound to their implementations. -/
theorem interfaceBindings_eq (regular : c.Regular) (owner : TypeId) :
    interfaceBindings c owner = (c.interfaceClosure owner).flatMap fun id =>
      (c.interfaceMethods id).zipIdx.flatMap fun m => m.1.functions.zipIdx.flatMap fun required =>
        (c.dispatch owner m.1.name required.1 (id.interfaceFunction m.2 required.2)).toList := by
  unfold interfaceBindings
  congr 1
  funext id
  unfold Catalog.interfaceMethods
  cases isInterface : c.interfaceDef? id with
  | none => rfl
  | some i =>
    refine flatMap_eq_zipIdx_flatMap fun m method isMethod => ?_
    have stands : i.memberAt id.index (.interfaceMethod id.index m) = some method.name := by
      simp [InterfaceDef.memberAt, interfaceMemberAt, isMethod]
    obtain ⟨names, open_⟩ := regular.interfaceDef isInterface
    obtain ⟨v, found⟩ := names.find_eq_of_place stands
    obtain rfl : v = .public_ := open_ found
    rw [found]
    dsimp only
    rw [filterMap_eq_flatMap_toList]
    rfl

/-! ### What an entry tells -/

/-- The entries of a class for functions of its ancestors. -/
theorem mem_overrideBindings (regular : c.Regular) (handle : owner.kind = .handle)
    (isClass : c.classDef? owner = some definition) :
    x ∈ (d.overrideBindings c owner definition).value ↔
      ∃ m o f base k l g, c.Overrides owner m o f base k l g ∧ g.returns = f.returns ∧
        x = ⟨owner, base.function k l g,
          ⟨.here, f.visibility, .memberFunction owner.index m o⟩⟩ := by
  rw [value_overrideBindings regular handle]
  simp only [mem_flatMap, Prod.exists, mk_mem_zipIdx_iff_getElem?, mem_toList,
    map_eq_some_iff]
  constructor
  · rintro ⟨method, m, isMethod, f, o, isFunction, base, above, found, selected, rfl⟩
    have isMember : c.MemberFunction owner method.name m o f :=
      ⟨definition, method, isClass, isMethod, rfl, isFunction⟩
    obtain ⟨k, l, g, overrides, returns, rfl⟩ :=
      (regular.overriddenIn_iff isMember above).1 selected
    exact ⟨m, o, f, base, k, l, g, overrides, returns, rfl⟩
  · rintro ⟨m, o, f, base, k, l, g, overrides, returns, rfl⟩
    have above := regular.mem_ancestors.2 overrides.above
    obtain ⟨name, isMember, _⟩ := overrides.named
    have selected := (regular.overriddenIn_iff isMember above).2 ⟨k, l, g, overrides, returns, rfl⟩
    obtain ⟨definition', method, isClass', isMethod, rfl, isFunction⟩ := isMember
    rw [isClass] at isClass'
    cases isClass'
    exact ⟨method, m, isMethod, f, o, isFunction, base, above, _, selected, rfl⟩

theorem bound_of_dispatch {required : Function}
    {base : Declaration} (dispatched : c.dispatch owner name required base = some x) :
    x.type = owner ∧ x.base = base := by
  obtain ⟨_, _, bound⟩ := bind_eq_some_iff.1 dispatched
  simp at bound
  obtain ⟨_, rfl⟩ := bound
  exact ⟨rfl, rfl⟩

theorem mem_interfaceBindings (regular : c.Regular) (member : x ∈ interfaceBindings c owner) :
    x.type = owner ∧ ∃ (id : TypeId) (m o : Nat), x.base = id.interfaceFunction m o := by
  rw [interfaceBindings_eq regular] at member
  simp
    at member
  obtain ⟨id, _, _, m, _, _, o, _, dispatched⟩ := member
  obtain ⟨type, base⟩ := bound_of_dispatch dispatched
  exact ⟨type, id, m, o, base⟩

theorem classDef?_here
    (isClass : d.table.classes[index]? = some definition) (handle : definition.kind = .handle) :
    (d.catalog relies).classDef? ⟨.here, definition.kind, index⟩ = some definition :=
  Catalog.classDef?_eq_some.2 ⟨by rw [handle]; rfl, d.table, rfl, isClass⟩

/-- Entries of a class stand among those of the class. -/
theorem filter_bindings (regular : (d.catalog relies).Regular)
    (kinds : ∀ definition ∈ d.table.classes, definition.kind = .handle)
    (isClass : d.table.classes[index]? = some definition) {wanted : Binding → Bool}
    (only : ∀ x, wanted x = true → x.type = ⟨.here, definition.kind, index⟩) :
    (d.bindings relies).value.filter wanted =
      (d.overrideBindings (d.catalog relies) ⟨.here, definition.kind, index⟩
        definition).value.filter wanted ++
      (interfaceBindings (d.catalog relies) ⟨.here, definition.kind, index⟩).filter wanted := by
  rw [value_bindings, filter_zipIdx_flatMap_of_unique isClass, filter_append]
  intro k definition' isClass' different x member
  have type : x.type = ⟨.here, definition'.kind, k⟩ := by
    rcases mem_append.1 member with override | interface_
    · have handle := kinds definition' (mem_of_getElem? isClass')
      obtain ⟨_, _, _, _, _, _, _, _, _, rfl⟩ :=
        (mem_overrideBindings regular handle (classDef?_here isClass' handle)).1 override
      rfl
    · exact (mem_interfaceBindings regular interface_).1
  refine Bool.eq_false_iff.2 fun isWanted => different ?_
  rw [only x isWanted] at type
  exact (congrArg TypeId.index type).symm

/-! ### Nothing to complain about -/

/-- A library whose functions are bound without complaints binds each of them to each method above
its class without complaints. -/
theorem notes_of_bindings (quiet : (d.bindings relies).notes = [])
    (isClass : d.table.classes[index]? = some definition)
    (isMethod : definition.methods[m]? = some method) (isFunction : method.functions[o]? = some f)
    (above : group ∈ (d.catalog relies).overriddenMethods
      ⟨.here, definition.kind, index⟩ method.name) :
    (d.bindOverride (d.catalog relies) ⟨.here, definition.kind, index⟩ f
      ⟨.here, f.visibility, .memberFunction index m o⟩ group).notes = [] := by
  simp only [bindings, overrideBindings, bindFunction, notes_bind, notes_traverse,
    notes_pure, append_nil, flatMap_eq_nil_iff] at quiet
  refine quiet (definition, index) (mk_mem_zipIdx_iff_getElem?.2 isClass)
    (method.name, f, ⟨.here, f.visibility, .memberFunction index m o⟩) ?_ group above
  exact mem_flatMap.2 ⟨(method, m), mk_mem_zipIdx_iff_getElem?.2 isMethod,
    mem_map.2 ⟨(f, o), mk_mem_zipIdx_iff_getElem?.2 isFunction, rfl⟩⟩

/-- A function that overrides another without complaints has its returns. -/
theorem returns_of_bindOverride (regular : c.Regular) (noInterface : id.kind ≠ .interface)
    {implementation : Declaration} (found : c.findMethod id name = some group)
    (member : c.MemberFunction id name k l g) (visible : g.visibility ≠ .private_)
    (params : g.paramTypes = f.paramTypes) (sourced : f.source.isSome = true)
    (quiet : (d.bindOverride c owner f implementation group).notes = []) :
    g.returns = f.returns := by
  by_contra different
  have nothing : c.selectFunctionWhere (fun base => decide (base.visibility ≠ .private_)) group
      f.paramTypes (some f.returns) = none := by
    have unselected : c.overriddenIn name f id = none := by
      refine eq_none_iff_forall_ne_some.2 fun selection selected => different ?_
      obtain ⟨_, _, g', member', _, params', returns', _⟩ :=
        (regular.overriddenIn_eq_some noInterface).1 selected
      obtain ⟨_, _, rfl⟩ := regular.memberFunction_unique member member' (params.trans params'.symm)
      exact returns'
    rwa [Catalog.overriddenIn, found, bind_some] at unselected
  obtain ⟨source, isSource⟩ := isSome_iff_exists.1 sourced
  obtain ⟨definition, method, isClass, isMethod, named, isFunction⟩ := member
  obtain ⟨v, found'⟩ := regular.exists_findMethod isClass isMethod
  rw [named, found] at found'
  cases found'
  obtain ⟨clash, isClash⟩ : ∃ clash, (method.functions.zipIdx.find? fun entry =>
      entry.1.visibility ≠ .private_ && entry.1.sameParams f) = some clash := by
    rw [← isSome_iff_exists, find?_isSome]
    refine ⟨(g, l), mk_mem_zipIdx_iff_getElem?.2 isFunction, ?_⟩
    simp [visible, Function.sameParams, params]
  unfold bindOverride at quiet
  dsimp only at quiet
  rw [nothing] at quiet
  simp only [Catalog.overloads_memberMethod isClass isMethod, getD_some, isClash,
    isSource] at quiet
  cases quiet

end Draft

end Linkage
