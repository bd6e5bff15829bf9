/-
Purpose: Which declarations of a library symbols stand for.
-/
import Linkage.Proofs.Reorder.Symbols

namespace Linkage

open List Entity

variable {listed : Declaration} {c : ClassDef}

/-! ### What symbols should stand for -/

/-- The declarations that a library presents by name: what its spaces declare, apart from
methods, the variables of its classes, and the single functions of all methods and all
constructors, each as visible as it was written. -/
inductive Table.Presents (t : Table) : Declaration → Prop
  | declared {space : Nat} {name : String} {d : Declaration} :
      t.lookup space name = some d → d.entity.isMethod = false → t.Presents d
  | field {i k : Nat} {c : ClassDef} {v : MemberVariable} :
      t.classes[i]? = some c → c.fields[k]? = some v →
      t.Presents ⟨.here, v.visibility, .memberVariable i k⟩
  | member {i m o : Nat} {c : ClassDef} {method : Method} {f : Function} :
      t.classes[i]? = some c → c.methods[m]? = some method → method.functions[o]? = some f →
      t.Presents ⟨.here, f.visibility, .memberFunction i m o⟩
  | constructor {i o : Nat} {c : ClassDef} {f : Function} :
      t.classes[i]? = some c → c.constructors[o]? = some f →
      t.Presents ⟨.here, f.visibility, .constructor i o⟩
  | interface {i m o : Nat} {x : InterfaceDef} {method : Method} {f : Function} :
      t.interfaces[i]? = some x → x.methods[m]? = some method → method.functions[o]? = some f →
      t.Presents ⟨.here, f.visibility, .interfaceFunction i m o⟩
  | global {m o : Nat} {method : Method} {f : Function} :
      t.methods[m]? = some method → method.functions[o]? = some f →
      t.Presents ⟨.here, f.visibility, .globalFunction m o⟩
  | native {m o : Nat} {method : Method} {f : Function} :
      t.natives[m]? = some method → method.functions[o]? = some f →
      t.Presents ⟨.here, f.visibility, .nativeFunction m o⟩

/-! ### Groups of functions -/

/-- The functions of one method, or the constructors of one class: how each of them is called
by its number, the entry of a space that they belong to, the names below the entry, and the
functions. -/
inductive Table.Group (t : Table) :
    (Nat → Entity) → Nat × String → List String → List Function → Prop
  | member {i m : Nat} {c : ClassDef} {method : Method} :
      t.classes[i]? = some c → c.methods[m]? = some method →
      t.Group (.memberFunction i m) (c.space, c.name) [method.name] method.functions
  | constructors {i : Nat} {c : ClassDef} :
      t.classes[i]? = some c → t.Group (.constructor i) (c.space, c.name) [c.name] c.constructors
  | interface {i m : Nat} {x : InterfaceDef} {method : Method} :
      t.interfaces[i]? = some x → x.methods[m]? = some method →
      t.Group (.interfaceFunction i m) (x.space, x.name) [method.name] method.functions
  | global {m : Nat} {method : Method} : t.methods[m]? = some method →
      t.Group (.globalFunction m) (method.space, method.name) [] method.functions
  | native {m : Nat} {method : Method} : t.natives[m]? = some method →
      t.Group (.nativeFunction m) (method.space, method.name) [] method.functions

namespace Table

variable {t : Table} {d : Declaration} {entity : Nat → Entity} {key : Nat × String}
  {inner : List String} {fs : List Function} {o : Nat} {f : Function}

/-- What is presented is an entry of a space, a variable or a function of a group. -/
theorem presents_iff : t.Presents d ↔
    (∃ space name, t.lookup space name = some d ∧ d.entity.isMethod = false) ∨
      (∃ i k c v, t.classes[i]? = some c ∧ c.fields[k]? = some v ∧
        d = ⟨.here, v.visibility, .memberVariable i k⟩) ∨
      ∃ entity key inner fs o f, t.Group entity key inner fs ∧ fs[o]? = some f ∧
        d = ⟨.here, f.visibility, entity o⟩ := by
  constructor
  · intro presents
    cases presents with
    | declared found single => exact .inl ⟨_, _, found, single⟩
    | field isClass isField => exact .inr (.inl ⟨_, _, _, _, isClass, isField, rfl⟩)
    | member isClass isMethod found =>
      exact .inr (.inr ⟨_, _, _, _, _, _, .member isClass isMethod, found, rfl⟩)
    | constructor isClass found =>
      exact .inr (.inr ⟨_, _, _, _, _, _, .constructors isClass, found, rfl⟩)
    | interface isInterface isMethod found =>
      exact .inr (.inr ⟨_, _, _, _, _, _, .interface isInterface isMethod, found, rfl⟩)
    | global isMethod found => exact .inr (.inr ⟨_, _, _, _, _, _, .global isMethod, found, rfl⟩)
    | native isMethod found => exact .inr (.inr ⟨_, _, _, _, _, _, .native isMethod, found, rfl⟩)
  · rintro (⟨space, name, found, single⟩ | ⟨i, k, c, v, isClass, isField, rfl⟩ |
      ⟨entity, key, inner, fs, o, f, group, found, rfl⟩)
    · exact .declared found single
    · exact .field isClass isField
    · cases group with
      | member isClass isMethod => exact .member isClass isMethod found
      | constructors isClass => exact .constructor isClass found
      | interface isInterface isMethod => exact .interface isInterface isMethod found
      | global isMethod => exact .global isMethod found
      | native isMethod => exact .native isMethod found

/-- A group is listed under the method or class that its functions belong to. -/
structure Lists (t : Table) (listed : Declaration) (entity : Nat → Entity)
    (fs : List Function) : Prop where
  member : listed ∈ t.overloadGroups
  overloads : t.overloads listed = some fs
  entity : ∀ o, overloadEntity o listed.entity = some (entity o)

theorem Group.lists (isGroup : t.Group entity key inner fs) (member : listed ∈ t.overloadGroups)
    (named : ∀ o, overloadEntity o listed.entity = some (entity o)) : t.Lists listed entity fs := by
  refine ⟨member, ?_, named⟩
  obtain ⟨home, visibility, e⟩ := listed
  have first := named 0
  cases isGroup <;> cases e <;> cases first <;> simp_all [overloads, method, group]

/-- Each group with functions is listed. -/
theorem Group.exists_listed (group : t.Group entity key inner fs) (filled : fs ≠ []) :
    ∃ listed, t.Lists listed entity fs := by
  have known := group
  cases group with
  | @member i m c method isClass isMethod =>
    refine ⟨⟨t.home, firstVisibility method c.visibility, .memberMethod i m⟩,
      known.lists ?_ fun _ => rfl⟩
    obtain ⟨inClass, rfl⟩ := List.getElem?_eq_some_iff.1 isMethod
    exact mem_overloadGroups_of_class isClass (mem_append_left _ (mem_mapIdx.2 ⟨m, inClass, rfl⟩))
  | @constructors i c isClass =>
    refine ⟨⟨t.home, c.visibility, .classDef i⟩, known.lists ?_ fun _ => rfl⟩
    refine mem_overloadGroups_of_class isClass (mem_append_right _ ?_)
    rw [if_neg (by simpa using filled)]
    exact mem_singleton_self _
  | @interface i m x method isInterface isMethod =>
    refine ⟨⟨t.home, .public_, .interfaceMethod i m⟩, known.lists ?_ fun _ => rfl⟩
    obtain ⟨inside, rfl⟩ := List.getElem?_eq_some_iff.1 isInterface
    obtain ⟨inInterface, rfl⟩ := List.getElem?_eq_some_iff.1 isMethod
    simp only [overloadGroups, mem_append]
    exact .inl (.inl (.inr (mem_flatten.2 ⟨_, mem_mapIdx.2 ⟨i, inside, rfl⟩,
      mem_mapIdx.2 ⟨m, inInterface, rfl⟩⟩)))
  | @global m method isMethod =>
    refine ⟨⟨t.home, firstVisibility method .public_, .globalMethod m⟩, known.lists ?_ fun _ => rfl⟩
    obtain ⟨inside, rfl⟩ := List.getElem?_eq_some_iff.1 isMethod
    simp only [overloadGroups, mem_append]
    exact .inl (.inr (mem_mapIdx.2 ⟨m, inside, rfl⟩))
  | @native m method isMethod =>
    refine ⟨⟨t.home, firstVisibility method .public_, .nativeMethod m⟩, known.lists ?_ fun _ => rfl⟩
    obtain ⟨inside, rfl⟩ := List.getElem?_eq_some_iff.1 isMethod
    simp only [overloadGroups, mem_append]
    exact .inr (mem_mapIdx.2 ⟨m, inside, rfl⟩)

/-- Only groups are listed. -/
theorem exists_group (member : listed ∈ t.overloadGroups) :
    ∃ entity key inner fs, t.Group entity key inner fs ∧ t.Lists listed entity fs := by
  have isListed := member
  simp only [overloadGroups, mem_append, mem_flatten, mem_mapIdx] at member
  rcases member with ((⟨_, ⟨i, inside, rfl⟩, inClass⟩ | ⟨_, ⟨i, inside, rfl⟩, inInterface⟩) |
    ⟨m, inside, rfl⟩) | ⟨m, inside, rfl⟩
  · have isClass := getElem?_eq_getElem inside
    simp only [classGroups, mem_append, mem_mapIdx] at inClass
    rcases inClass with ⟨m, inMethods, rfl⟩ | constructors
    · have group := Group.member isClass (getElem?_eq_getElem inMethods)
      exact ⟨_, _, _, _, group, group.lists isListed fun _ => rfl⟩
    · split at constructors
      · cases constructors
      · obtain rfl := mem_singleton.1 constructors
        have group := Group.constructors isClass
        exact ⟨_, _, _, _, group, group.lists isListed fun _ => rfl⟩
  · obtain ⟨m, inMethods, rfl⟩ := mem_mapIdx.1 inInterface
    have group := Group.interface (getElem?_eq_getElem inside) (getElem?_eq_getElem inMethods)
    exact ⟨_, _, _, _, group, group.lists isListed fun _ => rfl⟩
  · have group := Group.global (getElem?_eq_getElem inside)
    exact ⟨_, _, _, _, group, group.lists isListed fun _ => rfl⟩
  · have group := Group.native (getElem?_eq_getElem inside)
    exact ⟨_, _, _, _, group, group.lists isListed fun _ => rfl⟩

theorem Group.overloads (group : t.Group entity key inner fs) (o : Nat) (home : Home)
    (v : Visibility) : t.overloads ⟨home, v, entity o⟩ = some fs := by
  cases group <;> simp_all [overloads, method, group]

theorem Group.function (group : t.Group entity key inner fs) (o : Nat) (home : Home)
    (v : Visibility) : t.function ⟨home, v, entity o⟩ = fs[o]? := by
  have isGroup := group.overloads o home v
  cases group <;> simp [function, isGroup]

theorem Lists.declaration (lists : t.Lists listed entity fs) (found : fs[o]? = some f) :
    t.overloadDeclaration listed o = some ⟨t.home, f.visibility, entity o⟩ := by
  simp [overloadDeclaration, lists.entity, lists.overloads, found,
    home_of_mem_overloadGroups lists.member]

/-- The functions of a table are those of its groups. -/
theorem mem_functions : (d, f) ∈ LinkedLibrary.functions t ↔
    ∃ entity key inner fs o, t.Group entity key inner fs ∧ fs[o]? = some f ∧
      d = ⟨t.home, f.visibility, entity o⟩ := by
  constructor
  · intro isFunction
    obtain ⟨listed, isListed, inside⟩ := mem_flatMap.1 isFunction
    obtain ⟨⟨f', o⟩, found, declares⟩ := mem_filterMap.1 inside
    obtain ⟨entity, key, inner, fs, group, lists⟩ := exists_group isListed
    rw [lists.overloads, Option.getD_some, mk_mem_zipIdx_iff_getElem?] at found
    simp only [lists.declaration found, Option.map_some, Option.some.injEq, Prod.mk.injEq]
      at declares
    obtain ⟨rfl, rfl⟩ := declares
    exact ⟨entity, key, inner, fs, o, group, found, rfl⟩
  · rintro ⟨entity, key, inner, fs, o, group, found, rfl⟩
    obtain ⟨listed, lists⟩ := group.exists_listed (ne_nil_of_mem (mem_of_getElem? found))
    refine mem_flatMap.2 ⟨listed, lists.member, mem_filterMap.2 ⟨(f, o), ?_, ?_⟩⟩
    · rw [lists.overloads]
      exact mk_mem_zipIdx_iff_getElem?.2 found
    · simp only [lists.declaration found, Option.map_some]

theorem mem_map_functions : d ∈ (LinkedLibrary.functions t).map (·.1) ↔
    ∃ entity key inner fs o f, t.Group entity key inner fs ∧ fs[o]? = some f ∧
      d = ⟨t.home, f.visibility, entity o⟩ := by
  simp only [mem_map, Prod.exists, exists_and_right, exists_eq_right, mem_functions]
  grind

end Table

/-! ### Members -/

/-- What a class has under a name and is no method is a variable of that name. -/
theorem ClassDef.WellMade.find?_variable {index : Nat} (made : c.WellMade index)
    {name : String} {d : Declaration} :
    c.members.find? name = some d ∧ d.entity.isMethod = false ↔
      ∃ k v, c.fields[k]? = some v ∧ v.name = name ∧
        d = ⟨.here, v.visibility, .memberVariable index k⟩ := by
  have visible {d : Declaration} {k : Nat} {v : MemberVariable} (isField : c.fields[k]? = some v)
      (found : c.members.find? name = some d) (isEntity : d.entity = .memberVariable index k) :
      d.visibility = v.visibility := by
    have widest := (made.shown.widest found).mem
    simpa [isEntity, classMemberVisibilities, isField] using widest
  constructor
  · rintro ⟨found, single⟩
    obtain ⟨home, place⟩ := made.names.sound found
    obtain ⟨home', visibility, e⟩ := d
    obtain rfl : home' = .here := home
    cases e with
    | memberVariable owner k =>
      simp only [memberAt, classMemberAt, Option.ite_none_right_eq_some,
        Option.map_eq_some_iff] at place
      obtain ⟨rfl, v, isField, named⟩ := place
      obtain rfl : visibility = v.visibility := visible isField found rfl
      exact ⟨k, v, isField, named, rfl⟩
    | memberMethod => cases single
    | _ => cases place
  · rintro ⟨k, v, isField, rfl, rfl⟩
    have place : c.memberAt index (.memberVariable index k) = some v.name := by
      simp [memberAt, classMemberAt, isField]
    obtain ⟨visibility, found⟩ := made.names.find_eq_of_place place
    obtain rfl : visibility = v.visibility := visible isField found rfl
    exact ⟨found, rfl⟩

/-- Each value of a name map stands once, if it tells its name. -/
theorem NameMap.Distinct.nodup_values {α : Type} {m : NameMap α} (distinct : m.Distinct)
    (nameOf : α → Option String)
    (tells : ∀ {name value}, m.find? name = some value → nameOf value = some name) :
    m.values.Nodup := by
  have names : m.values.map nameOf = (m.entries.map (·.1)).map some := by
    rw [values, map_map, map_map]
    refine map_congr_left fun entry member => ?_
    exact tells (distinct.find?_eq_some_iff.2 member)
  refine List.Nodup.of_map nameOf ?_
  rw [names]
  exact List.Nodup.map (Option.some_injective _) distinct

/-! ### The list -/

namespace Table

variable {t : Table} {d : Declaration}

theorem mem_declared (once : t.NamedOnce) :
    (d ∈ t.spaces.flatMap fun s => s.declarations.values.filter fun d => !d.entity.isMethod) ↔
      ∃ space name, t.lookup space name = some d ∧ d.entity.isMethod = false := by
  simp only [mem_flatMap, mem_filter, NameMap.values, mem_map, Prod.exists,
    exists_eq_right, Bool.not_eq_true']
  constructor
  · rintro ⟨s, member, ⟨name, listed⟩, single⟩
    obtain ⟨space, found⟩ := mem_iff_getElem?.1 member
    exact ⟨space, name, Option.bind_eq_some_iff.2
      ⟨s, found, (once.spaces s member).find?_eq_some_iff.2 listed⟩, single⟩
  · rintro ⟨space, name, declared, single⟩
    obtain ⟨s, found, listed⟩ := Option.bind_eq_some_iff.1 declared
    have member := mem_of_getElem? found
    exact ⟨s, member, ⟨name, (once.spaces s member).find?_eq_some_iff.1 listed⟩, single⟩

theorem mem_variables (made : t.WellMade) (once : t.NamedOnce) :
    (d ∈ t.classes.flatMap fun c => c.members.values.filter fun d => !d.entity.isMethod) ↔
      ∃ i k c v, t.classes[i]? = some c ∧ c.fields[k]? = some v ∧
        d = ⟨.here, v.visibility, .memberVariable i k⟩ := by
  simp only [mem_flatMap, mem_filter, NameMap.values, mem_map, Prod.exists,
    exists_eq_right, Bool.not_eq_true']
  constructor
  · rintro ⟨c, member, ⟨name, listed⟩, single⟩
    obtain ⟨i, isClass⟩ := mem_iff_getElem?.1 member
    obtain ⟨k, v, isField, _, rfl⟩ := (made.classes isClass).find?_variable.1
      ⟨(once.classes c member).find?_eq_some_iff.2 listed, single⟩
    exact ⟨i, k, c, v, isClass, isField, rfl⟩
  · rintro ⟨i, k, c, v, isClass, isField, rfl⟩
    have member := mem_of_getElem? isClass
    obtain ⟨found, single⟩ := (made.classes isClass).find?_variable.2 ⟨k, v, isField, rfl, rfl⟩
    exact ⟨c, member, ⟨v.name, (once.classes c member).find?_eq_some_iff.1 found⟩, single⟩

/-- Symbols stand for exactly what the table presents. -/
theorem mem_symbolDeclarations (made : t.WellMade) (once : t.NamedOnce) :
    d ∈ LinkedLibrary.symbolDeclarations t ↔ t.Presents d := by
  rw [LinkedLibrary.symbolDeclarations, mem_append, mem_append, mem_declared once,
    mem_variables made once, mem_map_functions, made.home, presents_iff, or_assoc]

end Table

/-! ### Each once -/

section Indexed

variable {α β γ : Type} {key : β → γ} (index : γ → Nat)

/-- Things that tell their numbers are different. -/
theorem nodup_map_mapIdx {f : Nat → α → β} (tells : ∀ i x, index (key (f i x)) = i)
    (xs : List α) : ((xs.mapIdx f).map key).Nodup := by
  have numbers : ((xs.mapIdx f).map key).map index = range xs.length := by
    apply ext_getElem
    · simp
    · simp [tells]
  refine List.Nodup.of_map index ?_
  rw [numbers]
  exact nodup_range

/-- Lists of different things, all of which tell the number of their list, have nothing in
common. -/
theorem nodup_map_flatten {lists : List (List β)}
    (each : ∀ {i : Nat} {list : List β}, lists[i]? = some list → (list.map key).Nodup)
    (tells : ∀ {i : Nat} {list : List β}, lists[i]? = some list → ∀ b ∈ list, index (key b) = i) :
    (lists.flatten.map key).Nodup := by
  rw [map_flatten, nodup_flatten]
  constructor
  · refine forall_mem_map.2 fun list member => ?_
    obtain ⟨i, found⟩ := mem_iff_getElem?.1 member
    exact each found
  · rw [pairwise_map, pairwise_iff_getElem]
    intro i j insideI insideJ less
    rw [disjoint_left]
    intro k isI isJ
    obtain ⟨b, member, rfl⟩ := mem_map.1 isI
    obtain ⟨b', member', same⟩ := mem_map.1 isJ
    have first := tells (getElem?_eq_getElem insideI) b member
    have second := tells (getElem?_eq_getElem insideJ) b' member'
    rw [same] at second
    omega

end Indexed

/-- The group of a function, and its number there. -/
def Entity.numbered : Entity → Entity × Nat
  | memberFunction c m o => (memberMethod c m, o)
  | constructor c o => (classDef c, o)
  | interfaceFunction i m o => (interfaceMethod i m, o)
  | globalFunction m o => (globalMethod m, o)
  | nativeFunction m o => (nativeMethod m, o)
  | e => (e, 0)

/-- The number of what an entity belongs to. -/
def Entity.ownerIndex : Entity → Nat
  | classDef i | memberMethod i _ | memberVariable i _ | interfaceMethod i _ => i
  | globalMethod m | nativeMethod m => m
  | _ => 0

/-- The number of a method in its owner. -/
def Entity.methodIndex : Entity → Nat
  | memberMethod _ m | interfaceMethod _ m => m
  | _ => 0

/-- The part of the list of groups that a group stands in. -/
def Entity.part : Entity → Nat
  | interfaceMethod .. => 1
  | globalMethod _ => 2
  | nativeMethod _ => 3
  | _ => 0

namespace Table

variable {t : Table} {d : Declaration}

theorem numbered_overloadDeclaration {o : Nat}
    (declares : t.overloadDeclaration listed o = some d) :
    d.entity.numbered = (listed.entity, o) := by
  simp only [overloadDeclaration, Option.bind_eq_some_iff, Option.map_eq_some_iff] at declares
  obtain ⟨entity, isEntity, fs, _, f, _, rfl⟩ := declares
  obtain ⟨home, v, e⟩ := listed
  cases e <;> cases isEntity <;> rfl

theorem nodup_classGroups (home : Home) (c : ClassDef) (index : Nat) :
    ((classGroups home c index).map (·.entity)).Nodup := by
  rw [classGroups, map_append, nodup_append']
  refine ⟨nodup_map_mapIdx methodIndex (fun _ _ => rfl) _, ?_, ?_⟩
  · split <;> simp
  · split <;> simp [disjoint_left, mem_mapIdx]

theorem entity_of_classGroups {home : Home} {index : Nat} (member : d ∈ classGroups home c index) :
    d.entity.ownerIndex = index ∧ d.entity.part = 0 := by
  simp only [classGroups, mem_append, mem_mapIdx] at member
  rcases member with ⟨m, _, rfl⟩ | constructors
  · exact ⟨rfl, rfl⟩
  · split at constructors
    · cases constructors
    · rw [mem_singleton.1 constructors]
      exact ⟨rfl, rfl⟩

theorem nodup_groups_classes (t : Table) : ((t.classes.mapIdx fun index c =>
    classGroups t.home c index).flatten.map (·.entity)).Nodup := by
  refine nodup_map_flatten ownerIndex (fun found => ?_) fun found b member => ?_
  all_goals
    rw [getElem?_mapIdx] at found
    obtain ⟨c, _, rfl⟩ := Option.map_eq_some_iff.1 found
  · exact nodup_classGroups ..
  · exact (entity_of_classGroups member).1

theorem nodup_groups_interfaces (t : Table) : ((t.interfaces.mapIdx fun index i =>
    i.methods.mapIdx fun m _ => (⟨t.home, .public_, .interfaceMethod index m⟩ : Declaration)
      ).flatten.map (·.entity)).Nodup := by
  refine nodup_map_flatten ownerIndex (fun found => ?_) fun found b member => ?_
  all_goals
    rw [getElem?_mapIdx] at found
    obtain ⟨x, _, rfl⟩ := Option.map_eq_some_iff.1 found
  · exact nodup_map_mapIdx methodIndex (fun _ _ => rfl) _
  · obtain ⟨_, _, rfl⟩ := mem_mapIdx.1 member
    rfl

/-- No group is listed twice. -/
theorem nodup_overloadGroups (t : Table) : (t.overloadGroups.map (·.entity)).Nodup := by
  have parts : t.overloadGroups = [(t.classes.mapIdx fun index c =>
        classGroups t.home c index).flatten,
      (t.interfaces.mapIdx fun index i =>
        i.methods.mapIdx fun m _ => ⟨t.home, .public_, .interfaceMethod index m⟩).flatten,
      t.methods.mapIdx fun m method => ⟨t.home, firstVisibility method .public_, .globalMethod m⟩,
      t.natives.mapIdx fun m method =>
        ⟨t.home, firstVisibility method .public_, .nativeMethod m⟩].flatten := by
    simp [overloadGroups]
  rw [parts]
  refine nodup_map_flatten part (fun {i list} found => ?_) fun {i list} found b member => ?_
  · rcases i with _ | _ | _ | _ | i <;> cases found
    · exact t.nodup_groups_classes
    · exact t.nodup_groups_interfaces
    · exact nodup_map_mapIdx ownerIndex (fun _ _ => rfl) _
    · exact nodup_map_mapIdx ownerIndex (fun _ _ => rfl) _
  · rcases i with _ | _ | _ | _ | i <;> cases found
    · obtain ⟨_, isList, inside⟩ := mem_flatten.1 member
      obtain ⟨_, _, rfl⟩ := mem_mapIdx.1 isList
      exact (entity_of_classGroups inside).2
    · obtain ⟨_, isList, inside⟩ := mem_flatten.1 member
      obtain ⟨_, _, rfl⟩ := mem_mapIdx.1 isList
      obtain ⟨_, _, rfl⟩ := mem_mapIdx.1 inside
      rfl
    · obtain ⟨_, _, rfl⟩ := mem_mapIdx.1 member
      rfl
    · obtain ⟨_, _, rfl⟩ := mem_mapIdx.1 member
      rfl

theorem nodup_functions (t : Table) : ((LinkedLibrary.functions t).map (·.1.entity)).Nodup := by
  refine List.Nodup.of_map numbered ?_
  rw [map_map, List.Nodup, pairwise_map, LinkedLibrary.functions, pairwise_flatMap]
  have numbered {listed : Declaration} {o : Nat} {f : Function} {entry : Declaration × Function}
      (declares : (t.overloadDeclaration listed o).map (fun d => (d, f)) = some entry) :
      entry.1.entity.numbered = (listed.entity, o) := by
    obtain ⟨d, isDeclared, rfl⟩ := Option.map_eq_some_iff.1 declares
    exact numbered_overloadDeclaration isDeclared
  constructor
  · intro listed _
    have numbers : ((t.overloads listed).getD []).zipIdx.Pairwise fun a b => a.2 ≠ b.2 := by
      rw [← pairwise_map, zipIdx_map_snd]
      exact nodup_range'
    rw [pairwise_filterMap]
    refine numbers.imp fun {a b} differ x isX y isY same => differ ?_
    have pairs := (numbered isX).symm.trans (same.trans (numbered isY))
    exact (Prod.mk.inj pairs).2
  · have groups : t.overloadGroups.Pairwise fun a b => a.entity ≠ b.entity :=
      pairwise_map.1 t.nodup_overloadGroups
    refine groups.imp fun {a b} differ x isX y isY same => differ ?_
    obtain ⟨_, _, declaresX⟩ := mem_filterMap.1 isX
    obtain ⟨_, _, declaresY⟩ := mem_filterMap.1 isY
    have pairs := (numbered declaresX).symm.trans (same.trans (numbered declaresY))
    exact (Prod.mk.inj pairs).1

theorem nodup_declared (made : t.WellMade) (once : t.NamedOnce) :
    (t.spaces.flatMap fun s => s.declarations.values.filter fun d => !d.entity.isMethod).Nodup := by
  have stands {i : Nat} {s : Space} (found : t.spaces[i]? = some s) {name : String}
      {d : Declaration} (declared : s.declarations.find? name = some d) :
      t.entryAt d.entity = some (i, name) :=
    (made.names.sound (Option.bind_eq_some_iff.2 ⟨s, found, declared⟩)).2
  rw [flatMap_def, ← map_id (flatten _)]
  refine nodup_map_flatten (fun d => ((t.entryAt d.entity).map (·.1)).getD 0) (fun found => ?_)
    fun found d member => ?_
  all_goals
    rw [getElem?_map] at found
    obtain ⟨s, isSpace, rfl⟩ := Option.map_eq_some_iff.1 found
    have distinct := once.spaces s (mem_of_getElem? isSpace)
  · rw [map_id]
    refine List.Nodup.filter _ (distinct.nodup_values
      (fun d => (t.entryAt d.entity).map (·.2)) fun declared => ?_)
    rw [stands isSpace declared]
    rfl
  · obtain ⟨⟨name, _⟩, listed, rfl⟩ := mem_map.1 (mem_filter.1 member).1
    simp [stands isSpace (distinct.find?_eq_some_iff.2 listed)]

theorem nodup_variables (made : t.WellMade) (once : t.NamedOnce) :
    (t.classes.flatMap fun c => c.members.values.filter fun d => !d.entity.isMethod).Nodup := by
  rw [flatMap_def, ← map_id (flatten _)]
  refine nodup_map_flatten (fun d => d.entity.ownerIndex) (fun found => ?_) fun found d member => ?_
  all_goals
    rw [getElem?_map] at found
    obtain ⟨c, isClass, rfl⟩ := Option.map_eq_some_iff.1 found
    have distinct := once.classes c (mem_of_getElem? isClass)
  · rw [map_id]
    exact List.Nodup.filter _ (distinct.nodup_values (fun d => c.memberAt _ d.entity)
      fun declared => ((made.classes isClass).names.sound declared).2)
  · obtain ⟨listed, single⟩ := mem_filter.1 member
    obtain ⟨⟨name, _⟩, isEntry, rfl⟩ := mem_map.1 listed
    obtain ⟨_, _, _, _, same⟩ := (made.classes isClass).find?_variable.1
      ⟨distinct.find?_eq_some_iff.2 isEntry, by simpa using single⟩
    rw [same]
    rfl

/-- No declaration is listed twice. -/
theorem nodup_symbolDeclarations (made : t.WellMade) (once : t.NamedOnce) :
    (LinkedLibrary.symbolDeclarations t).Nodup := by
  rw [LinkedLibrary.symbolDeclarations, nodup_append', nodup_append']
  refine ⟨⟨nodup_declared made once, nodup_variables made once, ?_⟩,
    .of_map Declaration.entity (by rw [map_map]; exact t.nodup_functions), ?_⟩
  · intro d isDeclared isVariable
    obtain ⟨space, name, found, _⟩ := (mem_declared once).1 isDeclared
    obtain ⟨i, k, c, v, _, _, rfl⟩ := (mem_variables made once).1 isVariable
    cases (made.names.sound (k := (space, name)) found).2
  · intro d listed isFunction
    obtain ⟨entity, key, inner, fs, o, f, group, found, rfl⟩ := mem_map_functions.1 isFunction
    rcases mem_append.1 listed with isDeclared | isVariable
    · obtain ⟨space, name, found, _⟩ := (mem_declared once).1 isDeclared
      have stands := (made.names.sound (k := (space, name)) found).2
      cases group <;> cases stands
    · obtain ⟨i, k, c, v, _, _, same⟩ := (mem_variables made once).1 isVariable
      have entities := congrArg Declaration.entity same
      cases group <;> cases entities

end Table

end Linkage
