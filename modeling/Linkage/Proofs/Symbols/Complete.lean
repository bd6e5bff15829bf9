/-
Purpose: The symbols of a library are all that it presents, under different names, in the order of
  the names.
-/
import Linkage.Proofs.Symbols.Listing
import Linkage.Proofs.Symbols.Titles

namespace Linkage

open List Catalog Entity

variable {o space : Nat} {name : String}

/-! ### What a full name tells -/

/-- The entry of a space that an entity belongs to. -/
def Entity.entry : Entity → Entity
  | memberVariable i _ | memberMethod i _ | memberFunction i _ _ | constructor i _ => classDef i
  | interfaceMethod i _ | interfaceFunction i _ _ => interface i
  | globalFunction m _ => globalMethod m
  | nativeFunction m _ => nativeMethod m
  | e => e

/-- What the full name of an entity tells: the entry it belongs to, by space and name, the names
below the entry, and the types of the parameters if it is a function. -/
inductive Table.Entitled (t : Table) :
    Entity → Nat × String → List String → Option (List TypeRef) → Prop
  | entry {e : Entity} {key : Nat × String} :
      t.entryAt e = some key → e.isMethod = false → t.Entitled e key [] none
  | field {i k : Nat} {c : ClassDef} {v : MemberVariable} :
      t.classes[i]? = some c → c.fields[k]? = some v →
      t.Entitled (.memberVariable i k) (c.space, c.name) [v.name] none
  | overload {entity : Nat → Entity} {key : Nat × String} {inner : List String}
      {fs : List Function} {o : Nat} {f : Function} :
      t.Group entity key inner fs → fs[o]? = some f →
      t.Entitled (entity o) key inner (some f.paramTypes)

/-- The types that a full name shows. -/
def Catalog.shownTypes (c : Catalog) (params : Option (List TypeRef)) : String :=
  (params.map c.typeListName).getD ""

namespace Table

variable {t : Table} {e e' : Entity} {d d' : Declaration} {key key' : Nat × String}
  {inner inner' : List String} {params params' : Option (List TypeRef)}

theorem Presents.entitled (presents : t.Presents d) (made : t.WellMade) :
    d.home = .here ∧ ∃ key inner params, t.Entitled d.entity key inner params := by
  rcases presents_iff.1 presents with ⟨space, name, found, single⟩ |
    ⟨i, k, c, v, isClass, isField, rfl⟩ | ⟨entity, key, inner, fs, o, f, group, found, rfl⟩
  · obtain ⟨home, stands⟩ := made.names.sound (k := (space, name)) found
    exact ⟨home, _, _, _, .entry stands single⟩
  · exact ⟨rfl, _, _, _, .field isClass isField⟩
  · exact ⟨rfl, _, _, _, .overload group found⟩

section Groups

variable {entity entity' : Nat → Entity} {fs fs' : List Function}

section

variable (group : t.Group entity key inner fs)
include group

theorem Group.entry (o : Nat) : t.entryAt (entity o).entry = some key := by
  cases group with
  | member isClass _ | constructors isClass => simp [entry, entryAt, isClass]
  | interface isInterface _ => simp [entry, entryAt, isInterface]
  | global isMethod | native isMethod => simp [entry, entryAt, isMethod]

theorem Group.isFunction (o : Nat) : (entity o).isFunction = true := by
  cases group <;> rfl

/-- A group is told by the entry it belongs to and by the names below it. -/
theorem Group.unique
    (group' : t.Group entity' key' inner' fs') (made : t.WellMade) (spelled : t.Spelled)
    (keys : key = key') (names : inner = inner') : entity = entity' ∧ fs = fs' := by
  have owners : (entity 0).entry = (entity' 0).entry :=
    made.names.entity_unique (group.entry 0) (keys ▸ group'.entry 0)
  have unlike {i m : Nat} {c : ClassDef} {method : Method} (isClass : t.classes[i]? = some c)
      (isMethod : c.methods[m]? = some method) : method.name ≠ c.name :=
    ((spelled.classes c (mem_of_getElem? isClass)).methods method
      (mem_of_getElem? isMethod)).2
  -- Only groups that belong to one entry are left.
  rcases group with ⟨isClass, isMethod⟩ | ⟨isClass⟩ | ⟨isInterface, isMethod⟩ | ⟨isMethod⟩ |
      ⟨isMethod⟩ <;>
    rcases group' with ⟨isClass', isMethod'⟩ | ⟨isClass'⟩ | ⟨isInterface', isMethod'⟩ |
      ⟨isMethod'⟩ | ⟨isMethod'⟩ <;>
    cases owners
  · cases isClass.symm.trans isClass'
    have distinct := (nodup_append'.1 (ClassDef.nodup_names (made.classes isClass).names)).2.1
    cases index_eq_of_nodup_map distinct isMethod isMethod' (singleton_inj.1 names)
    cases isMethod.symm.trans isMethod'
    exact ⟨rfl, rfl⟩
  · cases isClass.symm.trans isClass'
    exact absurd (singleton_inj.1 names) (unlike isClass isMethod)
  · cases isClass.symm.trans isClass'
    exact absurd (singleton_inj.1 names.symm) (unlike isClass isMethod')
  · cases isClass.symm.trans isClass'
    exact ⟨rfl, rfl⟩
  · cases isInterface.symm.trans isInterface'
    have distinct := InterfaceDef.nodup_names (made.interfaces isInterface).names
    cases index_eq_of_nodup_map distinct isMethod isMethod' (singleton_inj.1 names)
    cases isMethod.symm.trans isMethod'
    exact ⟨rfl, rfl⟩
  · cases isMethod.symm.trans isMethod'
    exact ⟨rfl, rfl⟩
  · cases isMethod.symm.trans isMethod'
    exact ⟨rfl, rfl⟩

end

end Groups

/-- How visible an entity is that is presented. -/
def shownAs (t : Table) : Entity → Option Visibility
  | .memberVariable i k => (t.classes[i]?.bind fun c => c.fields[k]?).map (·.visibility)
  | e =>
    if e.isFunction then (t.function ⟨.here, .public_, e⟩).map (·.visibility)
    else ((t.entryAt e).bind t.find).map (·.visibility)

theorem Presents.shownAs (presents : t.Presents d) (made : t.WellMade) :
    t.shownAs d.entity = some d.visibility := by
  rcases presents_iff.1 presents with ⟨space, name, found, single⟩ |
    ⟨i, k, c, v, isClass, isField, rfl⟩ | ⟨entity, key, inner, fs, o, f, group, found, rfl⟩
  · obtain ⟨_, stands⟩ := made.names.sound (k := (space, name)) found
    have isFunction := isFunction_of_entryAt stands
    unfold Table.shownAs
    split
    · rename_i isEntity
      rw [isEntity] at stands
      cases stands
    · rw [isFunction, stands]
      exact congrArg (Option.map _) found
  · simp [shownAs, isClass, isField]
  · have isFunction := group.isFunction o
    unfold shownAs
    split
    · rename_i isEntity
      cases group <;> cases isEntity
    · rw [if_pos isFunction, group.function, found]
      rfl

/-- No two declarations that are presented are of the same entity. -/
theorem Presents.eq_of_entity (presents : t.Presents d) (presents' : t.Presents d')
    (made : t.WellMade) (same : d.entity = d'.entity) : d = d' := by
  obtain ⟨home, _⟩ := presents.entitled made
  obtain ⟨home', _⟩ := presents'.entitled made
  have visible := presents.shownAs made
  rw [same, presents'.shownAs made] at visible
  obtain ⟨_, v, e⟩ := d
  obtain ⟨_, v', e'⟩ := d'
  simp_all

theorem Entitled.entryAt (entitled : t.Entitled e key inner params) :
    t.entryAt e.entry = some key := by
  cases entitled with
  | entry stands single => cases e <;> first | exact stands | cases stands
  | field isClass _ => simp [Entity.entry, Table.entryAt, isClass]
  | overload group _ => exact group.entry _

/-! ### Full names -/

section FullNames

variable {c : Catalog}

theorem titled_of_owner {owner : String} (isTable : c.table? d.home = some t)
    (named : t.declarationName d = some name)
    (owned : ((t.ownerType d).bind fun owner => t.typeName owner) = some (owner, space)) :
    c.titled d params = t.qualified space [owner, name] ++ c.shownTypes params := by
  unfold titled shownTypes
  simp only [isTable, named, owned]
  cases params <;> simp

theorem titled_of_space (isTable : c.table? d.home = some t)
    (named : t.declarationName d = some name) (free : t.ownerType d = none)
    (stands : t.declarationSpace d = some space) :
    c.titled d params = t.qualified space [name] ++ c.shownTypes params := by
  unfold titled shownTypes
  simp only [isTable, named, free, stands, Option.bind_none, Option.getD_some]
  cases params <;> simp

/-- The full name of what has a title. -/
theorem Entitled.fullName (entitled : t.Entitled e key inner params) (made : t.WellMade)
    (own : c.own = t) (v : Visibility) :
    c.fullName ⟨.here, v, e⟩ = t.qualified key.1 (key.2 :: inner) ++ c.shownTypes params := by
  have isTable : c.table? .here = some t := congrArg some own
  cases entitled with
  | entry stands single =>
    rw [fullName_of_isFunction (isFunction_of_entryAt stands)]
    cases e with
    | classDef i | interface i | delegate i | coroutine i | globalVariable i =>
      obtain ⟨x, found, rfl⟩ := Option.map_eq_some_iff.1 stands
      exact titled_of_space isTable (by simp [declarationName, found]) rfl
        (by simp [declarationSpace, found])
    | globalMethod | nativeMethod => cases single
    | _ => cases stands
  | field isClass isField =>
    rw [fullName_of_isFunction rfl]
    refine titled_of_owner isTable (by simp [declarationName, isClass, isField]) ?_
    simp [ownerType, typeName, isClass, (made.classes isClass).kind]
  | @overload entity _ _ fs o f group found =>
    rw [fullName_eq_titled isTable, group.function, found]
    cases group with
    | member isClass isMethod =>
      refine titled_of_owner isTable ?_ ?_
      · simp [declarationName, method, group, isClass, isMethod]
      · simp [ownerType, typeName, isClass, (made.classes isClass).kind]
    | constructors isClass =>
      refine titled_of_owner isTable ?_ ?_
      · simp [declarationName, isClass]
      · simp [ownerType, typeName, isClass, (made.classes isClass).kind]
    | interface isInterface isMethod =>
      refine titled_of_owner isTable ?_ ?_
      · simp [declarationName, method, group, isInterface, isMethod]
      · simp [ownerType, typeName, isInterface]
    | global isMethod | native isMethod =>
      refine titled_of_space isTable ?_ rfl ?_
      · simp [declarationName, method, group, isMethod]
      · simp [declarationSpace, method, group, isMethod]

end FullNames

/-! ### Different titles -/

/-- No group has two functions that take the same types. -/
def DistinctOverloads (t : Table) : Prop :=
  ∀ {entity key inner fs}, t.Group entity key inner fs → (fs.map Function.paramTypes).Nodup

section

variable (entitled : t.Entitled e key inner params)
include entitled

/-- A title tells the entity. -/
theorem Entitled.unique (entitled' : t.Entitled e' key' inner' params') (made : t.WellMade)
    (spelled : t.Spelled) (overloads : t.DistinctOverloads) (keys : key = key')
    (names : inner = inner') (types : params = params') : e = e' := by
  have owners := made.names.entity_unique entitled.entryAt (keys ▸ entitled'.entryAt)
  cases entitled with
  | entry stands =>
    cases entitled' with
    | entry stands' => exact made.names.entity_unique stands (keys ▸ stands')
    | field => cases names
    | overload => cases types
  | field isClass isField =>
    cases entitled' with
    | entry => cases names
    | field isClass' isField' =>
      cases owners
      cases isClass.symm.trans isClass'
      have distinct := (nodup_append'.1 (ClassDef.nodup_names (made.classes isClass).names)).1
      rw [index_eq_of_nodup_map distinct isField isField' (singleton_inj.1 names)]
    | overload => cases types
  | overload group found =>
    cases entitled' with
    | entry | field => cases types
    | overload group' found' =>
      obtain ⟨rfl, rfl⟩ := group.unique group' made spelled keys names
      rw [index_eq_of_nodup_map (overloads group) found found' (Option.some.inj types)]

/-- At most one name stands below an entry. -/
theorem Entitled.length_inner : inner.length ≤ 1 := by
  cases entitled with
  | entry => exact Nat.zero_le _
  | field => exact le_refl _
  | overload group => cases group <;> simp

/-- The names in a title are identifiers. -/
theorem Entitled.spelled (spelled : t.Spelled) :
    ∀ name ∈ key.2 :: inner, isIdentifier name = true := by
  refine forall_mem_cons.2 ⟨spelled.entries entitled.entryAt, ?_⟩
  cases entitled with
  | entry => exact forall_mem_nil _
  | field isClass isField =>
    exact forall_mem_singleton.2 ((spelled.classes _ (mem_of_getElem? isClass)).fields _
      (mem_of_getElem? isField))
  | overload group =>
    cases group with
    | member isClass isMethod =>
      exact forall_mem_singleton.2 ((spelled.classes _
        (mem_of_getElem? isClass)).methods _ (mem_of_getElem? isMethod)).1
    | @constructors i c isClass =>
      have stands : t.entryAt (.classDef i) = some (c.space, c.name) := by
        simp [Table.entryAt, isClass]
      exact forall_mem_singleton.2 (spelled.entries stands)
    | interface isInterface isMethod =>
      exact forall_mem_singleton.2 (spelled.interfaces _
        (mem_of_getElem? isInterface) _ (mem_of_getElem? isMethod))
    | global | native => exact forall_mem_nil _

end

/-- What holds of all types of a table holds of those in titles. -/
theorem Entitled.settled {P : TypeRef → Prop} {types : List TypeRef}
    (entitled : t.Entitled e key inner (some types)) (settled : t.Settled P) :
    ∀ x ∈ types, P x := by
  generalize same : some types = params at entitled
  cases entitled with
  | entry | field => cases same
  | overload group found =>
    cases same
    refine forall_mem_map.2 (Function.Settled.params ?_)
    have member := mem_of_getElem? found
    cases group with
    | member isClass isMethod =>
      exact (settled.classes _ (mem_of_getElem? isClass)).methods _
        (mem_of_getElem? isMethod) _ member
    | constructors isClass =>
      exact (settled.classes _ (mem_of_getElem? isClass)).constructors _ member
    | interface isInterface isMethod =>
      exact (settled.interfaces _ (mem_of_getElem? isInterface)).methods _
        (mem_of_getElem? isMethod) _ member
    | global isMethod => exact settled.methods _ (mem_of_getElem? isMethod) _ member
    | native isMethod => exact settled.natives _ (mem_of_getElem? isMethod) _ member

/-- No space is called like an entry. -/
theorem WellMade.path_ne (made : t.WellMade) (distinct : t.DistinctSpaces)
    (stands : t.entryAt e = some key) (inside : space < t.spaces.length) :
    t.spacePath space ≠ t.spacePath key.1 ++ [key.2] := by
  intro same
  have child : t.childSpace key.1 key.2 = some space :=
    (childSpace_eq_some_iff_spacePath made.tree distinct (made.space_lt stands)).2 ⟨inside, same⟩
  obtain ⟨d, found, _⟩ := made.names.complete stands
  rcases made.apart key.1 key.2 with noEntry | noSpace
  · cases noEntry.symm.trans found
  · cases noSpace.symm.trans child

/-- The names from the root to the end of a title tell the entry and the names below it. -/
theorem WellMade.path_unique (made : t.WellMade) (distinct : t.DistinctSpaces)
    (stands : t.entryAt e = some key) (stands' : t.entryAt e' = some key')
    (short : inner.length ≤ 1) (short' : inner'.length ≤ 1)
    (same : t.spacePath key.1 ++ key.2 :: inner = t.spacePath key'.1 ++ key'.2 :: inner') :
    key = key' ∧ inner = inner' := by
  -- Names of different length would make the path to an entry one to a space.
  have shorter {e e' : Entity} {key key' : Nat × String} {m : String}
      (stands : t.entryAt e = some key) (stands' : t.entryAt e' = some key') :
      t.spacePath key.1 ++ [key.2] ≠ t.spacePath key'.1 ++ [key'.2, m] := by
    intro same
    rw [append_cons (t.spacePath key'.1)] at same
    exact made.path_ne distinct stands' (made.space_lt stands) (append_inj' same rfl).1
  have lengths : inner.length = inner'.length := by
    cases inner with
    | nil =>
      cases inner' with
      | nil => rfl
      | cons m rest =>
        obtain rfl : rest = [] := by simpa using short'
        exact absurd same (shorter stands stands')
    | cons m rest =>
      obtain rfl : rest = [] := by simpa using short
      cases inner' with
      | nil => exact absurd same.symm (shorter stands' stands)
      | cons m' rest' =>
        obtain rfl : rest' = [] := by simpa using short'
        rfl
  obtain ⟨paths, names⟩ := append_inj' same (by simp [lengths])
  obtain ⟨last, inners⟩ := cons.inj names
  have spaces := spacePath_injective made.tree distinct (made.space_lt stands)
    (made.space_lt stands') paths
  exact ⟨Prod.ext spaces last, inners⟩

end Table

/-! ### Different full names -/

namespace Catalog

variable {c : Catalog}

theorem head?_shownTypes (params : Option (List TypeRef)) :
    ∀ d ∈ (c.shownTypes params).toList.head?, d = '(' := by
  cases params with
  | none => simp [shownTypes]
  | some types => simp [shownTypes, toList_typeListName]

theorem Legible.shownTypes_injective (legible : c.Legible) {params params' : Option (List TypeRef)}
    (fits : ∀ types ∈ params, ∀ x ∈ types, c.Fits x)
    (fits' : ∀ types ∈ params', ∀ x ∈ types, c.Fits x)
    (same : c.shownTypes params = c.shownTypes params') : params = params' := by
  have filled (types : List TypeRef) : c.typeListName types ≠ "" := by
    intro empty
    have chars := c.toList_typeListName types
    rw [empty] at chars
    cases chars
  cases params with
  | none =>
    cases params' with
    | none => rfl
    | some types => exact absurd same.symm (filled types)
  | some types =>
    cases params' with
    | none => exact absurd same (filled types)
    | some types' => rw [legible.typeListName_injective (fits types rfl) (fits' types' rfl) same]

end Catalog

/-- Full names tell apart all that a library presents. -/
theorem Catalog.fullName_injective {c : Catalog} (legible : c.Legible) (made : c.own.WellMade)
    (spelled : c.own.Spelled) (settled : c.own.Settled c.Fits)
    (overloads : c.own.DistinctOverloads) {d d' : Declaration} (presents : c.own.Presents d)
    (presents' : c.own.Presents d') (same : c.fullName d = c.fullName d') : d = d' := by
  have fits {e : Entity} {key : Nat × String} {inner : List String}
      {params : Option (List TypeRef)} (entitled : c.own.Entitled e key inner params) :
      ∀ types ∈ params, ∀ x ∈ types, c.Fits x := by
    rintro types rfl
    exact entitled.settled settled
  have named {e : Entity} {key : Nat × String} {inner : List String}
      {params : Option (List TypeRef)} (entitled : c.own.Entitled e key inner params) :
      ∀ name ∈ c.own.name :: c.own.spacePath key.1 ++ key.2 :: inner, isIdentifier name = true :=
    forall_mem_append.2 ⟨forall_mem_cons.2 ⟨legible.own.name, legible.own.spacePath _⟩,
      entitled.spelled spelled⟩
  obtain ⟨home, key, inner, params, entitled⟩ := presents.entitled made
  obtain ⟨home', key', inner', params', entitled'⟩ := presents'.entitled made
  refine presents.eq_of_entity presents' made ?_
  have full := entitled.fullName made rfl d.visibility
  have full' := entitled'.fullName made rfl d'.visibility
  rw [← home] at full
  rw [← home'] at full'
  rw [show c.fullName d = _ from full, show c.fullName d' = _ from full', ← String.toList_inj,
    String.toList_append, String.toList_append] at same
  obtain ⟨texts, types⟩ := Text.cut_unique (not_mem_dotted (named entitled) rfl)
    (not_mem_dotted (named entitled') rfl) (head?_shownTypes params) (head?_shownTypes params') same
  have paths := dotted_injective (named entitled) (named entitled') (String.toList_inj.1 texts)
  obtain ⟨keys, inners⟩ := made.path_unique @legible.own.distinct entitled.entryAt
    entitled'.entryAt entitled.length_inner entitled'.length_inner (cons.inj paths).2
  have shown := legible.shownTypes_injective (fits entitled) (fits entitled')
    (String.toList_inj.1 types)
  exact entitled.unique entitled' made spelled overloads keys inners shown

/-! ### The order of symbols -/

/-- A text that does not come after another one comes before it. -/
theorem Text.lt_of_notAfter {a b : List Char} (ordered : notAfter a b = true) (differ : a ≠ b) :
    a < b := by
  induction a generalizing b with
  | nil =>
    cases b with
    | nil => exact absurd rfl differ
    | cons y ys => exact nil_lt_cons y ys
  | cons x xs ih =>
    cases b with
    | nil => cases ordered
    | cons y ys =>
      unfold notAfter at ordered
      rw [cons_lt_cons_iff]
      by_cases same : x = y
      · subst same
        rw [if_pos rfl] at ordered
        exact .inr ⟨rfl, ih ordered fun equal => differ (by rw [equal])⟩
      · rw [if_neg same, Nat.blt_eq] at ordered
        exact .inl ordered

namespace LinkedLibrary

variable {l : LinkedLibrary}

theorem name_of_mem_symbols {s : Symbol} (member : s ∈ l.symbols) :
    s.name = l.catalog.fullName s.declaration := by
  rw [symbols, mem_mergeSort] at member
  obtain ⟨d, _, rfl⟩ := mem_map.1 member
  rfl

theorem declarations_symbols (l : LinkedLibrary) :
    (l.symbols.map Symbol.declaration).Perm (symbolDeclarations l.draft.table) := by
  refine ((mergeSort_perm _ _).map _).trans (.of_eq ?_)
  rw [map_map]
  exact map_id _

/-- Where full names tell declarations apart, the symbols come in the order of their names. -/
theorem pairwise_symbols (distinct : ((symbolDeclarations l.draft.table).map
    l.catalog.fullName).Nodup) : l.symbols.Pairwise fun s s' => s.name < s'.name := by
  have sorted : l.symbols.Pairwise fun s s' =>
      Text.notAfter s.name.toList s'.name.toList = true := by
    refine pairwise_mergeSort ?_ ?_ _
    · exact fun _ _ _ first second => Text.notAfter_trans first second
    · exact fun s s' => Bool.or_eq_true_iff.2 (Text.notAfter_total _ _)
  have names : l.symbols.Pairwise fun s s' => s.name ≠ s'.name := by
    refine pairwise_map.1 ((((mergeSort_perm _ _).map Symbol.name).nodup_iff).2 ?_)
    rwa [map_map]
  refine (sorted.and names).imp fun ⟨ordered, differ⟩ => ?_
  exact String.lt_iff_toList_lt.2
    (Text.lt_of_notAfter ordered fun same => differ (String.toList_inj.1 same))

end LinkedLibrary

/-! ### Products -/

theorem Table.overloadGroups_unplaced (t : Table) :
    t.unplaced.overloadGroups = t.overloadGroups := by
  have classes : (t.unplaced.classes.mapIdx fun index c => classGroups t.home c index) =
      t.classes.mapIdx fun index c => classGroups t.home c index := by
    apply ext_getElem?
    intro i
    simp only [unplaced, getElem?_mapIdx, getElem?_map, Option.map_map]
    rfl
  unfold overloadGroups
  rw [show t.unplaced.home = t.home from rfl, classes]
  rfl

namespace Job.Passes

variable {job : Job} {p : Products} {merged linked : Draft} (passes : job.Passes p merged linked)
include passes

/-- No two functions of a group of the library take the same types. -/
theorem distinctOverloads : p.draft.table.DistinctOverloads := by
  intro entity key inner fs group
  by_cases empty : fs = []
  · rw [empty]
    exact nodup_nil
  · obtain ⟨listed, lists⟩ := group.exists_listed empty
    have home : listed.home = .here :=
      (Table.home_of_mem_overloadGroups lists.member).trans passes.wellMade.home
    have groups : p.draft.table.overloadGroups = linked.table.overloadGroups :=
      passes.view_catalog (fun c => c.own.overloadGroups) fun t _ => t.overloadGroups_unplaced
    have overloads : p.draft.table.overloads listed = linked.table.overloads listed := by
      have views := passes.view_catalog overloads overloads_unplaced
      have view := congrFun views listed
      unfold overloads at view
      rwa [home] at view
    have found : linked.table.overloads listed = some fs := overloads ▸ lists.overloads
    obtain ⟨checked, _⟩ := Draft.notes_of_check passes.checks
    exact Draft.nodup_of_checkGroup found (passes.linked_wellMade.sourced_overloads found)
      (checked listed (groups ▸ lists.member))

end Job.Passes

/-! ### A market -/

namespace Sample

/-- A class with two constructors, and a function that takes the class. -/
def market : Job where
  name := "Market"
  files := [⟨"market", "class Stall : Shapes.Square\n    integer goods\n    public Stall()\n" ++
    "    private Stall(Shapes.Shape[] shapes)\ninteger Count(Stall stall)\n"⟩]
  surfaces := [shapesSurface]

private theorem constructor_presented {t : Table} {v : Visibility} (found :
      (t.classes[0]?.bind fun c => c.constructors[o]?).map (·.visibility) = some v) :
    t.Presents ⟨.here, v, .constructor 0 o⟩ := by
  obtain ⟨f, isFunction, rfl⟩ := Option.map_eq_some_iff.1 found
  obtain ⟨c, isClass, isConstructor⟩ := Option.bind_eq_some_iff.1 isFunction
  exact .constructor isClass isConstructor

theorem market_completes : ∃ p, (Builder.mk market .unstarted [] none).Completes p ∧
    (p.draft.table.classes[0]?.bind fun c => c.constructors[0]?).map (·.visibility) =
      some .public_ ∧
    (p.draft.table.classes[0]?.bind fun c => c.constructors[1]?).map (·.visibility) =
      some .private_ ∧
    (p.draft.catalog p.tables).fullName ⟨.here, .public_, .constructor 0 0⟩ =
      "Market.Stall.Stall()" ∧
    (p.draft.catalog p.tables).fullName ⟨.here, .private_, .constructor 0 1⟩ =
      "Market.Stall.Stall(Shapes.Shape[])" :=
  completes_of_compile (by decide +kernel)

end Sample

/-! ### Symbols -/

/-- Where all libraries bear identifiers as names and those relied on are published, the symbols
come in the strict order of their full names, and stand for all that the library presents, each
once. -/
theorem Builder.symbols_complete {b : Builder} {p : Products} (completes : b.Completes p)
    (wanted : b.job.options.symbolTable = true) (name : isIdentifier b.job.name = true)
    (names : ∀ s ∈ b.job.surfaces, isIdentifier s.name = true)
    (published : ∀ s ∈ b.job.surfaces, s.Published) :
    ∃ symbols, p.artifact.symbols = some symbols ∧ symbols.Pairwise (fun s s' => s.name < s'.name) ∧
      (∀ s ∈ symbols, s.name = (p.draft.catalog p.tables).fullName s.declaration) ∧
      (symbols.map Symbol.declaration).Nodup ∧
      ∀ d, d ∈ symbols.map Symbol.declaration ↔ p.draft.table.Presents d := by
  obtain ⟨merged, linked, passes⟩ := Job.passes_of_completes completes
  let l := b.job.library linked p.relies
  have draft : l.draft = p.draft := passes.draft.symm
  have isSymbols : p.artifact.symbols = some l.symbols := by rw [passes.symbols, if_pos wanted]
  have catalog : l.catalog = p.draft.catalog p.tables := by
    rw [LinkedLibrary.catalog, draft]
    rfl
  have presented (d : Declaration) :
      d ∈ LinkedLibrary.symbolDeclarations p.draft.table ↔ p.draft.table.Presents d :=
    Table.mem_symbolDeclarations passes.wellMade passes.namedOnce
  have once := Table.nodup_symbolDeclarations passes.wellMade passes.namedOnce
  have different : ((LinkedLibrary.symbolDeclarations p.draft.table).map
      (p.draft.catalog p.tables).fullName).Nodup := by
    refine List.Nodup.map_on (fun d listed d' listed' same => ?_) once
    exact fullName_injective (passes.legible name names published) passes.wellMade
      passes.spelled passes.settled passes.distinctOverloads ((presented d).1 listed)
      ((presented d').1 listed') same
  have listed := l.declarations_symbols
  rw [draft] at listed
  refine ⟨l.symbols, isSymbols, ?_, ?_, listed.nodup_iff.2 once, fun d => ?_⟩
  · refine LinkedLibrary.pairwise_symbols ?_
    rwa [draft, catalog]
  · rw [← catalog]
    exact fun s => LinkedLibrary.name_of_mem_symbols
  · rw [listed.mem_iff, presented d]

theorem Builder.symbols_complete_market :
    ∃ p, (Builder.mk Sample.market .unstarted [] none).Completes p ∧
      Sample.market.options.symbolTable = true ∧ isIdentifier Sample.market.name = true ∧
      (∀ s ∈ Sample.market.surfaces, isIdentifier s.name = true ∧ s.Published) ∧
      ∃ symbols, p.artifact.symbols = some symbols ∧
        symbols.Pairwise (fun s s' => s.name < s'.name) ∧
        ⟨"Market.Stall.Stall()", ⟨.here, .public_, .constructor 0 0⟩⟩ ∈ symbols ∧
        ⟨"Market.Stall.Stall(Shapes.Shape[])", ⟨.here, .private_, .constructor 0 1⟩⟩ ∈ symbols := by
  obtain ⟨p, completes, isPublic, isPrivate, title, title'⟩ := Sample.market_completes
  have name : isIdentifier Sample.market.name = true := by decide
  have names : ∀ s ∈ Sample.market.surfaces, isIdentifier s.name = true :=
    forall_mem_singleton.2 (by decide)
  obtain ⟨symbols, isSymbols, sorted, named, _, complete⟩ :=
    Builder.symbols_complete completes rfl name names Sample.tiles_published
  have symbol {d : Declaration} {text : String} (presents : p.draft.table.Presents d)
      (full : (p.draft.catalog p.tables).fullName d = text) :
      ⟨text, d⟩ ∈ symbols := by
    obtain ⟨s, member, rfl⟩ := mem_map.1 ((complete d).2 presents)
    rwa [← full, ← named s member]
  refine ⟨p, completes, rfl, name,
    fun s member => ⟨names s member, Sample.tiles_published s member⟩, symbols, isSymbols, sorted,
    ?_, ?_⟩
  · exact symbol (Sample.constructor_presented isPublic) title
  · exact symbol (Sample.constructor_presented isPrivate) title'

end Linkage
