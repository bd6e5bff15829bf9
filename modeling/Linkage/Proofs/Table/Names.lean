/-
Purpose: When the names of a table lead exactly to the entries that bear them.
-/
import Linkage.Proofs.NameMap
import Linkage.Rely.Instance

namespace Linkage

open List Option

namespace Visibility

theorem eq_of_breadth_eq {v w : Visibility} (same : v.breadth = w.breadth) : v = w := by
  cases v <;> cases w <;> simp_all [breadth]

/-- A visibility is one of a list and none of the list is wider. -/
structure IsWidest (v : Visibility) (vs : List Visibility) : Prop where
  mem : v ∈ vs
  broadest : ∀ w ∈ vs, w.breadth ≤ v.breadth

namespace IsWidest

variable {v w : Visibility} {vs ws : List Visibility}

theorem singleton (v : Visibility) : v.IsWidest [v] where
  mem := mem_singleton_self v
  broadest := by
    intro w member
    exact Nat.le_of_eq (congrArg breadth (mem_singleton.1 member))

/-- The wider of two visibilities stays the widest when the second joins the list. -/
theorem append (widest : v.IsWidest vs) (w : Visibility) : (v.widest w).IsWidest (vs ++ [w]) := by
  unfold Visibility.widest
  split
  · rename_i wider
    refine ⟨mem_append_right _ (mem_singleton_self w), fun x member => ?_⟩
    rcases mem_append.1 member with old | new
    · exact Nat.le_of_lt (Nat.lt_of_le_of_lt (widest.broadest x old) wider)
    · exact Nat.le_of_eq (congrArg breadth (mem_singleton.1 new))
  · rename_i narrower
    refine ⟨mem_append_left _ widest.mem, fun x member => ?_⟩
    rcases mem_append.1 member with old | new
    · exact widest.broadest x old
    · rw [mem_singleton.1 new]
      exact Nat.not_lt.1 narrower

/-- The order in which the visibilities are listed does not matter. -/
theorem eq_of_mem_iff (one : v.IsWidest vs) (other : w.IsWidest ws)
    (same : ∀ x, x ∈ vs ↔ x ∈ ws) : v = w :=
  eq_of_breadth_eq (Nat.le_antisymm (other.broadest v ((same v).1 one.mem))
    (one.broadest w ((same w).2 other.mem)))

end IsWidest

end Visibility

variable {e : Entity} {v : Visibility} {d : Declaration}

/-! ### Finding by key and standing at a place

The spaces of a table find declarations by space and name, the members of a type find them by
name alone.  Both are judged against the place at which an entity really stands. -/

/-- Every key that is found leads to an entity of this library that stands there, and every
entity that stands somewhere is found there. -/
structure Faithful {κ : Type} (home : Home) (find : κ → Option Declaration)
    (place : Entity → Option κ) : Prop where
  sound : ∀ {k d}, find k = some d → d.home = home ∧ place d.entity = some k
  complete : ∀ {e k}, place e = some k → ∃ d, find k = some d ∧ d.entity = e

namespace Faithful

variable {κ : Type} {home : Home} {find find' : κ → Option Declaration}
  {place place' : Entity → Option κ}

section

variable (faithful : Faithful home find place)
include faithful

/-- What a key leads to is the entity that stands there. -/
theorem entity_iff {k : κ} : (find k).map Declaration.entity = some e ↔ place e = some k := by
  rw [map_eq_some_iff]
  refine ⟨?_, faithful.complete⟩
  rintro ⟨d, found, rfl⟩
  exact (faithful.sound found).2

theorem entity_unique {e' : Entity} {k : κ}
    (one : place e = some k) (other : place e' = some k) : e = e' := by
  rw [← faithful.entity_iff] at one other
  exact some.inj (one.symm.trans other)

theorem find_eq_of_place {k : κ} (stands : place e = some k) : ∃ v, find k = some ⟨home, v, e⟩ := by
  obtain ⟨⟨home', v, e'⟩, found, same⟩ := faithful.complete stands
  obtain rfl : e' = e := same
  obtain rfl : home' = home := (faithful.sound found).1
  exact ⟨v, found⟩

/-- Storing a new entity under a free key keeps names and places together. -/
theorem insert [DecidableEq κ] {k : κ} (free : find k = none)
    (new : place e = none) (found : ∀ k', find' k' = if k' = k then some ⟨home, v, e⟩ else find k')
    (placed : ∀ e', place' e' = if e' = e then some k else place e') :
    Faithful home find' place' where
  sound := by
    intro k' d hit
    rw [found] at hit
    split at hit
    · rename_i same
      cases hit
      exact ⟨rfl, by rw [placed, if_pos rfl, same]⟩
    · obtain ⟨here, stands⟩ := faithful.sound hit
      refine ⟨here, ?_⟩
      rw [placed, if_neg, stands]
      intro same
      rw [same, new] at stands
      cases stands
  complete := by
    intro e' k' stands
    rw [placed] at stands
    split at stands
    · rename_i same
      cases stands
      exact ⟨⟨home, v, e⟩, by rw [found, if_pos rfl], same.symm⟩
    · obtain ⟨d, hit, same⟩ := faithful.complete stands
      refine ⟨d, ?_, same⟩
      rw [found, if_neg, hit]
      rintro rfl
      rw [free] at hit
      cases hit

/-- Changing nothing but visibilities keeps names and places together. -/
theorem congr (found : ∀ k, (find' k).map (fun d => (d.home, d.entity)) =
      (find k).map fun d => (d.home, d.entity)) (placed : ∀ e, place' e = place e)
    : Faithful home find' place' where
  sound := by
    intro k d hit
    have old := found k
    rw [hit] at old
    obtain ⟨d', hit', same⟩ := map_eq_some_iff.1 old.symm
    obtain ⟨here, stands⟩ := faithful.sound hit'
    obtain ⟨sameHome, sameEntity⟩ := Prod.mk.inj same
    rw [placed, ← sameHome, ← sameEntity]
    exact ⟨here, stands⟩
  complete := by
    intro e k stands
    rw [placed] at stands
    obtain ⟨d, hit, same⟩ := faithful.complete stands
    have new := found k
    rw [hit] at new
    obtain ⟨d', hit', same'⟩ := map_eq_some_iff.1 new
    exact ⟨d', hit', (Prod.mk.inj same').2.trans same⟩

end

end Faithful

/-- Everything that is found is as visible as the widest of what its entity comes with. -/
structure Shown {κ : Type} (find : κ → Option Declaration)
    (visibilities : Entity → List Visibility) : Prop where
  widest : ∀ {k d}, find k = some d → d.visibility.IsWidest (visibilities d.entity)

namespace Shown

variable {κ : Type} {home : Home} {find find' : κ → Option Declaration}
  {place : Entity → Option κ} {visibilities visibilities' : Entity → List Visibility}

/-- Storing a new entity with its own visibility keeps visibilities right. -/
theorem insert [DecidableEq κ] (shown : Shown find visibilities)
    (faithful : Faithful home find place) {k : κ}
    (new : place e = none) (found : ∀ k', find' k' = if k' = k then some ⟨home, v, e⟩ else find k')
    {vs : List Visibility} (own : v.IsWidest vs)
    (comes : ∀ e', visibilities' e' = if e' = e then vs else visibilities e') :
    Shown find' visibilities' := by
  refine ⟨fun {k' d} hit => ?_⟩
  rw [found] at hit
  split at hit
  · cases hit
    rw [comes, if_pos rfl]
    exact own
  · have different : d.entity ≠ e := by
      intro same
      have stands := (faithful.sound hit).2
      rw [same, new] at stands
      cases stands
    rw [comes, if_neg different]
    exact shown.widest hit

/-- An entity that comes with one more visibility is shown at least as widely as that. -/
theorem widen [DecidableEq κ] (shown : Shown find visibilities)
    (faithful : Faithful home find place) {k : κ}
    (stored : find k = some d) (found : ∀ k', find' k' = if k' = k then
      (find k').map fun d => { d with visibility := d.visibility.widest v } else find k')
    (comes : ∀ e', visibilities' e' =
      if e' = d.entity then visibilities e' ++ [v] else visibilities e') :
    Shown find' visibilities' := by
  refine ⟨fun {k' d'} hit => ?_⟩
  rw [found] at hit
  split at hit
  · rename_i same
    rw [same, stored] at hit
    cases hit
    rw [comes, if_pos rfl]
    exact (shown.widest stored).append v
  · rename_i elsewhere
    have different : d'.entity ≠ d.entity := by
      intro same
      have stands := (faithful.sound hit).2
      rw [same, (faithful.sound stored).2] at stands
      exact elsewhere (some.inj stands).symm
    rw [comes, if_neg different]
    exact shown.widest hit

end Shown

/-! ### Entries of spaces -/

/-- The visibilities of the functions of a method. -/
def Method.visibilities (m : Method) : List Visibility := m.functions.map (·.visibility)

namespace Table

/-- Where an entry of a space stands: its space and its name. -/
def entryAt (t : Table) : Entity → Option (Nat × String)
  | .classDef i => t.classes[i]?.map fun c => (c.space, c.name)
  | .interface i => t.interfaces[i]?.map fun d => (d.space, d.name)
  | .delegate i => t.delegates[i]?.map fun d => (d.space, d.name)
  | .coroutine i => t.coroutines[i]?.map fun d => (d.space, d.name)
  | .globalVariable i => t.globals[i]?.map fun d => (d.space, d.name)
  | .globalMethod i => t.methods[i]?.map fun m => (m.space, m.name)
  | .nativeMethod i => t.natives[i]?.map fun m => (m.space, m.name)
  | _ => none

/-- The visibilities that an entry of a space comes with: those of the functions of a method,
otherwise its own. -/
def visibilities (t : Table) : Entity → List Visibility
  | .classDef i => (t.classes[i]?.map (·.visibility)).toList
  | .interface i => (t.interfaces[i]?.map (·.visibility)).toList
  | .delegate i => (t.delegates[i]?.map (·.visibility)).toList
  | .coroutine i => (t.coroutines[i]?.map (·.visibility)).toList
  | .globalVariable i => (t.globals[i]?.map (·.visibility)).toList
  | .globalMethod i => (t.methods[i]?.map (·.visibilities)).getD []
  | .nativeMethod i => (t.natives[i]?.map (·.visibilities)).getD []
  | _ => []

/-- What a space declares under a name. -/
def find (t : Table) (key : Nat × String) : Option Declaration := t.lookup key.1 key.2

private theorem mem_mapIdx_entry {α : Type} {entries : List α} {space : α → Nat}
    {name : α → String} {entity : Nat → Entity} {s : Nat} {n : String} :
    (s, n, e) ∈ entries.mapIdx (fun i x => (space x, name x, entity i)) ↔
      ∃ i, e = entity i ∧ entries[i]?.map (fun x => (space x, name x)) = some (s, n) := by
  simp
  constructor
  · rintro ⟨i, inside, sameSpace, sameName, rfl⟩
    exact ⟨i, rfl, _, getElem?_eq_getElem inside, sameSpace, sameName⟩
  · rintro ⟨i, rfl, entry, found, sameSpace, sameName⟩
    obtain ⟨inside, rfl⟩ := List.getElem?_eq_some_iff.1 found
    exact ⟨i, inside, sameSpace, sameName, rfl⟩

theorem mem_entries {t : Table} {space : Nat} {name : String} :
    (space, name, e) ∈ Linkup.entries t ↔ t.entryAt e = some (space, name) := by
  simp only [Linkup.entries, mem_append, mem_mapIdx_entry]
  cases e <;> simp [entryAt]

end Table

/-! ### Members -/

/-- The name under which the variables and methods of a class have a member. -/
def classMemberAt (fields : List MemberVariable) (methods : List Method) (index : Nat) :
    Entity → Option String
  | .memberVariable owner i => if owner = index then fields[i]?.map (·.name) else none
  | .memberMethod owner i => if owner = index then methods[i]?.map (·.name) else none
  | _ => none

/-- The name under which the methods of an interface have a member. -/
def interfaceMemberAt (methods : List Method) (index : Nat) : Entity → Option String
  | .interfaceMethod owner i => if owner = index then methods[i]?.map (·.name) else none
  | _ => none

/-- The visibilities that a variable or a method of a class comes with. -/
def classMemberVisibilities (fields : List MemberVariable) (methods : List Method) (index : Nat) :
    Entity → List Visibility
  | .memberVariable owner i => if owner = index then (fields[i]?.map (·.visibility)).toList else []
  | .memberMethod owner i =>
    if owner = index then (methods[i]?.map (·.visibilities)).getD [] else []
  | _ => []

/-- The visibilities that a method of an interface comes with. -/
def interfaceMemberVisibilities (methods : List Method) (index : Nat) : Entity → List Visibility
  | .interfaceMethod owner i =>
    if owner = index then (methods[i]?.map (·.visibilities)).getD [] else []
  | _ => []

/-- The name under which a class has a member. -/
def ClassDef.memberAt (c : ClassDef) (index : Nat) : Entity → Option String :=
  classMemberAt c.fields c.methods index

/-- The name under which an interface has a member. -/
def InterfaceDef.memberAt (d : InterfaceDef) (index : Nat) : Entity → Option String :=
  interfaceMemberAt d.methods index

namespace Table

variable {t : Table} {name : String} {i : Nat}

/-- An entry bears the name and stands in the space of its place. -/
theorem declarationName_of_entryAt {space : Nat}
    (stands : t.entryAt d.entity = some (space, name)) :
    t.declarationName d = some name ∧ t.declarationSpace d = some space := by
  obtain ⟨home, v, e⟩ := d
  cases e with
  | classDef i | interface i | delegate i | coroutine i | globalVariable i | globalMethod i
  | nativeMethod i =>
    obtain ⟨x, found, place⟩ := map_eq_some_iff.1 stands
    obtain ⟨isSpace, isName⟩ := Prod.mk.inj place
    simp [declarationName, declarationSpace, method, Entity.group, found, isSpace, isName]
  | _ => cases stands

/-- A member of a class bears its name and belongs to the class. -/
theorem declarationName_of_memberAt {c : ClassDef} (atIndex : t.classes[i]? = some c)
    (stands : c.memberAt i d.entity = some name) :
    t.declarationName d = some name ∧ t.ownerType d = some ⟨t.home, c.kind, i⟩ := by
  obtain ⟨home, v, e⟩ := d
  cases e with
  | memberVariable owner k | memberMethod owner k =>
    obtain ⟨rfl, named⟩ := ite_none_right_eq_some.1 stands
    obtain ⟨x, found, isName⟩ := map_eq_some_iff.1 named
    simp [declarationName, ownerType, method, Entity.group, atIndex, found, isName]
  | _ => cases stands

/-- A member of an interface bears its name and belongs to the interface. -/
theorem declarationName_of_interfaceMemberAt {x : InterfaceDef}
    (atIndex : t.interfaces[i]? = some x) (stands : x.memberAt i d.entity = some name) :
    t.declarationName d = some name ∧ t.ownerType d = some ⟨t.home, .interface, i⟩ := by
  obtain ⟨home, v, e⟩ := d
  cases e with
  | interfaceMethod owner k =>
    obtain ⟨rfl, named⟩ := ite_none_right_eq_some.1 stands
    obtain ⟨m, found, isName⟩ := map_eq_some_iff.1 named
    simp [declarationName, ownerType, method, Entity.group, atIndex, found, isName]
  | _ => cases stands

end Table

/-! ### Changing the spaces of a table -/

namespace Table

section

variable (t : Table) (space : Nat) (f : Space → Space)
include t space f

@[simp] theorem spaces_modifySpace :
    (t.modifySpace space f).spaces = t.spaces.modify space f := rfl

@[simp] theorem entryAt_modifySpace (e : Entity) :
    (t.modifySpace space f).entryAt e = t.entryAt e := by
  cases e <;> rfl

@[simp] theorem visibilities_modifySpace
    (e : Entity) : (t.modifySpace space f).visibilities e = t.visibilities e := by
  cases e <;> rfl

theorem find_modifySpace (key : Nat × String) : (t.modifySpace space f).find key =
      if key.1 = space then t.spaces[space]?.bind fun s => (f s).declarations.find? key.2
      else t.find key := by
  unfold find lookup
  by_cases same : space = key.1
  · subst same
    simp [bind_map, Function.comp_def]
  · simp [same, Ne.symm same]

end

/-- A declaration is found where it was stored, and the others where they were. -/
theorem find_declare {t : Table} {space : Nat} (inside : space < t.spaces.length) (name : String)
    (d : Declaration) (key : Nat × String) :
    (t.declare space name d).find key = if key = (space, name) then some d else t.find key := by
  obtain ⟨space', name'⟩ := key
  unfold declare
  rw [find_modifySpace]
  by_cases same : space' = space
  · subst same
    have present : t.spaces[space']? = some t.spaces[space'] := getElem?_eq_getElem inside
    simp [present, find, lookup, NameMap.find?_insert]
  · simp [same]

end Table

theorem Table.home_of_ownerType {t : Table} {owner : TypeId}
    (isOwner : t.ownerType d = some owner) : owner.home = t.home := by
  obtain ⟨home, v, e⟩ := d
  cases e with
  | memberVariable | memberMethod | memberFunction | constructor =>
    obtain ⟨_, _, rfl⟩ := map_eq_some_iff.1 isOwner
    rfl
  | interfaceMethod | interfaceFunction =>
    cases isOwner
    rfl
  | _ => cases isOwner

end Linkage
