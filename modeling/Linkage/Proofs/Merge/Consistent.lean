/-
Purpose: Whatever the files of a library say, the names, places and visibilities of its merged
  table agree.
-/
import Linkage.Proofs.Merge.Growth

namespace Linkage.Table

variable {t : Table} {name : String} {i : Nat} {d : Declaration}

/-- The table stores a declaration: in a space, or among the members of a type. -/
inductive Stores (t : Table) (d : Declaration) : Prop
  | inSpace {space : Nat} {name : String} (found : t.lookup space name = some d)
  | inClass {i : Nat} {c : ClassDef} {name : String} (atIndex : t.classes[i]? = some c)
      (found : c.members.find? name = some d)
  | inInterface {i : Nat} {x : InterfaceDef} {name : String}
      (atIndex : t.interfaces[i]? = some x) (found : x.members.find? name = some d)

/-- Names lead to what bears them, everything that bears a name is found under it, and methods
are as visible as the widest of their functions. -/
structure Consistent (t : Table) : Prop where
  /-- No name is both that of a declaration of a space and that of a space below it. -/
  apart : ∀ space name, t.lookup space name = none ∨ t.childSpace space name = none
  /-- What a space stores under a name bears this name and stands in the space. -/
  declared : ∀ {space name d}, t.lookup space name = some d →
    d.home = t.home ∧ t.declarationName d = some name ∧ t.declarationSpace d = some space
  /-- What a class stores under a name bears this name and belongs to the class. -/
  classMember : ∀ {i : Nat} {c : ClassDef}, t.classes[i]? = some c → ∀ {name d},
    c.members.find? name = some d →
    d.home = t.home ∧ t.declarationName d = some name ∧ t.ownerType d = some ⟨t.home, c.kind, i⟩
  /-- What an interface stores under a name bears this name and belongs to the interface. -/
  interfaceMember : ∀ {i : Nat} {x : InterfaceDef}, t.interfaces[i]? = some x → ∀ {name d},
    x.members.find? name = some d →
    d.home = t.home ∧ t.declarationName d = some name ∧ t.ownerType d = some ⟨t.home, .interface, i⟩
  /-- Every entry is the one that its own space stores under its own name. -/
  stored : ∀ {e space name}, t.entryAt e = some (space, name) →
    ∃ v, t.lookup space name = some ⟨t.home, v, e⟩
  /-- Every variable and method of a class is the one that the class stores under its name. -/
  storedInClass : ∀ {i : Nat} {c : ClassDef}, t.classes[i]? = some c → ∀ {e name},
    c.memberAt i e = some name → ∃ v, c.members.find? name = some ⟨t.home, v, e⟩
  /-- Every method of an interface is the one that the interface stores under its name. -/
  storedInInterface : ∀ {i : Nat} {x : InterfaceDef}, t.interfaces[i]? = some x → ∀ {e name},
    x.memberAt i e = some name → ∃ v, x.members.find? name = some ⟨t.home, v, e⟩
  /-- A method that is stored has functions and the visibility of the widest of them. -/
  groups : ∀ {d}, t.Stores d → d.entity.isMethod = true → ∃ functions,
    t.overloads d = some functions ∧ functions ≠ [] ∧
      d.visibility.IsWidest (functions.map (·.visibility))

/-! ### Methods and their functions -/

/-- Where a method comes with the visibilities of its functions, it has functions, and the
widest of them decides. -/
private theorem widest_of_method {methods : List Method} {v : Visibility}
    (widest : v.IsWidest ((methods[i]?.map Method.visibilities).getD [])) :
    ∃ m, methods[i]? = some m ∧ m.functions ≠ [] ∧ v.IsWidest (m.functions.map (·.visibility)) := by
  cases found : methods[i]? with
  | none =>
    rw [found] at widest
    cases widest.mem
  | some m =>
    rw [found] at widest
    refine ⟨m, rfl, ?_, widest⟩
    intro empty
    have member : v ∈ m.functions.map (·.visibility) := widest.mem
    rw [empty] at member
    cases member

/-- The methods of a table from source have functions and the visibility of the widest. -/
theorem WellMade.widest_of_stores (made : t.WellMade)
    (stored : t.Stores d) (isMethod : d.entity.isMethod = true) :
    ∃ functions, t.overloads d = some functions ∧ functions ≠ [] ∧
      d.visibility.IsWidest (functions.map (·.visibility)) := by
  obtain ⟨home, v, e⟩ := d
  cases stored with
  | @inSpace space name found =>
    have widest := made.shown.widest (k := (space, name)) found
    cases e with
    | globalMethod k | nativeMethod k =>
      obtain ⟨m, atIndex, inhabited, isWidest⟩ := widest_of_method widest
      exact ⟨m.functions, by simp [overloads, method, Entity.group, atIndex], inhabited, isWidest⟩
    | memberMethod | interfaceMethod => cases widest.mem
    | _ => cases isMethod
  | @inClass i c name atIndex found =>
    have widest := (made.classes atIndex).shown.widest found
    cases e with
    | memberMethod owner k =>
      obtain ⟨rfl, _⟩ := Option.ite_none_right_eq_some.1
        ((made.classes atIndex).names.sound found).2
      simp only [classMemberVisibilities, if_true] at widest
      obtain ⟨m, atMethod, inhabited, isWidest⟩ := widest_of_method widest
      exact ⟨m.functions, by simp [overloads, method, Entity.group, atIndex, atMethod],
        inhabited, isWidest⟩
    | globalMethod | nativeMethod | interfaceMethod => cases widest.mem
    | _ => cases isMethod
  | @inInterface i x name atIndex found =>
    have widest := (made.interfaces atIndex).shown.widest found
    cases e with
    | interfaceMethod owner k =>
      obtain ⟨rfl, _⟩ := Option.ite_none_right_eq_some.1
        ((made.interfaces atIndex).names.sound found).2
      simp only [interfaceMemberVisibilities, if_true] at widest
      obtain ⟨m, atMethod, inhabited, isWidest⟩ := widest_of_method widest
      exact ⟨m.functions, by simp [overloads, method, Entity.group, atIndex, atMethod],
        inhabited, isWidest⟩
    | globalMethod | nativeMethod | memberMethod => cases widest.mem
    | _ => cases isMethod

end Linkage.Table

namespace Linkage.Draft

open Table

/-- Whatever the files of a library say, and whether or not it is complained about, the merged
table is consistent. -/
theorem merge_consistent (name : String) (files : List (SourceFile × Outline)) :
    (Draft.merge name files).value.table.Consistent := by
  have made := Draft.merge_wellMade name files
  generalize (Draft.merge name files).value.table = t at made
  constructor
  case apart => exact made.apart
  case declared =>
    intro space name d found
    obtain ⟨isHome, stands⟩ := made.names.sound (k := (space, name)) found
    exact ⟨isHome.trans made.home.symm, declarationName_of_entryAt stands⟩
  case classMember =>
    intro i c atIndex name d found
    obtain ⟨isHome, stands⟩ := (made.classes atIndex).names.sound found
    exact ⟨isHome.trans made.home.symm, declarationName_of_memberAt atIndex stands⟩
  case interfaceMember =>
    intro i x atIndex name d found
    obtain ⟨isHome, stands⟩ := (made.interfaces atIndex).names.sound found
    exact ⟨isHome.trans made.home.symm, declarationName_of_interfaceMemberAt atIndex stands⟩
  case stored =>
    intro e space name stands
    rw [made.home]
    exact made.names.find_eq_of_place stands
  case storedInClass =>
    intro i c atIndex e name stands
    rw [made.home]
    exact (made.classes atIndex).names.find_eq_of_place stands
  case storedInInterface =>
    intro i x atIndex e name stands
    rw [made.home]
    exact (made.interfaces atIndex).names.find_eq_of_place stands
  case groups => exact made.widest_of_stores

end Linkage.Draft
