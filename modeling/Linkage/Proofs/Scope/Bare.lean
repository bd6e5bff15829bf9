/-
Purpose: What a type expression stands for is found without looking at types, and where nothing is
  reported it is found.
-/
import Linkage.Proofs.Scope.Precedence

namespace Linkage

open Catalog

/-! ### Without types -/

namespace Table

variable (t : Table) (d : Declaration)

theorem declaredType_skeleton : t.skeleton.declaredType d = t.declaredType d := by
  unfold declaredType
  cases d.entity <;> simp [skeleton, Function.comp_def, ClassDef.skeleton]

theorem ownerType_skeleton : t.skeleton.ownerType d = t.ownerType d := by
  unfold ownerType
  cases d.entity <;> simp [skeleton, Function.comp_def, ClassDef.skeleton]

theorem method_skeleton : t.skeleton.method d = (t.method d).map Method.skeleton := by
  unfold method
  cases d.entity.group <;> simp [skeleton, Option.bind_map, Option.map_bind, Function.comp_def,
    ClassDef.skeleton, InterfaceDef.skeleton]

theorem overloads_skeleton :
    t.skeleton.overloads d = (t.overloads d).map (List.map Function.skeleton) := by
  simp only [overloads, method_skeleton]
  cases d.entity <;> simp [skeleton, Function.comp_def, ClassDef.skeleton, Method.skeleton]

theorem declaringSpace_skeleton : t.skeleton.declaringSpace d = t.declaringSpace d := by
  have types (id : TypeId) : t.skeleton.typeName id = t.typeName id := by
    unfold typeName
    cases id.kind <;> simp [skeleton, Function.comp_def, ClassDef.skeleton, InterfaceDef.skeleton,
      DelegateDef.skeleton, CoroutineDef.skeleton]
  have entries : t.skeleton.declarationSpace d = t.declarationSpace d := by
    simp only [declarationSpace, method_skeleton]
    cases d.entity <;> simp [skeleton, Function.comp_def, ClassDef.skeleton, InterfaceDef.skeleton,
      DelegateDef.skeleton, CoroutineDef.skeleton, VariableDef.skeleton, Method.skeleton]
  simp only [declaringSpace, ownerType_skeleton, types, entries]

end Table

/-- A catalog with no types in the table of its own library. -/
def Catalog.bare (c : Catalog) : Catalog := { c with own := c.own.skeleton }

/-- What does not look at types is the same without them. -/
theorem Catalog.table?_bare {β : Type} {f : Option Table → β}
    (blind : ∀ t, f (some t.skeleton) = f (some t)) (c : Catalog) (home : Home) :
    f (c.bare.table? home) = f (c.table? home) := by
  cases home with
  | here => exact blind c.own
  | _ => rfl

namespace Scope

/-- A position in a library without types. -/
def bare (s : Scope) : Scope := { s with catalog := s.catalog.bare }

/-! ### Searching without types -/

section Spaces

variable (s : Scope)

theorem lookup_bare (ref : SpaceRef) (name : String) :
    ((s.bare.catalog.table? ref.home).bind fun t => t.lookup ref.space name) =
      (s.catalog.table? ref.home).bind fun t => t.lookup ref.space name :=
  table?_bare (f := fun t => t.bind fun t => t.lookup ref.space name) (fun _ => rfl)
    s.catalog ref.home

theorem childSpace_bare (ref : SpaceRef) (name : String) :
    ((s.bare.catalog.table? ref.home).bind fun t => t.childSpace ref.space name) =
      (s.catalog.table? ref.home).bind fun t => t.childSpace ref.space name :=
  table?_bare (f := fun t => t.bind fun t => t.childSpace ref.space name) (fun _ => rfl)
    s.catalog ref.home

theorem findSpace_bare (path : List String) : s.bare.findSpace path = s.findSpace path := by
  have descend (ref : SpaceRef) (path : List String) :
      s.bare.descend ref path = s.descend ref path := by
    induction path generalizing ref with
    | nil => rfl
    | cons name rest ih => simp only [descend, childSpace_bare, ih]
  have head (name : String) : s.bare.spaceHead name = s.spaceHead name := by
    simp only [spaceHead, childSpace_bare]
    rfl
  cases path with
  | nil => rfl
  | cons name rest => simp only [findSpace, head, descend]

end Spaces

section Outside

variable {s : Scope} (outside : s.type = none)
include outside

theorem isVisible_bare (d : Declaration) : s.bare.isVisible d = s.isVisible d := by
  have admits (t : Table) : s.bare.admits t d = s.admits t d := by
    simp only [admits, bare, outside]
    cases t.ownerType d <;> rfl
  have blind (t : Table) : s.admits t.skeleton d = s.admits t d := by
    simp only [Scope.admits, outside, Table.ownerType_skeleton, Table.declaringSpace_skeleton]
    rfl
  simp only [isVisible, admits]
  exact table?_bare blind s.catalog d.home

theorem isAccessible_bare : s.bare.isAccessible = s.isAccessible := by
  funext d
  by_cases isMethod : d.entity.isMethod = true
  · rw [isAccessible_eq_any isMethod, isAccessible_eq_any isMethod]
    simp only [isVisible_bare outside]
    refine table?_bare (f := fun t => ((t.bind fun t => t.overloads d).getD []).any
      fun f => (d.overload? 0).any fun o => s.isVisible { o with visibility := f.visibility })
      (fun t => ?_) s.catalog d.home
    rw [Option.bind_some, Option.bind_some, Table.overloads_skeleton]
    cases t.overloads d with
    | none => rfl
    | some fs => simp [List.any_map, Function.comp_def, Function.skeleton]
  · simp only [isAccessible, if_neg isMethod, isVisible_bare outside]

theorem value_find_bare (name : String) (span : Span) :
    (s.bare.find name span).value = (s.find name span).value := by
  have near : s.bare.nearby name = s.nearby name := by
    simp only [nearby, typeChain, isAccessible_bare outside]
    simp only [bare, outside]
    rfl
  have far : s.bare.choices name = s.choices name := by
    simp only [choices, isAccessible_bare outside, lookup_bare]
    rfl
  rw [value_find, value_find, near, far]

end Outside

variable {s : Scope}

/-- What a type expression stands for does not depend on the types of the library. -/
theorem value_findType_bare (outside : s.type = none) (e : TypeExpr) :
    (s.bare.findType e).value = (s.findType e).value := by
  have declared (d : Declaration) : s.bare.catalog.declaredType d = s.catalog.declaredType d :=
    table?_bare (f := fun t => t.bind fun t => t.declaredType d)
      (fun t => t.declaredType_skeleton d) s.catalog d.home
  simp only [value_findType, value_findPath, value_find_bare outside, isAccessible_bare outside,
    findSpace_bare, lookup_bare, declared]

/-! ### Finding something -/

theorem exists_of_find {name : String} {span : Span} (quiet : (s.find name span).notes = []) :
    ∃ d, (s.find name span).value = some d := by
  unfold find at quiet ⊢
  cases resolves : s.resolve name with
  | found d => exact ⟨d, rfl⟩
  | _ =>
    rw [resolves] at quiet
    cases quiet

theorem exists_of_findPath {path : List String} {span : Span} (named : path ≠ [])
    (quiet : (s.findPath path span).notes = []) : ∃ d, (s.findPath path span).value = some d := by
  revert quiet
  unfold findPath
  cases last : path.getLast? with
  | none => exact absurd (List.getLast?_eq_none_iff.1 last) named
  | some name =>
    dsimp only
    split
    · exact exists_of_find
    · cases s.findSpace path.dropLast with
      | none => exact fun quiet => by cases quiet
      | some ref =>
        dsimp only
        cases (s.catalog.table? ref.home).bind fun t => t.lookup ref.space name with
        | none => exact fun quiet => by cases quiet
        | some d =>
          dsimp only
          split
          · exact fun _ => ⟨d, rfl⟩
          · exact fun quiet => by cases quiet

/-- Where nothing is reported, a type that is written with names is found. -/
theorem exists_of_findType {e : TypeExpr} (named : e.path ≠ [])
    (quiet : (s.findType e).notes = []) : ∃ x, (s.findType e).value = some x := by
  unfold findType at quiet ⊢
  obtain ⟨quietly, later⟩ := List.append_eq_nil_iff.1 quiet
  obtain ⟨d, found⟩ := exists_of_findPath named quietly
  rw [Noted.value_bind]
  rw [found] at later ⊢
  dsimp only at later ⊢
  cases isType : s.catalog.declaredType d with
  | some id => exact ⟨_, rfl⟩
  | none =>
    rw [isType] at later
    cases later

end Scope

end Linkage
