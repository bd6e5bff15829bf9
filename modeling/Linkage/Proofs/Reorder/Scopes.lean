/-
Purpose: What a name, a path or a type expression stands for when the library being compiled
  is numbered anew.
-/
import Linkage.Proofs.Reorder.Catalogs
import Linkage.Proofs.Scope.Precedence

namespace Linkage

open List

/-! ### Searching, part by part -/

namespace Scope

/-- The space that the first part of a path stands for, among those around the position. -/
def nearHead (s : Scope) (name : String) : Option SpaceRef :=
  (s.catalog.own.spaceChain s.space).findSome? fun space =>
    (s.catalog.own.childSpace space name).map fun child => ⟨.here, child⟩

/-- The same among the spaces right below the imported ones. -/
def importedHead (s : Scope) (name : String) : Option SpaceRef :=
  s.imports.findSome? fun ref =>
    ((s.catalog.table? ref.home).bind fun t => t.childSpace ref.space name).map fun child =>
      ⟨ref.home, child⟩

/-- The same among the kernel and the other libraries. -/
def farHead (c : Catalog) (name : String) : Option SpaceRef :=
  let kernel := if name = Kernel.name then some ⟨.kernel, Table.rootSpace⟩ else none
  let library := (c.relyNamed? name).map fun t => ⟨t.home, Table.rootSpace⟩
  let inLibrary := c.relies.findSome? fun t =>
    (t.childSpace Table.rootSpace name).map fun child => ⟨t.home, child⟩
  kernel <|> library <|> inLibrary

theorem spaceHead_eq (s : Scope) (name : String) :
    s.spaceHead name = (s.nearHead name <|> s.importedHead name <|> farHead s.catalog name) := rfl

/-- Where the kernel and the other libraries lead is not in this library. -/
theorem home_of_farHead {c : Catalog} (away : ∀ t ∈ c.relies, t.home ≠ .here) {name : String}
    {ref : SpaceRef} (found : farHead c name = some ref) : ref.home ≠ .here := by
  simp only [farHead, Option.orElse_eq_orElse, Option.orElse_eq_or, Option.or_eq_some_iff] at found
  rcases found with kernel | ⟨_, library | ⟨_, inLibrary⟩⟩
  · obtain ⟨_, same⟩ := Option.ite_none_right_eq_some.1 kernel
    cases same
    nofun
  · obtain ⟨t, named, rfl⟩ := Option.map_eq_some_iff.1 library
    exact away t (mem_of_find?_eq_some named)
  · obtain ⟨t, member, below⟩ := exists_of_findSome?_eq_some inLibrary
    obtain ⟨child, _, rfl⟩ := Option.map_eq_some_iff.1 below
    exact away t member

end Scope

/-- A position outside of types under two numberings of the library. -/
structure Scope.Alike (n : Numbering) (s s' : Scope) : Prop where
  catalog : s.catalog.Alike n s'.catalog
  space : s'.space = n.spaces s.space
  outside : s.type = none
  outside' : s'.type = none
  imports : s'.imports = s.imports.map n.spaceRef

theorem Catalog.Alike.own {n : Numbering} {c c' : Catalog} (alike : c.Alike n c') :
    c.own.Alike n .here c'.own := by
  obtain ⟨t, found, related⟩ := (exists_of_rel (alike.tables .here)).1 c.own rfl
  cases found
  exact related

namespace Scope.Alike

variable {n : Numbering} {s s' : Scope}

/-! ### Access -/

section

variable (alike : s.Alike n s') (name : String)

include alike

theorem admits {d : Declaration} {t t' : Table}
    (related : t.Alike n d.home t') : s'.admits t' (n.declaration d) = s.admits t d := by
  unfold Scope.admits
  rw [n.visibility_declaration, n.home_declaration, alike.outside, alike.outside',
    related.ownerType, related.declaringSpace, alike.space]
  cases d.visibility with
  | public_ | internal => rfl
  | space =>
    by_cases own : d.home = .here
    · rw [own] at related ⊢
      cases t.declaringSpace d with
      | none => rfl
      | some outer => simpa using related.spaceContains outer s.space
    · simp [own]
  | protected_ => cases t.ownerType d <;> rfl
  | private_ =>
    cases t.ownerType d with
    | some owner => rfl
    | none =>
      by_cases own : d.home = .here
      · rw [own]
        cases t.declaringSpace d with
        | none => rfl
        | some outer => simp [Numbering.within, n.spaces.injective.eq_iff]
      · simp [own]

theorem isVisible (d : Declaration) : s'.isVisible (n.declaration d) = s.isVisible d := by
  unfold Scope.isVisible
  have related := alike.catalog.tables d.home
  revert related
  rw [n.home_declaration]
  generalize s.catalog.table? d.home = t, s'.catalog.table? d.home = t'
  rintro (⟨related⟩ | _)
  · exact alike.admits related
  · rfl

theorem isAccessible (d : Declaration) : s'.isAccessible (n.declaration d) = s.isAccessible d := by
  have same : (n.declaration d).entity.isMethod = d.entity.isMethod := Numbering.isMethod_entity _ _
  by_cases isMethod : d.entity.isMethod = true
  · rw [isAccessible_eq_any isMethod, isAccessible_eq_any (same.trans isMethod)]
    have visible (v : Visibility) : ((n.declaration d).overload? 0).any
            (fun o => s'.isVisible { o with visibility := v }) =
          (d.overload? 0).any fun o => s.isVisible { o with visibility := v } := by
      rw [n.overload?_declaration]
      cases d.overload? 0 with
      | none => rfl
      | some o => exact alike.isVisible { o with visibility := v }
    simp only [visible]
    have related := alike.catalog.overloads d
    revert related
    generalize s.catalog.overloads d = fs, s'.catalog.overloads (n.declaration d) = fs'
    rintro (⟨perm⟩ | _)
    · simp
      rw [perm.any_eq, any_map]
      rfl
    · rfl
  · unfold Scope.isAccessible
    rw [if_neg isMethod, if_neg (same ▸ isMethod)]
    exact alike.isVisible d

/-! ### Names -/

theorem spaceHits : s'.spaceHits name = (s.spaceHits name).map n.declaration := by
  have own := alike.catalog.own
  have chain := own.spaceChain s.space
  simp at chain
  unfold Scope.spaceHits
  rw [alike.space, chain, filterMap_map, map_filterMap]
  congr 1
  funext space
  exact own.found space name

theorem farSpaces : s'.farSpaces = s.farSpaces.map n.spaceRef := by
  have relies : s.catalog.relies.map (fun t => (⟨t.home, Table.rootSpace⟩ : SpaceRef)) =
      (s.catalog.relies.map fun t => (⟨t.home, Table.rootSpace⟩ : SpaceRef)).map n.spaceRef := by
    rw [map_map]
    apply map_congr_left
    intro t member
    exact (n.spaceRef_of_home_ne (alike.catalog.away t member)).symm
  unfold Scope.farSpaces
  rw [alike.imports, alike.catalog.relies, map_append, ← relies]
  rfl

theorem lookup_spaceRef (ref : SpaceRef) (name : String) :
    ((s'.catalog.table? ref.home).bind fun t => t.lookup (n.spaceRef ref).space name) =
      ((s.catalog.table? ref.home).bind fun t => t.lookup ref.space name).map n.declaration :=
  alike.catalog.bind_table ref.home fun _ _ related => related.found ref.space name

theorem farHits : s'.farHits name = (s.farHits name).map n.declaration := by
  have apart {x y z : Declaration} (one : (some ∘ n.declaration) x = some z)
      (other : (some ∘ n.declaration) y = some z) : x = y :=
    n.declaration_injective (Option.some.inj (one.trans other.symm))
  unfold Scope.farHits
  rw [← filterMap_eq_map, ← eraseDups_filterMap apart, alike.farSpaces,
    filterMap_map, filterMap_eq_map, map_filterMap]
  congr 2
  funext ref
  exact alike.lookup_spaceRef ref name

/-- A bare name that stands for one thing stands for the same thing. -/
theorem resolve_found {name : String} {d : Declaration}
    (found : s.resolve name = .found d) : s'.resolve name = .found (n.declaration d) := by
  have access : s'.isAccessible ∘ n.declaration = s.isAccessible := funext (alike.isAccessible)
  simp only [resolve, memberHits_eq_nil alike.outside, memberHits_eq_nil alike.outside',
    nil_append, alike.spaceHits, alike.farHits, find?_map,
    filter_map, access] at found ⊢
  cases near : (s.spaceHits name).find? s.isAccessible with
  | some hit =>
    rw [near] at found
    cases found
    rfl
  | none =>
    rw [near] at found
    cases far : (s.farHits name).filter s.isAccessible with
    | nil =>
      rw [far] at found
      dsimp only at found
      split at found <;> cases found
    | cons first rest =>
      rw [far] at found
      cases rest with
      | nil =>
        cases found
        rfl
      | cons => cases found

theorem find (span : Span) : Noted.Follows (fun x x' => x' = x.map n.declaration) (s.find name span)
      (s'.find name span) := by
  intro quiet
  simp only [Scope.find, Noted.notes_bind, Noted.notes_pure, append_nil] at quiet ⊢
  cases resolved : s.resolve name with
  | found d =>
    rw [alike.resolve_found resolved]
    exact ⟨rfl, rfl⟩
  | equivocal | hidden | absent => simp [resolved, reportResolution] at quiet

/-! ### Spaces -/

theorem child_spaceRef (ref : SpaceRef) (name : String) :
    ((s'.catalog.table? ref.home).bind fun t => t.childSpace (n.spaceRef ref).space name) =
      ((s.catalog.table? ref.home).bind fun t => t.childSpace ref.space name).map
        (n.within ref.home).spaces :=
  alike.catalog.bind_table ref.home fun _ _ related => related.child ref.space name

theorem nearHead_map : s'.nearHead name = (s.nearHead name).map n.spaceRef := by
  have own := alike.catalog.own
  have chain := own.spaceChain s.space
  simp at chain
  unfold nearHead
  rw [alike.space, chain, findSome?_map, map_findSome?]
  congr 1
  funext space
  have child := own.child space name
  simp at child
  simp only [Function.comp_apply, child, Option.map_map]
  rfl

theorem importedHead_map : s'.importedHead name = (s.importedHead name).map n.spaceRef := by
  unfold importedHead
  rw [alike.imports, findSome?_map, map_findSome?]
  congr 1
  funext ref
  simp only [Function.comp_apply, Option.map_map]
  rw [show (n.spaceRef ref).home = ref.home from rfl, alike.child_spaceRef, Option.map_map]
  rfl

theorem farHead_map : farHead s'.catalog name = (farHead s.catalog name).map n.spaceRef := by
  have same : farHead s'.catalog name = farHead s.catalog name := by
    unfold farHead Catalog.relyNamed?
    rw [alike.catalog.relies]
  rw [same]
  cases found : farHead s.catalog name with
  | none => rfl
  | some ref =>
    have elsewhere := home_of_farHead alike.catalog.away found
    exact congrArg some (n.spaceRef_of_home_ne elsewhere).symm

theorem spaceHead : s'.spaceHead name = (s.spaceHead name).map n.spaceRef := by
  rw [spaceHead_eq, spaceHead_eq, alike.nearHead_map, alike.importedHead_map, alike.farHead_map]
  cases s.nearHead name with
  | some ref => rfl
  | none => cases s.importedHead name <;> rfl

theorem descend (ref : SpaceRef) (path : List String) :
    s'.descend (n.spaceRef ref) path = (s.descend ref path).map n.spaceRef := by
  induction path generalizing ref with
  | nil => rfl
  | cons name rest ih =>
    rw [Scope.descend, Scope.descend, show (n.spaceRef ref).home = ref.home from rfl,
      alike.child_spaceRef ref name]
    cases (s.catalog.table? ref.home).bind fun t => t.childSpace ref.space name with
    | none => rfl
    | some child => exact ih ⟨ref.home, child⟩

theorem findSpace (path : List String) : s'.findSpace path = (s.findSpace path).map n.spaceRef := by
  cases path with
  | nil => rfl
  | cons head rest =>
    rw [Scope.findSpace, Scope.findSpace, alike.spaceHead]
    cases s.spaceHead head with
    | none => rfl
    | some ref => exact alike.descend ref rest

/-! ### Paths and types -/

/-- A path that is found is found. -/
theorem findPath (path : List String) (span : Span) :
    Noted.Follows (fun x x' => x' = x.map n.declaration) (s.findPath path span)
      (s'.findPath path span) := by
  unfold Scope.findPath
  cases path.getLast? with
  | none => exact .pure rfl
  | some name =>
    dsimp only
    split
    · exact alike.find name span
    · rw [alike.findSpace]
      cases s.findSpace path.dropLast with
      | none => exact fun quiet => by simp at quiet
      | some ref =>
        simp
        rw [show (n.spaceRef ref).home = ref.home from rfl, alike.lookup_spaceRef]
        cases (s.catalog.table? ref.home).bind fun t => t.lookup ref.space name with
        | none => exact fun quiet => by simp at quiet
        | some d =>
          simp only [Option.map_some, alike.isAccessible]
          split
          · exact .pure rfl
          · exact fun quiet => by simp at quiet

theorem findType (e : TypeExpr) :
    Noted.Follows (fun x x' => x' = x.map n.ref) (s.findType e) (s'.findType e) := by
  refine .bind (alike.findPath e.path e.span) ?_
  rintro (_ | d) _ rfl
  · exact .pure rfl
  · simp only [Option.map_some, alike.catalog.declaredType]
    cases s.catalog.declaredType d with
    | none => exact fun quiet => by simp at quiet
    | some id => exact .pure rfl

end

end Scope.Alike

end Linkage
