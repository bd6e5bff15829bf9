/-
Purpose: Which declaration a bare name stands for and what is reported about it, and that a type
  expression that is resolved names a type that exists.
-/
import Linkage.Proofs.Noted
import Linkage.Proofs.Table.Skeleton
import Linkage.Scope.Search

namespace Linkage.Scope

open List

variable {s : Scope} {name : String} {d : Declaration}

/-! ### Parts of the search -/

theorem isVisible_overload (s : Scope) (d : Declaration) (v : Visibility) (i : Nat) :
    ((d.overload? i).any fun o => s.isVisible { o with visibility := v }) =
      (d.overload? 0).any fun o => s.isVisible { o with visibility := v } := by
  obtain ⟨home, v', e⟩ := d
  cases e <;> rfl

/-- A method may be referred to if one of its functions may be seen. -/
theorem isAccessible_eq_any (isMethod : d.entity.isMethod = true) :
    s.isAccessible d = ((s.catalog.overloads d).getD []).any fun f =>
      (d.overload? 0).any fun o => s.isVisible { o with visibility := f.visibility } := by
  unfold isAccessible
  rw [if_pos isMethod]
  generalize (s.catalog.overloads d).getD [] = fs
  simp only [isVisible_overload]
  have plain := any_map (f := Prod.fst) (l := fs.zipIdx) (p := fun f : Function =>
    (d.overload? 0).any fun o => s.isVisible { o with visibility := f.visibility })
  rw [zipIdx_map_fst] at plain
  exact plain.symm

theorem memberHits_eq_nil (outside : s.type = none) (name : String) : s.memberHits name = [] := by
  unfold memberHits typeChain
  rw [outside]
  rfl

/-- What a name stands for near by: the member of that name of the first type of the chain whose
member may be referred to, or else what the innermost space declares that declares such a thing. -/
def nearby (s : Scope) (name : String) : Option Declaration :=
  (s.typeChain.findSome? fun owner => (s.catalog.findMember owner name).filter s.isAccessible) <|>
    (s.catalog.own.spaceChain s.space).findSome? fun space =>
      (s.catalog.own.lookup space name).filter s.isAccessible

/-- What a name may stand for far away, each thing once: what is declared under it in the root of
the kernel, in the imported spaces and in the roots of the rely libraries, and may be referred
to. -/
def choices (s : Scope) (name : String) : List Declaration :=
  ((s.farSpaces.filterMap fun ref => (s.catalog.table? ref.home).bind fun t =>
    t.lookup ref.space name).filter s.isAccessible).eraseDups

/-- A declaration stands where a name is searched, whether it may be referred to or not. -/
inductive Meets (s : Scope) (name : String) (d : Declaration) : Prop
  | member {owner : TypeId} (inChain : owner ∈ s.typeChain)
      (named : s.catalog.findMember owner name = some d)
  | around {space : Nat} (encloses : space ∈ s.catalog.own.spaceChain s.space)
      (named : s.catalog.own.lookup space name = some d)
  | far {ref : SpaceRef} {t : Table} (searched : ref ∈ s.farSpaces)
      (table : s.catalog.table? ref.home = some t) (named : t.lookup ref.space name = some d)

/-! ### The three steps -/

theorem find?_filterMap_eq_findSome? {α β : Type} (f : α → Option β) (p : β → Bool)
    (xs : List α) : (xs.filterMap f).find? p = xs.findSome? fun a => (f a).filter p := by
  induction xs with
  | nil => rfl
  | cons a rest ih =>
    cases image : f a with
    | none => simp [image, ih]
    | some b => by_cases holds : p b <;> simp [image, Option.filter, holds, ih]

theorem find?_near (s : Scope) (name : String) :
    (s.memberHits name ++ s.spaceHits name).find? s.isAccessible = s.nearby name := by
  rw [find?_append, memberHits, spaceHits, find?_filterMap_eq_findSome?,
    find?_filterMap_eq_findSome?, nearby, Option.orElse_eq_orElse, Option.orElse_eq_or]

theorem filter_farHits (s : Scope) (name : String) :
    (s.farHits name).filter s.isAccessible = s.choices name := by
  rw [choices, ← filterMap_eq_filter]
  refine (eraseDups_filterMap ?_ _).symm
  intro x y z atX atY
  rw [Option.guard_eq_some_iff] at atX atY
  exact atX.1.trans atY.1.symm

theorem meets_iff :
    s.Meets name d ↔ d ∈ s.memberHits name ++ s.spaceHits name ++ s.farHits name := by
  simp only [mem_append, memberHits, spaceHits, farHits, mem_eraseDups,
    mem_filterMap, Option.bind_eq_some_iff]
  constructor
  · rintro (⟨inChain, named⟩ | ⟨encloses, named⟩ | ⟨searched, table, named⟩)
    · exact .inl (.inl ⟨_, inChain, named⟩)
    · exact .inl (.inr ⟨_, encloses, named⟩)
    · exact .inr ⟨_, searched, _, table, named⟩
  · rintro ((⟨_, inChain, named⟩ | ⟨_, encloses, named⟩) | ⟨_, searched, _, table, named⟩)
    · exact .member inChain named
    · exact .around encloses named
    · exact .far searched table named

theorem resolve_of_nearby (near : s.nearby name = some d) : s.resolve name = .found d := by
  simp only [resolve, find?_near, near]

theorem resolve_of_choice (near : s.nearby name = none)
    (only : s.choices name = [d]) : s.resolve name = .found d := by
  simp only [resolve, find?_near, near, filter_farHits, only]

theorem resolve_of_choices {first second : Declaration} {others : List Declaration}
    (near : s.nearby name = none) (several : s.choices name = first :: second :: others) :
    s.resolve name = .equivocal first second others := by
  simp only [resolve, find?_near, near, filter_farHits, several]

theorem resolve_of_hidden (near : s.nearby name = none) (none : s.choices name = [])
    (met : s.Meets name d) : ∃ d', s.resolve name = .hidden d' := by
  obtain ⟨d', first⟩ : ∃ d',
      (s.memberHits name ++ s.spaceHits name ++ s.farHits name).head? = some d' := by
    cases hits : s.memberHits name ++ s.spaceHits name ++ s.farHits name with
    | nil => simpa [hits] using meets_iff.1 met
    | cons d' others => exact ⟨d', rfl⟩
  exact ⟨d', by simp only [resolve, find?_near, near, filter_farHits, none, first]⟩

theorem resolve_of_absent (absent : ∀ d, ¬s.Meets name d) : s.resolve name = .absent := by
  have noHits : s.memberHits name ++ s.spaceHits name ++ s.farHits name = [] :=
    eq_nil_iff_forall_not_mem.2 fun d member => absent d (meets_iff.2 member)
  obtain ⟨near, far⟩ := append_eq_nil_iff.1 noHits
  simp only [resolve, near, far, find?_nil, filter_nil, append_nil, head?_nil]

/-! ### What is taken, and what is reported -/

theorem find_of_resolve {r : Resolution} (resolves : s.resolve name = r) (span : Span) :
    s.find name span = ⟨r.declaration?, (s.reportResolution name span r).notes⟩ := by
  subst resolves
  exact Noted.ext rfl (append_nil _)

theorem value_find (s : Scope) (name : String) (span : Span) :
    (s.find name span).value = (s.nearby name <|> (s.choices name).head?) := by
  cases near : s.nearby name with
  | some d => rw [find_of_resolve (resolve_of_nearby near)]; rfl
  | none =>
    cases choices : s.choices name with
    | cons first others =>
      cases others with
      | nil => rw [find_of_resolve (resolve_of_choice near choices)]; rfl
      | cons second others => rw [find_of_resolve (resolve_of_choices near choices)]; rfl
    | nil =>
      by_cases met : ∃ d, s.Meets name d
      · obtain ⟨d, met⟩ := met
        obtain ⟨d', hidden⟩ := resolve_of_hidden near choices met
        rw [find_of_resolve hidden]
        rfl
      · rw [find_of_resolve (resolve_of_absent fun d => not_exists.1 met d)]
        rfl

theorem value_findPath (s : Scope) (path : List String) (span : Span) :
    (s.findPath path span).value = path.getLast?.bind fun name =>
      if path.dropLast.isEmpty then (s.find name span).value
      else (s.findSpace path.dropLast).bind fun ref => ((s.catalog.table? ref.home).bind fun t =>
        t.lookup ref.space name).filter s.isAccessible := by
  unfold findPath
  cases path.getLast? with
  | none => rfl
  | some name =>
    dsimp only [Option.bind_some]
    split
    · rfl
    · cases s.findSpace path.dropLast with
      | none => rfl
      | some ref =>
        dsimp only [Option.bind_some]
        cases (s.catalog.table? ref.home).bind fun t => t.lookup ref.space name with
        | none => rfl
        | some d =>
          rw [Option.filter_some]
          dsimp only
          split <;> rfl

theorem value_findType (s : Scope) (e : TypeExpr) :
    (s.findType e).value = (s.findPath e.path e.span).value.bind fun d =>
      (s.catalog.declaredType d).map fun id => ⟨id, e.dimension⟩ := by
  unfold findType
  rw [Noted.value_bind]
  cases (s.findPath e.path e.span).value with
  | none => rfl
  | some d =>
    dsimp only [Option.bind_some]
    cases s.catalog.declaredType d <;> rfl

/-- What is taken was met. -/
theorem meets_of_find {span : Span}
    (taken : (s.find name span).value = some d) : s.Meets name d := by
  rw [value_find, ← find?_near, ← filter_farHits] at taken
  rw [meets_iff, mem_append]
  cases near : (s.memberHits name ++ s.spaceHits name).find? s.isAccessible with
  | some d' =>
    rw [near] at taken
    cases taken
    exact .inl (mem_of_find?_eq_some near)
  | none =>
    rw [near] at taken
    exact .inr (mem_filter.1 (mem_of_head? taken)).1

end Linkage.Scope

/-! ### Types that exist -/

namespace Linkage

variable {d : Declaration} {id : TypeId}

/-- The table stands at a place, its classes are of a kind that classes have, and its names
lead to entries of it that bear them. -/
structure Table.Sound (place : Home) (t : Table) : Prop where
  home : t.home = place
  kinds : ∀ c ∈ t.classes, c.kind.isDefinition = true
  names : ∀ {key d}, t.find key = some d → d.home = place ∧ t.entryAt d.entity = some key

namespace Catalog

/-- There is a type of this name. -/
def HasType (c : Catalog) (id : TypeId) : Prop :=
  ∃ t, c.table? id.home = some t ∧ t.HasType id.kind id.index

/-- All tables of the catalog are sound. -/
def Sound (c : Catalog) : Prop := ∀ {home t}, c.table? home = some t → t.Sound home

/-- Something is declared under some name in some table. -/
def Declares (c : Catalog) (d : Declaration) : Prop :=
  ∃ home t key, c.table? home = some t ∧ t.find key = some d

end Catalog

/-! ### The kernel -/

/-- The kernel declares its types, functions and constants under their names. -/
theorem Kernel.sound_table : Kernel.table.Sound .kernel where
  home := rfl
  kinds := by decide
  names := by
    have entries : ∀ entry ∈ Kernel.root.declarations.entries, entry.2.home = .kernel ∧
        Kernel.table.entryAt entry.2.entity = some (Table.rootSpace, entry.1) := by decide
    rintro ⟨space, name⟩ d found
    obtain ⟨s, inside, declared⟩ := Option.bind_eq_some_iff.1 found
    obtain ⟨bound, rfl⟩ := getElem?_eq_some_iff.1 inside
    obtain rfl : space = Table.rootSpace := Nat.lt_one_iff.1 bound
    exact entries (name, d) (NameMap.mem_entries_of_find? declared)

/-! ### Declared types -/

/-- A type that an entry of a table declares is a type of the table. -/
theorem Table.Sound.hasType {place : Home} {t : Table} (sound : t.Sound place)
    {key : Nat × String} (stands : t.entryAt d.entity = some key)
    (isType : t.declaredType d = some id) : id.home = place ∧ t.HasType id.kind id.index := by
  rw [← sound.home]
  unfold declaredType at isType
  cases kind : d.entity with
  | classDef i =>
    rw [kind] at isType
    obtain ⟨c, found, rfl⟩ := Option.map_eq_some_iff.1 isType
    refine ⟨rfl, ?_, ?_⟩
    · have inside := lt_of_getElem? found
      have definition := sound.kinds c (List.mem_of_getElem? found)
      cases isKind : c.kind with
      | struct | handle => exact inside
      | _ => rw [isKind] at definition; cases definition
    · intro _ c' found'
      rw [found] at found'
      cases found'
      rfl
  | interface i | delegate i | coroutine i =>
    rw [kind] at isType stands
    cases isType
    obtain ⟨x, found, _⟩ := Option.map_eq_some_iff.1 stands
    exact ⟨rfl, (lt_of_getElem? found), by simp [TypeKind.isDefinition]⟩
  | _ => rw [kind] at isType; cases isType

/-- What a declaration declares as a type is a type of the catalog. -/
theorem Catalog.Declares.hasType {c : Catalog} (sound : c.Sound) (declared : c.Declares d)
    (isType : c.declaredType d = some id) : c.HasType id := by
  obtain ⟨home, t, key, atHome, found⟩ := declared
  obtain ⟨here, stands⟩ := (sound atHome).names found
  obtain ⟨t', atHome', isType'⟩ := Option.bind_eq_some_iff.1 isType
  rw [here, atHome] at atHome'
  cases atHome'
  obtain ⟨place, has⟩ := (sound atHome).hasType stands isType'
  exact ⟨t, place ▸ atHome, has⟩

/-! ### Searching

Outside of types there are no members in scope, so everything that is found was declared in a
space of some table. -/

namespace Scope

variable {s : Scope}

/-- What is met outside of types is declared in a space. -/
theorem Meets.declares (outside : s.type = none) {name : String}
    (met : s.Meets name d) : s.catalog.Declares d := by
  cases met with
  | member inChain =>
    rw [typeChain, outside] at inChain
    cases inChain
  | @around space _ named => exact ⟨.here, s.catalog.own, (space, name), rfl, named⟩
  | @far ref t _ table named => exact ⟨ref.home, t, (ref.space, name), table, named⟩

/-- A dotted path that is taken to mean something was declared in a space. -/
theorem declares_of_findPath (outside : s.type = none) {path : List String} {span : Span}
    (taken : (s.findPath path span).value = some d) : s.catalog.Declares d := by
  rw [value_findPath] at taken
  obtain ⟨name, _, taken⟩ := Option.bind_eq_some_iff.1 taken
  split at taken
  · exact (meets_of_find taken).declares outside
  · obtain ⟨ref, _, taken⟩ := Option.bind_eq_some_iff.1 taken
    obtain ⟨found, _⟩ := Option.filter_eq_some_iff.1 taken
    obtain ⟨t, atHome, named⟩ := Option.bind_eq_some_iff.1 found
    exact ⟨ref.home, t, (ref.space, name), atHome, named⟩

theorem hasType_of_findType (sound : s.catalog.Sound) (outside : s.type = none) {e : TypeExpr}
    {type : TypeRef} (found : (s.findType e).value = some type) : s.catalog.HasType type.id := by
  rw [value_findType] at found
  obtain ⟨d, taken, found⟩ := Option.bind_eq_some_iff.1 found
  obtain ⟨id, isType, rfl⟩ := Option.map_eq_some_iff.1 found
  exact (declares_of_findPath outside taken).hasType sound isType

end Scope

end Linkage
