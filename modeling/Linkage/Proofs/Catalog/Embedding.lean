/-
Purpose: When one catalog stands inside another, inheritance and conversions are the same in
  both.
-/
import Linkage.Catalog.Conversion
import Linkage.Proofs.Walk

namespace Linkage

open List TypeRef Option

variable {c : Catalog} {x y : TypeId} {base sub : TypeRef}

/-- A type reference whose type is renamed. -/
def TypeRef.rename (φ : TypeId → TypeId) (x : TypeRef) : TypeRef := ⟨φ x.id, x.dimension⟩

@[simp] theorem TypeRef.id_rename (φ : TypeId → TypeId) (x : TypeRef) :
    (x.rename φ).id = φ x.id := rfl

@[simp] theorem TypeRef.isArray_rename (φ : TypeId → TypeId) (x : TypeRef) :
    (x.rename φ).isArray = x.isArray := rfl

/-! ### Links from type to type -/

/-- The types that a type of a table names in its inheritance: a class its parent and then its
interfaces, an interface its base interfaces. -/
def Table.links (t : Table) (kind : TypeKind) (index : Nat) : Option (List TypeRef) :=
  match kind with
  | .struct | .handle => t.classes[index]?.map fun c => c.parent :: c.interfaces
  | .interface => t.interfaces[index]?.map (·.inherits)
  | .invalid | .delegate | .coroutine => none

namespace Catalog

/-- The types that a type names in its inheritance. -/
def links (c : Catalog) (x : TypeId) : Option (List TypeRef) :=
  (c.table? x.home).bind fun t => t.links x.kind x.index

theorem links_of_isDefinition (definition : x.kind.isDefinition = true) :
    c.links x = (c.classDef? x).map fun d => d.parent :: d.interfaces := by
  unfold links classDef?
  rw [if_pos definition, map_bind]
  congr 1
  funext t
  cases kind : x.kind with
  | struct | handle => simp [Table.links]
  | _ =>
    rw [kind] at definition
    cases definition

theorem parent_eq_links (c : Catalog) (x : TypeId) : c.parent x = match x.kind with
      | .invalid => .invalid
      | .struct | .handle => ((c.links x).bind head?).getD .invalid
      | .interface => TypeId.interface.scalar
      | .delegate => TypeId.delegate.scalar
      | .coroutine => TypeId.coroutine.scalar := by
  unfold parent
  cases kind : x.kind with
  | struct | handle =>
    rw [links_of_isDefinition (by rw [kind]; rfl)]
    cases c.classDef? x <;> rfl
  | _ => rfl

theorem ownInterfaces_eq_links (c : Catalog) (x : TypeId) : c.ownInterfaces x =
      if x.kind = .interface then [x]
      else if x.kind.isDefinition then ((c.links x).map fun ls => scalarInterfaces ls.tail).getD []
      else [] := by
  unfold ownInterfaces
  split
  · rfl
  · split
    · rename_i definition
      rw [links_of_isDefinition definition, Option.map_map]
      rfl
    · rename_i other
      rw [classDef?, if_neg other]
      rfl

theorem baseInterfaces_eq_links (c : Catalog) (x : TypeId) : c.baseInterfaces x =
      if x.kind = .interface then ((c.links x).map scalarInterfaces).getD [] else [] := by
  unfold baseInterfaces interfaceDef? links
  split
  · rename_i kind
    rw [kind]
    cases c.table? x.home with
    | none => rfl
    | some t => simp [Table.links, Function.comp_def]
  · rfl

/-- A renaming of types that tells the types of a domain apart, keeps the kernel, and commutes
with every link from type to type without leaving the domain. -/
structure Embedding (φ : TypeId → TypeId) (D : TypeId → Prop) (c c' : Catalog) : Prop where
  injective : ∀ x y, D x → D y → φ x = φ y → x = y
  kind : ∀ x, (φ x).kind = x.kind
  kernel : ∀ kind index, φ ⟨.kernel, kind, index⟩ = ⟨.kernel, kind, index⟩
  kernelInside : ∀ kind index, D ⟨.kernel, kind, index⟩
  links : ∀ x, D x → c'.links (φ x) = (c.links x).map (map (rename φ))
  linksInside : ∀ x, D x → ∀ ls, c.links x = some ls → ∀ y ∈ ls, D y.id

/-! ### Where links lead -/

theorem mem_tables_of_table? {home : Home} {t : Table}
    (found : c.table? home = some t) : t ∈ c.tables := by
  cases home with
  | kernel =>
    cases found
    exact mem_cons_self ..
  | here =>
    cases found
    exact mem_cons_of_mem _ (mem_cons_self ..)
  | rely i => exact mem_cons_of_mem _ (mem_cons_of_mem _ (mem_of_getElem? found))

theorem classDef?_eq_some {d : ClassDef} :
    c.classDef? x = some d ↔ x.kind.isDefinition = true ∧
      ∃ t, c.table? x.home = some t ∧ t.classes[x.index]? = some d := by
  unfold classDef?
  split
  · rename_i definition
    simp [definition, bind_eq_some_iff]
  · rename_i other
    simp [other]

theorem interfaceDef?_eq_some {d : InterfaceDef} :
    c.interfaceDef? x = some d ↔ x.kind = .interface ∧
      ∃ t, c.table? x.home = some t ∧ t.interfaces[x.index]? = some d := by
  unfold interfaceDef?
  split
  · rename_i kind
    simp [kind, bind_eq_some_iff]
  · rename_i other
    simp [other]

/-- The next type on the way up is the parent of a class, or the root of another kind of
types. -/
theorem nextParent_cases (next : c.nextParent x = some y) :
    y.isValid = true ∧ ((∃ d, c.classDef? x = some d ∧ d.parent.id = y) ∨
      x.kind.isDefinition = false ∧
        (y = TypeId.interface ∨ y = TypeId.delegate ∨ y = TypeId.coroutine)) := by
  simp only [nextParent, ite_none_right_eq_some, some.injEq] at next
  obtain ⟨valid, rfl⟩ := next
  refine ⟨valid, ?_⟩
  unfold parent at valid ⊢
  cases kind : x.kind with
  | invalid =>
    rw [kind] at valid
    cases valid
  | struct | handle =>
    rw [kind] at valid
    cases isClass : c.classDef? x with
    | none =>
      rw [isClass] at valid
      cases valid
    | some d => exact .inl ⟨d, rfl, rfl⟩
  | interface => exact .inr ⟨rfl, .inl rfl⟩
  | delegate => exact .inr ⟨rfl, .inr (.inl rfl)⟩
  | coroutine => exact .inr ⟨rfl, .inr (.inr rfl)⟩

theorem mem_parents_of_nextParent (next : c.nextParent x = some y) : y ∈ c.parents := by
  obtain ⟨_, ⟨d, isClass, rfl⟩ | ⟨_, isRoot⟩⟩ := nextParent_cases next
  · obtain ⟨_, t, atHome, inside⟩ := classDef?_eq_some.1 isClass
    refine mem_append_right _ (mem_flatMap.2 ⟨t, mem_tables_of_table? atHome, ?_⟩)
    exact mem_map.2 ⟨d, mem_of_getElem? inside, rfl⟩
  · exact mem_append_left _ (by simpa using isRoot)

/-- A base interface is inherited by somebody. -/
theorem mem_inherited_of_mem_baseInterfaces (base : y ∈ c.baseInterfaces x) : y ∈ c.inherited := by
  unfold baseInterfaces at base
  cases found : c.interfaceDef? x with
  | none =>
    rw [found] at base
    cases base
  | some i =>
    rw [found] at base
    obtain ⟨type, inherits, isBase⟩ := mem_filterMap.1 base
    simp at isBase
    obtain ⟨_, rfl⟩ := isBase
    obtain ⟨_, t, atHome, inside⟩ := interfaceDef?_eq_some.1 found
    refine mem_flatMap.2 ⟨t, mem_tables_of_table? atHome, ?_⟩
    refine mem_flatMap.2 ⟨i, mem_of_getElem? inside, ?_⟩
    exact mem_map.2 ⟨type, inherits, rfl⟩

namespace Embedding

variable {φ : TypeId → TypeId} {D : TypeId → Prop} {c c' : Catalog} (embedding : Embedding φ D c c')
  {start : List TypeId}

include embedding

/-! ### Following links -/

theorem parent (inside : D x) : (c'.parent (φ x)).id = φ (c.parent x).id := by
  have roots (kind : TypeKind) (index : Nat) :
      (⟨.kernel, kind, index⟩ : TypeId) = φ ⟨.kernel, kind, index⟩ :=
    (embedding.kernel kind index).symm
  have ofLinks : (((c'.links (φ x)).bind head?).getD invalid).id =
      φ (((c.links x).bind head?).getD invalid).id := by
    rw [embedding.links x inside]
    cases c.links x with
    | none => exact roots .invalid 0
    | some ls =>
      cases ls with
      | nil => exact roots .invalid 0
      | cons first rest => rfl
  rw [parent_eq_links, parent_eq_links, embedding.kind]
  cases x.kind with
  | invalid => exact roots .invalid 0
  | struct | handle => exact ofLinks
  | interface => exact roots .handle 11
  | delegate => exact roots .handle 12
  | coroutine => exact roots .handle 13

theorem parent_inside (inside : D x) : D (c.parent x).id := by
  have ofLinks : D (((c.links x).bind head?).getD invalid).id := by
    cases found : c.links x with
    | none => exact embedding.kernelInside .invalid 0
    | some ls =>
      cases ls with
      | nil => exact embedding.kernelInside .invalid 0
      | cons first rest =>
        exact embedding.linksInside x inside _ found first (mem_cons_self ..)
  rw [parent_eq_links]
  cases x.kind with
  | invalid => exact embedding.kernelInside .invalid 0
  | struct | handle => exact ofLinks
  | interface => exact embedding.kernelInside .handle 11
  | delegate => exact embedding.kernelInside .handle 12
  | coroutine => exact embedding.kernelInside .handle 13

theorem scalarInterfaces_rename (types : List TypeRef) :
    scalarInterfaces (types.map (rename φ)) = (scalarInterfaces types).map φ := by
  unfold scalarInterfaces
  rw [filterMap_map, map_filterMap]
  congr 1
  funext type
  simp only [Function.comp_apply, isArray_rename, id_rename, embedding.kind]
  by_cases named : type.isArray = false ∧ type.id.kind = .interface
  · rw [if_pos named, if_pos named]
    rfl
  · rw [if_neg named, if_neg named]
    rfl

omit embedding in
theorem inside_of_mem_scalarInterfaces {types : List TypeRef} (inside : ∀ y ∈ types, D y.id)
    {i : TypeId} (member : i ∈ scalarInterfaces types) : D i := by
  obtain ⟨type, named, same⟩ := mem_filterMap.1 member
  simp at same
  exact same.2 ▸ inside type named

section

variable {x : TypeId} (inside : D x)
include inside

theorem ownInterfaces : c'.ownInterfaces (φ x) = (c.ownInterfaces x).map φ := by
  rw [ownInterfaces_eq_links, ownInterfaces_eq_links, embedding.kind, embedding.links x inside]
  split
  · rfl
  · split
    · cases c.links x with
      | none => rfl
      | some ls =>
        simp only [map_some, getD_some, ← map_tail]
        exact embedding.scalarInterfaces_rename ls.tail
    · rfl

theorem ownInterfaces_inside : ∀ i ∈ c.ownInterfaces x, D i := by
  rw [ownInterfaces_eq_links]
  split
  · exact forall_mem_singleton.2 inside
  · split
    · cases found : c.links x with
      | none => exact forall_mem_nil _
      | some ls =>
        intro i member
        refine inside_of_mem_scalarInterfaces (fun y named => ?_) member
        exact embedding.linksInside x inside ls found y (mem_of_mem_tail named)
    · exact forall_mem_nil _

theorem baseInterfaces : c'.baseInterfaces (φ x) = (c.baseInterfaces x).map φ := by
  rw [baseInterfaces_eq_links, baseInterfaces_eq_links, embedding.kind, embedding.links x inside]
  split
  · cases c.links x with
    | none => rfl
    | some ls => exact embedding.scalarInterfaces_rename ls
  · rfl

theorem baseInterfaces_inside : ∀ i ∈ c.baseInterfaces x, D i := by
  rw [baseInterfaces_eq_links]
  split
  · cases found : c.links x with
    | none => exact forall_mem_nil _
    | some ls =>
      intro i member
      exact inside_of_mem_scalarInterfaces (embedding.linksInside x inside ls found) member
  · exact forall_mem_nil _

end

/-! ### Going up -/

theorem isValid (x : TypeId) : (φ x).isValid = x.isValid := by
  rw [TypeId.isValid, TypeId.isValid, embedding.kind]

theorem nextParent (inside : D x) : c'.nextParent (φ x) = (c.nextParent x).map φ := by
  simp only [Catalog.nextParent, embedding.parent inside, embedding.isValid]
  split <;> rfl

theorem nextParent_inside (inside : D x) (next : c.nextParent x = some y) : D y := by
  simp only [Catalog.nextParent, ite_none_right_eq_some, Option.some.injEq] at next
  exact next.2 ▸ embedding.parent_inside inside

/-- The chain above a type is carried over. -/
theorem typeChain (inside : D x) : c'.typeChain (φ x) = (c.typeChain x).map φ := by
  unfold Catalog.typeChain
  rw [embedding.isValid]
  split
  · -- The walks meet only types that are in both rooms.
    refine Walk.chain_map (D := fun y => D y ∧ y ∈ x :: c.parents ∧ φ y ∈ φ x :: c'.parents)
      (fun y met => embedding.nextParent met.1) ?_
      ⟨fun y z one other => embedding.injective y z one.1 other.1,
        fun y met => ⟨fun _ => met.2.1, fun _ => met.2.2⟩⟩
      ⟨inside, mem_cons_self .., mem_cons_self ..⟩
    intro y z met next
    have next' : c'.nextParent (φ y) = some (φ z) := by
      rw [embedding.nextParent met.1, next]
      rfl
    exact ⟨embedding.nextParent_inside met.1 next,
      mem_cons_of_mem _ (mem_parents_of_nextParent next),
      mem_cons_of_mem _ (mem_parents_of_nextParent next')⟩
  · rfl

theorem typeChain_inside (inside : D x) : ∀ y ∈ c.typeChain x, D y := by
  unfold Catalog.typeChain
  split
  · exact Walk.forall_mem_chain (fun y z met next => embedding.nextParent_inside met next) inside
  · exact forall_mem_nil _

/-! ### Interfaces -/

/-- The interfaces that can be reached are carried over, with their distances. -/
theorem interfaceLevels (inside : ∀ i ∈ start, D i) : c'.interfaceLevels (start.map φ) =
      (c.interfaceLevels start).map fun entry => (φ entry.1, entry.2) := by
  unfold Catalog.interfaceLevels
  have queue : (start.map φ).map (fun id => (id, 0)) =
      (start.map fun id => (id, 0)).map fun entry => (φ entry.1, entry.2) := by
    simp [Function.comp_def]
  rw [queue]
  refine Walk.levels_map
    (D := fun y => D y ∧ y ∈ start ++ c.inherited ∧ φ y ∈ start.map φ ++ c'.inherited)
    (fun y met => embedding.baseInterfaces met.1) ?_
    ⟨fun y z one other => embedding.injective y z one.1 other.1,
      fun y met => ⟨fun _ => met.2.1, fun _ => met.2.2⟩⟩ ?_
  · intro y met z base
    have base' : φ z ∈ c'.baseInterfaces (φ y) := by
      rw [embedding.baseInterfaces met.1]
      exact mem_map_of_mem base
    exact ⟨embedding.baseInterfaces_inside met.1 z base,
      mem_append_right _ (mem_inherited_of_mem_baseInterfaces base),
      mem_append_right _ (mem_inherited_of_mem_baseInterfaces base')⟩
  · intro entry member
    obtain ⟨i, named, rfl⟩ := mem_map.1 member
    exact ⟨inside i named, mem_append_left _ named,
      mem_append_left _ (mem_map_of_mem named)⟩

theorem interfaceLevels_inside (inside : ∀ i ∈ start, D i) :
    ∀ entry ∈ c.interfaceLevels start, D entry.1 := by
  refine Walk.forall_mem_levels (fun y met => embedding.baseInterfaces_inside met) ?_
  intro entry member
  obtain ⟨i, named, rfl⟩ := mem_map.1 member
  exact inside i named

omit embedding in
theorem lookup_rename (injective : ∀ x y, D x → D y → φ x = φ y → x = y)
    {entries : List (TypeId × Nat)} (inside : ∀ entry ∈ entries, D entry.1) {key : TypeId}
    (keyInside : D key) :
    (entries.map fun entry => (φ entry.1, entry.2)).lookup (φ key) = entries.lookup key := by
  induction entries with
  | nil => rfl
  | cons entry rest ih =>
    rw [forall_mem_cons] at inside
    have test : (φ key == φ entry.1) = (key == entry.1) := by
      rw [Bool.eq_iff_iff, beq_iff_eq, beq_iff_eq]
      exact ⟨injective key entry.1 keyInside inside.1, congrArg φ⟩
    rw [map_cons, lookup_cons, lookup_cons, ih inside.2, test]

theorem interfaceDepth {base : TypeId} (baseInside : D base) (inside : ∀ i ∈ start, D i) :
    c'.interfaceDepth (φ base) (start.map φ) = c.interfaceDepth base start := by
  unfold Catalog.interfaceDepth
  rw [embedding.interfaceLevels inside]
  exact lookup_rename embedding.injective (embedding.interfaceLevels_inside inside) baseInside

/-! ### Depths and costs -/

theorem eq_iff (one : D x) (other : D y) : φ x = φ y ↔ x = y :=
  ⟨embedding.injective x y one other, congrArg φ⟩

theorem chainDepth {base : TypeId} (baseInside : D base) {ids : List TypeId}
    (inside : ∀ x ∈ ids, D x) : c'.chainDepth (φ base) (ids.map φ) = c.chainDepth base ids := by
  induction ids with
  | nil => rfl
  | cons x above ih =>
    rw [forall_mem_cons] at inside
    rw [map_cons, Catalog.chainDepth, Catalog.chainDepth, ih inside.2,
      embedding.ownInterfaces inside.1,
      embedding.interfaceDepth baseInside (embedding.ownInterfaces_inside inside.1),
      embedding.kind, embedding.kind]
    simp only [embedding.eq_iff inside.1 baseInside]

omit embedding in
theorem isReference_rename (kind : ∀ x, (φ x).kind = x.kind) (x : TypeRef) :
    (x.rename φ).isReference = x.isReference := by
  simp only [isReference, isArray_rename, id_rename, kind]

theorem rename_eq_kernel {x : TypeRef} (inside : D x.id) (kind : TypeKind) (index dimension : Nat) :
    x.rename φ = ⟨⟨.kernel, kind, index⟩, dimension⟩ ↔ x = ⟨⟨.kernel, kind, index⟩, dimension⟩ := by
  obtain ⟨id, dimension'⟩ := x
  have ids := embedding.eq_iff inside (embedding.kernelInside kind index)
  rw [embedding.kernel] at ids
  simp only [rename, TypeRef.mk.injEq, ids]

theorem rename_eq_rename {x y : TypeRef} (one : D x.id) (other : D y.id) :
    x.rename φ = y.rename φ ↔ x = y := by
  obtain ⟨id, dimension⟩ := x
  obtain ⟨id', dimension'⟩ := y
  simp only [rename, TypeRef.mk.injEq, embedding.eq_iff one other]

/-- The steps up to a type are the same for the images. -/
theorem inheritDepth (baseInside : D base.id) (subInside : D sub.id) :
    c'.inheritDepth (base.rename φ) (sub.rename φ) = c.inheritDepth base sub := by
  have valid (x : TypeRef) : (x.rename φ).isValid = x.isValid := embedding.isValid x.id
  have isArray : base.rename φ = TypeId.array.scalar ↔ base = TypeId.array.scalar :=
    embedding.rename_eq_kernel baseInside .handle 14 0
  have isHandle : base.rename φ = TypeId.handle.scalar ↔ base = TypeId.handle.scalar :=
    embedding.rename_eq_kernel baseInside .handle 10 0
  have isRoot : φ base.id = TypeId.handle ↔ base.id = TypeId.handle := by
    have root := embedding.eq_iff baseInside (embedding.kernelInside .handle 10)
    rwa [embedding.kernel] at root
  have isParent : φ base.id = (c'.parent (φ sub.id)).id ↔ base.id = (c.parent sub.id).id := by
    rw [embedding.parent subInside]
    exact embedding.eq_iff baseInside (embedding.parent_inside subInside)
  have depth : c'.chainDepth (φ base.id) (c'.typeChain (φ sub.id)) =
      c.chainDepth base.id (c.typeChain sub.id) := by
    rw [embedding.typeChain subInside]
    exact embedding.chainDepth baseInside (embedding.typeChain_inside subInside)
  have interfaces : c'.interfaceDepth (φ base.id) [φ sub.id] = c.interfaceDepth base.id [sub.id] :=
    embedding.interfaceDepth baseInside (forall_mem_singleton.2 subInside)
  unfold Catalog.inheritDepth
  simp only [valid, isArray_rename, embedding.rename_eq_rename baseInside subInside,
    isArray,
    isHandle]
  simp only [id_rename, embedding.kind, isRoot, isParent, depth, interfaces]

/-- Widening is a matter of the kernel alone. -/
theorem wideningCost {source target : TypeId} (sourceInside : D source) (targetInside : D target) :
    wideningCost (φ source) (φ target) = wideningCost source target := by
  have kernels : ∀ w ∈ widenings, w.1.home = .kernel ∧ w.2.1.home = .kernel := by decide
  have same {x y : TypeId} (kernel : x.home = .kernel) (inside : D y) : x = φ y ↔ x = y := by
    obtain ⟨home, kind, index⟩ := x
    obtain rfl : home = .kernel := kernel
    have ids := embedding.eq_iff (embedding.kernelInside kind index) inside
    rwa [embedding.kernel] at ids
  unfold Linkage.wideningCost
  rw [← head?_filter, ← head?_filter]
  congr 2
  apply filter_congr
  intro w member
  simp only [same (kernels w member).1 sourceInside, same (kernels w member).2 targetInside]

theorem conversionCost (baseInside : D base.id) (subInside : D sub.id) :
    c'.conversionCost (base.rename φ) (sub.rename φ) = c.conversionCost base sub := by
  have valid (x : TypeRef) : (x.rename φ).isValid = x.isValid := embedding.isValid x.id
  have isNull : sub.rename φ = TypeId.null.scalar ↔ sub = TypeId.null.scalar :=
    embedding.rename_eq_kernel subInside .handle 15 0
  have widening : Linkage.wideningCost (sub.rename φ).id (base.rename φ).id =
      Linkage.wideningCost sub.id base.id := embedding.wideningCost subInside baseInside
  unfold Catalog.conversionCost
  simp only [valid, isArray_rename, embedding.rename_eq_rename baseInside subInside, isNull,
    widening, isReference_rename embedding.kind, embedding.inheritDepth baseInside subInside]

end Embedding

end Catalog

end Linkage
