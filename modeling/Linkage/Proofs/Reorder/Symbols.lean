/-
Purpose: A library under new numbers has symbols of the same names, in the same order.
-/
import Linkage.Proofs.Reorder.Checked
import Linkage.Proofs.Reorder.Merged

namespace Linkage

open List List.Perm LinkedLibrary Linkage.Numbering

variable {a b : List Char} {n : Numbering} {t t' : Table} {c c' : Catalog} {e : Entity}

/-! ### The order of texts -/

namespace Text

theorem notAfter_total (a b : List Char) : notAfter a b = true ∨ notAfter b a = true := by
  fun_induction notAfter a b with
  | case1 => exact .inl rfl
  | case2 => exact .inr rfl
  | case3 as c bs ih => simpa [notAfter] using ih
  | case4 c as e bs different =>
    have other : c.toNat ≠ e.toNat := fun same => different (Char.toNat_inj.1 same)
    rw [notAfter, if_neg (Ne.symm different)]
    simp
    omega

theorem notAfter_trans {c : List Char} (first : notAfter a b = true)
    (second : notAfter b c = true) : notAfter a c = true := by
  induction a generalizing b c with
  | nil => cases c <;> rfl
  | cons x xs ih =>
    cases b with
    | nil => cases first
    | cons y ys =>
      cases c with
      | nil => cases second
      | cons z zs =>
        unfold notAfter at first second ⊢
        by_cases xy : x = y
        · subst xy
          by_cases xz : x = z
          · rw [if_pos rfl] at first
            rw [if_pos xz] at second ⊢
            exact ih first second
          · rw [if_neg xz] at second ⊢
            exact second
        · rw [if_neg xy, Nat.blt_eq] at first
          by_cases yz : y = z
          · subst yz
            rw [if_neg xy, Nat.blt_eq]
            exact first
          · rw [if_neg yz, Nat.blt_eq] at second
            have less := lt_trans first second
            have xz : x ≠ z := by
              rintro rfl
              exact lt_irrefl _ less
            rw [if_neg xz, Nat.blt_eq]
            exact less

theorem notAfter_antisymm (first : notAfter a b = true) (second : notAfter b a = true) : a = b := by
  induction a generalizing b with
  | nil =>
    cases b with
    | nil => rfl
    | cons => cases second
  | cons x xs ih =>
    cases b with
    | nil => cases first
    | cons y ys =>
      unfold notAfter at first second
      by_cases same : x = y
      · subst same
        rw [if_pos rfl] at first second
        rw [ih first second]
      · rw [if_neg same, Nat.blt_eq] at first
        rw [if_neg (Ne.symm same), Nat.blt_eq] at second
        exact absurd first (lt_asymm second)

/-- A list of texts and the same list in another order are the same when they are sorted. -/
theorem sort_eq_of_perm {xs ys : List String} (perm : xs.Perm ys) :
    xs.mergeSort (fun a b => notAfter a.toList b.toList) =
      ys.mergeSort fun a b => notAfter a.toList b.toList := by
  have sorted (zs : List String) :
      (zs.mergeSort fun a b => notAfter a.toList b.toList).Pairwise fun a b =>
        notAfter a.toList b.toList = true := by
    refine pairwise_mergeSort ?_ ?_ zs
    · exact fun _ _ _ first second => notAfter_trans first second
    · exact fun a b => Bool.or_eq_true_iff.2 (notAfter_total a.toList b.toList)
  refine eq_of_pairwise (fun a b _ _ first second => ?_) (sorted xs) (sorted ys)
    ((mergeSort_perm xs _).trans (perm.trans (mergeSort_perm ys _).symm))
  exact String.toList_inj.1 (notAfter_antisymm first second)

end Text

/-! ### Full names -/

theorem Numbering.describe_entity (n : Numbering) (e : Entity) :
    (n.entity e).describe = e.describe := by
  cases e <;> rfl

theorem Table.Alike.qualified {home : Home}
    (alike : t.Alike n home t') (space : Nat) (tail : List String) :
    t'.qualified ((n.within home).spaces space) tail = t.qualified space tail := by
  rw [Table.qualified, Table.qualified, alike.name, alike.spacePath]

namespace Catalog

/-- The full name of a declaration, with types of parameters if there are some. -/
def titled (c : Catalog) (d : Declaration) (params : Option (List TypeRef)) : String :=
  match c.table? d.home with
  | none => "<invalid>"
  | some t =>
    match t.declarationName d with
    | none => "<" ++ d.entity.describe ++ ">"
    | some name =>
      let full :=
        match (t.ownerType d).bind fun owner => t.typeName owner with
        | some (owner, space) => t.qualified space [owner, name]
        | none => t.qualified ((t.declarationSpace d).getD Table.rootSpace) [name]
      match params with
      | some types => full ++ c.typeListName types
      | none => full

theorem fullName_eq_titled {d : Declaration} (isTable : c.table? d.home = some t) :
    c.fullName d = c.titled d ((t.function d).map Function.paramTypes) := by
  unfold fullName titled
  rw [isTable]
  dsimp only
  cases t.function d <;> rfl

namespace Alike

variable {n : Numbering} {c c' : Catalog}

theorem typeFullName (alike : c.Alike n c') (x : TypeRef) :
    c'.typeFullName (n.ref x) = c.typeFullName x := by
  have related := alike.tables x.id.home
  unfold Catalog.typeFullName
  rw [show (n.ref x).id = n.type x.id from rfl, n.home_type]
  generalize c.table? x.id.home = u, c'.table? x.id.home = u' at related
  cases related with
  | none => rfl
  | @some t t' related =>
    simp only [Option.bind_some, related.typeName]
    cases t.typeName x.id with
    | none => rfl
    | some entry =>
      simp only [Option.map_some, related.stands, related.stands', related.qualified]
      rfl

theorem typeListName (alike : c.Alike n c') (types : List TypeRef) :
    c'.typeListName (types.map n.ref) = c.typeListName types := by
  simp only [Catalog.typeListName, map_map, Function.comp_def, alike.typeFullName]

/-- Full names are the same under new numbers. -/
theorem titled (alike : c.Alike n c') (d : Declaration) (params : Option (List TypeRef)) :
    c'.titled (n.declaration d) (params.map (List.map n.ref)) = c.titled d params := by
  have related := alike.tables d.home
  unfold Catalog.titled
  rw [n.home_declaration]
  generalize c.table? d.home = u, c'.table? d.home = u' at related
  cases related with
  | none => rfl
  | @some t t' related =>
    have owners : (t'.ownerType (n.declaration d)).bind (fun owner => t'.typeName owner) =
        ((t.ownerType d).bind fun owner => t.typeName owner).map fun entry =>
          (entry.1, (n.within d.home).spaces entry.2) := by
      rw [related.ownerType]
      cases isOwner : t.ownerType d with
      | none => rfl
      | some owner =>
        have home : owner.home = d.home := (Table.home_of_ownerType isOwner).trans related.stands
        have names := (home ▸ related : t.Alike n owner.home t').typeName
        rwa [home] at names
    have space : ((t'.declarationSpace (n.declaration d)).getD Table.rootSpace) =
        (n.within d.home).spaces ((t.declarationSpace d).getD Table.rootSpace) := by
      rw [related.declarationSpace]
      cases t.declarationSpace d with
      | none => exact related.root.symm
      | some s => rfl
    simp only [related.declarationName, owners, space]
    cases t.declarationName d with
    | none =>
      show "<" ++ ((n.within d.home).entity d.entity).describe ++ ">" = _
      rw [describe_entity]
    | some name =>
      cases (t.ownerType d).bind fun owner => t.typeName owner with
      | none =>
        cases params with
        | none => exact related.qualified _ _
        | some types =>
          simp only [Option.map_none, Option.map_some, related.qualified, alike.typeListName]
      | some entry =>
        cases params with
        | none => exact related.qualified _ _
        | some types =>
          simp only [Option.map_some, related.qualified, alike.typeListName]

end Alike

end Catalog

/-! ### Functions -/

namespace Table

/-- The names of the functions of a group.  All but the types of the parameters they have from
the group. -/
def groupNames (c : Catalog) (t : Table) (e : Entity) : List String :=
  match overloadEntity 0 e with
  | none => []
  | some first =>
    ((t.overloads ⟨t.home, .public_, e⟩).getD []).map fun f =>
      c.titled ⟨t.home, .public_, first⟩ (some f.paramTypes)

theorem fullName_overload (isTable : c.table? t.home = some t) {v : Visibility} {i : Nat}
    {f : Function} {fs : List Function} (overloads : t.overloads ⟨t.home, v, e⟩ = some fs)
    (found : fs[i]? = some f) :
    (t.overloadDeclaration ⟨t.home, v, e⟩ i).map c.fullName = (overloadEntity 0 e).map fun first =>
        c.titled ⟨t.home, .public_, first⟩ (some f.paramTypes) := by
  simp only [overloadDeclaration, overloads, Option.bind_some, found, Option.map_some]
  cases isEntity : overloadEntity i e with
  | none => cases e <;> first | rfl | cases isEntity
  | some entity =>
    have function : t.function ⟨t.home, f.visibility, entity⟩ = some f := by
      cases e <;> cases isEntity <;> exact Option.bind_eq_some_iff.2 ⟨fs, overloads, found⟩
    rw [Option.bind_some, Option.map_some, Catalog.fullName_eq_titled isTable, function]
    cases e <;> cases isEntity <;> rfl

/-- The names of the functions of a table, group after group. -/
theorem fullName_functions (isTable : c.table? t.home = some t) :
    ((functions t).map (·.1)).map c.fullName =
      (t.overloadGroups.map (·.entity)).flatMap (groupNames c t) := by
  rw [functions, map_map, map_flatMap, flatMap_map]
  refine flatMap_congr fun group member => ?_
  have home := home_of_mem_overloadGroups member
  obtain ⟨home', v, e⟩ := group
  obtain rfl : home' = t.home := home
  have same : t.overloads ⟨t.home, .public_, e⟩ = t.overloads ⟨t.home, v, e⟩ := rfl
  rw [map_filterMap, groupNames, same]
  cases overloads : t.overloads ⟨t.home, v, e⟩ with
  | none => cases overloadEntity 0 e <;> rfl
  | some fs =>
    have names : ∀ entry ∈ fs.zipIdx,
        ((t.overloadDeclaration ⟨t.home, v, e⟩ entry.2).map fun d => (d, entry.1)).map
            (c.fullName ∘ (·.1)) =
          (overloadEntity 0 e).map fun first =>
            c.titled ⟨t.home, .public_, first⟩ (some entry.1.paramTypes) := by
      rintro ⟨f, i⟩ listed
      rw [Option.map_map]
      exact fullName_overload isTable overloads (mk_mem_zipIdx_iff_getElem?.1 listed)
    rw [Option.getD_some, filterMap_congr names]
    cases overloadEntity 0 e with
    | none => simp
    | some first =>
      simp
      conv_rhs => rw [← zipIdx_map_fst 0 fs, map_map]
      rfl

/-- A group has functions of the same names. -/
theorem Alike.groupNames_perm (alike : t.Alike n .here t') (catalogs : c.Alike n c') (e : Entity) :
    (t'.groupNames c' (n.entity e)).Perm (t.groupNames c e) := by
  have firsts : overloadEntity 0 (n.entity e) = (overloadEntity 0 e).map n.entity := by
    cases e <;> rfl
  have related := alike.overloads (d := ⟨.here, .public_, e⟩)
  unfold groupNames
  rw [firsts, alike.stands, alike.stands']
  cases overloadEntity 0 e with
  | none => exact .refl _
  | some first =>
    have title (types : List TypeRef) :
        c'.titled ⟨.here, .public_, n.entity first⟩ (some (types.map n.ref)) =
          c.titled ⟨.here, .public_, first⟩ (some types) :=
      catalogs.titled ⟨.here, .public_, first⟩ (some types)
    replace related : Option.Rel _ (t.overloads ⟨.here, .public_, e⟩)
      (t'.overloads ⟨.here, .public_, n.entity e⟩) := related
    generalize t.overloads ⟨.here, .public_, e⟩ = x,
      t'.overloads ⟨.here, .public_, n.entity e⟩ = x' at related
    cases related with
    | none => exact .refl _
    | @some fs fs' perm =>
      refine (perm.map _).trans (of_eq ?_)
      rw [map_map]
      refine map_congr_left fun f _ => ?_
      simp only [Function.comp_apply, n.paramTypes_function, title]

end Table

/-! ### Symbols -/

/-- Whether this is one function of a group. -/
def Entity.isFunction : Entity → Bool
  | memberFunction .. | interfaceFunction .. | globalFunction .. | nativeFunction ..
  | constructor .. => true
  | _ => false

theorem Numbering.isFunction_entity (n : Numbering) (e : Entity) :
    (n.entity e).isFunction = e.isFunction := by
  cases e <;> rfl

/-- What a space declares is no single function. -/
theorem Table.isFunction_of_entryAt {key : Nat × String}
    (stands : t.entryAt e = some key) : e.isFunction = false := by
  cases e <;> first | rfl | cases stands

theorem Entity.isFunction_of_isMember (isMember : e.isMember = true) : e.isFunction = false := by
  cases e <;> first | rfl | cases isMember

namespace Catalog

/-- What is no function shows no types. -/
theorem fullName_of_isFunction {d : Declaration}
    (single : d.entity.isFunction = false) : c.fullName d = c.titled d none := by
  cases isTable : c.table? d.home with
  | none =>
    unfold fullName titled
    rw [isTable]
  | some t =>
    have none : t.function d = none := by
      obtain ⟨home, v, e⟩ := d
      cases e <;> first | rfl | cases single
    rw [fullName_eq_titled isTable, none]
    rfl

theorem Alike.fullName (alike : c.Alike n c') {d : Declaration}
    (single : d.entity.isFunction = false) : c'.fullName (n.declaration d) = c.fullName d := by
  rw [fullName_of_isFunction single, ← alike.titled d none]
  exact fullName_of_isFunction ((isFunction_entity _ _).trans single)

end Catalog

namespace Table.Alike

variable {n : Numbering} {t t' : Table}

theorem lt_length_spaces_iff (alike : t.Alike n .here t') (tree : t.TreeShaped)
    (tree' : t'.TreeShaped) (s : Nat) : n.spaces s < t'.spaces.length ↔ s < t.spaces.length := by
  have root : n.spaces rootSpace = rootSpace := alike.root
  have parent : t'.parentSpace (n.spaces s) = (t.parentSpace s).map n.spaces := alike.parent s
  rw [tree'.lt_length_iff, tree.lt_length_iff, parent, Option.isSome_map]
  refine or_congr_left ?_
  conv_lhs => rw [← root]
  exact n.spaces.injective.eq_iff

/-- What spaces declare is the same in some order. -/
theorem declared_perm (alike : t.Alike n .here t') (made : t.WellMade)
    (made' : t'.WellMade) (once : t.NamedOnce) (once' : t'.NamedOnce) :
    (t'.spaces.flatMap fun s => s.declarations.values).Perm
      ((t.spaces.flatMap fun s => s.declarations.values).map n.declaration) := by
  have reindexed : Reindexed n.spaces
      (fun s s' => s'.declarations.values.Perm (s.declarations.values.map n.declaration))
      t.spaces t'.spaces := by
    intro i
    have inside := alike.lt_length_spaces_iff made.tree made'.tree i
    by_cases old : i < t.spaces.length
    · have found := getElem?_eq_getElem old
      have found' := getElem?_eq_getElem (inside.2 old)
      rw [found, found']
      refine .some ((once.spaces _ (mem_of_getElem? found)).values_perm
        (once'.spaces _ (mem_of_getElem? found')) fun name => ?_)
      have looked := alike.found i name
      rw [within_here, lookup, lookup, found, found'] at looked
      exact looked
    · rw [getElem?_eq_none (not_lt.1 old),
        getElem?_eq_none (not_lt.1 fun new => old (inside.1 new))]
      exact .none
  rw [map_flatMap]
  exact reindexed.flatMap_perm fun _ _ perm => perm

/-- What classes have as members is the same in some order. -/
theorem members_perm (alike : t.Alike n .here t') :
    (t'.classes.flatMap fun c => c.members.values).Perm
      ((t.classes.flatMap fun c => c.members.values).map n.declaration) := by
  rw [map_flatMap]
  refine (Reindexed.of_map alike.classes).flatMap_perm fun c c' same => ?_
  rw [same]
  refine .of_eq ?_
  simp [NameMap.values, classDef, members]

end Table.Alike

/-- What is declared in spaces and classes is no single function. -/
theorem Table.NamedOnce.isFunction (once : t.NamedOnce)
    (made : t.WellMade) (alike : t.Alike n .here t') :
    (∀ d ∈ t.spaces.flatMap fun s => s.declarations.values, d.entity.isFunction = false) ∧
      ∀ d ∈ t.classes.flatMap fun c => c.members.values, d.entity.isFunction = false := by
  constructor
  · intro d member
    obtain ⟨s, inside, listed⟩ := mem_flatMap.1 member
    obtain ⟨i, found⟩ := mem_iff_getElem?.1 inside
    obtain ⟨⟨name, _⟩, isEntry, rfl⟩ := mem_map.1 listed
    have declared : t.lookup i name = some _ :=
      Option.bind_eq_some_iff.2 ⟨s, found, (once.spaces s inside).find?_eq_some_iff.2 isEntry⟩
    exact isFunction_of_entryAt (made.names.sound (k := (i, name)) declared).2
  · intro d member
    obtain ⟨c, inside, listed⟩ := mem_flatMap.1 member
    obtain ⟨⟨name, _⟩, isEntry, rfl⟩ := mem_map.1 listed
    exact Entity.isFunction_of_isMember
      (alike.classMembers c inside ((once.classes c inside).find?_eq_some_iff.2 isEntry))

namespace Draft.Alike

variable {n : Numbering} {d d' : Draft} {relies : List Table}

section

variable (alike : d.Alike n d') (leaves : n.Leaves relies) (made : d.table.WellMade)
    (made' : d'.table.WellMade)
include alike leaves made made'

/-- The symbols have the same names. -/
theorem fullName_symbols (once : d.table.NamedOnce) (once' : d'.table.NamedOnce) :
    ((symbolDeclarations d'.table).map (d'.catalog relies).fullName).Perm
      ((symbolDeclarations d.table).map (d.catalog relies).fullName) := by
  have catalogs := alike.catalog leaves
  obtain ⟨spaces, members⟩ := once.isFunction made alike.table
  have named {xs xs' : List Declaration} (perm : xs'.Perm (xs.map n.declaration))
      (single : ∀ x ∈ xs, x.entity.isFunction = false) :
      ((xs'.filter fun x => !x.entity.isMethod).map (d'.catalog relies).fullName).Perm
        ((xs.filter fun x => !x.entity.isMethod).map (d.catalog relies).fullName) := by
    refine ((perm.filter _).map _).trans (of_eq ?_)
    have methods (x : Declaration) : (!(n.declaration x).entity.isMethod) = !x.entity.isMethod :=
      congrArg _ (isMethod_entity _ _)
    simp only [filter_map, map_map, Function.comp_def, methods]
    refine map_congr_left fun x listed => ?_
    exact catalogs.fullName (single x (mem_filter.1 listed).1)
  have functions : (((functions d'.table).map (·.1)).map
        (d'.catalog relies).fullName).Perm
      (((functions d.table).map (·.1)).map (d.catalog relies).fullName) := by
    have isTable : (d.catalog relies).table? d.table.home = some d.table := by
      rw [made.home]
      rfl
    have isTable' : (d'.catalog relies).table? d'.table.home = some d'.table := by
      rw [made'.home]
      rfl
    rw [Table.fullName_functions isTable, Table.fullName_functions isTable']
    refine ((alike.table.overloadGroups_perm).flatMap_right _).trans ?_
    rw [flatMap_map, flatMap_map]
    exact flatMap_left _ fun group _ => alike.table.groupNames_perm catalogs group.entity
  simp only [symbolDeclarations, map_append, ← filter_flatMap]
  exact ((named (alike.table.declared_perm made made' once once') spaces).append
    (named (alike.table.members_perm) members)).append functions

theorem symbolNames (once : d.table.NamedOnce) (once' : d'.table.NamedOnce)
    (bindings bindings' : List Binding) (options : Options) :
    (LinkedLibrary.mk d' relies bindings' options).symbols.map Symbol.name =
      (LinkedLibrary.mk d relies bindings options).symbols.map Symbol.name := by
  have names (l : LinkedLibrary) : l.symbols.map Symbol.name =
      ((symbolDeclarations l.draft.table).map l.catalog.fullName).mergeSort
        fun a b => Text.notAfter a.toList b.toList := by
    rw [symbols, map_mergeSort
      (s := fun a b : String => Text.notAfter a.toList b.toList) fun _ _ _ _ => rfl, map_map]
    rfl
  rw [names, names]
  exact Text.sort_eq_of_perm (alike.fullName_symbols leaves made made' once once')

end

end Draft.Alike

end Linkage
