/-
Purpose: Full names of types tell them apart.
-/
import Linkage.Proofs.Export.Published
import Linkage.Proofs.Reorder.Symbols
import Linkage.Proofs.Symbols.Spelling

namespace Linkage

open List Surface

variable {name name' : String} {t : Table} {id x y : TypeId} {kind kind' : TypeKind}
  {index space space' : Nat} {type : TypeRef} {home : Home}

variable {names : List String}

/-! ### Texts -/

namespace Text

variable {c : Char} {a b rest rest' sep : List Char} {xs ys : List (List Char)}

theorem takeWhile_cut (free : c ∉ a) (begins : ∀ d ∈ rest.head?, d = c) :
    (a ++ rest).takeWhile (· ≠ c) = a := by
  have here : ∀ d ∈ a, decide (d ≠ c) = true := fun d inside =>
    decide_eq_true fun same => free (same ▸ inside)
  rw [takeWhile_append_of_pos here]
  cases rest with
  | nil => simp
  | cons d rest => simp [begins d rfl]

/-- A text without a certain character, and then nothing or something that begins with the
character, can be cut there in one way only. -/
theorem cut_unique (free : c ∉ a) (free' : c ∉ b)
    (begins : ∀ d ∈ rest.head?, d = c) (begins' : ∀ d ∈ rest'.head?, d = c)
    (same : a ++ rest = b ++ rest') : a = b ∧ rest = rest' := by
  obtain rfl : a = b := by
    rw [← takeWhile_cut free begins, same, takeWhile_cut free' begins']
  exact ⟨rfl, append_cancel_left same⟩

/-- Texts that are not empty can be read off what they are joined to with a separator, if none of
them has its first character. -/
theorem intercalate_injective (once : c ∉ sep) (free : ∀ x ∈ xs, x ≠ [] ∧ c ∉ x)
    (free' : ∀ y ∈ ys, y ≠ [] ∧ c ∉ y)
    (same : (c :: sep).intercalate xs = (c :: sep).intercalate ys) : xs = ys := by
  have none {xs : List (List Char)} (free : ∀ x ∈ xs, x ≠ [] ∧ c ∉ x)
      (same : (c :: sep).intercalate xs = []) : xs = [] := by
    cases xs with
    | nil => rfl
    | cons x xs =>
      rw [intercalate_cons] at same
      exact absurd (append_eq_nil_iff.1 same).1 (free x (mem_cons_self ..)).1
  have parts {x : List Char} {xs : List (List Char)} (free : ∀ y ∈ x :: xs, y ≠ [] ∧ c ∉ y) :
      ((c :: sep).intercalate (x :: xs)).splitOn c = x :: xs.map (sep ++ ·) := by
    have joined : (c :: sep).intercalate (x :: xs) = [c].intercalate (x :: xs.map (sep ++ ·)) := by
      simp [intercalate_cons, flatMap_map]
    obtain ⟨first, later⟩ := forall_mem_cons.1 free
    rw [joined, splitOn_intercalate _ _ (cons_ne_nil _ _)]
    refine forall_mem_cons.2 ⟨first.2, forall_mem_map.2 fun y member inside => ?_⟩
    exact (mem_append.1 inside).elim once (later y member).2
  cases xs with
  | nil => exact (none free' same.symm).symm
  | cons x xs =>
    cases ys with
    | nil => exact none free same
    | cons y ys =>
      have same := congrArg (splitOn c) same
      rw [parts free, parts free'] at same
      simpa [(append_right_injective sep).list_map.eq_iff] using same

end Text

/-! ### Names with dots -/

/-- The characters of names with dots. -/
def Text.isDotted (c : Char) : Bool := Lexer.isIdentRest c || c == '.'

theorem isIdentifier_iff : isIdentifier name = true ↔
    ∃ c rest, name.toList = c :: rest ∧ Lexer.isIdentStart c = true ∧
      rest.all Lexer.isIdentRest = true := by
  unfold isIdentifier
  cases name.toList <;> simp

theorem chars_of_isIdentifier (named : isIdentifier name = true) :
    name.toList ≠ [] ∧ ∀ c ∈ name.toList, Lexer.isIdentRest c = true := by
  obtain ⟨c, rest, chars, start, all⟩ := isIdentifier_iff.1 named
  rw [chars]
  refine ⟨cons_ne_nil _ _, forall_mem_cons.2 ⟨?_, all_eq_true.1 all⟩⟩
  simp only [Lexer.isIdentStart, Bool.or_eq_true] at start
  simp only [Lexer.isIdentRest, Char.isAlphanum, Bool.or_eq_true]
  exact start.imp_left .inl

theorem not_mem_of_isIdentifier (named : isIdentifier name = true) {c : Char}
    (mark : Lexer.isIdentRest c = false) : c ∉ name.toList := by
  intro inside
  rw [(chars_of_isIdentifier named).2 c inside] at mark
  cases mark

theorem toList_dotted (names : List String) :
    (String.intercalate "." names).toList = ['.'].intercalate (names.map String.toList) := by
  rw [String.toList_intercalate]
  rfl

/-- Identifiers with dots between them can be read off the whole. -/
theorem dotted_injective {names names' : List String}
    (named : ∀ name ∈ names, isIdentifier name = true)
    (named' : ∀ name ∈ names', isIdentifier name = true)
    (same : String.intercalate "." names = String.intercalate "." names') : names = names' := by
  have free {names : List String} (named : ∀ name ∈ names, isIdentifier name = true) :
      ∀ x ∈ names.map String.toList, x ≠ [] ∧ '.' ∉ x :=
    forall_mem_map.2 fun name member =>
      ⟨(chars_of_isIdentifier (named name member)).1,
        not_mem_of_isIdentifier (named name member) rfl⟩
  rw [← String.toList_inj, toList_dotted, toList_dotted] at same
  have equal := Text.intercalate_injective not_mem_nil (free named) (free named') same
  exact (List.map_inj_right fun _ _ => String.toList_inj.1).1 equal

theorem dotted_ne_nil (filled : names ≠ []) (named : ∀ name ∈ names, isIdentifier name = true) :
    (String.intercalate "." names).toList ≠ [] := by
  obtain ⟨name, rest, rfl⟩ := exists_cons_of_ne_nil filled
  rw [toList_dotted, map_cons, Text.intercalate_cons]
  exact append_ne_nil_of_left_ne_nil
    (chars_of_isIdentifier (named name (mem_cons_self ..))).1 _

/-- Identifiers with dots between them have no other characters. -/
theorem chars_of_dotted (named : ∀ name ∈ names, isIdentifier name = true) :
    ∀ c ∈ (String.intercalate "." names).toList, Text.isDotted c = true := by
  have each {name : String} (member : name ∈ names) : ∀ c ∈ name.toList, Text.isDotted c = true :=
    fun c inside => by simp [Text.isDotted, (chars_of_isIdentifier (named name member)).2 c inside]
  rw [toList_dotted]
  cases names with
  | nil => exact forall_mem_nil _
  | cons name rest =>
    rw [map_cons, Text.intercalate_cons, flatMap_map]
    refine forall_mem_append.2 ⟨each (mem_cons_self ..), forall_mem_flatMap.2 fun name' later => ?_⟩
    exact forall_mem_cons.2 ⟨rfl, each (mem_cons_of_mem _ later)⟩

theorem not_mem_dotted (named : ∀ name ∈ names, isIdentifier name = true) {c : Char}
    (mark : Text.isDotted c = false) : c ∉ (String.intercalate "." names).toList := by
  intro inside
  rw [chars_of_dotted named c inside] at mark
  cases mark

/-! ### Types of one table -/

namespace Table

/-- The spaces and names of the types of a table, one kind after the other. -/
def typeKeys (t : Table) : List (Nat × String) :=
  t.classes.map (fun c => (c.space, c.name)) ++ (t.interfaces.map (fun i => (i.space, i.name)) ++
    (t.delegates.map (fun d => (d.space, d.name)) ++ t.coroutines.map fun c => (c.space, c.name)))

/-- Where a type stands among those of all kinds. -/
def typePosition (t : Table) (kind : TypeKind) (index : Nat) : Nat :=
  match kind with
  | .invalid | .struct | .handle => index
  | .interface => t.classes.length + index
  | .delegate => t.classes.length + (t.interfaces.length + index)
  | .coroutine => t.classes.length + (t.interfaces.length + (t.delegates.length + index))

theorem getElem?_typeKeys (inside : id.index < t.typeCount id.kind) :
    t.typeKeys[t.typePosition id.kind id.index]? = (t.typeName id).map fun entry =>
      (entry.2, entry.1) := by
  obtain ⟨home, kind, index⟩ := id
  cases kind <;>
    simp_all [typeCount, typePosition, typeKeys, typeName, getElem?_append]

/-- Positions tell types apart, but for classes and value types. -/
theorem typePosition_injective {index' : Nat}
    (inside : index < t.typeCount kind) (inside' : index' < t.typeCount kind')
    (same : t.typePosition kind index = t.typePosition kind' index') :
    index = index' ∧ (kind = kind' ∨ kind.isDefinition = true ∧ kind'.isDefinition = true) := by
  cases kind <;> cases kind' <;> grind [typeCount, typePosition, TypeKind.isDefinition]

/-- Classes and value types are told apart by their definitions. -/
theorem HasType.kind_eq (has : t.HasType kind index) (has' : t.HasType kind' index)
    (definition : kind.isDefinition = true) (definition' : kind'.isDefinition = true) :
    kind = kind' := by
  have inside : index < t.classes.length := by
    have counted := has.counted
    cases kind <;> first | exact counted | cases definition
  have found := getElem?_eq_getElem inside
  exact (has.fits definition _ found).symm.trans (has'.fits definition' _ found)

/-- A table whose types can be told by the spaces that they are in and by their names, which are
all identifiers. -/
structure Legible (t : Table) : Prop where
  name : isIdentifier t.name = true
  tree : t.TreeShaped
  distinct : t.DistinctSpaces
  spaces : ∀ {p name}, (some p, name) ∈ t.spaceKeys → isIdentifier name = true
  types : ∀ key ∈ t.typeKeys, key.1 < t.spaces.length ∧ isIdentifier key.2 = true
  once : t.typeKeys.Nodup

namespace Legible

variable {t : Table} (legible : t.Legible)
include legible

theorem spacePath (space : Nat) : ∀ name ∈ t.spacePath space, isIdentifier name = true := by
  intro name member
  obtain ⟨i, _, isLabel⟩ := mem_filterMap.1 member
  obtain ⟨s, found, named⟩ := Option.bind_eq_some_iff.1 isLabel
  obtain ⟨p, isParent, rfl⟩ := Option.map_eq_some_iff.1 named
  refine legible.spaces (p := p) (mem_map.2 ⟨s, mem_of_getElem? found, ?_⟩)
  rw [Space.key, isParent]

/-- A type that exists has a name and a space. -/
theorem exists_typeName (has : t.HasType id.kind id.index) :
    ∃ name space, t.typeName id = some (name, space) ∧ isIdentifier name = true ∧
      space < t.spaces.length := by
  have position := getElem?_typeKeys has.counted
  cases named : t.typeName id with
  | none =>
    obtain ⟨home, kind, index⟩ := id
    have counted : index < t.typeCount kind := has.counted
    cases kind <;> simp_all [typeName, typeCount] <;> omega
  | some entry =>
    obtain ⟨name, space⟩ := entry
    rw [named] at position
    obtain ⟨inside, isName⟩ := legible.types _ (mem_of_getElem? position)
    exact ⟨name, space, rfl, isName, inside⟩

theorem space_of_typeName (has : t.HasType id.kind id.index)
    (named : t.typeName id = some (name, space)) : space < t.spaces.length := by
  obtain ⟨_, _, named', _, inside⟩ := legible.exists_typeName has
  cases named.symm.trans named'
  exact inside

/-- Types of the same name in the same space are the same. -/
theorem typeName_injective (hasX : t.HasType x.kind x.index) (hasY : t.HasType y.kind y.index)
    (same : t.typeName x = t.typeName y) : x.kind = y.kind ∧ x.index = y.index := by
  obtain ⟨name, space, named, _⟩ := legible.exists_typeName hasX
  have atX := getElem?_typeKeys hasX.counted
  have atY := getElem?_typeKeys hasY.counted
  rw [← same] at atY
  rw [named] at atX atY
  have inside := lt_of_getElem? atX
  have positions := (getElem?_inj inside legible.once).1 (atX.trans atY.symm)
  obtain ⟨index, kind | ⟨definition, definition'⟩⟩ :=
    typePosition_injective hasX.counted hasY.counted positions
  · exact ⟨kind, index⟩
  · rw [← index] at hasY
    exact ⟨hasX.kind_eq hasY definition definition', index⟩

end Legible

end Table

/-- The kernel types have different names, all in one space. -/
theorem Kernel.legible_table : Kernel.table.Legible where
  name := by decide
  tree := by
    refine ⟨⟨_, rfl, rfl, rfl⟩, fun {i s} found => ?_, fun {p s} found => ?_⟩
    · cases found
    · cases p with
      | zero =>
        cases found
        rfl
      | succ p => cases found
  distinct := by
    intro i j p name key
    cases mem_singleton.1 (mem_of_getElem? key)
  spaces := by
    intro p name member
    cases mem_singleton.1 member
  types := by decide
  once := by decide

/-! ### Types of all tables -/

namespace Catalog

/-- The tables that a compilation sees are legible and bear different names. -/
structure Legible (c : Catalog) : Prop where
  own : c.own.Legible
  relies : ∀ t ∈ c.relies, t.Legible
  outside : c.own.home ≠ .kernel ∧ ∀ t ∈ c.relies, t.home ≠ .kernel
  names : (c.own.name :: c.relies.map (·.name)).Nodup

/-- The names that make up the full name of a type of a library. -/
def typeParts (t : Table) (name : String) (space : Nat) : List String :=
  if t.home = .kernel then [name] else t.name :: t.spacePath space ++ [name]

/-- The array brackets of a type. -/
def brackets (dimension : Nat) : String := String.join (replicate dimension "[]")

theorem typeFullName_of_typeName {c : Catalog} (isTable : c.table? type.id.home = some t)
    (named : t.typeName type.id = some (name, space)) :
    c.typeFullName type =
      String.intercalate "." (typeParts t name space) ++ brackets type.dimension := by
  unfold typeFullName typeParts
  simp only [isTable, Option.bind_some, named, Option.map_some]
  split
  · simp [brackets]
  · rfl

theorem typeFullName_invalid (c : Catalog) : c.typeFullName .invalid = "<invalid>" := by
  simp [typeFullName, TypeRef.invalid, TypeId.invalid, TypeId.kernel, TypeId.scalar, table?,
    Table.typeName]

theorem toList_brackets (dimension : Nat) :
    (brackets dimension).toList = (replicate dimension ['[', ']']).flatten := by
  rw [brackets, String.toList_join, flatMap_def, map_replicate]
  rfl

theorem toList_typeListName (c : Catalog) (types : List TypeRef) : (c.typeListName types).toList =
      '(' :: ([',', ' '].intercalate ((types.map c.typeFullName).map String.toList) ++ [')']) := by
  rw [typeListName, String.toList_append, String.toList_append, String.toList_intercalate]
  rfl

theorem head?_brackets (dimension : Nat) : ∀ d ∈ (brackets dimension).toList.head?, d = '[' := by
  rw [toList_brackets]
  cases dimension <;> simp [replicate_succ]

/-- What is in front of brackets, and how many of them there are, can be read off a text. -/
theorem append_brackets_injective {a b : String} {m n : Nat} (free : '[' ∉ a.toList)
    (free' : '[' ∉ b.toList) (same : a ++ brackets m = b ++ brackets n) : a = b ∧ m = n := by
  rw [← String.toList_inj, String.toList_append, String.toList_append] at same
  obtain ⟨texts, rests⟩ := Text.cut_unique free free' (head?_brackets m) (head?_brackets n) same
  have lengths := congrArg length rests
  simp only [toList_brackets, length_flatten, map_replicate, sum_replicate]
    at lengths
  exact ⟨String.toList_inj.1 texts, by simpa using lengths⟩

namespace Legible

variable {c : Catalog} (legible : c.Legible)
include legible

theorem table (isTable : c.table? home = some t) : t.Legible := by
  cases home with
  | kernel => exact Option.some.inj isTable ▸ Kernel.legible_table
  | here => exact Option.some.inj isTable ▸ legible.own
  | rely i => exact legible.relies t (mem_of_getElem? isTable)

theorem home_kernel (isTable : c.table? home = some t) : t.home = .kernel ↔ home = .kernel := by
  cases home with
  | kernel =>
    cases isTable
    exact ⟨fun _ => rfl, fun _ => rfl⟩
  | here =>
    cases isTable
    simp [legible.outside.1]
  | rely i => simp [legible.outside.2 t (mem_of_getElem? isTable)]

/-- Libraries of the same name are the same. -/
theorem home_eq_of_name {home' : Home} {t' : Table} (isTable : c.table? home = some t)
    (isTable' : c.table? home' = some t') (outside : home ≠ .kernel) (outside' : home' ≠ .kernel)
    (same : t.name = t'.name) : home = home' := by
  obtain ⟨fresh, distinct⟩ := nodup_cons.1 legible.names
  have listed {i : Nat} {t : Table} (isTable : c.relies[i]? = some t) :
      t.name ∈ c.relies.map (·.name) := mem_map_of_mem (mem_of_getElem? isTable)
  cases home with
  | kernel => exact absurd rfl outside
  | here =>
    cases home' with
    | kernel => exact absurd rfl outside'
    | here => rfl
    | rely j =>
      cases isTable
      exact absurd (same ▸ listed isTable') fresh
  | rely i =>
    cases home' with
    | kernel => exact absurd rfl outside'
    | here =>
      cases isTable'
      exact absurd (same ▸ listed isTable) fresh
    | rely j => rw [index_eq_of_nodup_map distinct isTable isTable' same]

theorem typeParts (isTable : c.table? home = some t) (named : isIdentifier name = true) :
    ∀ part ∈ typeParts t name space, isIdentifier part = true := by
  have table := legible.table isTable
  unfold Catalog.typeParts
  split
  · exact forall_mem_singleton.2 named
  · exact forall_mem_cons.2 ⟨table.name, forall_mem_append.2
      ⟨table.spacePath space, forall_mem_singleton.2 named⟩⟩

end Legible

/-- Types that exist are told apart by the names in their full names. -/
theorem Legible.typeParts_injective {c : Catalog} (legible : c.Legible) {u : Table}
    (tableX : c.table? x.home = some t) (tableY : c.table? y.home = some u)
    (hasX : t.HasType x.kind x.index) (hasY : u.HasType y.kind y.index)
    (namedX : t.typeName x = some (name, space)) (namedY : u.typeName y = some (name', space'))
    (same : Catalog.typeParts t name space = Catalog.typeParts u name' space') : x = y := by
  have table := legible.table tableX
  have inside := table.space_of_typeName hasX namedX
  have inside' := (legible.table tableY).space_of_typeName hasY namedY
  obtain ⟨homes, names, spaces⟩ : x.home = y.home ∧ name = name' ∧ space = space' := by
    unfold Catalog.typeParts at same
    by_cases isKernel : x.home = .kernel <;> by_cases isKernel' : y.home = .kernel <;>
      simp only [legible.home_kernel tableX, legible.home_kernel tableY, isKernel, isKernel',
        if_true, if_false] at same
    · rw [isKernel] at tableX
      rw [isKernel'] at tableY
      cases tableX
      cases tableY
      exact ⟨isKernel.trans isKernel'.symm, singleton_inj.1 same,
        (Nat.lt_one_iff.1 inside).trans (Nat.lt_one_iff.1 inside').symm⟩
    · simp at same
    · simp at same
    · obtain ⟨libraries, rest⟩ := cons.inj same
      obtain ⟨paths, names⟩ := append_inj' rest rfl
      have homes := legible.home_eq_of_name tableX tableY isKernel isKernel' libraries
      obtain rfl : t = u := Option.some.inj (tableX.symm.trans (homes ▸ tableY))
      exact ⟨homes, singleton_inj.1 names,
        Table.spacePath_injective table.tree @table.distinct inside inside' paths⟩
  obtain rfl : t = u := Option.some.inj (tableX.symm.trans (homes ▸ tableY))
  subst names spaces
  obtain ⟨kinds, indices⟩ := table.typeName_injective hasX hasY (namedX.trans namedY.symm)
  exact TypeId.eq_of_parts homes kinds indices

namespace Legible

variable {c : Catalog} (legible : c.Legible)
include legible

/-- The full name of a type that exists is made of identifiers. -/
theorem exists_typeFullName (has : c.HasType type.id) :
    ∃ t name space, c.table? type.id.home = some t ∧ t.HasType type.id.kind type.id.index ∧
      t.typeName type.id = some (name, space) ∧
      (∀ part ∈ Catalog.typeParts t name space, isIdentifier part = true) ∧
      c.typeFullName type =
        String.intercalate "." (Catalog.typeParts t name space) ++ brackets type.dimension := by
  obtain ⟨t, isTable, has⟩ := has
  obtain ⟨name, space, named, isName, _⟩ := (legible.table isTable).exists_typeName has
  exact ⟨t, name, space, isTable, has, named, legible.typeParts isTable isName,
    typeFullName_of_typeName isTable named⟩

/-- The full name of a type that exists has nothing but names with dots, and brackets. -/
theorem chars_of_typeFullName (has : c.HasType type.id) :
    ∀ d ∈ (c.typeFullName type).toList, Text.isDotted d = true ∨ d = '[' ∨ d = ']' := by
  obtain ⟨t, name, space, -, -, -, parts, isFull⟩ := legible.exists_typeFullName has
  intro d member
  rw [isFull, String.toList_append, toList_brackets] at member
  rcases mem_append.1 member with inNames | inBrackets
  · exact .inl (chars_of_dotted parts d inNames)
  · obtain ⟨pair, isPair, inPair⟩ := mem_flatten.1 inBrackets
    rw [(mem_replicate.1 isPair).2] at inPair
    exact .inr (by simpa using inPair)

/-- Full names tell types apart. -/
theorem typeFullName_injective {x y : TypeRef} (fitsX : c.Fits x) (fitsY : c.Fits y)
    (same : c.typeFullName x = c.typeFullName y) : x = y := by
  have proper {type : TypeRef} (has : c.HasType type.id) :
      c.typeFullName type ≠ c.typeFullName .invalid := by
    intro equal
    have marked : '<' ∈ (c.typeFullName type).toList := by
      rw [equal, typeFullName_invalid]
      decide
    have cases := legible.chars_of_typeFullName has '<' marked
    revert cases
    decide
  rcases fitsX with rfl | hasX
  · rcases fitsY with rfl | hasY
    · rfl
    · exact absurd same.symm (proper hasY)
  · rcases fitsY with rfl | hasY
    · exact absurd same (proper hasX)
    · obtain ⟨t, name, space, tableX, typeX, namedX, partsX, isFullX⟩ :=
        legible.exists_typeFullName hasX
      obtain ⟨u, name', space', tableY, typeY, namedY, partsY, isFullY⟩ :=
        legible.exists_typeFullName hasY
      obtain ⟨texts, dimensions⟩ := append_brackets_injective (not_mem_dotted partsX rfl)
        (not_mem_dotted partsY rfl) (isFullX.symm.trans (same.trans isFullY))
      have ids := legible.typeParts_injective tableX tableY typeX typeY namedX namedY
        (dotted_injective partsX partsY texts)
      obtain ⟨id, dimension⟩ := x
      simp_all

/-- Full names of types are not empty and have no comma. -/
theorem typeFullName_listable (fits : c.Fits type) :
    (c.typeFullName type).toList ≠ [] ∧ ',' ∉ (c.typeFullName type).toList := by
  rcases fits with rfl | has
  · rw [typeFullName_invalid]
    decide
  · refine ⟨?_, fun inside => ?_⟩
    · obtain ⟨t, name, space, -, -, -, parts, isFull⟩ := legible.exists_typeFullName has
      have filled : Catalog.typeParts t name space ≠ [] := by
        unfold Catalog.typeParts
        split <;> exact cons_ne_nil _ _
      rw [isFull, String.toList_append]
      exact append_ne_nil_of_left_ne_nil (dotted_ne_nil filled parts) _
    · have cases := legible.chars_of_typeFullName has ',' inside
      revert cases
      decide

/-- The names of lists of types tell the lists apart. -/
theorem typeListName_injective {xs ys : List TypeRef} (fitsX : ∀ x ∈ xs, c.Fits x)
    (fitsY : ∀ y ∈ ys, c.Fits y) (same : c.typeListName xs = c.typeListName ys) : xs = ys := by
  have listable {xs : List TypeRef} (fits : ∀ x ∈ xs, c.Fits x) :
      ∀ text ∈ (xs.map c.typeFullName).map String.toList, text ≠ [] ∧ ',' ∉ text :=
    forall_mem_map.2 (forall_mem_map.2 fun x member =>
      legible.typeFullName_listable (fits x member))
  rw [← String.toList_inj, toList_typeListName, toList_typeListName] at same
  have inner := append_inj_left' (List.cons.inj same).2 rfl
  have names := Text.intercalate_injective (by simp) (listable fitsX) (listable fitsY) inner
  rw [List.map_inj_right fun _ _ => String.toList_inj.1] at names
  clear same inner
  induction xs generalizing ys with
  | nil => exact (map_eq_nil_iff.1 names.symm).symm
  | cons x xs ih =>
    obtain ⟨y, ys, rfl, first, later⟩ := map_eq_cons_iff.1 names.symm
    obtain ⟨fitX, fitsX⟩ := forall_mem_cons.1 fitsX
    obtain ⟨fitY, fitsY⟩ := forall_mem_cons.1 fitsY
    rw [legible.typeFullName_injective fitX fitY first.symm, ih fitsX fitsY later.symm]

end Legible

end Catalog

/-! ### Libraries -/

namespace Table

/-- The types of a table, one kind after the other. -/
def typeEntities (t : Table) : List Entity :=
  (range t.classes.length).map .classDef ++ ((range t.interfaces.length).map .interface ++
    ((range t.delegates.length).map .delegate ++
      (range t.coroutines.length).map .coroutine))

theorem entryAt_typeEntities (t : Table) : t.typeEntities.map t.entryAt = t.typeKeys.map some := by
  have listed {α : Type} (xs : List α) (key : α → Nat × String) :
      (range xs.length).map (fun i => xs[i]?.map key) = (xs.map key).map some := by
    apply ext_getElem
    · simp
    · intro i _ inside
      have bound : i < xs.length := by simpa using inside
      simp [bound]
  simp only [typeEntities, typeKeys, map_append, map_map, Function.comp_def, entryAt]
  simp only [listed, map_map, Function.comp_def]

theorem nodup_typeEntities (t : Table) : t.typeEntities.Nodup := by
  have each {entity : Nat → Entity} (injective : entity.Injective) (n : Nat) :
      ((range n).map entity).Nodup := nodup_range.map injective
  refine nodup_append'.2 ⟨each ?_ _, nodup_append'.2 ⟨each ?_ _,
    nodup_append'.2 ⟨each ?_ _, each ?_ _, ?_⟩, ?_⟩, ?_⟩
  all_goals simp [Function.Injective, disjoint_left]

/-- A compiled library is legible if its own name is an identifier. -/
theorem WellMade.legible (made : t.WellMade) (spelled : t.Spelled)
    (distinct : t.DistinctSpaces) (name : isIdentifier t.name = true) : t.Legible where
  name := name
  tree := made.tree
  distinct := @distinct
  spaces := spelled.spaces
  types := by
    intro key member
    have image := mem_map_of_mem (f := some) member
    rw [← entryAt_typeEntities] at image
    obtain ⟨e, _, stands⟩ := mem_map.1 image
    exact ⟨made.space_lt stands, spelled.entries stands⟩
  once := by
    refine List.Nodup.of_map some ?_
    rw [← entryAt_typeEntities]
    refine List.Nodup.map_on (fun e isType e' isType' same => ?_) t.nodup_typeEntities
    have image := mem_map_of_mem (f := t.entryAt) isType
    rw [entryAt_typeEntities] at image
    obtain ⟨key, _, stands⟩ := mem_map.1 image
    exact made.names.entity_unique stands.symm (same ▸ stands.symm)

/-- A library that another relies on shows some of its types. -/
theorem typeKeys_surfaceOf (t : Table) (dependencies : List String) (ρ : Placement) :
    ((t.surfaceOf dependencies).tableAt ρ).typeKeys.Sublist t.typeKeys := by
  have classes : ((t.surfaceOf dependencies).tableAt ρ).classes.map (fun c => (c.space, c.name)) =
      (t.classes.filter fun c => c.visibility = .public_).map fun c => (c.space, c.name) := by
    apply ext_getElem?
    intro i
    simp only [classes_tableAt, surfaceOf, shown, getElem?_map,
      getElem?_mapIdx, Option.map_map]
    rfl
  have interfaces :
      ((t.surfaceOf dependencies).tableAt ρ).interfaces.map (fun i => (i.space, i.name)) =
        (t.interfaces.filter fun i => i.visibility = .public_).map fun i => (i.space, i.name) := by
    apply ext_getElem?
    intro i
    simp only [interfaces_tableAt, surfaceOf, shown, getElem?_map,
      getElem?_mapIdx, Option.map_map]
    rfl
  unfold typeKeys
  rw [classes, interfaces, delegates_tableAt, coroutines_tableAt, map_map,
    map_map, surfaceOf, map_map, map_map]
  exact (filter_sublist.map _).append ((filter_sublist.map _).append
    ((filter_sublist.map _).append (filter_sublist.map _)))

/-- What a legible library shows is legible. -/
theorem Legible.surfaceOf (legible : t.Legible) (dependencies : List String)
    (ρ : Placement) : ((t.surfaceOf dependencies).tableAt ρ).Legible := by
  have frames := frames_surfaceOf legible.tree dependencies ρ
  have keys := spaceKeys_of_frames frames
  have lengths : ((t.surfaceOf dependencies).tableAt ρ).spaces.length = t.spaces.length := by
    simpa using congrArg length frames
  refine ⟨?_, legible.tree.of_frames frames, ?_, ?_, ?_, ?_⟩
  · rw [name_tableAt]
    exact legible.name
  · intro i j p name one other
    rw [keys] at one other
    exact legible.distinct one other
  · intro p name member
    exact legible.spaces (keys ▸ member)
  · intro key member
    rw [lengths]
    exact legible.types key ((t.typeKeys_surfaceOf dependencies ρ).mem member)
  · exact legible.once.sublist (t.typeKeys_surfaceOf dependencies ρ)

end Table

namespace Job.Passes

variable {job : Job} {p : Products} {merged linked : Draft} (passes : job.Passes p merged linked)
include passes

theorem name_table : p.draft.table.name = job.name :=
  (congrArg Table.name passes.skeleton_merged :).symm.trans
    (passes.of_merge (P := fun d => d.table.name = job.name) fun files _ _ =>
      Draft.name_merge job.name files)

theorem legible_table (name : isIdentifier job.name = true) : p.draft.table.Legible :=
  passes.wellMade.legible passes.spelled @passes.distinctSpaces (passes.name_table ▸ name)

end Job.Passes

/-- A library that another relies on is legible, if its name is an identifier. -/
theorem Surface.Published.legible {s : Surface} (published : s.Published)
    (name : isIdentifier s.name = true) (ρ : Placement) : (s.tableAt ρ).Legible := by
  obtain ⟨b, p, completes, rfl⟩ := published
  obtain ⟨_, _, passes⟩ := Job.passes_of_completes completes
  obtain ⟨surface, _⟩ := passes.surface_eq
  rw [surface] at name ⊢
  exact (passes.legible_table (passes.name_table ▸ name)).surfaceOf _ ρ

/-- A compilation sees libraries that are legible if all their names are identifiers. -/
theorem Job.Passes.legible {job : Job} {p : Products} {merged linked : Draft}
    (passes : job.Passes p merged linked) (name : isIdentifier job.name = true)
    (names : ∀ s ∈ job.surfaces, isIdentifier s.name = true)
    (published : ∀ s ∈ job.surfaces, s.Published) : (p.draft.catalog p.tables).Legible := by
  refine ⟨passes.legible_table name, fun t member => ?_, ⟨?_, fun t member => ?_⟩, ?_⟩
  · obtain ⟨i, found⟩ := mem_iff_getElem?.1 member
    obtain ⟨s, isSurface, rfl, _⟩ := passes.surface_of_table found
    have member := mem_of_getElem? isSurface
    exact (published s member).legible (names s member) _
  · show p.draft.table.home ≠ .kernel
    rw [passes.wellMade.home]
    decide
  · obtain ⟨i, found⟩ := mem_iff_getElem?.1 member
    obtain ⟨s, _, rfl, _⟩ := passes.surface_of_table found
    rw [home_tableAt]
    exact Home.noConfusion
  · show (p.draft.table.name :: p.tables.map (·.name)).Nodup
    rw [passes.name_table, passes.names_tables]
    have named : job.graph.Named := passes.loaded.named
    refine nodup_cons.2 ⟨fun member => ?_, named.nodup⟩
    obtain ⟨s, isSurface, same⟩ := mem_map.1 member
    obtain ⟨i, found⟩ := mem_iff_getElem?.1 isSurface
    have node := named found
    rw [same, RelyGraph.node?, if_pos (show job.name = job.graph.current from rfl)] at node
    cases node

end Linkage
