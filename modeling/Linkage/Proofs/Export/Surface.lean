/-
Purpose: What a library shows of itself, and that an export without complaints writes down
  exactly that.
-/
import Linkage.Draft.Export
import Linkage.Proofs.Link.Refit
import Linkage.Proofs.Table.Layout

namespace Linkage

open List

variable {i k j index : Nat} {kind : TypeKind} {x : TypeRef} {relies : List Table}

/-! ### Positions among what is kept -/

section Kept

variable {α : Type} {keep : α → Bool}

theorem keptIndex?_eq_some {xs : List α} : keptIndex? keep xs i = some k ↔
    ∃ x, xs[i]? = some x ∧ keep x = true ∧ (xs.take i).countP keep = k := by
  simp [keptIndex?, Option.bind_eq_some_iff]

/-- An entry is found at its position among those that are kept. -/
theorem getElem?_filter_of_keptIndex? {xs : List α} (kept : keptIndex? keep xs i = some k) :
    ∃ x, xs[i]? = some x ∧ keep x = true ∧ (xs.filter keep)[k]? = some x := by
  obtain ⟨x, found, isKept, rfl⟩ := keptIndex?_eq_some.1 kept
  refine ⟨x, found, isKept, ?_⟩
  obtain ⟨inside, rfl⟩ := List.getElem?_eq_some_iff.1 found
  have cut : xs.filter keep =
      (xs.take i).filter keep ++ xs[i] :: (xs.drop (i + 1)).filter keep := by
    rw [← filter_cons_of_pos isKept, ← filter_append, ← drop_eq_getElem_cons, take_append_drop]
  rw [cut, countP_eq_length_filter]
  simp

/-- Every entry that is kept has a position there. -/
theorem exists_keptIndex?_of_filter {xs : List α} {x : α} (found : (xs.filter keep)[k]? = some x) :
    ∃ i, xs[i]? = some x ∧ keptIndex? keep xs i = some k := by
  obtain ⟨i, atIndex, counted⟩ : ∃ i, xs[i]? = some x ∧ (xs.take i).countP keep = k := by
    induction xs generalizing k with
    | nil => cases found
    | cons y rest ih =>
      by_cases first : keep y
      · rw [filter_cons_of_pos first] at found
        cases k with
        | zero => exact ⟨0, found, rfl⟩
        | succ k =>
          obtain ⟨i, atIndex, counted⟩ := ih found
          exact ⟨i + 1, atIndex, by simp [first, counted]⟩
      · rw [filter_cons_of_neg first] at found
        obtain ⟨i, atIndex, counted⟩ := ih found
        exact ⟨i + 1, atIndex, by simp [first, counted]⟩
  have isKept := (mem_filter.1 (mem_of_getElem? found)).2
  exact ⟨i, atIndex, keptIndex?_eq_some.2 ⟨x, atIndex, isKept, counted⟩⟩

/-- Different entries have different positions. -/
theorem keptIndex?_inj {xs : List α} (one : keptIndex? keep xs i = some k)
    (other : keptIndex? keep xs j = some k) : i = j := by
  have passed {i j : Nat} (one : keptIndex? keep xs i = some k) (less : i < j) :
      k < (xs.take j).countP keep := by
    obtain ⟨x, found, isKept, rfl⟩ := keptIndex?_eq_some.1 one
    calc (xs.take i).countP keep < (xs.take (i + 1)).countP keep := by
          simp [take_add_one, found, isKept]
      _ ≤ (xs.take j).countP keep := (take_sublist_take_left less).countP_le
  obtain ⟨_, _, _, here⟩ := keptIndex?_eq_some.1 one
  obtain ⟨_, _, _, there⟩ := keptIndex?_eq_some.1 other
  rcases Nat.lt_trichotomy i j with less | same | more
  · exact absurd there (Nat.ne_of_gt (passed one less))
  · exact same
  · exact absurd here (Nat.ne_of_gt (passed other more))

end Kept

/-! ### The part of a table that is shown -/

/-- A method with those of its functions that are kept. -/
def Method.restrict (keep : Function → Bool) (m : Method) : Method :=
  { m with functions := m.functions.filter keep }

/-- The methods with the functions that are kept, without those that keep none. -/
def restrictMethods (keep : Function → Bool) (methods : List Method) : List Method :=
  (methods.map (Method.restrict keep)).filter fun m => !m.functions.isEmpty

/-- Dependent libraries may see the public and the protected members of classes. -/
def Visibility.isShown (v : Visibility) : Bool := v = .public_ ∨ v = .protected_

theorem Visibility.isExportedMember_eq (v : Visibility) : v.isExportedMember = v.isShown := by
  cases v <;> rfl

/-- A class with the members that dependent libraries may see. -/
def ClassDef.shown (c : ClassDef) : ClassDef :=
  { c with
    fields := c.fields.filter fun v => v.visibility.isShown
    methods := restrictMethods (fun f => f.visibility.isShown) c.methods
    constructors := c.constructors.filter fun f => f.visibility.isShown }

/-- The public part of a table, still in the numbering of its own library. -/
def Table.shown (t : Table) : Table :=
  { t with
    classes := (t.classes.filter fun c => c.visibility = .public_).map ClassDef.shown
    interfaces := t.interfaces.filter fun i => i.visibility = .public_
    delegates := t.delegates.filter fun x => x.visibility = .public_
    coroutines := t.coroutines.filter fun x => x.visibility = .public_
    globals := t.globals.filter fun v => v.visibility = .public_
    methods := restrictMethods (fun f => f.visibility = .public_) t.methods
    natives := restrictMethods (fun f => f.visibility = .public_) t.natives }

/-! ### Writing it down -/

/-- A type is exported if it is one of another library or has a number in the surface. -/
def Table.Exports (t : Table) (type : TypeRef) : Prop :=
  type.id.home = .here → (t.exportIndex? type.id.kind type.id.index).isSome = true

namespace Table

variable (t : Table)

/-- A type as the surface of the library writes it. -/
def surfaceType (type : TypeRef) : SurfaceType :=
  match type.id.home with
  | .kernel => ⟨.kernel, type.id.kind, type.id.index, type.dimension⟩
  | .rely i => ⟨.dependency i, type.id.kind, type.id.index, type.dimension⟩
  | .here => (t.exportIndex? type.id.kind type.id.index).elim .invalid
      (⟨.own, type.id.kind, ·, type.dimension⟩)

def surfaceParameter (p : Parameter) : SurfaceParameter := ⟨p.name, t.surfaceType p.type⟩

def surfaceFunction (f : Function) : SurfaceFunction :=
  ⟨f.visibility, f.params.map t.surfaceParameter, f.returns.map t.surfaceType⟩

def surfaceMethod (m : Method) : SurfaceMethod :=
  ⟨m.name, m.space, m.functions.map t.surfaceFunction⟩

def surfaceMember (v : MemberVariable) : SurfaceMember :=
  ⟨v.name, v.visibility, t.surfaceType v.type⟩

def surfaceClass (c : ClassDef) : SurfaceClass :=
  ⟨c.name, c.space, t.surfaceType c.parent, c.interfaces.map t.surfaceType,
    c.fields.map t.surfaceMember, c.methods.map t.surfaceMethod,
    c.constructors.map t.surfaceFunction⟩

def surfaceInterface (i : InterfaceDef) : SurfaceInterface :=
  ⟨i.name, i.space, i.inherits.map t.surfaceType, i.methods.map t.surfaceMethod⟩

def surfaceDelegate (d : DelegateDef) : SurfaceDelegate :=
  ⟨d.name, d.space, d.params.map t.surfaceParameter, d.returns.map t.surfaceType⟩

def surfaceCoroutine (c : CoroutineDef) : SurfaceCoroutine :=
  ⟨c.name, c.space, c.returns.map t.surfaceType⟩

def surfaceVariable (v : VariableDef) : SurfaceVariable :=
  ⟨v.name, v.space, v.constant, t.surfaceType v.type⟩

/-- The shown part of a table as a surface. -/
def surfaceOf (dependencies : List String) : Surface where
  name := t.name
  dependencies := dependencies
  spaces := ⟨"", none⟩ :: (t.spaces.drop 1).map fun s => ⟨s.name, s.parent⟩
  classes := t.shown.classes.map t.surfaceClass
  interfaces := t.shown.interfaces.map t.surfaceInterface
  delegates := t.shown.delegates.map t.surfaceDelegate
  coroutines := t.shown.coroutines.map t.surfaceCoroutine
  globals := t.shown.globals.map t.surfaceVariable
  methods := t.shown.methods.map t.surfaceMethod
  natives := t.shown.natives.map t.surfaceMethod

end Table

theorem Table.exportIndex?_inj {t : Table}
    (one : t.exportIndex? kind i = some k) (other : t.exportIndex? kind j = some k) : i = j := by
  cases kind with
  | invalid => cases one
  | _ => exact keptIndex?_inj one other

theorem Table.surfaceType_here {t : Table} {number dimension : Nat}
    (exported : t.exportIndex? kind index = some number) :
    t.surfaceType ⟨⟨.here, kind, index⟩, dimension⟩ = ⟨.own, kind, number, dimension⟩ := by
  simp only [surfaceType, exported, Option.elim_some]

theorem Table.surfaceType_of_exports {t : Table} (exported : t.Exports x) :
    (t.surfaceType x).kind = x.id.kind ∧ (t.surfaceType x).dimension = x.dimension := by
  obtain ⟨⟨home, kind, index⟩, dimension⟩ := x
  cases home with
  | here =>
    obtain ⟨number, isNumber⟩ := Option.isSome_iff_exists.1 (exported rfl)
    rw [surfaceType_here isNumber]
    exact ⟨rfl, rfl⟩
  | _ => exact ⟨rfl, rfl⟩

/-- A type that is written as one of the surface is one of the table, under its number. -/
theorem Table.surfaceType_own {t : Table} (exported : t.Exports x)
    (own : (t.surfaceType x).origin = .own) :
    x.id.home = .here ∧ (t.surfaceType x).kind = x.id.kind ∧
      t.exportIndex? x.id.kind x.id.index = some (t.surfaceType x).index := by
  obtain ⟨⟨home, kind, index⟩, dimension⟩ := x
  cases home with
  | here =>
    obtain ⟨number, isNumber⟩ := Option.isSome_iff_exists.1 (exported rfl)
    rw [surfaceType_here isNumber]
    exact ⟨rfl, rfl, isNumber⟩
  | _ => cases own

/-! ### Addresses are not shown -/

theorem keptIndex?_map {α β : Type} {keep : β → Bool} {g : α → β} (xs : List α) (i : Nat) :
    keptIndex? keep (xs.map g) i = keptIndex? (fun x => keep (g x)) xs i := by
  unfold keptIndex?
  rw [getElem?_map, ← map_take, countP_map, Option.bind_map]
  rfl

namespace Table

theorem exportIndex?_unplaced (t : Table) : t.unplaced.exportIndex? = t.exportIndex? := by
  funext kind index
  cases kind with
  | struct | handle => exact keptIndex?_map t.classes index
  | _ => rfl

theorem shown_unplaced (t : Table) : t.unplaced.shown = t.shown.unplaced := by
  have classes : ((t.classes.map ClassDef.unplaced).filter fun c => c.visibility = .public_).map
      ClassDef.shown = ((t.classes.filter fun c => c.visibility = .public_).map
        ClassDef.shown).map ClassDef.unplaced := by
    rw [filter_map, map_map, map_map]
    apply map_congr_left
    simp [ClassDef.shown, ClassDef.unplaced, filter_map, Function.comp_def,
      MemberVariable.unplaced]
  have globals : (t.globals.map VariableDef.unplaced).filter (fun v => v.visibility = .public_) =
      (t.globals.filter fun v => v.visibility = .public_).map VariableDef.unplaced :=
    filter_map
  simp only [shown, unplaced, classes, globals]

theorem surfaceOf_unplaced (t : Table) (dependencies : List String) :
    t.unplaced.surfaceOf dependencies = t.surfaceOf dependencies := by
  have types : t.unplaced.surfaceType = t.surfaceType := by
    funext type
    simp only [surfaceType, exportIndex?_unplaced]
  have params : t.unplaced.surfaceParameter = t.surfaceParameter := by
    funext p
    simp only [surfaceParameter, types]
  have functions : t.unplaced.surfaceFunction = t.surfaceFunction := by
    funext f
    simp only [surfaceFunction, params, types]
  have methods : t.unplaced.surfaceMethod = t.surfaceMethod := by
    funext m
    simp only [surfaceMethod, functions]
  have members (v : MemberVariable) : t.unplaced.surfaceMember v.unplaced = t.surfaceMember v := by
    simp only [surfaceMember, types]
    rfl
  have classes (c : ClassDef) : t.unplaced.surfaceClass c.unplaced = t.surfaceClass c := by
    simp [surfaceClass, types, functions, methods, ClassDef.unplaced, Function.comp_def, members]
  have interfaces : t.unplaced.surfaceInterface = t.surfaceInterface := by
    funext i
    simp only [surfaceInterface, types, methods]
  have delegates : t.unplaced.surfaceDelegate = t.surfaceDelegate := by
    funext d
    simp only [surfaceDelegate, params, types]
  have coroutines : t.unplaced.surfaceCoroutine = t.surfaceCoroutine := by
    funext c
    simp only [surfaceCoroutine, types]
  have globals (v : VariableDef) : t.unplaced.surfaceVariable v.unplaced = t.surfaceVariable v := by
    simp only [surfaceVariable, types]
    rfl
  have classList : t.shown.unplaced.classes.map t.unplaced.surfaceClass =
      t.shown.classes.map t.surfaceClass :=
    map_map.trans (map_congr_left fun c _ => classes c)
  have globalList : t.shown.unplaced.globals.map t.unplaced.surfaceVariable =
      t.shown.globals.map t.surfaceVariable :=
    map_map.trans (map_congr_left fun v _ => globals v)
  simp only [surfaceOf, shown_unplaced, classList, globalList, methods, interfaces, delegates,
    coroutines]
  rfl

theorem assignAddresses_surfaceOf (t : Table) (dependencies : List String) :
    t.assignAddresses.1.surfaceOf dependencies = t.surfaceOf dependencies :=
  assignAddresses_keeps (surfaceOf · dependencies) (fun t => t.surfaceOf_unplaced dependencies) t

/-- What is shown is exported after addresses were given as before. -/
theorem assignAddresses_exports (t : Table) :
    t.assignAddresses.1.shown.Settled t.assignAddresses.1.Exports = t.shown.Settled t.Exports := by
  refine assignAddresses_keeps (fun t => t.shown.Settled t.Exports) (fun t => ?_) t
  have same : t.unplaced.Exports = t.Exports := by
    funext type
    simp only [Exports, exportIndex?_unplaced]
  rw [same, shown_unplaced, settled_unplaced]

end Table

/-! ### Exporting without complaints -/

/-- The mark of an unresolved type, or no mark of that kind. -/
def TypeRef.Proper (type : TypeRef) : Prop := type = .invalid ∨ type.id.kind ≠ .invalid

theorem Catalog.Fits.proper {c : Catalog} {type : TypeRef} (fits : c.Fits type) : type.Proper := by
  refine fits.imp_right ?_
  rintro ⟨t, _, has⟩ invalid
  have counted := has.counted
  rw [invalid] at counted
  exact absurd counted (Nat.not_lt_zero _)

/-! ### What mentions the types of a table -/

/-- What mentions each type of a signature. -/
def Function.uses (name : String) (f : Function) : List (Draft.User × TypeRef) :=
  f.types.map (⟨name, f.source.map (·.anchor)⟩, ·)

def Method.uses (qualifier : String) (m : Method) : List (Draft.User × TypeRef) :=
  m.functions.flatMap (·.uses (qualifier ++ m.name))

def ClassDef.uses (c : ClassDef) : List (Draft.User × TypeRef) :=
  (c.parent :: c.interfaces).map (⟨c.name, c.source.map (·.anchor)⟩, ·) ++
    c.fields.map (fun v => (⟨s!"{c.name}.{v.name}", v.source.map (·.anchor)⟩, v.type)) ++
    c.methods.flatMap (·.uses (c.name ++ ".")) ++ c.constructors.flatMap (·.uses c.name)

def InterfaceDef.uses (i : InterfaceDef) : List (Draft.User × TypeRef) :=
  i.inherits.map (⟨i.name, i.source.map (·.anchor)⟩, ·) ++
    i.methods.flatMap (·.uses (i.name ++ "."))

def DelegateDef.uses (d : DelegateDef) : List (Draft.User × TypeRef) :=
  d.types.map (⟨d.name, d.source.map (·.anchor)⟩, ·)

def CoroutineDef.uses (c : CoroutineDef) : List (Draft.User × TypeRef) :=
  c.returns.map (⟨c.name, c.source.map (·.anchor)⟩, ·)

def VariableDef.uses (v : VariableDef) : List (Draft.User × TypeRef) :=
  [v.type].map (⟨v.name, v.source.map (·.anchor)⟩, ·)

namespace Table

/-- Every type that stands somewhere in a table, with what mentions it. -/
def uses (t : Table) : List (Draft.User × TypeRef) :=
  t.classes.flatMap (·.uses) ++ t.interfaces.flatMap (·.uses) ++ t.delegates.flatMap (·.uses) ++
    t.coroutines.flatMap (·.uses) ++ t.globals.flatMap (·.uses) ++ t.methods.flatMap (·.uses "") ++
    t.natives.flatMap (·.uses "")

variable {t : Table}

theorem map_snd_uses : t.uses.map Prod.snd = t.types := by
  simp [uses, types, map_flatMap, ClassDef.uses, ClassDef.types, InterfaceDef.uses,
    InterfaceDef.types, DelegateDef.uses, CoroutineDef.uses, VariableDef.uses, Method.uses,
    Method.types, Function.uses, Function.comp_def]
  exact map_eq_flatMap.symm

end Table

/-! ### Exporting -/

namespace Draft

variable {d : Draft} {user : User} (qualifier : String)

/-- What is complained about a type that is mentioned. -/
def complaints (d : Draft) (use : User × TypeRef) : List Diagnostic :=
  (d.exportType use.1 use.2).notes

@[simp] theorem value_exportType (type : TypeRef) :
    (d.exportType user type).value = d.table.surfaceType type := by
  unfold exportType Table.surfaceType
  cases type.id.home with
  | here =>
    by_cases invalid : type.id.kind = .invalid
    · simp [invalid, Table.exportIndex?]
    · cases d.table.exportIndex? type.id.kind type.id.index <;> simp [invalid]
      cases user.anchor <;> rfl
  | _ => rfl

@[simp] theorem value_exportTypes (types : List TypeRef) :
    (d.exportTypes user types).value = types.map d.table.surfaceType := by
  simp [exportTypes]

@[simp] theorem value_exportParams (params : List Parameter) :
    (d.exportParams user params).value = params.map d.table.surfaceParameter := by
  simp [exportParams, Table.surfaceParameter]

@[simp] theorem value_exportFunction (name : String) (f : Function) :
    (d.exportFunction name f).value = d.table.surfaceFunction f := by
  simp [exportFunction, Table.surfaceFunction]

@[simp] theorem value_exportMethods (keep : Function → Bool)
    (methods : List Method) : (d.exportMethods qualifier keep methods).value =
      (restrictMethods keep methods).map d.table.surfaceMethod := by
  simp [exportMethods, restrictMethods, Method.restrict, Table.surfaceMethod, filter_map,
    Function.comp_def]

theorem keepsMember_eq : keepsMember = fun f => f.visibility.isShown :=
  funext fun f => f.visibility.isExportedMember_eq

@[simp] theorem value_exportClass (c : ClassDef) :
    (d.exportClass c).value = d.table.surfaceClass c.shown := by
  simp [exportClass, keepsMember_eq, Visibility.isExportedMember_eq, Table.surfaceClass,
    ClassDef.shown, Table.surfaceMember]

theorem restrictMethods_true {methods : List Method} (inhabited : ∀ m ∈ methods, m.functions ≠ []) :
    restrictMethods (fun _ => true) methods = methods := by
  have same : methods.map (Method.restrict fun _ => true) = methods := by
    conv_rhs => rw [← map_id methods]
    apply map_congr_left
    simp [Method.restrict]
  rw [restrictMethods, same, filter_eq_self]
  intro m member
  simpa using inhabited m member

theorem value_exportInterface {i : InterfaceDef} (made : i.WellMade index) :
    (d.exportInterface i).value = d.table.surfaceInterface i := by
  simp [exportInterface, Table.surfaceInterface,
    restrictMethods_true fun m member => (made.methods m member).1]

/-- A surface is the shown part of the table, written down. -/
theorem value_exportSurface (made : d.table.WellMade) :
    (d.exportSurface relies).value = d.table.surfaceOf (relies.map (·.name)) := by
  have interfaces : (d.table.interfaces.filter fun i => i.visibility = .public_).map
      (fun i => (d.exportInterface i).value) = d.table.shown.interfaces.map
        d.table.surfaceInterface := by
    refine map_congr_left fun i member => ?_
    obtain ⟨k, found⟩ := mem_iff_getElem?.1 (mem_filter.1 member).1
    exact value_exportInterface (made.interfaces found)
  simp [exportSurface, interfaces, Table.surfaceOf, Table.shown, exportDelegate, exportCoroutine,
    exportVariable, Function.comp_def, Table.surfaceDelegate, Table.surfaceCoroutine,
    Table.surfaceVariable]

theorem notes_exportTypes (types : List TypeRef) :
    (d.exportTypes user types).notes = (types.map (user, ·)).flatMap d.complaints := by
  simp [exportTypes, complaints, flatMap_map]

theorem notes_exportParams (params : List Parameter) : (d.exportParams user params).notes =
      ((params.map (·.type)).map (user, ·)).flatMap d.complaints := by
  simp [exportParams, complaints, flatMap_map]

theorem notes_exportFunction (name : String) (f : Function) :
    (d.exportFunction name f).notes = (f.uses name).flatMap d.complaints := by
  simp [exportFunction, notes_exportParams, notes_exportTypes, Function.uses, Function.types,
    Function.paramTypes]

/-- A method that keeps no function mentions nothing. -/
theorem flatMap_uses_restrictMethods (keep : Function → Bool)
    (methods : List Method) : (restrictMethods keep methods).flatMap (·.uses qualifier) =
      methods.flatMap fun m => (m.restrict keep).uses qualifier := by
  rw [← flatMap_map (Method.restrict keep), restrictMethods]
  induction methods.map (Method.restrict keep) with
  | nil => rfl
  | cons m rest ih =>
    rw [flatMap_cons, ← ih]
    cases found : m.functions <;> simp [Method.uses, found]

theorem notes_exportMethods (keep : Function → Bool) (methods : List Method) :
    (d.exportMethods qualifier keep methods).notes =
      ((restrictMethods keep methods).flatMap (·.uses qualifier)).flatMap d.complaints := by
  rw [flatMap_uses_restrictMethods]
  simp [exportMethods, notes_exportFunction, flatMap_assoc, Method.uses, Method.restrict]

theorem notes_exportClass (c : ClassDef) :
    (d.exportClass c).notes = c.shown.uses.flatMap d.complaints := by
  simp [exportClass, keepsMember_eq, Visibility.isExportedMember_eq, notes_exportTypes,
    notes_exportMethods, notes_exportFunction, ClassDef.uses, ClassDef.shown, complaints,
    flatMap_map, flatMap_assoc]

theorem notes_exportInterface (i : InterfaceDef) :
    (d.exportInterface i).notes = i.uses.flatMap d.complaints := by
  simp [exportInterface, notes_exportTypes, notes_exportMethods, flatMap_uses_restrictMethods,
    Method.restrict, InterfaceDef.uses]

/-- What is complained about is that something mentions a type. -/
theorem notes_exportSurface (relies : List Table) :
    (d.exportSurface relies).notes = d.table.shown.uses.flatMap d.complaints := by
  simp [exportSurface, notes_exportClass, notes_exportInterface, exportDelegate, exportCoroutine,
    exportVariable, notes_exportParams, notes_exportTypes, notes_exportMethods, Table.uses,
    Table.shown, DelegateDef.uses, DelegateDef.types, CoroutineDef.uses, VariableDef.uses,
    complaints, flatMap_map, flatMap_assoc]

end Draft

/-! ### Exporting without complaints -/

/-- What is shown is mentioned in the table, too. -/
theorem Table.uses_shown_subset (t : Table) : t.shown.uses ⊆ t.uses := by
  intro use
  have methods {q : String} {keep : Function → Bool} {ms : List Method} {m : Method}
      (member : m ∈ restrictMethods keep ms) (inside : use ∈ m.uses q) :
      ∃ m ∈ ms, use ∈ m.uses q := by
    obtain ⟨old, written, rfl⟩ := mem_map.1 (mem_filter.1 member).1
    obtain ⟨f, kept, mentions⟩ := mem_flatMap.1 inside
    exact ⟨old, written, mem_flatMap.2 ⟨f, (mem_filter.1 kept).1, mentions⟩⟩
  simp only [uses, shown, ClassDef.uses, ClassDef.shown, mem_append, mem_flatMap,
    mem_map, mem_filter, exists_exists_and_eq_and]
  grind

/-- What holds of all types of a table holds of those that it shows. -/
theorem Table.Settled.shown {P : TypeRef → Prop} {t : Table} (settled : t.Settled P) :
    t.shown.Settled P := by
  obtain ⟨⟨parents, interfaces, bases⟩, types⟩ := settled_iff_types.1 settled
  refine settled_iff_types.2 ⟨⟨?_, ?_, ?_⟩, fun x member => types x ?_⟩
  · exact forall_mem_map.2 fun c kept => parents c (mem_filter.1 kept).1
  · exact forall_mem_map.2 fun c kept => interfaces c (mem_filter.1 kept).1
  · exact fun i kept => bases i (mem_filter.1 kept).1
  · rw [← map_snd_uses] at member ⊢
    exact map_subset _ t.uses_shown_subset member

/-- Everything in a table from source was written somewhere. -/
theorem Table.WellMade.anchored {t : Table} (made : t.WellMade) :
    ∀ use ∈ t.uses, use.1.anchor.isSome = true := by
  have each {α : Type} {source : Option α} {anchor : α → Anchor} {name : String}
      {types : List TypeRef} (written : source.isSome = true) :
      ∀ use ∈ types.map fun x => ((⟨name, source.map anchor⟩ : Draft.User), x),
        use.1.anchor.isSome = true :=
    forall_mem_map.2 fun _ _ => by rwa [Option.isSome_map]
  have method {q : String} {m : Method} (sourced : m.Sourced) :
      ∀ use ∈ m.uses q, use.1.anchor.isSome = true :=
    forall_mem_flatMap.2 fun f member => each (sourced f member)
  simp only [uses, forall_mem_append, forall_mem_flatMap]
  refine ⟨⟨⟨⟨⟨⟨?_, ?_⟩, ?_⟩, ?_⟩, ?_⟩, ?_⟩, ?_⟩
  · intro c member
    obtain ⟨i, found⟩ := mem_iff_getElem?.1 member
    have made := made.classes found
    simp only [ClassDef.uses, forall_mem_append, forall_mem_flatMap]
    refine ⟨⟨⟨each made.source, forall_mem_map.2 fun v inside => ?_⟩,
      fun m inside => method (made.methods m inside)⟩,
      fun f inside => each (made.constructors f inside)⟩
    rw [Option.isSome_map]
    exact made.fields v inside
  · intro c member
    obtain ⟨i, found⟩ := mem_iff_getElem?.1 member
    have made := made.interfaces found
    simp only [InterfaceDef.uses, forall_mem_append, forall_mem_flatMap]
    exact ⟨each made.source, fun m inside => method (made.methods m inside).2⟩
  · exact fun x member => each (made.delegates x member)
  · exact fun x member => each (made.coroutines x member)
  · exact fun v member => each (made.globals v member)
  · exact fun m member => method (made.methods m member)
  · exact fun m member => method (made.natives m member)

namespace Draft

variable {d : Draft}

/-- A type that is not complained about is exported. -/
theorem exports_of_quiet {use : User × TypeRef} (anchored : use.1.anchor.isSome = true)
    (proper : use.2.Proper) (quiet : d.complaints use = []) : d.table.Exports use.2 := by
  intro home
  unfold complaints exportType at quiet
  rw [home] at quiet
  rcases proper with unresolved | valid
  · rw [unresolved] at home
    cases home
  · obtain ⟨anchor, isAnchor⟩ := Option.isSome_iff_exists.1 anchored
    rw [Option.isSome_iff_ne_none]
    intro found
    simp [valid, found, isAnchor, reportAt] at quiet

/-- An export without complaints writes down the shown part, and all types that are shown are
exported. -/
theorem exportSurface_of_quiet (made : d.table.WellMade)
    (proper : d.table.Settled TypeRef.Proper) (quiet : (d.exportSurface relies).notes = []) :
    (d.exportSurface relies).value = d.table.surfaceOf (relies.map (·.name)) ∧
      d.table.shown.Settled d.table.Exports := by
  refine ⟨value_exportSurface made, ?_⟩
  rw [notes_exportSurface, flatMap_eq_nil_iff] at quiet
  obtain ⟨inherits, types⟩ := Table.settled_iff_types.1 proper.shown
  refine Table.settled_iff_types.2 ⟨inherits, fun x member => ?_⟩
  rw [← Table.map_snd_uses] at member types
  obtain ⟨use, mentions, rfl⟩ := mem_map.1 member
  exact exports_of_quiet (made.anchored use (d.table.uses_shown_subset mentions))
    (types _ member) (quiet use mentions)

end Draft

end Linkage
