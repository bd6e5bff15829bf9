/-
Purpose: A surface survives being written as a JSON value, also when fields that nobody reads are
  added and the missing parents of spaces are left out.
-/
import Linkage.Rely.Codec
import Mathlib

namespace Linkage

open List

namespace Json

/-! ### Values written more loosely -/

/-- Fields with values that a relation gives, among which fields of the given names are added.  A
parent that is null may be left out. -/
inductive FieldsLoosened (R : Json → Json → Prop) :
    List String → List (String × Json) → List (String × Json) → Prop where
  | nil : FieldsLoosened R [] [] []
  | keep {added : List String} {name : String} {j j' : Json} {rest rest' : List (String × Json)}
      (first : R j j') (others : FieldsLoosened R added rest rest') :
      FieldsLoosened R added ((name, j) :: rest) ((name, j') :: rest')
  | extra {added : List String} {rest rest' : List (String × Json)} (name : String) (j : Json)
      (others : FieldsLoosened R added rest rest') :
      FieldsLoosened R (name :: added) rest ((name, j) :: rest')
  | drop {added : List String} {rest rest' : List (String × Json)}
      (others : FieldsLoosened R added rest rest') :
      FieldsLoosened R added (("parent", null) :: rest) rest'

/-- The second value is the first with unknown fields added and null parents left out, in it or
anywhere below it.  The names of its fields decide whether an object may be changed so. -/
inductive Loosened (open_ : List String → Prop) : Json → Json → Prop where
  | same (j : Json) : Loosened open_ j j
  | array {elements elements' : List Json}
      (all : List.Forall₂ (Loosened open_) elements elements') :
      Loosened open_ (.array elements) (.array elements')
  | object {added : List String} {fields fields' : List (String × Json)}
      (may : open_ (fields.map Prod.fst)) (unknown : added.Disjoint (fields.map Prod.fst))
      (loosened : FieldsLoosened (Loosened open_) added fields fields') :
      Loosened open_ (.object fields) (.object fields')

/-- Every object but the one that says which dependency a type comes from.  Its only field names a
variant, and the others are records. -/
def IsRecord (names : List String) : Prop := names ≠ ["Dependency"]

/-! ### Records written more loosely -/

/-- A layout reads an object: the names agree, none is repeated, and only an optional field can be
a parent that is null. -/
structure Lays (layout : List Field) (fields : List (String × Json)) : Prop where
  agrees : List.Forall₂ (fun field entry => field.name = entry.1 ∧
    (entry = ("parent", null) → field.optional)) layout fields
  distinct : (fields.map Prod.fst).Nodup

/-- A layout without optional fields. -/
theorem lays_required {layout : List Field} {fields : List (String × Json)}
    (same : layout = required (fields.map Prod.fst)) (distinct : (fields.map Prod.fst).Nodup)
    (noNull : ("parent", null) ∉ fields) : Lays layout fields := by
  subst same
  refine ⟨?_, distinct⟩
  clear distinct
  induction fields with
  | nil => exact .nil
  | cons entry rest ih =>
    rw [mem_cons, not_or] at noNull
    exact .cons ⟨rfl, fun isNull => absurd isNull.symm noNull.1⟩ (ih noNull.2)

section Fields

variable {R : Json → Json → Prop} {added : List String} {fields fields' : List (String × Json)}
  {name : String} {value : Json}

theorem valuesOf_cons_self (name : String) (value : Json) (fields : List (String × Json)) :
    valuesOf name ((name, value) :: fields) = value :: valuesOf name fields := by
  simp [valuesOf]

theorem valuesOf_cons_of_ne {name' : String} (ne : name' ≠ name) (value : Json)
    (fields : List (String × Json)) :
    valuesOf name ((name', value) :: fields) = valuesOf name fields := by
  simp [valuesOf, ne]

namespace FieldsLoosened

theorem valuesOf_eq_nil (loosened : FieldsLoosened R added fields fields')
    (notAdded : name ∉ added) (absent : name ∉ fields.map Prod.fst) :
    valuesOf name fields' = [] := by
  induction loosened with
  | nil => rfl
  | keep first others ih =>
    rw [map_cons, mem_cons, not_or] at absent
    rw [valuesOf_cons_of_ne (Ne.symm absent.1), ih notAdded absent.2]
  | extra name' j others ih =>
    rw [mem_cons, not_or] at notAdded
    rw [valuesOf_cons_of_ne (Ne.symm notAdded.1), ih notAdded.2 absent]
  | drop others ih => exact ih notAdded fun member => absent (mem_cons_of_mem _ member)

/-- A value is kept, or it is a parent that is null and left out. -/
theorem valuesOf_eq (loosened : FieldsLoosened R added fields fields') (notAdded : name ∉ added)
    (distinct : (fields.map Prod.fst).Nodup) (member : (name, value) ∈ fields) :
    (∃ value', valuesOf name fields' = [value'] ∧ R value value') ∨
      valuesOf name fields' = [] ∧ (name, value) = ("parent", null) := by
  induction loosened with
  | nil => cases member
  | @keep added name' j j' rest rest' first others ih =>
    rw [map_cons, nodup_cons] at distinct
    rcases mem_cons.mp member with same | later
    · cases same
      rw [valuesOf_cons_self, others.valuesOf_eq_nil notAdded distinct.1]
      exact .inl ⟨j', rfl, first⟩
    · have ne : name' ≠ name := fun same =>
        distinct.1 (same ▸ mem_map.mpr ⟨(name, value), later, rfl⟩)
      rw [valuesOf_cons_of_ne ne]
      exact ih notAdded distinct.2 later
  | extra name' j others ih =>
    rw [mem_cons, not_or] at notAdded
    rw [valuesOf_cons_of_ne (Ne.symm notAdded.1)]
    exact ih notAdded.2 distinct member
  | drop others ih =>
    rw [map_cons, nodup_cons] at distinct
    rcases mem_cons.mp member with same | later
    · cases same
      exact .inr ⟨others.valuesOf_eq_nil notAdded distinct.1, rfl⟩
    · exact ih notAdded distinct.2 later

theorem refl (reflexive : ∀ j, R j j) (fields : List (String × Json)) :
    FieldsLoosened R [] fields fields := by
  induction fields with
  | nil => exact .nil
  | cons entry rest ih => exact .keep (reflexive entry.2) ih

/-- The value of a field that is known. -/
theorem exists_of (loosened : FieldsLoosened R added fields fields') (reflexive : ∀ j, R j j)
    (unknown : added.Disjoint (fields.map Prod.fst)) (distinct : (fields.map Prod.fst).Nodup)
    {field : Field} {entry : String × Json} (member : entry ∈ fields)
    (named : field.name = entry.1) (optional : entry = ("parent", null) → field.optional) :
    ∃ value', field.of fields' = some value' ∧ R entry.2 value' := by
  have notAdded : entry.1 ∉ added := fun inside => unknown inside (mem_map_of_mem member)
  unfold Field.of
  rw [named]
  rcases loosened.valuesOf_eq notAdded distinct member with ⟨value', found, kept⟩ | ⟨none, isNull⟩
  · rw [found]
    exact ⟨value', rfl, kept⟩
  · have isNull : entry = ("parent", null) := isNull
    rw [none, isNull]
    exact ⟨null, if_pos (optional isNull), reflexive null⟩

end FieldsLoosened

end Fields

section Records

variable {open_ : List String → Prop}

/-- The fields of a record that is written more loosely are read, each from a value that is. -/
theorem exists_record? (layout : List Field) {fields : List (String × Json)} {j : Json}
    (loosened : Loosened open_ (.object fields) j) (lays : Lays layout fields) :
    ∃ values, j.record? layout = some values ∧
      List.Forall₂ (Loosened open_) (fields.map Prod.snd) values := by
  obtain ⟨added, fields', rfl, unknown, loosened⟩ : ∃ added fields', j = .object fields' ∧
      added.Disjoint (fields.map Prod.fst) ∧
      FieldsLoosened (Loosened open_) added fields fields' := by
    cases loosened with
    | same => exact ⟨[], fields, rfl, disjoint_nil_left _, .refl .same fields⟩
    | object may unknown loosened => exact ⟨_, _, rfl, unknown, loosened⟩
  have part {layout' : List Field} {part : List (String × Json)} (inside : part ⊆ fields)
      (agrees : List.Forall₂ (fun field entry => field.name = entry.1 ∧
        (entry = ("parent", null) → field.optional)) layout' part) :
      ∃ values, (layout'.mapM fun field => field.of fields') = some values ∧
        List.Forall₂ (Loosened open_) (part.map Prod.snd) values := by
    induction agrees with
    | nil => exact ⟨[], rfl, .nil⟩
    | cons here others ih =>
      rw [cons_subset] at inside
      obtain ⟨value, found, loose⟩ :=
        loosened.exists_of .same unknown lays.distinct inside.1 here.1 here.2
      obtain ⟨values, found', loose'⟩ := ih inside.2
      refine ⟨value :: values, ?_, .cons loose loose'⟩
      rw [mapM_cons, found, found']
      rfl
  exact part (List.Subset.refl _) lays.agrees

end Records

/-- A value is read back from what is written for it, also when that is written more loosely. -/
def Reads {α : Type} (write : α → Json) (read : Json → Option α) (a : α) : Prop :=
  ∀ {j : Json}, Loosened IsRecord (write a) j → read j = some a

namespace Reads

/-- A list is read back if each of its elements is. -/
theorem list {α : Type} {write : α → Json} {read : Json → Option α} {P : α → Prop}
    (reads : ∀ {a}, P a → Reads write read a) {values : List α} (fits : ∀ a ∈ values, P a) :
    Reads (ofList write) (list? read) values := by
  intro j loosened
  obtain ⟨elements, rfl, all⟩ : ∃ elements, j = .array elements ∧
      List.Forall₂ (Loosened IsRecord) (values.map write) elements := by
    cases loosened with
    | same => exact ⟨_, rfl, forall₂_same.mpr fun j _ => .same j⟩
    | array all => exact ⟨_, rfl, all⟩
  clear loosened
  show elements.mapM read = some values
  induction values generalizing elements with
  | nil =>
    cases all
    rfl
  | cons a values ih =>
    rw [forall_mem_cons] at fits
    obtain ⟨element, others, first, later, rfl⟩ := forall₂_cons_left_iff.mp all
    rw [mapM_cons, reads fits.1 first, ih fits.2 others later]
    rfl

protected theorem string {text : String} : Reads .string string? text := by
  intro j loosened
  cases loosened
  rfl

protected theorem bool {value : Bool} : Reads .bool bool? value := by
  intro j loosened
  cases loosened
  rfl

protected theorem natural {value : Nat} (fits : value < bound) : Reads .natural natural? value := by
  intro j loosened
  cases loosened
  exact if_pos fits

end Reads

end Json

/-! ### Numbers that can be written -/

/-- The numbers of an origin can be read. -/
def SurfaceOrigin.Fits : SurfaceOrigin → Prop
  | kernel | own => True
  | dependency index => index < Json.bound

structure SurfaceType.Fits (t : SurfaceType) : Prop where
  origin : t.origin.Fits
  index : t.index < Json.bound
  dimension : t.dimension < Json.bound

def SurfaceSpace.Fits (s : SurfaceSpace) : Prop := ∀ parent ∈ s.parent, parent < Json.bound

structure SurfaceFunction.Fits (f : SurfaceFunction) : Prop where
  params : ∀ p ∈ f.params, p.type.Fits
  returns : ∀ t ∈ f.returns, t.Fits

structure SurfaceMethod.Fits (m : SurfaceMethod) : Prop where
  space : m.space < Json.bound
  functions : ∀ f ∈ m.functions, f.Fits

structure SurfaceClass.Fits (c : SurfaceClass) : Prop where
  space : c.space < Json.bound
  parent : c.parent.Fits
  interfaces : ∀ t ∈ c.interfaces, t.Fits
  fields : ∀ m ∈ c.fields, m.type.Fits
  methods : ∀ m ∈ c.methods, m.Fits
  constructors : ∀ f ∈ c.constructors, f.Fits

structure SurfaceInterface.Fits (i : SurfaceInterface) : Prop where
  space : i.space < Json.bound
  inherits : ∀ t ∈ i.inherits, t.Fits
  methods : ∀ m ∈ i.methods, m.Fits

structure SurfaceDelegate.Fits (d : SurfaceDelegate) : Prop where
  space : d.space < Json.bound
  params : ∀ p ∈ d.params, p.type.Fits
  returns : ∀ t ∈ d.returns, t.Fits

structure SurfaceCoroutine.Fits (c : SurfaceCoroutine) : Prop where
  space : c.space < Json.bound
  returns : ∀ t ∈ c.returns, t.Fits

structure SurfaceVariable.Fits (v : SurfaceVariable) : Prop where
  space : v.space < Json.bound
  type : v.type.Fits

/-- All numbers of a surface take 32 bits at most. -/
structure Surface.Fits (s : Surface) : Prop where
  spaces : ∀ space ∈ s.spaces, space.Fits
  classes : ∀ c ∈ s.classes, c.Fits
  interfaces : ∀ i ∈ s.interfaces, i.Fits
  delegates : ∀ d ∈ s.delegates, d.Fits
  coroutines : ∀ c ∈ s.coroutines, c.Fits
  globals : ∀ v ∈ s.globals, v.Fits
  methods : ∀ m ∈ s.methods, m.Fits
  natives : ∀ m ∈ s.natives, m.Fits

/-! ### Surfaces written more loosely -/

open Json (IsRecord Loosened Reads lays_required exists_record?)

theorem Visibility.reads {v : Visibility} : Reads toJson ofJson? v := by
  intro j loosened
  cases loosened
  cases v <;> rfl

theorem TypeKind.reads {kind : TypeKind} : Reads toJson ofJson? kind := by
  intro j loosened
  cases loosened
  cases kind <;> rfl

theorem SurfaceOrigin.reads {origin : SurfaceOrigin} (fits : origin.Fits) :
    Reads toJson ofJson? origin := by
  intro j loosened
  cases origin with
  | kernel | own =>
    cases loosened
    rfl
  | dependency index =>
    cases loosened with
    | same =>
      have fits : index < Json.bound := fits
      show (if index < Json.bound then some index else none).map dependency = _
      rw [if_pos fits]
      rfl
    | object may => exact absurd rfl may

theorem SurfaceType.reads {t : SurfaceType} (fits : t.Fits) : Reads toJson ofJson? t := by
  intro j loosened
  obtain ⟨_, read, _ | ⟨origin, _ | ⟨kind, _ | ⟨index, _ | ⟨dimension, _ | _⟩⟩⟩⟩⟩ :=
    exists_record? layout loosened (lays_required rfl (by simp) (by simp))
  have origin := SurfaceOrigin.reads fits.origin origin
  have kind := TypeKind.reads kind
  have index := Reads.natural fits.index index
  have dimension := Reads.natural fits.dimension dimension
  simp [ofJson?, read, origin, kind, index, dimension]

theorem SurfaceSpace.reads {s : SurfaceSpace} (fits : s.Fits) : Reads toJson ofJson? s := by
  intro j loosened
  obtain ⟨_, read, _ | ⟨name, _ | ⟨parent, _ | _⟩⟩⟩ := exists_record? layout loosened
    ⟨.cons ⟨rfl, by simp⟩ (.cons ⟨rfl, fun _ => rfl⟩ .nil), by simp⟩
  rename_i _ parentValue
  have name := Reads.string name
  have parent : parentValue.option? Json.natural? = some s.parent := by
    cases isParent : s.parent with
    | none =>
      rw [isParent] at parent
      cases parent
      rfl
    | some space =>
      rw [isParent] at parent
      cases parent
      show (if space < Json.bound then some space else none).map some = _
      rw [if_pos (fits space isParent)]
      rfl
  simp [ofJson?, read, name, parent]

theorem SurfaceParameter.reads {p : SurfaceParameter} (fits : p.type.Fits) :
    Reads toJson ofJson? p := by
  intro j loosened
  obtain ⟨_, read, _ | ⟨name, _ | ⟨type, _ | _⟩⟩⟩ :=
    exists_record? layout loosened (lays_required rfl (by simp) (by simp))
  have name := Reads.string name
  have type := SurfaceType.reads fits type
  simp [ofJson?, read, name, type]

theorem SurfaceFunction.reads {f : SurfaceFunction} (fits : f.Fits) : Reads toJson ofJson? f := by
  intro j loosened
  obtain ⟨_, read, _ | ⟨visibility, _ | ⟨params, _ | ⟨returns, _ | _⟩⟩⟩⟩ :=
    exists_record? layout loosened (lays_required rfl (by simp) (by simp))
  have visibility := Visibility.reads visibility
  have params := Reads.list SurfaceParameter.reads fits.params params
  have returns := Reads.list SurfaceType.reads fits.returns returns
  simp [ofJson?, read, visibility, params, returns]

theorem SurfaceMethod.reads {m : SurfaceMethod} (fits : m.Fits) : Reads toJson ofJson? m := by
  intro j loosened
  obtain ⟨_, read, _ | ⟨name, _ | ⟨space, _ | ⟨functions, _ | _⟩⟩⟩⟩ :=
    exists_record? layout loosened (lays_required rfl (by simp) (by simp))
  have name := Reads.string name
  have space := Reads.natural fits.space space
  have functions := Reads.list SurfaceFunction.reads fits.functions functions
  simp [ofJson?, read, name, space, functions]

theorem SurfaceMember.reads {m : SurfaceMember} (fits : m.type.Fits) : Reads toJson ofJson? m := by
  intro j loosened
  obtain ⟨_, read, _ | ⟨name, _ | ⟨visibility, _ | ⟨type, _ | _⟩⟩⟩⟩ :=
    exists_record? layout loosened (lays_required rfl (by simp) (by simp))
  have name := Reads.string name
  have visibility := Visibility.reads visibility
  have type := SurfaceType.reads fits type
  simp [ofJson?, read, name, visibility, type]

theorem SurfaceClass.reads {c : SurfaceClass} (fits : c.Fits) : Reads toJson ofJson? c := by
  intro j loosened
  obtain ⟨_, read, _ | ⟨name, _ | ⟨space, _ | ⟨parent, _ | ⟨interfaces, _ | ⟨fields,
      _ | ⟨methods, _ | ⟨constructors, _ | _⟩⟩⟩⟩⟩⟩⟩⟩ :=
    exists_record? layout loosened (lays_required rfl (by simp) (by simp [SurfaceType.toJson]))
  have name := Reads.string name
  have space := Reads.natural fits.space space
  have parent := SurfaceType.reads fits.parent parent
  have interfaces := Reads.list SurfaceType.reads fits.interfaces interfaces
  have fields := Reads.list SurfaceMember.reads fits.fields fields
  have methods := Reads.list SurfaceMethod.reads fits.methods methods
  have constructors := Reads.list SurfaceFunction.reads fits.constructors constructors
  simp [ofJson?, read, name, space, parent, interfaces, fields, methods, constructors]

theorem SurfaceInterface.reads {i : SurfaceInterface} (fits : i.Fits) : Reads toJson ofJson? i := by
  intro j loosened
  obtain ⟨_, read, _ | ⟨name, _ | ⟨space, _ | ⟨inherits, _ | ⟨methods, _ | _⟩⟩⟩⟩⟩ :=
    exists_record? layout loosened (lays_required rfl (by simp) (by simp))
  have name := Reads.string name
  have space := Reads.natural fits.space space
  have inherits := Reads.list SurfaceType.reads fits.inherits inherits
  have methods := Reads.list SurfaceMethod.reads fits.methods methods
  simp [ofJson?, read, name, space, inherits, methods]

theorem SurfaceDelegate.reads {d : SurfaceDelegate} (fits : d.Fits) : Reads toJson ofJson? d := by
  intro j loosened
  obtain ⟨_, read, _ | ⟨name, _ | ⟨space, _ | ⟨params, _ | ⟨returns, _ | _⟩⟩⟩⟩⟩ :=
    exists_record? layout loosened (lays_required rfl (by simp) (by simp))
  have name := Reads.string name
  have space := Reads.natural fits.space space
  have params := Reads.list SurfaceParameter.reads fits.params params
  have returns := Reads.list SurfaceType.reads fits.returns returns
  simp [ofJson?, read, name, space, params, returns]

theorem SurfaceCoroutine.reads {c : SurfaceCoroutine} (fits : c.Fits) : Reads toJson ofJson? c := by
  intro j loosened
  obtain ⟨_, read, _ | ⟨name, _ | ⟨space, _ | ⟨returns, _ | _⟩⟩⟩⟩ :=
    exists_record? layout loosened (lays_required rfl (by simp) (by simp))
  have name := Reads.string name
  have space := Reads.natural fits.space space
  have returns := Reads.list SurfaceType.reads fits.returns returns
  simp [ofJson?, read, name, space, returns]

theorem SurfaceVariable.reads {v : SurfaceVariable} (fits : v.Fits) : Reads toJson ofJson? v := by
  intro j loosened
  obtain ⟨_, read, _ | ⟨name, _ | ⟨space, _ | ⟨constant, _ | ⟨type, _ | _⟩⟩⟩⟩⟩ :=
    exists_record? layout loosened (lays_required rfl (by simp) (by simp))
  have name := Reads.string name
  have space := Reads.natural fits.space space
  have constant := Reads.bool constant
  have type := SurfaceType.reads fits.type type
  simp [ofJson?, read, name, space, constant, type]

/-- A surface is read back from the value that is written for it, also when unknown fields are
added to its records and the null parents of its spaces are left out. -/
theorem Surface.survives_json (s : Surface) (fits : s.Fits) :
    ofJson? s.toJson = some s ∧ ∀ j, Loosened IsRecord s.toJson j → ofJson? j = some s := by
  suffices survives : ∀ j, Loosened IsRecord s.toJson j → ofJson? j = some s from
    ⟨survives s.toJson (.same _), survives⟩
  intro j loosened
  obtain ⟨_, read, _ | ⟨name, _ | ⟨dependencies, _ | ⟨spaces, _ | ⟨classes, _ | ⟨interfaces,
      _ | ⟨delegates, _ | ⟨coroutines, _ | ⟨globals, _ | ⟨methods, _ | ⟨natives, _ | _⟩⟩⟩⟩⟩⟩⟩⟩⟩⟩⟩ :=
    exists_record? layout loosened (lays_required rfl (by simp) (by simp))
  have name := Reads.string name
  have dependencies := Reads.list (fun _ => Reads.string) (fun _ _ => trivial) dependencies
  have spaces := Reads.list SurfaceSpace.reads fits.spaces spaces
  have classes := Reads.list SurfaceClass.reads fits.classes classes
  have interfaces := Reads.list SurfaceInterface.reads fits.interfaces interfaces
  have delegates := Reads.list SurfaceDelegate.reads fits.delegates delegates
  have coroutines := Reads.list SurfaceCoroutine.reads fits.coroutines coroutines
  have globals := Reads.list SurfaceVariable.reads fits.globals globals
  have methods := Reads.list SurfaceMethod.reads fits.methods methods
  have natives := Reads.list SurfaceMethod.reads fits.natives natives
  simp [ofJson?, read, name, dependencies, spaces, classes, interfaces, delegates, coroutines,
    globals, methods, natives]

namespace Sample

/-- A variable with a type of another library. -/
def parcels : Surface :=
  { Surface.empty "Parcels" with
    dependencies := ["Base"], globals := [⟨"origin", 0, false, ⟨.dependency 0, .handle, 2, 0⟩⟩] }

/-- The type of the variable, with a field added to it and fields added to its origin. -/
def parcelType (added : List (String × Json)) : Json :=
  .object [("library", .object (("Dependency", .natural 0) :: added)), ("code", .string "Handle"),
    ("hint", .null), ("index", .natural 2), ("dimension", .natural 0)]

/-- The surface with a field added to it, with the parent of the root left out, and with the type
of the variable in another form. -/
def parcelsWith (type : Json) : Json :=
  .object [("note", .bool true), ("name", .string "Parcels"),
    ("dependencies", .array [.string "Base"]), ("spaces", .array [.object [("name", .string "")]]),
    ("definitions", .array []), ("interfaces", .array []), ("delegates", .array []),
    ("coroutines", .array []),
    ("variables", .array [.object [("name", .string "origin"), ("space", .natural 0),
      ("constant", .bool false), ("ty", type)]]),
    ("methods", .array []), ("natives", .array [])]

theorem parcels_fits : parcels.Fits :=
  have small : ∀ n < 3, n < Json.bound := fun n less => less.trans (by decide)
  have none {α : Type} {P : α → Prop} : ∀ a ∈ [], P a := forall_mem_nil P
  have root : SurfaceSpace.Fits ⟨"", .none⟩ := fun _ isParent =>
    (Option.not_mem_none _ isParent).elim
  ⟨forall_mem_singleton.2 root, none, none, none, none,
    forall_mem_singleton.2 ⟨small 0 (by decide), small 0 (by decide), small 2 (by decide),
      small 0 (by decide)⟩, none, none⟩

theorem parcels_loosened {open_ : List String → Prop}
    (records : ∀ names, IsRecord names → open_ names) {added : List (String × Json)}
    (origin : Loosened open_ (.object [("Dependency", .natural 0)])
      (.object (("Dependency", .natural 0) :: added))) :
    Loosened open_ parcels.toJson (parcelsWith (parcelType added)) := by
  have root : Loosened open_ (.object [("name", .string ""), ("parent", .null)])
      (.object [("name", .string "")]) :=
    .object (records _ (by simp [IsRecord])) (disjoint_nil_left _)
      (.keep (.same _) (.drop .nil))
  have type : Loosened open_ (SurfaceType.toJson ⟨.dependency 0, .handle, 2, 0⟩)
      (parcelType added) :=
    .object (records _ (by simp [IsRecord])) (by simp)
      (.keep origin (.keep (.same _) (.extra "hint" _ (.keep (.same _) (.keep (.same _) .nil)))))
  have global : Loosened open_
      (SurfaceVariable.toJson ⟨"origin", 0, false, ⟨.dependency 0, .handle, 2, 0⟩⟩) _ :=
    .object (records _ (by simp [IsRecord])) (disjoint_nil_left _)
      (.keep (.same _) (.keep (.same _) (.keep (.same _) (.keep type .nil))))
  exact .object (records _ (by simp [IsRecord])) (by simp)
    (.extra "note" _ (.keep (.same _) (.keep (.same _) (.keep (.array (.cons root .nil))
      (.keep (.same _) (.keep (.same _) (.keep (.same _) (.keep (.same _)
        (.keep (.array (.cons global .nil)) (.keep (.same _) (.keep (.same _) .nil)))))))))))

end Sample

open Sample in
theorem Surface.survives_json_parcels :
    parcels.Fits ∧ Loosened IsRecord parcels.toJson (parcelsWith (parcelType [])) ∧
      ofJson? parcels.toJson = some parcels ∧
      ofJson? (parcelsWith (parcelType [])) = some parcels :=
  have loosened := parcels_loosened (fun _ => id) (.same _)
  ⟨parcels_fits, loosened, (survives_json parcels parcels_fits).1,
    (survives_json parcels parcels_fits).2 _ loosened⟩

open Sample in
/-- A field that is added to the object for the origin of a type makes the surface unreadable. -/
theorem Surface.extended_origin_refused : parcels.Fits ∧
      Loosened (fun _ => True) parcels.toJson (parcelsWith (parcelType [("note", .natural 1)])) ∧
      ofJson? (parcelsWith (parcelType [("note", .natural 1)])) = none := by
  refine ⟨parcels_fits, parcels_loosened (fun _ _ => trivial) ?_, by cbv⟩
  exact .object trivial (by simp) (.keep (.same _) (.extra "note" _ .nil))

end Linkage
