/-
Purpose: JSON values, and reading records and variants out of them.
-/

/-!
Numbers are kept apart by how they are written: a plain natural number is a `natural`, any
other number keeps its text.  Objects keep all their fields in order, repeated ones too.
Escapes can spell half of a character, and a string with such a half is no text.  It has
the form of a value all the same, so that it can stand where nobody reads it.
-/

namespace Linkage

inductive Json where
  | null
  | bool (value : Bool)
  /-- A number written with digits alone. -/
  | natural (value : Nat)
  /-- A number with a sign, a fraction or an exponent. -/
  | number (text : String)
  | string (value : String)
  | array (elements : List Json)
  | object (fields : List (String × Json))
  /-- A string that is no text, or an object with a field name that is none. -/
  | garbled
deriving Inhabited

namespace Json

/-! ### Reading -/

def bool? : Json → Option Bool
  | bool value => some value
  | _ => none

def string? : Json → Option String
  | string value => some value
  | _ => none

/-- The numbers below this bound can be read. -/
def bound : Nat := 0x100000000

/-- A natural number that fits into 32 bits. -/
def natural? : Json → Option Nat
  | natural value => if value < bound then some value else none
  | _ => none

/-- The elements of an array, each read by `f`. -/
def list? {α : Type} (f : Json → Option α) : Json → Option (List α)
  | array elements => elements.mapM f
  | _ => none

/-- A value that may be null. -/
def option? {α : Type} (f : Json → Option α) : Json → Option (Option α)
  | null => some none
  | j => (f j).map some

/-- The values of a name in an object, in order. -/
def valuesOf (name : String) (fields : List (String × Json)) : List Json :=
  fields.filterMap fun field => if field.1 = name then some field.2 else none

/-- A field of a record. -/
structure Field where
  name : String
  /-- Whether the field may be left out, which then means null. -/
  optional : Bool := false

/-- Fields that may not be left out. -/
def required (names : List String) : List Field := names.map fun name => { name }

/-- The value of a field.  A field that stands twice is refused. -/
def Field.of (field : Field) (fields : List (String × Json)) : Option Json :=
  match valuesOf field.name fields with
  | [value] => some value
  | [] => if field.optional then some null else none
  | _ => none

/-- The values of the fields of a record.  A record is written as an object, in which
unknown fields are passed over, or as an array with all values in order. -/
def record? (layout : List Field) : Json → Option (List Json)
  | object fields => layout.mapM fun field => field.of fields
  | array elements => if elements.length = layout.length then some elements else none
  | _ => none

/-- The name of a variant and its content.  A variant without content is written as its
name alone, or with null as its content. -/
def variant? : Json → Option (String × Option Json)
  | string name => some (name, none)
  | object [(name, content)] => some (name, some content)
  | _ => none

/-- The name of a variant without content. -/
def plainVariant? (j : Json) : Option String :=
  match j.variant? with
  | some (name, none) | some (name, some null) => some name
  | _ => none

/-! ### Writing -/

def ofList {α : Type} (f : α → Json) (values : List α) : Json := array (values.map f)

/-- A value, or null for none. -/
def ofOption {α : Type} (f : α → Json) : Option α → Json
  | none => null
  | some value => f value

end Json

end Linkage
