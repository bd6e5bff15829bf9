/-
Purpose: Addresses of variables.
-/
import Linkage.Table.Basic

/-!
Constants and other variables live in two regions.  The variables of a class are placed
in a block of their own: the class above may belong to another library, so its block is
not counted.
-/

namespace Linkage

/-- The sizes of the two regions in bytes. -/
structure Layout where
  constantSize : Nat
  dataSize : Nat
deriving DecidableEq, Repr

/-- What the address of a slot is a multiple of: its size, but between 1 and 8. -/
def alignment (size : Nat) : Nat := if size < 1 then 1 else if 8 < size then 8 else size

/-- The first aligned address that is not below an offset. -/
def align (offset size : Nat) : Nat :=
  (offset + (alignment size - 1)) / alignment size * alignment size

/-- Place the variables of a class one after the other from an offset; the offset after the
last comes with them. -/
def placeMembers (offset : Nat) : List MemberVariable → List MemberVariable × Nat
  | [] => ([], offset)
  | v :: rest =>
    let start := align offset v.type.slotSize
    let (placed, stop) := placeMembers (start + v.type.slotSize) rest
    ({ v with offset := start } :: placed, stop)

/-- Place the variables of spaces one after the other, each in its region. -/
def placeVariables (layout : Layout) : List VariableDef → List VariableDef × Layout
  | [] => ([], layout)
  | v :: rest =>
    let start := align (if v.constant then layout.constantSize else layout.dataSize) v.type.slotSize
    let stop := start + v.type.slotSize
    let layout :=
      if v.constant then { layout with constantSize := stop } else { layout with dataSize := stop }
    let (placed, layout) := placeVariables layout rest
    ({ v with address := start } :: placed, layout)

def Table.assignAddresses (t : Table) : Table × Layout :=
  let (globals, layout) := placeVariables ⟨0, 0⟩ t.globals
  let classes := t.classes.map fun c =>
    let (placed, size) := placeMembers 0 c.fields
    { c with fields := placed, size }
  ({ t with globals, classes }, layout)

end Linkage
