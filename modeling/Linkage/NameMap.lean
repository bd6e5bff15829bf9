/-
Purpose: Finite maps keyed by name, in the order of first insertion.
-/

namespace Linkage

/-- A finite map from names.  The entries stand in the order in which their names
first came in, and no operation gives a name a second entry. -/
structure NameMap (α : Type) where
  /-- The entries, each name with its value. -/
  entries : List (String × α) := []
deriving DecidableEq

namespace NameMap

variable {α β : Type}

def empty : NameMap α := ⟨[]⟩

def find? (m : NameMap α) (name : String) : Option α := m.entries.lookup name

def contains (m : NameMap α) (name : String) : Bool := (m.find? name).isSome

/-- Store a value under a name.  A value that the name had before is replaced. -/
def insert (m : NameMap α) (name : String) (value : α) : NameMap α :=
  if m.contains name then
    ⟨m.entries.map fun entry => if entry.1 = name then (name, value) else entry⟩
  else
    ⟨m.entries ++ [(name, value)]⟩

/-- Change the value stored under a name, if there is one. -/
def modify (m : NameMap α) (name : String) (f : α → α) : NameMap α :=
  ⟨m.entries.map fun entry => if entry.1 = name then (entry.1, f entry.2) else entry⟩

/-- The values, in the order of their entries. -/
def values (m : NameMap α) : List α := m.entries.map (·.2)

end NameMap

end Linkage
