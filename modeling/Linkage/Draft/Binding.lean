/-
Purpose: Which function runs when an inherited function or one of an interface is called.
-/
import Linkage.Catalog.Conversion
import Linkage.Draft.Basic

namespace Linkage

/-- An entry of the dispatch table of a class. -/
structure Binding where
  type : TypeId
  /-- What a call names: a function of an ancestor or of an interface. -/
  base : Declaration
  /-- What the call runs. -/
  implementation : Declaration
deriving DecidableEq, Repr

namespace Draft

/-- Bind a function to what it overrides in one method above its class: the function that
is not private and has exactly its signature.  The same parameters with other returns are
reported. -/
def bindOverride (d : Draft) (c : Catalog) (owner : TypeId) (f : Function)
    (implementation group : Declaration) : Reported (List Binding) :=
  let overridable := fun (base : Declaration) => decide (base.visibility ≠ .private_)
  match c.selectFunctionWhere overridable group f.paramTypes (some f.returns) with
  | some found => pure [⟨owner, found.declaration, implementation⟩]
  | none => do
    let clash := ((c.overloads group).getD []).zipIdx.find? fun (base, _) =>
      base.visibility ≠ .private_ && base.sameParams f
    match clash, f.source with
    | some (base, o), some source =>
      d.reportAt source.anchor (.overrideMismatch (c.fullName implementation)
        (((group.overload? o).map c.fullName).getD "")
        (c.typeListName f.returns) (c.typeListName base.returns))
    | _, _ => pure ()
    return []

/-- The bindings of one function of a class to all that it overrides. -/
def bindFunction (d : Draft) (c : Catalog) (owner : TypeId) (name : String) (f : Function)
    (implementation : Declaration) : Reported (List Binding) := do
  let bound ← Noted.traverse (d.bindOverride c owner f implementation)
    (c.overriddenMethods owner name)
  return bound.flatten

/-- The bindings of the functions of a class. -/
def overrideBindings (d : Draft) (c : Catalog) (owner : TypeId) (definition : ClassDef) :
    Reported (List Binding) := do
  let functions := definition.methods.zipIdx.flatMap fun (m, position) =>
    m.functions.zipIdx.map fun (f, o) =>
      (m.name, f, (⟨.here, f.visibility, .memberFunction owner.index position o⟩ : Declaration))
  let bound ← Noted.traverse (fun (name, f, d') => d.bindFunction c owner name f d') functions
  return bound.flatten

/-- The bindings of the functions of the interfaces of a class.  An implementation with
other returns has been reported before and is left out. -/
def interfaceBindings (c : Catalog) (owner : TypeId) : List Binding :=
  (c.interfaceClosure owner).flatMap fun id =>
    match c.interfaceDef? id with
    | none => []
    | some i =>
      i.methods.flatMap fun m =>
        match i.members.find? m.name with
        | none => []
        | some group =>
          m.functions.zipIdx.filterMap fun (required, o) =>
            (group.overload? o).bind fun base =>
              (c.findImplementation owner m.name required).bind fun (implementation, found) =>
                if found.returns = required.returns then some ⟨owner, base, implementation⟩
                else none

def bindings (d : Draft) (relies : List Table) : Reported (List Binding) := do
  let c := d.catalog relies
  let bound ← Noted.traverse (fun (definition, i) => do
    let owner : TypeId := ⟨.here, definition.kind, i⟩
    return (← d.overrideBindings c owner definition) ++ interfaceBindings c owner)
    d.table.classes.zipIdx
  return bound.flatten

end Draft

end Linkage
