/-
Purpose: Resolving every name that the declarations of a library refer to.
-/
import Linkage.Draft.Inheritance

namespace Linkage.Draft

/-- The type that an expression stands for; one that cannot be found stays open. -/
def linkType (s : Scope) (e : TypeExpr) : Reported TypeRef := do
  return (← s.findType e).getD .invalid

/-- Write types into parameters, one after the other. -/
def fillTypes : List Parameter → List TypeRef → List Parameter
  | p :: params, type :: types => { p with type } :: fillTypes params types
  | params, _ => params

/-- The parameter types and then the return types of a signature. -/
def linkSource (d : Draft) (relies : List Table) (space : Nat) (source : FunctionSource) :
    Reported (List TypeRef × List TypeRef) := do
  let s := d.scope relies space none source.anchor
  let params ← Noted.traverse (linkType s) source.params
  let returns ← Noted.traverse (linkType s) source.returns
  return (params, returns)

def linkFunction (d : Draft) (relies : List Table) (space : Nat) (f : Function) :
    Reported Function :=
  match f.source with
  | none => pure f
  | some source => do
    let (params, returns) ← d.linkSource relies space source
    return { f with params := fillTypes f.params params, returns }

def linkMethod (d : Draft) (relies : List Table) (space : Nat) (m : Method) : Reported Method := do
  return { m with functions := ← Noted.traverse (d.linkFunction relies space) m.functions }

def linkMember (d : Draft) (relies : List Table) (space : Nat) (v : MemberVariable) :
    Reported MemberVariable :=
  match v.source with
  | none => pure v
  | some source => do
    return { v with type := ← linkType (d.scope relies space none source.anchor) source.type }

def linkVariable (d : Draft) (relies : List Table) (v : VariableDef) : Reported VariableDef :=
  match v.source with
  | none => pure v
  | some source => do
    return { v with type := ← linkType (d.scope relies v.space none source.anchor) source.type }

/-- Link the members of a class: variables, then methods, then constructors. -/
def linkMembers (d : Draft) (relies : List Table) (c : ClassDef) : Reported ClassDef := do
  let fields ← Noted.traverse (d.linkMember relies c.space) c.fields
  let methods ← Noted.traverse (d.linkMethod relies c.space) c.methods
  let constructors ← Noted.traverse (d.linkFunction relies c.space) c.constructors
  return { c with fields, methods, constructors }

def linkDelegate (d : Draft) (relies : List Table) (x : DelegateDef) : Reported DelegateDef :=
  match x.source with
  | none => pure x
  | some source => do
    let (params, returns) ← d.linkSource relies x.space source
    return { x with params := fillTypes x.params params, returns }

def linkCoroutine (d : Draft) (relies : List Table) (x : CoroutineDef) : Reported CoroutineDef :=
  match x.source with
  | none => pure x
  | some source => do
    let (_, returns) ← d.linkSource relies x.space source
    return { x with returns }

def linkSignatures (d : Draft) (relies : List Table) : Reported Draft := do
  let classes ← Noted.traverse (d.linkMembers relies) d.table.classes
  let interfaces ← Noted.traverse (fun i => do
    return { i with methods := ← Noted.traverse (d.linkMethod relies i.space) i.methods })
    d.table.interfaces
  let methods ← Noted.traverse (fun m => d.linkMethod relies m.space m) d.table.methods
  let natives ← Noted.traverse (fun m => d.linkMethod relies m.space m) d.table.natives
  let delegates ← Noted.traverse (d.linkDelegate relies) d.table.delegates
  let coroutines ← Noted.traverse (d.linkCoroutine relies) d.table.coroutines
  let globals ← Noted.traverse (d.linkVariable relies) d.table.globals
  return { d with table := { d.table with
    classes, interfaces, methods, natives, delegates, coroutines, globals } }

/-- Link a draft: its imports, its inheritance lists without cycles, and its types. -/
def link (d : Draft) (relies : List Table) : Reported Draft := do
  let d ← d.linkImports relies
  let d ← d.linkInherits relies
  let d ← d.breakClassCycles
  let d ← d.breakInterfaceCycles
  d.linkSignatures relies

end Linkage.Draft
