/-
Purpose: What it costs to pass a value, and which overload is the cheapest.
-/
import Linkage.Catalog.Inheritance

namespace Linkage

/-- The implicit widenings of numbers and vectors, with their costs. -/
def widenings : List (TypeId × TypeId × Nat) :=
  [(.integer, .real, 0xff), (.real2, .real3, 0xff), (.real3, .real4, 0xff), (.real2, .real4, 0x1ff)]

def wideningCost (source target : TypeId) : Option Nat :=
  (widenings.find? fun w => w.1 = source ∧ w.2.1 = target).map fun w => w.2.2

/-- The largest cost; costs that add up to more stay there. -/
def maxCost : Nat := 0xFFFFFFFF

def addCost (a b : Nat) : Nat := if a + b ≤ maxCost then a + b else maxCost

/-- The overload that was selected, and what the call costs. -/
structure Selection where
  declaration : Declaration
  cost : Nat
deriving DecidableEq, Repr

namespace Catalog

/-- The cost of passing a `sub` where a `base` is expected.  Null can be passed for any
reference. -/
def conversionCost (c : Catalog) (base sub : TypeRef) : Option Nat :=
  if base = sub ∧ base.isValid then some 0
  else if sub = TypeId.null.scalar then
    if base.isReference then some 0 else none
  else
    let widening := if base.isArray ∨ sub.isArray then none else wideningCost sub.id base.id
    match widening with
    | some cost => some cost
    | none => c.inheritDepth base sub

/-- The cost of a call: the sum over the parameters, if there is an argument for each. -/
def callCost (c : Catalog) : List TypeRef → List TypeRef → Option Nat
  | params, args =>
    if params.length ≠ args.length then none
    else (params.zip args).foldlM (fun total (param, arg) =>
      (c.conversionCost param arg).map (addCost total)) 0

/-- The better of two selections; the earlier one stays unless the later is cheaper. -/
def better (best : Option Selection) (next : Selection) : Option Selection :=
  match best with
  | none => some next
  | some s => if next.cost < s.cost then some next else some s

/-- The cheapest of the functions that can be called with some arguments.  `declare`
names a function by its position, or refuses it; of equally cheap ones the first wins. -/
def cheapest (c : Catalog) (declare : Nat → Function → Option Declaration)
    (functions : List Function) (args : List TypeRef) : Option Selection :=
  (functions.zipIdx.filterMap fun (f, i) =>
    (c.callCost f.paramTypes args).bind fun cost =>
      (declare i f).map fun d => ⟨d, cost⟩).foldl better none

/-- The first function with exactly the given parameters and returns that is not
refused. -/
def exact (declare : Nat → Function → Option Declaration)
    (functions : List Function) (params returns : List TypeRef) : Option Selection :=
  functions.zipIdx.findSome? fun (f, i) =>
    if f.paramTypes = params ∧ f.returns = returns then (declare i f).map fun d => ⟨d, 0⟩
    else none

/-- Select a function of a method among those that `accept` admits; each is offered with
its own visibility.  With expected returns only an exact match counts, without them the
cheapest call. -/
def selectFunctionWhere (c : Catalog) (accept : Declaration → Bool) (method : Declaration)
    (args : List TypeRef) (returns : Option (List TypeRef)) : Option Selection :=
  let group := method.group
  if group.entity.isMethod then
    let declare := fun i (f : Function) =>
      ((group.overload? i).map fun d => { d with visibility := f.visibility }).filter accept
    (c.overloads group).bind fun functions =>
      match returns with
      | some returns => exact declare functions args returns
      | none => c.cheapest declare functions args
  else none

def selectFunction (c : Catalog) (method : Declaration) (args : List TypeRef)
    (returns : Option (List TypeRef)) : Option Selection :=
  c.selectFunctionWhere (fun _ => true) method args returns

def selectConstructor (c : Catalog) (id : TypeId) (args : List TypeRef) : Option Selection :=
  (c.classDef? id).bind fun definition =>
    c.cheapest (fun i f => some ⟨id.home, f.visibility, .constructor id.index i⟩)
      definition.constructors args

end Catalog

end Linkage
