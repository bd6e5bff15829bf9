/-
Purpose: Which types derive from which, and how far apart they are.
-/
import Linkage.Catalog.Basic

namespace Linkage.Catalog

/-! ### Going up from type to parent -/

/-- The next type on the way up, where there is one. -/
def nextParent (c : Catalog) (id : TypeId) : Option TypeId :=
  let parent := (c.parent id).id
  if parent.isValid then some parent else none

/-- Every type that is the parent of some type. -/
def parents (c : Catalog) : List TypeId :=
  [TypeId.interface, TypeId.delegate, TypeId.coroutine] ++
    c.tables.flatMap fun t => t.classes.map (·.parent.id)

/-- A type and the types above it, nearest first.  A type that is met again ends the
chain. -/
def typeChain (c : Catalog) (id : TypeId) : List TypeId :=
  if id.isValid then Walk.chain c.nextParent (id :: c.parents) id else []

/-- The types above a type, nearest first.  The type itself is among them only if it is
its own ancestor. -/
def ancestors (c : Catalog) (id : TypeId) : List TypeId :=
  match c.nextParent id with
  | none => []
  | some parent => Walk.chain c.nextParent c.parents parent

/-- The first result of `f` on the types above a type, nearest first. -/
def searchAncestors {β : Type} (c : Catalog) (id : TypeId) (f : TypeId → Option β) : Option β :=
  (c.nextParent id).bind (Walk.search c.nextParent f c.parents)

theorem searchAncestors_eq_findSome? {β : Type} (c : Catalog) (id : TypeId)
    (f : TypeId → Option β) : c.searchAncestors id f = (c.ancestors id).findSome? f := by
  unfold searchAncestors ancestors
  cases c.nextParent id with
  | none => rfl
  | some parent => exact Walk.search_eq_findSome? c.nextParent f c.parents parent

/-! ### Going up from interface to interface -/

/-- The interfaces in a list of types.  An array of interfaces is not one. -/
def scalarInterfaces (types : List TypeRef) : List TypeId :=
  types.filterMap fun type =>
    if type.isArray = false ∧ type.id.kind = .interface then some type.id else none

/-- The interfaces that an interface inherits directly. -/
def baseInterfaces (c : Catalog) (id : TypeId) : List TypeId :=
  ((c.interfaceDef? id).map fun i => scalarInterfaces i.inherits).getD []

/-- Every type that some interface inherits. -/
def inherited (c : Catalog) : List TypeId :=
  c.tables.flatMap fun t => t.interfaces.flatMap fun i => i.inherits.map (·.id)

/-- The interfaces that can be reached from some interfaces, nearest first, with the
number of steps to each. -/
def interfaceLevels (c : Catalog) (start : List TypeId) : List (TypeId × Nat) :=
  Walk.levels c.baseInterfaces (start ++ c.inherited) (start.map fun id => (id, 0))

/-- The interfaces that a type names itself: an interface names itself, and a class those
in its inheritance list. -/
def ownInterfaces (c : Catalog) (id : TypeId) : List TypeId :=
  if id.kind = .interface then [id]
  else ((c.classDef? id).map fun d => scalarInterfaces d.interfaces).getD []

/-- Every interface that a type names, directly or through base interfaces, nearest
first. -/
def interfaceClosure (c : Catalog) (id : TypeId) : List TypeId :=
  (c.interfaceLevels (c.ownInterfaces id)).map (·.1)

/-- The number of steps from some interfaces up to another. -/
def interfaceDepth (c : Catalog) (base : TypeId) (start : List TypeId) : Option Nat :=
  (c.interfaceLevels start).lookup base

/-! ### Depth -/

/-- The steps from the first type of a chain up to `base`, where an interface can be
reached from every type of the chain.  The first type from which it can be reached
decides. -/
def chainDepth (c : Catalog) (base : TypeId) : List TypeId → Option Nat
  | [] => none
  | id :: above =>
    if id = base then some 0
    else
      let implemented :=
        if base.kind = .interface ∧ id.kind.isDefinition then
          (c.interfaceDepth base (c.ownInterfaces id)).map (· + 1)
        else none
      match implemented with
      | some depth => some depth
      | none => (c.chainDepth base above).map (· + 1)

/-- The number of steps from `sub` up to `base`, if a value of type `sub` can be used
where one of type `base` is expected. -/
def inheritDepth (c : Catalog) (base sub : TypeRef) : Option Nat :=
  if ¬base.isValid ∨ ¬sub.isValid then none
  else if base = sub then some 0
  else if sub.isArray then
    -- Arrays of all element types are `array`s, and these are handles.
    if base = TypeId.array.scalar then some 1
    else if base = TypeId.handle.scalar then some 2
    else none
  else if base.isArray then none
  else
    match sub.id.kind with
    | .invalid | .struct => none
    | .handle => c.chainDepth base.id (c.typeChain sub.id)
    | .interface | .delegate | .coroutine =>
      if sub.id.kind = .interface ∧ base.id.kind = .interface then
        c.interfaceDepth base.id [sub.id]
      else if base.id = (c.parent sub.id).id then some 1
      else if base.id = TypeId.handle then some 2
      else none

/-- Whether `sub` is `base` or derives from it. -/
def isSubtype (c : Catalog) (base sub : TypeId) : Bool :=
  (c.inheritDepth base.scalar sub.scalar).isSome

/-! ### Overridden methods -/

/-- The nearest method of a name above a type: up the parents of a class, or through the
base interfaces of an interface. -/
def overriddenMethod (c : Catalog) (owner : TypeId) (name : String) : Option Declaration :=
  match owner.kind with
  | .handle => c.searchAncestors owner fun id =>
    if id.kind.isDefinition then c.findMethod id name else none
  | .interface =>
    let next := fun id => ((c.interfaceDef? id).map fun i => i.inherits.map (·.id)).getD []
    let start := next owner
    let reached := Walk.levels next (start ++ c.inherited) (start.map fun id => (id, 0))
    reached.findSome? fun (id, _) =>
      (c.interfaceDef? id).bind fun i => (i.members.find? name).filter fun d => d.entity.isMethod
  | _ => none

def classIds (c : Catalog) : List TypeId :=
  c.tables.flatMap fun t => t.classes.mapIdx fun i d => ⟨t.home, d.kind, i⟩

/-- The methods of a name above a type, nearest first, going on from the owner of each to
the next.  `room` holds the owners that have not been passed yet. -/
def overriddenFrom (c : Catalog) (name : String) (room : List TypeId) (above : TypeId) :
    List Declaration :=
  match c.overriddenMethod above name with
  | none => []
  | some group =>
    match c.ownerType group with
    | none => []
    | some base =>
      if base ≠ above ∧ base ∈ room then
        group :: overriddenFrom c name (Walk.without room base) base
      else [group]
termination_by room.length
decreasing_by
  rename_i h
  exact Walk.length_without_lt h.2

/-- The methods of a name that functions of a type can override. -/
def overriddenMethods (c : Catalog) (owner : TypeId) (name : String) : List Declaration :=
  c.overriddenFrom name c.classIds owner

/-! ### Implementations -/

/-- The first function of a name with exactly the given parameter types, going up from a
type. -/
def findImplementation (c : Catalog) (owner : TypeId) (name : String) (required : Function) :
    Option (Declaration × Function) :=
  (c.typeChain owner).findSome? fun id =>
    (c.findMethod id name).bind fun group =>
      (((c.overloads group).getD []).zipIdx.find? fun (f, _) => f.sameParams required).bind
        fun (f, i) => (group.overload? i).map fun d => ({ d with visibility := f.visibility }, f)

end Linkage.Catalog
