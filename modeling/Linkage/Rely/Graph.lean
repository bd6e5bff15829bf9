/-
Purpose: Which libraries rely on which, and building them in an order that works.
-/
import Linkage.Rely.Instance

namespace Linkage

/-- The libraries given to a compilation, and the name of the library being compiled. -/
structure RelyGraph where
  current : String
  libraries : List Surface

/-- The library being compiled, or one of those given to it. -/
inductive RelyNode where
  | current
  | rely (index : Nat)
deriving DecidableEq, Repr

/-- The order in which the neighbours of a library are visited. -/
def RelyNode.rank : RelyNode → Nat
  | current => 0
  | rely index => index + 1

namespace RelyGraph

/-- The library of a name.  Of several with one name, the first. -/
def node? (g : RelyGraph) (name : String) : Option RelyNode :=
  if name = g.current then some .current
  else (g.libraries.findIdx? fun s => s.name = name).map .rely

def nodeName (g : RelyGraph) : RelyNode → String
  | .current => g.current
  | .rely i => (g.libraries[i]?.map (·.name)).getD ""

/-- The libraries whose name leads to an earlier library or to the current one. -/
def duplicates (g : RelyGraph) : List RelyProblem :=
  g.libraries.zipIdx.filterMap fun (s, i) =>
    if g.node? s.name = some (.rely i) then none else some (.duplicate s.name)

/-- The dependencies that name no library. -/
def missing (g : RelyGraph) : List RelyProblem :=
  g.libraries.flatMap fun s =>
    s.dependencies.filterMap fun dependency =>
      if (g.node? dependency).isNone then some (.missing s.name dependency) else none

/-! ### Cycles -/

/-- The libraries that their own names lead to. -/
def relyNodes (g : RelyGraph) : List RelyNode :=
  g.libraries.zipIdx.filterMap fun (s, i) =>
    if g.node? s.name = some (.rely i) then some (.rely i) else none

/-- The libraries that a library relies on, in the order of their ranks.  The library being
compiled relies on everything it was given. -/
def edges (g : RelyGraph) : RelyNode → List RelyNode
  | .current => g.relyNodes
  | .rely i =>
    (((g.libraries[i]?.map (·.dependencies)).getD []).filterMap g.node?).mergeSort
      fun a b => a.rank ≤ b.rank

/-- The chains of libraries that rely on one another in a circle, as a search in depth from
the current library meets them. -/
def cycles (g : RelyGraph) : List RelyProblem :=
  let found := Walk.loops g.edges g.relyNodes [.current] (g.edges .current)
  found.2.map fun chain => .cycle (chain.map g.nodeName)

/-! ### Building -/

/-- How far a library has come. -/
inductive Slot where
  | pending
  | failed
  | built (rely : Rely)

/-- Whether a library is still to be built. -/
def Slot.isPending : Slot → Bool
  | pending => true
  | _ => false

/-- The table of a dependency, `some none` if there will not be one, and none if it has to
be waited for. -/
def dependency (g : RelyGraph) (slots : List Slot) (name : String) : Option (Option Table) :=
  match g.node? name with
  | some (.rely d) =>
    match slots[d]? with
    | some (.built r) => some (some r.table)
    | some .failed => some none
    | some .pending | none => none
  | some .current | none => some none

/-- Build a pending library if nothing that it relies on is pending. -/
def attempt (g : RelyGraph) (slots : List Slot) (index : Nat) (s : Surface) :
    Noted RelyProblem (List Slot) :=
  match slots[index]?, s.dependencies.mapM (g.dependency slots) with
  | some .pending, some dependencies =>
    match (Linkup.mk s (.rely index) dependencies).instantiate with
    | .ok rely => pure (slots.set index (.built rely))
    | .error problem => ⟨slots.set index .failed, [problem]⟩
  | _, _ => pure slots

/-- Go through the libraries once. -/
def pass (g : RelyGraph) (slots : List Slot) : Noted RelyProblem (List Slot) :=
  g.libraries.zipIdx.foldlM (fun slots (s, i) => g.attempt slots i s) slots

def pendingCount (slots : List Slot) : Nat := slots.countP Slot.isPending

def pendingNames (g : RelyGraph) (slots : List Slot) : List String :=
  (g.libraries.zip slots).filterMap fun (s, slot) => if slot.isPending then some s.name else none

/-- Go through the libraries until none is pending, or until a pass builds nothing. -/
def settle (g : RelyGraph) (slots : List Slot) : Noted RelyProblem (List Slot) :=
  let after := g.pass slots
  if pendingCount after.value < pendingCount slots then
    if pendingCount after.value = 0 then after
    else
      let rest := settle g after.value
      ⟨rest.value, after.notes ++ rest.notes⟩
  else if pendingCount after.value = 0 then after
  else ⟨after.value, after.notes ++ [.unresolvable (g.pendingNames after.value)]⟩
termination_by pendingCount slots
decreasing_by assumption

/-- The libraries that were built. -/
def builtOf (slots : List Slot) : List Rely :=
  slots.filterMap fun
    | .built rely => some rely
    | _ => none

/-- Build all libraries, whatever their order. -/
def instantiate (g : RelyGraph) : Except (List RelyProblem) (List Rely) :=
  let settled := g.settle (g.libraries.map fun _ => .pending)
  if settled.notes.isEmpty then .ok (builtOf settled.value) else .error settled.notes

/-- Check the names and the graph, then build all libraries. -/
def load (g : RelyGraph) : Except (List RelyProblem) (List Rely) :=
  let problems := g.duplicates ++ g.missing ++ g.cycles
  if problems.isEmpty then g.instantiate else .error problems

end RelyGraph

end Linkage
