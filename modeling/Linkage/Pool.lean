/-
Purpose: A pool of scratch containers that are handed out, filled and given back.
-/

namespace Linkage

/-- The shapes of containers.  A container is only ever reused for its own shape. -/
inductive Shape where
  /-- Numbers, the newest last. -/
  | list
  /-- Decimal texts, the newest last. -/
  | words
  /-- Numbers, the newest first. -/
  | queue
  /-- Distinct numbers in order. -/
  | set
  /-- Distinct numbers in order, with how often each was put in. -/
  | tally
deriving DecidableEq, Repr

inductive Container where
  | list (numbers : List Nat)
  | words (texts : List String)
  | queue (numbers : List Nat)
  | set (numbers : List Nat)
  | tally (counts : List (Nat × Nat))
deriving DecidableEq, Repr

namespace Container

def shape : Container → Shape
  | list _ => .list
  | words _ => .words
  | queue _ => .queue
  | set _ => .set
  | tally _ => .tally

/-- The container of a shape with nothing in it. -/
def empty : Shape → Container
  | .list => list []
  | .words => words []
  | .queue => queue []
  | .set => set []
  | .tally => tally []

/-- Insert a number into an ordered list, unless it is there. -/
def insertOrdered (n : Nat) : List Nat → List Nat
  | [] => [n]
  | m :: rest =>
    if n < m then n :: m :: rest
    else if n = m then m :: rest
    else m :: insertOrdered n rest

/-- Count a number in an ordered list of counts. -/
def count (n : Nat) : List (Nat × Nat) → List (Nat × Nat)
  | [] => [(n, 1)]
  | (m, times) :: rest =>
    if n < m then (n, 1) :: (m, times) :: rest
    else if n = m then (m, times + 1) :: rest
    else (m, times) :: count n rest

def put (c : Container) (n : Nat) : Container :=
  match c with
  | list numbers => list (numbers ++ [n])
  | words texts => words (texts ++ [toString n])
  | queue numbers => queue (n :: numbers)
  | set numbers => set (insertOrdered n numbers)
  | tally counts => tally (count n counts)

def putAll (c : Container) (numbers : List Nat) : Container := numbers.foldl put c

/-- Take everything out. -/
def cleared (c : Container) : Container := empty c.shape

end Container

/-- The containers that were given back, and what has happened since the last clearing. -/
structure Pool where
  /-- The containers ready to be handed out again. -/
  free : List Container := []
  /-- How many containers are out. -/
  outstanding : Nat := 0
  /-- How many were handed out. -/
  checkouts : Nat := 0
  /-- How many of those had been given back before. -/
  reuses : Nat := 0
deriving DecidableEq, Repr

namespace Pool

/-- Hand out a container, one that was given back if there is one of that shape. -/
def take (p : Pool) (shape : Shape) : Container × Pool :=
  match p.free.find? fun c => c.shape = shape with
  | some c =>
    (c, { free := p.free.erase c, outstanding := p.outstanding + 1
          checkouts := p.checkouts + 1, reuses := p.reuses + 1 })
  | none =>
    (.empty shape, { p with outstanding := p.outstanding + 1, checkouts := p.checkouts + 1 })

/-- Take a container back.  It is emptied before anyone can get it again. -/
def giveBack (p : Pool) (c : Container) : Pool :=
  { p with free := c.cleared :: p.free, outstanding := p.outstanding - 1 }

/-- Drop all containers and start anew.  It is a fault if some are still out. -/
def clear (p : Pool) : Option Nat × Pool :=
  (if p.outstanding = 0 then none else some p.outstanding, {})

/-- The complaint about containers that are still out. -/
def imbalance (outstanding : Nat) : String :=
  s!"collection pool has {outstanding} containers checked out at release"

end Pool

/-- A pool with the containers held by name. -/
structure Workbench where
  pool : Pool := {}
  held : List (String × Container) := []

/-- What can be done at a workbench. -/
inductive Workbench.Operation where
  | take (name : String) (shape : Shape)
  | put (name : String) (numbers : List Nat)
  | drop (name : String)
  /-- Forget a container without giving it back. -/
  | leak (name : String)
  /-- Forget all held containers and clear the pool. -/
  | clear
deriving DecidableEq, Repr

/-- What an operation shows. -/
inductive Workbench.Outcome where
  | contents (c : Container)
  | nothing
  /-- The pool was cleared; so many containers were still out. -/
  | cleared (outstanding : Option Nat)
deriving DecidableEq, Repr

namespace Workbench

def held? (w : Workbench) (name : String) : Option Container := w.held.lookup name

/-- Hold no container under a name. -/
def release (w : Workbench) (name : String) : List (String × Container) :=
  w.held.filter fun entry => entry.1 ≠ name

def hold (w : Workbench) (name : String) (c : Container) : List (String × Container) :=
  (name, c) :: w.release name

/-- Carry out one operation.  There is no outcome for a container that is not held. -/
def step (w : Workbench) : Operation → Option (Outcome × Workbench)
  | .take name shape =>
    let (c, pool) := w.pool.take shape
    -- A container held under the name before is given back after the new one is out.
    let pool := match w.held? name with
      | some old => pool.giveBack old
      | none => pool
    some (.contents c, ⟨pool, w.hold name c⟩)
  | .put name numbers =>
    (w.held? name).map fun c =>
      let c := c.putAll numbers
      (.contents c, ⟨w.pool, w.hold name c⟩)
  | .drop name => (w.held? name).map fun c => (.nothing, ⟨w.pool.giveBack c, w.release name⟩)
  | .leak name => (w.held? name).map fun _ => (.nothing, ⟨w.pool, w.release name⟩)
  | .clear =>
    let (fault, pool) := w.pool.clear
    some (.cleared fault, ⟨pool, []⟩)

/-- Carry out operations in turn: the outcome of each, with the pool as it then is. -/
def run (w : Workbench) : List Operation → Option (List (Outcome × Pool))
  | [] => some []
  | operation :: rest =>
    (w.step operation).bind fun (outcome, w) =>
      (w.run rest).map fun later => (outcome, w.pool) :: later

end Workbench

end Linkage
