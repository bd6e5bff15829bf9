/-
Purpose: Compiling a library, once or again, with the state it ended in.
-/
import Linkage.Compile.Pipeline

namespace Linkage

/-- How far a library has come. -/
inductive CompileState where
  | unstarted
  | compiling
  | completed
  /-- A stage reported problems. -/
  | failed
  /-- The compiler itself is at fault. -/
  | accident
deriving DecidableEq, Repr

def CompileState.text : CompileState → String
  | unstarted => "Unstart"
  | compiling => "Compiling"
  | completed => "Completed"
  | failed => "Failed"
  | accident => "Accident"

/-- A library being compiled, with the results of the last compilation. -/
structure Builder where
  job : Job
  state : CompileState := .unstarted
  diagnostics : List Diagnostic := []
  products : Option Products := none

namespace Builder

/-- Compile from the start.  The pool is cleared at the end however the stages ended, and
containers that are still out are a fault of the compiler. -/
def compile (b : Builder) : Builder :=
  if b.state = .compiling then { b with state := .accident }
  else
    let (result, pool) := b.job.run {}
    match result with
    | .error (.failed _ diagnostics) => ⟨b.job, .failed, diagnostics, none⟩
    | .error (.accident _) => ⟨b.job, .accident, [], none⟩
    | .ok products =>
      ⟨b.job, if pool.clear.1.isNone then .completed else .accident, [], some products⟩

def artifact (b : Builder) : Option Artifact := b.products.map (·.artifact)

def surface (b : Builder) : Option Surface := b.products.map (·.surface)

def draft (b : Builder) : Option Draft := b.products.map (·.draft)

end Builder

end Linkage
