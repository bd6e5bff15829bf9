/-
Purpose: Problems with the place in the source that they are reported at.
-/
import Linkage.Diagnostic.Problem
import Linkage.Noted

namespace Linkage

/-- A range of columns on a line.  Lines and columns count from 1, and `stop` is the
column after the last one. -/
structure Span where
  line : Nat
  start : Nat
  stop : Nat
deriving DecidableEq, Repr, Inhabited

/-- A problem at a place in one file. -/
structure Fault where
  span : Span
  problem : Problem
deriving DecidableEq, Repr

/-- A problem at a place in a library. -/
structure Diagnostic where
  path : String
  span : Span
  problem : Problem
deriving DecidableEq, Repr

/-- Say which file a fault is in. -/
def Fault.inFile (path : String) (fault : Fault) : Diagnostic := ⟨path, fault.span, fault.problem⟩

/-- A rely problem has no place in the source; it names the library instead of a file. -/
def RelyProblem.diagnostic (problem : RelyProblem) : Diagnostic :=
  ⟨problem.library, ⟨0, 0, 0⟩, .rely problem⟩

namespace Diagnostic

def code (d : Diagnostic) : Code := d.problem.code

def message (d : Diagnostic) : String := d.problem.message

/-- One line of text: where, which code, what. -/
def render (d : Diagnostic) : String :=
  s!"{d.path}:{d.span.line}:{d.span.start}-{d.span.stop} [{d.code.text}] {d.message}"

end Diagnostic

/-- A value with the diagnostics that were reported on the way to it. -/
abbrev Reported (α : Type) : Type := Noted Diagnostic α

def report (path : String) (span : Span) (problem : Problem) : Reported Unit :=
  .note ⟨path, span, problem⟩

end Linkage
