/-
Purpose: From source files and surfaces to an artifact.
-/
import Linkage.Artifact.Basic
import Linkage.Draft.Check
import Linkage.Draft.Export
import Linkage.Draft.Link
import Linkage.Draft.Merge
import Linkage.Rely.Graph
import Linkage.Source.Reader

/-!
The stages run in order, and a stage that reports anything is the last: later stages can
count on what earlier ones have checked, and all reports of a compilation come from one
stage.
-/

namespace Linkage

/-- The stages that can report problems. -/
inductive Stage where
  | rely
  | parse
  | merge
  | link
  | check
  | surface
  | binding
  | generate
deriving DecidableEq, Repr

namespace Stage

def text : Stage → String
  | rely => "rely"
  | parse => "parse"
  | merge => "merge"
  | link => "link"
  | check => "check"
  | surface => "export"
  | binding => "relocation"
  | generate => "generate"

/-- What is said when a stage is the last. -/
def failure (stage : Stage) (count : Nat) : String :=
  s!"{stage.text} failed with {count} diagnostics"

end Stage

/-- Why a compilation stopped. -/
inductive Stop where
  /-- A stage reported problems. -/
  | failed (stage : Stage) (diagnostics : List Diagnostic)
  | accident (accident : Accident)
deriving DecidableEq

/-- Go on with the value of a stage if nothing was reported. -/
def Stage.gate {α : Type} (stage : Stage) (x : Reported α) : Except Stop α :=
  if x.notes.isEmpty then .ok x.value else .error (.failed stage x.notes)

/-- The libraries that were built, or nothing but reports. -/
def loadRelies (current : String) (surfaces : List Surface) : Reported (List Rely) :=
  match (RelyGraph.mk current surfaces).load with
  | .ok relies => pure relies
  | .error problems => ⟨[], problems.map (·.diagnostic)⟩

/-- The files with their outlines.  The faults of all files are reported. -/
def readFiles : List SourceFile → Reported (List (SourceFile × Outline))
  | [] => pure []
  | file :: rest =>
    match Outline.ofSource file.text with
    | .ok outline => do
      let others ← readFiles rest
      return (file, outline) :: others
    | .error faults => do
      .noteAll (faults.map (·.inFile file.path))
      readFiles rest

/-- What is to be compiled, and how. -/
structure Job where
  name : String
  files : List SourceFile
  surfaces : List Surface
  options : Options := {}
  generator : Generator := .plain

structure Products where
  draft : Draft
  relies : List Rely
  surface : Surface
  artifact : Artifact

namespace Job

/-- The linked and checked draft with the libraries it relies on. -/
def linked (job : Job) : Except Stop (Draft × List Rely) := do
  let relies ← Stage.rely.gate (loadRelies job.name job.surfaces)
  let files ← Stage.parse.gate (readFiles job.files)
  let draft ← Stage.merge.gate (Draft.merge job.name files)
  let tables := relies.map (·.table)
  let draft ← Stage.link.gate (draft.link tables)
  Stage.check.gate (draft.check tables)
  return (draft, relies)

/-- Run all stages.  The pool comes back as the generator left it. -/
def run (job : Job) (pool : Pool) : Except Stop Products × Pool :=
  let prepared : Except Stop (Draft × List Rely × Surface × Layout × List Binding) := do
    let (draft, relies) ← job.linked
    let tables := relies.map (·.table)
    let surface ← Stage.surface.gate (draft.exportSurface tables)
    let (table, layout) := draft.table.assignAddresses
    let draft := { draft with table }
    let bindings ← Stage.binding.gate (draft.bindings tables)
    return (draft, relies, surface, layout, bindings)
  match prepared with
  | .error stop => (.error stop, pool)
  | .ok (draft, relies, surface, layout, bindings) =>
    let library : LinkedLibrary := ⟨draft, relies.map (·.table), bindings, job.options⟩
    let result := job.generator library pool
    let products := do
      let (generated, _) ← Stage.generate.gate result
      match Artifact.build library layout generated with
      | .ok artifact => return ⟨draft, relies, surface, artifact⟩
      | .error accident => throw (.accident accident)
    (products, result.value.2)

end Job

end Linkage
