/-
Purpose: How a compilation with the plain generator ends: with products if no stage has anything
  to report, and otherwise with reports that all belong to one stage.
-/
import Linkage.Proofs.Compile.Stages

namespace Linkage

open Stage

/-- Reading reports faults of reading. -/
theorem readFiles_reports (files : List SourceFile) :
    Noted.Reports Stage.parse.Owns (readFiles files) := by
  intro d member
  rw [readFiles_eq] at member
  obtain ⟨file, _, isFault⟩ := List.mem_flatMap.1 member
  unfold SourceFile.faults at isFault
  split at isFault
  · cases isFault
  · rename_i faults fails
    obtain ⟨fault, inFaults, rfl⟩ := List.mem_map.1 isFault
    exact (((Outline.ofSource_ends file.text).of_error fails).2 fault inFaults).ofReading

/-- A stop that is no fault of the compiler: one stage has something to report, and all that is
reported belongs to it. -/
def Stop.Proper : Stop → Prop
  | .failed stage diagnostics => diagnostics ≠ [] ∧ ∀ d ∈ diagnostics, stage.Owns d
  | .accident _ => False

/-- A stage that reports only what belongs to it stops properly. -/
theorem Stage.gate_ends {α : Type} {stage : Stage} {x : Reported α}
    (reports : Noted.Reports stage.Owns x) : Ends Stop.Proper (fun _ => True) (stage.gate x) := by
  unfold Stage.gate
  split
  · trivial
  · rename_i loud
    exact ⟨fun none => loud (List.isEmpty_iff.2 none), reports⟩

namespace Job

theorem linked_ends (job : Job) : Ends Stop.Proper (fun _ => True) job.linked := by
  refine (gate_ends (loadRelies_reports _ _)).bind fun relies _ => ?_
  refine (gate_ends (readFiles_reports _)).bind fun files _ => ?_
  refine (gate_ends (Draft.merge_reports _ _)).bind fun merged _ => ?_
  refine (gate_ends (Draft.link_reports _ _)).bind fun linked _ => ?_
  exact (gate_ends (Draft.check_reports _ _)).bind fun _ _ => .pure trivial

theorem prepared_ends (job : Job) : Ends Stop.Proper (fun _ => True) job.prepared := by
  refine job.linked_ends.bind fun (linked, relies) _ => ?_
  refine (gate_ends (Draft.exportSurface_reports _ _)).bind fun surface _ => ?_
  exact (gate_ends (Draft.bindings_reports _ _)).bind fun _ _ => .pure trivial

variable {job : Job}

/-- A run that does not reach the generator stops properly. -/
theorem run_of_not_prepares (stuck : ¬∃ merged linked relies, job.Prepares merged linked relies)
    (pool : Pool) : ∃ stage diagnostics, job.run pool = (.error (.failed stage diagnostics), pool) ∧
      diagnostics ≠ [] ∧ ∀ d ∈ diagnostics, stage.Owns d := by
  rw [run_eq]
  cases ready : job.prepared with
  | error stop =>
    have proper := job.prepared_ends.of_error ready
    cases stop with
    | failed stage diagnostics => exact ⟨stage, diagnostics, rfl, proper⟩
    | accident accident => exact proper.elim
  | ok result =>
    obtain ⟨merged, linked, relies, prepares, _⟩ := prepared_eq_ok.1 ready
    exact absurd ⟨merged, linked, relies, prepares⟩ stuck

end Job

/-! ### Builders -/

namespace Builder

variable {b : Builder}

theorem compile_of_not_prepares (idle : b.state ≠ .compiling)
    (stuck : ¬∃ merged linked relies, b.job.Prepares merged linked relies) :
    ∃ stage diagnostics, b.compile = ⟨b.job, .failed, diagnostics, none⟩ ∧
      diagnostics ≠ [] ∧ ∀ d ∈ diagnostics, Stage.Owns stage d := by
  obtain ⟨stage, diagnostics, runs, proper⟩ := Job.run_of_not_prepares stuck {}
  refine ⟨stage, diagnostics, ?_, proper⟩
  unfold compile
  rw [if_neg idle, runs]

/-- Compiling with the plain generator ends well and without diagnostics, or it fails with
diagnostics whose codes all belong to one stage.  It is never an accident. -/
theorem compile_outcome (b : Builder) (idle : b.state ≠ .compiling)
    (plain : b.job.generator = .plain) :
    (b.compile.state = .completed ∧ b.compile.diagnostics = []) ∨
      (b.compile.state = .failed ∧ b.compile.diagnostics ≠ [] ∧
        ∃ stage : Stage, ∀ d ∈ b.compile.diagnostics, d.code.text ∈ stage.codeTexts) := by
  by_cases prepares : ∃ merged linked relies, b.job.Prepares merged linked relies
  · obtain ⟨merged, linked, relies, prepares⟩ := prepares
    obtain ⟨p, compiled, _⟩ := compile_of_prepares idle plain prepares
    rw [compiled]
    exact .inl ⟨rfl, rfl⟩
  · obtain ⟨stage, diagnostics, compiled, some, owned⟩ := compile_of_not_prepares idle prepares
    rw [compiled]
    exact .inr ⟨rfl, some, stage, fun d member => (owned d member).text⟩

end Builder

namespace Sample

/-- A function with a body, the lines of which the artifact is to hold. -/
def doubled : Job where
  name := "Doubled"
  files := [⟨"doubled", "integer Twice(integer n)\n    return n + n\n"⟩]
  surfaces := []
  options := { debugTable := true }

/-- An import and a type that do not exist. -/
def missing : Job where
  name := "Missing"
  files := [⟨"missing", "import Nowhere\nUnknown Twice(integer n)\n    return n + n\n"⟩]
  surfaces := []
  options := { debugTable := true }

set_option maxRecDepth 10000 in
private theorem doubled_state :
    (Builder.mk doubled .failed [] none).compile.state = .completed := by
  cbv

set_option maxRecDepth 10000 in
private theorem missing_state :
    (Builder.mk missing .unstarted [] none).compile.state = .failed := by
  cbv

end Sample

/-- A library that is compiled after an earlier failure, with the lines of its bodies, and one
that fails. -/
theorem Builder.compile_outcome_doubled_missing :
    ((mk Sample.doubled .failed [] none).compile.state = .completed ∧
      (mk Sample.doubled .failed [] none).compile.diagnostics = []) ∧
    ((mk Sample.missing .unstarted [] none).compile.state = .failed ∧
      (mk Sample.missing .unstarted [] none).compile.diagnostics ≠ [] ∧
      ∃ stage : Stage, ∀ d ∈ (mk Sample.missing .unstarted [] none).compile.diagnostics,
        d.code.text ∈ stage.codeTexts) := by
  refine ⟨(compile_outcome _ (by simp) rfl).resolve_right fun fails => ?_,
    (compile_outcome _ (by simp) rfl).resolve_left fun completes => ?_⟩
  · rw [Sample.doubled_state] at fails
    cases fails.1
  · rw [Sample.missing_state] at completes
    cases completes.1

end Linkage
