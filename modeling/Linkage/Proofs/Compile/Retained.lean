/-
Purpose: Which results a builder holds after it has compiled, once or many times, with
  generators that may report problems or keep containers of the pool.
-/
import Linkage.Compile.Builder
import Mathlib

namespace Linkage

/-- The job with another generator. -/
def Job.using (job : Job) (generator : Generator) : Job := { job with generator }

namespace Builder

variable {b : Builder} {run : Except Stop Products × Pool}

/-- All results of the last compilation are there. -/
def HasAll (b : Builder) : Prop :=
  b.artifact.isSome = true ∧ b.surface.isSome = true ∧ b.draft.isSome = true

/-- No result of the last compilation is there. -/
def HasNone (b : Builder) : Prop := b.artifact = none ∧ b.surface = none ∧ b.draft = none

/-- Compile with a generator. -/
def compileWith (b : Builder) (generator : Generator) : Builder :=
  compile { b with job := b.job.using generator }

/-- Compile again and again.  A generator can remember earlier calls, so each call has one of its
own. -/
def compileAll (b : Builder) (generators : List Generator) : Builder :=
  generators.foldl compileWith b

/-- What a compilation can come to. -/
inductive Ended (run : Except Stop Products × Pool) : Builder → Prop
  | failed (job : Job) {stage : Stage} {diagnostics : List Diagnostic}
      (stopped : run.1 = .error (.failed stage diagnostics)) :
      Ended run ⟨job, .failed, diagnostics, none⟩
  | broken (job : Job) {accident : Accident} (stopped : run.1 = .error (.accident accident)) :
      Ended run ⟨job, .accident, [], none⟩
  | completed (job : Job) {products : Products} (produced : run.1 = .ok products)
      (balanced : run.2.outstanding = 0) : Ended run ⟨job, .completed, [], some products⟩
  | leaked (job : Job) {products : Products} (produced : run.1 = .ok products)
      (out : run.2.outstanding ≠ 0) : Ended run ⟨job, .accident, [], some products⟩

/-- Compiling runs the stages, unless the builder is compiling already. -/
theorem ended_compile (idle : b.state ≠ .compiling) : Ended (b.job.run {}) b.compile := by
  unfold compile
  rw [if_neg idle]
  generalize b.job.run {} = run
  obtain ⟨result, pool⟩ := run
  cases result with
  | error stop =>
    cases stop with
    | failed stage diagnostics => exact .failed b.job rfl
    | accident accident => exact .broken b.job rfl
  | ok products =>
    by_cases balanced : pool.outstanding = 0
    · simpa [Pool.clear, balanced] using Ended.completed b.job rfl balanced
    · simpa [Pool.clear, balanced] using Ended.leaked b.job rfl balanced

theorem ended_compileWith (idle : b.state ≠ .compiling) (generator : Generator) :
    Ended ((b.job.using generator).run {}) (b.compileWith generator) :=
  ended_compile (b := { b with job := b.job.using generator }) idle

/-- A builder is never found compiling after a call. -/
theorem Ended.idle (ended : Ended run b) : b.state ≠ .compiling := by
  cases ended <;> nofun

@[simp] theorem job_compile (b : Builder) : b.compile.job = b.job := by
  unfold compile
  split
  · rfl
  · dsimp only
    split <;> rfl

/-- No number of calls leaves a builder compiling, or changes more of its job than the
generator. -/
theorem compileAll_idle (idle : b.state ≠ .compiling) (generators : List Generator) :
    (b.compileAll generators).state ≠ .compiling ∧
      ∀ generator, (b.compileAll generators).job.using generator = b.job.using generator := by
  induction generators generalizing b with
  | nil => exact ⟨idle, fun _ => rfl⟩
  | cons first rest ih =>
    obtain ⟨later, jobs⟩ := ih (ended_compileWith idle first).idle
    refine ⟨later, fun generator => (jobs generator).trans ?_⟩
    rw [compileWith, job_compile]
    rfl

/-- What a builder holds tells how the compilation ended, containers left out apart. -/
theorem Ended.retains (ended : Ended run b) :
    (b.state = .completed → b.HasAll) ∧
    (b.state ≠ .completed → b.HasNone ∨ (b.HasAll ∧ b.state = .accident ∧ run.2.outstanding ≠ 0)) ∧
    ∀ products, run.1 = .ok products → run.2.outstanding ≠ 0 → b.state = .accident ∧ b.HasAll := by
  cases ended with
  | failed job stopped | broken job stopped =>
    refine ⟨nofun, fun _ => .inl ⟨rfl, rfl, rfl⟩, fun _ produced => ?_⟩
    rw [stopped] at produced
    cases produced
  | completed job produced balanced =>
    exact ⟨fun _ => ⟨rfl, rfl, rfl⟩, fun other => absurd rfl other,
      fun _ _ out => absurd balanced out⟩
  | leaked job produced out =>
    exact ⟨nofun, fun _ => .inr ⟨⟨rfl, rfl, rfl⟩, rfl, out⟩, fun _ _ _ => ⟨rfl, rfl, rfl, rfl⟩⟩

/-- After every call, however many came before it and whatever the generators do: a builder that
ended as completed holds all results, and any other holds none, except that it holds all results
after an accident that is nothing but containers left out of the pool.  This exception occurs
whenever the stages end well and containers are out. -/
theorem retains_exact (job : Job) (earlier : List Generator) (generator : Generator) :
    let run := (job.using generator).run {}
    let after := ((Builder.mk job .unstarted [] none).compileAll earlier).compileWith generator
    (after.state = .completed → after.HasAll) ∧
    (after.state ≠ .completed →
      after.HasNone ∨ (after.HasAll ∧ after.state = .accident ∧ run.2.outstanding ≠ 0)) ∧
    ∀ products, run.1 = .ok products → run.2.outstanding ≠ 0 →
      after.state = .accident ∧ after.HasAll := by
  have idle : (Builder.mk job .unstarted [] none).state ≠ .compiling := nofun
  obtain ⟨stillIdle, sameJob⟩ := compileAll_idle idle earlier
  refine Ended.retains ?_
  rw [← sameJob generator]
  exact ended_compileWith stillIdle generator

end Builder

/-! ### A generator that keeps containers -/

namespace Sample

/-- Takes a container for every variable and keeps it. -/
def keeping : Generator := fun l pool =>
  Generator.plain l (l.draft.table.globals.foldl (fun pool _ => (pool.take .list).2) pool)

/-- A library with one variable. -/
def leaks : Job where
  name := "Leaks"
  files := [⟨"leaks.brook", "integer count\n"⟩]
  surfaces := []
  generator := keeping

end Sample

set_option maxRecDepth 10000 in
/-- A compilation that is not completed can leave its results behind. -/
theorem Builder.retained_accident :
    (Builder.mk Sample.leaks .unstarted [] none).compile.state = .accident ∧
      (Builder.mk Sample.leaks .unstarted [] none).compile.HasAll := by
  refine ⟨?_, ?_, ?_, ?_⟩
  all_goals cbv

end Linkage
