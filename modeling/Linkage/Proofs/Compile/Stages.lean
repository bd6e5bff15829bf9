/-
Purpose: What each stage did in a compilation that ended well, and what that guarantees of its
  products.
-/
import Linkage.Compile.Builder
import Linkage.Proofs.Compile.Anchored
import Linkage.Proofs.Link.Acyclic
import Linkage.Proofs.Rely.Loaded
import Mathlib

namespace Linkage

open List Draft

variable {α : Type} {relies : List Rely} {layout : Layout} {artifact : Artifact} {pool : Pool}
  {b : Builder} {surface : Surface} {merged linked d : Draft} {job : Job} {i : Nat} {t : Table}

/-- The tables of the libraries that a compilation relied on. -/
def Products.tables (p : Products) : List Table := p.relies.map (·.table)

/-- The rely list of a job. -/
def Job.graph (job : Job) : RelyGraph := ⟨job.name, job.surfaces⟩

/-- Compiling ends without complaints or accidents and with these products. -/
structure Builder.Completes (b : Builder) (p : Products) : Prop where
  state : b.compile.state = .completed
  products : b.compile.products = some p

namespace Job

/-- All stages up to the generator, in which a draft is merged and then linked, report
nothing. -/
structure Prepares (job : Job) (merged linked : Draft) (relies : List Rely) : Prop where
  loads : job.graph.load = .ok relies
  merges : ∃ files, readFiles job.files = ⟨files, []⟩ ∧ merge job.name files = ⟨merged, []⟩
  links : merged.link (relies.map (·.table)) = ⟨linked, []⟩
  checks : (linked.check (relies.map (·.table))).notes = []
  exports : (linked.exportSurface (relies.map (·.table))).notes = []
  binds : (({ linked with table := linked.table.assignAddresses.1 } : Draft).bindings
    (relies.map (·.table))).notes = []

/-- The library that the generator is given. -/
def library (job : Job) (linked : Draft) (relies : List Rely) : LinkedLibrary :=
  let draft : Draft := { linked with table := linked.table.assignAddresses.1 }
  ⟨draft, relies.map (·.table), (draft.bindings (relies.map (·.table))).value, job.options⟩

/-- What each stage did in a compilation without complaints: `merged` is the draft before
linking and `linked` the one after it. -/
structure Passes (job : Job) (p : Products) (merged linked : Draft) : Prop
    extends job.Prepares merged linked p.relies where
  draft : p.draft = { linked with table := linked.table.assignAddresses.1 }
  surface : p.surface = (linked.exportSurface p.tables).value
  bindings : p.artifact.bindings = (job.library linked p.relies).bindings
  symbols : p.artifact.symbols =
    if job.options.symbolTable then some (job.library linked p.relies).symbols else none

end Job

/-! ### Stages -/

theorem ok_bind {ε β : Type} (a : α) (f : α → Except ε β) : Except.ok a >>= f = f a := rfl

theorem Stage.gate_eq_ok {stage : Stage} {x : Reported α} {a : α} :
    stage.gate x = .ok a ↔ x = ⟨a, []⟩ := by
  obtain ⟨value, notes⟩ := x
  unfold Stage.gate
  cases notes <;> simp

theorem RelyGraph.load_ne_error_nil (g : RelyGraph) : g.load ≠ .error [] := by
  unfold load
  dsimp only
  split
  · unfold instantiate
    dsimp only
    split
    · simp
    · rename_i complaints
      simpa using complaints
  · rename_i problems
    simpa using problems

theorem loadRelies_eq_iff {current : String} {surfaces : List Surface} :
    loadRelies current surfaces = ⟨relies, []⟩ ↔
      (RelyGraph.mk current surfaces).load = .ok relies := by
  unfold loadRelies
  cases loaded : (RelyGraph.mk current surfaces).load with
  | ok built => simp [pure]
  | error problems =>
    have some : problems ≠ [] := by
      rintro rfl
      exact RelyGraph.load_ne_error_nil _ loaded
    simp [some]

/-! ### Reading -/

/-- A file with its outline, if it can be read. -/
def SourceFile.outline? (file : SourceFile) : Option (SourceFile × Outline) :=
  match Outline.ofSource file.text with
  | .ok outline => some (file, outline)
  | .error _ => none

/-- What is wrong with a file by itself. -/
def SourceFile.faults (file : SourceFile) : List Diagnostic :=
  match Outline.ofSource file.text with
  | .ok _ => []
  | .error faults => faults.map (·.inFile file.path)

theorem readFiles_eq (files : List SourceFile) :
    readFiles files = ⟨files.filterMap SourceFile.outline?, files.flatMap SourceFile.faults⟩ := by
  induction files with
  | nil => rfl
  | cons file rest ih =>
    rw [readFiles, ih]
    cases read : Outline.ofSource file.text with
    | ok outline | error faults =>
      apply Noted.ext <;> simp [SourceFile.outline?, SourceFile.faults, read]

theorem ofSource_of_mem_readFiles {files : List SourceFile} {p : SourceFile × Outline}
    (member : p ∈ (readFiles files).value) : Outline.ofSource p.1.text = .ok p.2 := by
  rw [readFiles_eq] at member
  obtain ⟨file, _, isOutline⟩ := mem_filterMap.1 member
  unfold SourceFile.outline? at isOutline
  split at isOutline
  · rename_i outline works
    cases isOutline
    exact works
  · cases isOutline

/-! ### Runs -/

namespace Job

/-- What the stages up to the generator hand on. -/
def prepared (job : Job) : Except Stop (Draft × List Rely × Surface × Layout × List Binding) := do
  let (draft, relies) ← job.linked
  let tables := relies.map (·.table)
  let surface ← Stage.surface.gate (draft.exportSurface tables)
  let (table, layout) := draft.table.assignAddresses
  let draft := { draft with table }
  let bindings ← Stage.binding.gate (draft.bindings tables)
  return (draft, relies, surface, layout, bindings)

/-- The artifact of what the stages hand on. -/
def generate (job : Job) (pool : Pool) :
    Draft × List Rely × Surface × Layout × List Binding → Except Stop Products × Pool
  | (draft, relies, surface, layout, bindings) =>
    let library : LinkedLibrary := ⟨draft, relies.map (·.table), bindings, job.options⟩
    let result := job.generator library pool
    let products := do
      let (generated, _) ← Stage.generate.gate result
      match Artifact.build library layout generated with
      | .ok artifact => return ⟨draft, relies, surface, artifact⟩
      | .error accident => throw (.accident accident)
    (products, result.value.2)

/-- A run is the stages up to the generator and then the artifact. -/
theorem run_eq (job : Job) (pool : Pool) : job.run pool = match job.prepared with
      | .error stop => (.error stop, pool)
      | .ok (draft, relies, surface, layout, bindings) =>
        job.generate pool (draft, relies, surface, layout, bindings) :=
  rfl

variable {job : Job} {p : Products} {merged linked : Draft} {relies : List Rely}

/-- The stages hand something on exactly if none of them has anything to report. -/
theorem prepared_eq_ok {result : Draft × List Rely × Surface × Layout × List Binding} :
    job.prepared = .ok result ↔ ∃ merged linked relies, job.Prepares merged linked relies ∧
      result = ((job.library linked relies).draft, relies,
        (linked.exportSurface (relies.map (·.table))).value, linked.table.assignAddresses.2,
        (job.library linked relies).bindings) := by
  simp only [prepared, linked, bind_eq_ok, Stage.gate_eq_ok, pure_eq_ok, loadRelies_eq_iff]
  constructor
  · rintro ⟨_, ⟨relies, loads, files, reads, merged, merges, linked, links, _, checks, rfl⟩,
      surface, exports, bindings, binds, rfl⟩
    refine ⟨merged, linked, relies, ⟨loads, ⟨files, reads, merges⟩, links, by rw [checks],
      by rw [exports], by rw [binds]⟩, ?_⟩
    simp only [library, exports, binds]
  · rintro ⟨merged, linked, relies,
      ⟨loads, ⟨files, reads, merges⟩, links, checks, exports, binds⟩, rfl⟩
    exact ⟨(linked, relies), ⟨relies, loads, files, reads, merged, merges, linked, links, (),
      Noted.ext rfl checks, rfl⟩, _, Noted.ext rfl exports, _, Noted.ext rfl binds, rfl⟩

theorem parts_of_build {l : LinkedLibrary} {generated : Generated}
    (built : Artifact.build l layout generated = .ok artifact) :
    artifact.bindings = l.bindings ∧
      artifact.symbols = if l.options.symbolTable then some l.symbols else none := by
  unfold Artifact.build at built
  dsimp only at built
  split at built <;>
    · obtain ⟨_, _, same⟩ := bind_eq_ok.1 built
      rw [pure_eq_ok.1 same]
      exact ⟨rfl, rfl⟩

/-- A run that produces something has passed every stage. -/
theorem passes_of_run {pool' : Pool} (ends : job.run pool = (.ok p, pool')) :
    ∃ merged linked, job.Passes p merged linked := by
  rw [run_eq] at ends
  split at ends
  · cases ends
  · rename_i ready
    obtain ⟨merged, linked, relies, prepares, same⟩ := prepared_eq_ok.1 ready
    cases same
    have produced := congrArg Prod.fst ends
    simp only [generate, bind_eq_ok] at produced
    obtain ⟨⟨generated, _⟩, _, built⟩ := produced
    split at built
    · rename_i artifact isBuilt
      obtain rfl := pure_eq_ok.1 built
      obtain ⟨bindings, symbols⟩ := parts_of_build isBuilt
      exact ⟨merged, linked, prepares, rfl, rfl, bindings, symbols⟩
    · cases built

/-- A compilation that ended well is a run that produces something. -/
theorem run_of_completes (completes : b.Completes p) : ∃ pool, b.job.run {} = (.ok p, pool) := by
  obtain ⟨state, products⟩ := completes
  unfold Builder.compile at state products
  split at state
  · cases state
  · rename_i notCompiling
    rw [if_neg notCompiling] at products
    dsimp only at products
    split at products
    · cases products
    · cases products
    · rename_i made result
      cases products
      exact ⟨_, Prod.ext result rfl⟩

theorem passes_of_completes (completes : b.Completes p) :
    ∃ merged linked, b.job.Passes p merged linked := by
  obtain ⟨_, runs⟩ := run_of_completes completes
  exact passes_of_run runs

namespace Prepares

variable (prepares : job.Prepares merged linked relies)
include prepares

/-- What holds of files that were read and merged without complaints holds of the merged draft. -/
theorem of_merge {P : Draft → Prop} (all : ∀ files : List (SourceFile × Outline),
      (∀ q ∈ files, Outline.ofSource q.1.text = .ok q.2) →
      (merge job.name files).notes = [] → P (merge job.name files).value) :
    P merged := by
  obtain ⟨files, reads, merges⟩ := prepares.merges
  have held := all files (fun q member => ofSource_of_mem_readFiles (by rwa [reads]))
    (by rw [merges])
  rwa [merges] at held

theorem merged_wellMade : merged.table.WellMade :=
  prepares.of_merge (P := (·.table.WellMade)) fun files _ _ => merge_wellMade job.name files

theorem merged_settled : merged.table.Settled IsOpen :=
  prepares.of_merge (P := (·.table.Settled IsOpen)) fun files _ _ =>
    merge_settled job.name files

theorem linked_skeleton : linked.table.skeleton = merged.table.skeleton := by
  have skeleton := merged.link_skeleton (relies.map (·.table))
  rwa [prepares.links] at skeleton

theorem skeleton_library :
    merged.table.skeleton = (job.library linked relies).draft.table.skeleton :=
  (linked.table.assignAddresses_skeleton.trans prepares.linked_skeleton).symm

theorem linked_wellMade : linked.table.WellMade :=
  prepares.merged_wellMade.of_skeleton prepares.linked_skeleton.symm

/-- The functions of a library whose files could be read were written on their lines. -/
theorem anchored : (job.library linked relies).draft.Anchored := by
  have anchored : merged.Anchored := prepares.of_merge fun files read _ =>
    merge_anchored job.name fun q member => Outline.within_ofSource (read q member)
  have linkedAnchored : (merged.link (relies.map (·.table))).value.Anchored := anchored.link
  rw [prepares.links] at linkedAnchored
  exact linkedAnchored.assignAddresses

end Prepares

/-- The plain generator reports nothing and leaves the pool as it was. -/
theorem generate_plain (plain : job.generator = .plain) {draft : Draft} {bindings : List Binding}
    (built : Artifact.build ⟨draft, relies.map (·.table), bindings, job.options⟩ layout
      (Generator.plain ⟨draft, relies.map (·.table), bindings, job.options⟩ pool).value.1 =
        .ok artifact) :
    job.generate pool (draft, relies, surface, layout, bindings) =
      (.ok ⟨draft, relies, surface, artifact⟩, pool) := by
  have quiet (l : LinkedLibrary) : Stage.generate.gate (Generator.plain l pool) =
      .ok ((Generator.plain l pool).value.1, pool) := rfl
  dsimp only [generate]
  rw [plain, quiet, ok_bind]
  rw [built]
  rfl

/-- A run that reaches the plain generator ends with an artifact. -/
theorem run_of_prepares (prepares : job.Prepares merged linked relies)
    (plain : job.generator = .plain) (pool : Pool) :
    ∃ p, job.run pool = (.ok p, pool) ∧ p.relies = relies ∧ job.Passes p merged linked := by
  obtain ⟨artifact, built⟩ := LinkedLibrary.exists_artifact prepares.anchored
    linked.table.assignAddresses.2 (Generator.plain (job.library linked relies) pool).value.1
  obtain ⟨bindings, symbols⟩ := parts_of_build built
  refine ⟨⟨(job.library linked relies).draft, relies,
    (linked.exportSurface (relies.map (·.table))).value, artifact⟩, ?_, rfl,
    prepares, rfl, rfl, bindings, symbols⟩
  rw [run_eq, prepared_eq_ok.2 ⟨merged, linked, relies, prepares, rfl⟩]
  exact generate_plain plain built

end Job

/-- A compilation that reaches the plain generator ends well. -/
theorem Builder.compile_of_prepares (idle : b.state ≠ .compiling) (plain : b.job.generator = .plain)
    (prepares : b.job.Prepares merged linked relies) : ∃ p,
      b.compile = ⟨b.job, .completed, [], some p⟩ ∧ p.relies = relies ∧
      b.job.Passes p merged linked := by
  obtain ⟨p, runs, passes⟩ := Job.run_of_prepares prepares plain {}
  refine ⟨p, ?_, passes⟩
  unfold compile
  rw [if_neg idle, runs]
  rfl

/-- A job whose stages say nothing and that generates no code ends well. -/
theorem Job.exists_completes
    (prepares : job.Prepares merged linked relies) (plain : job.generator = .plain) :
    ∃ p, (Builder.mk job .unstarted [] none).Completes p ∧ p.relies = relies ∧
      job.Passes p merged linked := by
  obtain ⟨p, compiled, passes⟩ :=
    Builder.compile_of_prepares (b := ⟨job, .unstarted, [], none⟩) (by simp) plain prepares
  exact ⟨p, ⟨by rw [compiled], by rw [compiled]⟩, passes⟩

namespace Sample

/-- A job that ends well when it is compiled, with products as wanted. -/
theorem completes_of_compile {P : Products → Prop}
    (done : (Builder.mk job .unstarted [] none).compile.state = .completed ∧
      ∃ p ∈ (Builder.mk job .unstarted [] none).compile.products, P p) :
    ∃ p, (Builder.mk job .unstarted [] none).Completes p ∧ P p := by
  obtain ⟨state, p, found, wanted⟩ := done
  exact ⟨p, ⟨state, found⟩, wanted⟩

/-! ### A library of shapes -/

/-- A hidden class, an interface and a class that implements it. -/
def shapes : Job where
  name := "Shapes"
  files := [⟨"shapes", "class Hidden\npublic interface Shape\n    real Area()\n" ++
    "public class Square : Shape\n    public real Area()\n"⟩]
  surfaces := []

/-- A method without parameters that returns a real. -/
def area : SurfaceMethod := ⟨"Area", 0, [⟨.public_, [], [⟨.kernel, .struct, 4, 0⟩]⟩]⟩

/-- What the library of shapes shows. -/
def shapesSurface : Surface :=
  { Surface.empty "Shapes" with
    classes := [⟨"Square", 0, ⟨.kernel, .handle, 10, 0⟩, [⟨.own, .interface, 0, 0⟩], [], [area], []⟩]
    interfaces := [⟨"Shape", 0, [], [area]⟩] }

theorem shapes_completes :
    ∃ p, (Builder.mk shapes .unstarted [] none).Completes p ∧ p.surface = shapesSurface :=
  completes_of_compile (by decide +kernel)

end Sample

/-! ### What the stages guarantee -/

theorem RelyGraph.Loaded.sound_table {g : RelyGraph} {built : List Rely} (loaded : g.Loaded built)
    (found : (built.map (·.table))[i]? = some t) : t.Sound (.rely i) := by
  obtain ⟨s, _, rfl, _, spaced⟩ := loaded.surface_of_table found
  refine ⟨Surface.home_tableAt, ?_, Surface.sound_tableAt spaced.parents⟩
  intro c member
  rw [Surface.classes_tableAt] at member
  obtain ⟨_, _, rfl⟩ := mem_mapIdx.1 member
  rfl

namespace Job

variable {job : Job} {p : Products} {merged linked : Draft}

namespace Passes

variable (passes : job.Passes p merged linked)
include passes

theorem loaded : job.graph.Loaded p.relies := RelyGraph.loaded_of_load passes.loads

theorem table {s : Surface} (atIndex : job.surfaces[i]? = some s) :
    p.tables[i]? = some (s.tableAt (job.graph.placement s i)) :=
  passes.loaded.table atIndex

theorem length_tables : p.tables.length = job.surfaces.length := by
  rw [Products.tables, length_map]
  exact passes.loaded.length_built

theorem surface_of_table (found : p.tables[i]? = some t) :
    ∃ s, job.surfaces[i]? = some s ∧ t = s.tableAt (job.graph.placement s i) ∧
      s.All (job.graph.Has s) ∧ s.Spaced :=
  passes.loaded.surface_of_table found

theorem names_tables : p.tables.map (·.name) = job.surfaces.map (·.name) := by
  apply ext_getElem?
  intro i
  rw [getElem?_map, getElem?_map]
  cases atIndex : job.surfaces[i]? with
  | none =>
    have outside : p.tables.length ≤ i := passes.length_tables ▸ getElem?_eq_none_iff.1 atIndex
    simp [getElem?_eq_none outside]
  | some s => simp [passes.table atIndex]

theorem linked_settled : linked.table.Settled (linked.catalog p.tables).Fits := by
  have settled := link_settled passes.merged_wellMade passes.merged_settled
    passes.loaded.sound_table
  rwa [passes.links] at settled

theorem skeleton_draft : p.draft.table.skeleton = linked.table.skeleton := by
  rw [passes.draft]
  exact linked.table.assignAddresses_skeleton

theorem skeleton_merged : merged.table.skeleton = p.draft.table.skeleton :=
  (passes.skeleton_draft.trans passes.linked_skeleton).symm

theorem wellMade : p.draft.table.WellMade :=
  passes.linked_wellMade.of_skeleton passes.skeleton_draft.symm

theorem settled : p.draft.table.Settled (p.draft.catalog p.tables).Fits := by
  have laidOut : p.draft.table.Settled (linked.catalog p.tables).Fits := by
    rw [passes.draft, Table.assignAddresses_settled]
    exact passes.linked_settled
  exact laidOut.imp fun _ fits => fits.of_skeleton passes.skeleton_draft.symm

/-- The surface is what the table shows, and all types that it shows are exported. -/
theorem surface_eq : p.surface = p.draft.table.surfaceOf (job.surfaces.map (·.name)) ∧
    p.draft.table.shown.Settled p.draft.table.Exports := by
  have quiet : (linked.exportSurface p.tables).notes = [] := passes.exports
  obtain ⟨value, exported⟩ := exportSurface_of_quiet passes.linked_wellMade
    (passes.linked_settled.imp fun _ fits => fits.proper) quiet
  rw [passes.names_tables, ← passes.surface] at value
  rw [passes.draft, Table.assignAddresses_surfaceOf, Table.assignAddresses_exports]
  exact ⟨value, exported⟩

theorem acc_ownParent (i : Nat) : Acc (Walk.Onward (ownParent p.draft.table.classes)) i := by
  have same : ownParent p.draft.table.classes = ownParent linked.table.classes := by
    rw [passes.draft]
    refine Table.assignAddresses_keeps (fun t => ownParent t.classes) (fun t => ?_) _
    exact ownParent_congr (by rw [Table.unplaced, map_map]; rfl)
  have ends := acc_ownParent_of_link merged (p.relies.map (·.table)) i
  rwa [passes.links, ← same] at ends

end Passes

end Job

end Linkage
