/-
Purpose: Compiling files in another order ends in the same state, with symbols of the same
  names.
-/
import Linkage.Proofs.Compile.Outcome
import Linkage.Proofs.Reorder.Symbols

namespace Linkage

variable {files : List SourceFile} {n : Numbering} {linked' : Draft}

theorem Noted.Follows.exists_of_quiet {ν α β : Type} {R : α → β → Prop} {a : α} {y : Noted ν β}
    (follows : Noted.Follows R ⟨a, []⟩ y) : ∃ b, y = ⟨b, []⟩ ∧ R a b := by
  obtain ⟨quiet, related⟩ := follows rfl
  exact ⟨y.value, Noted.ext rfl quiet, related⟩

theorem readFiles_perm {files' : List SourceFile} (perm : files.Perm files')
    {outlines : List (SourceFile × Outline)} (reads : readFiles files = ⟨outlines, []⟩) :
    ∃ outlines', readFiles files' = ⟨outlines', []⟩ ∧ outlines.Perm outlines' := by
  rw [readFiles_eq] at reads
  obtain ⟨rfl, quiet⟩ := Noted.mk.inj reads
  have quiet' : files'.flatMap SourceFile.faults = [] :=
    List.Perm.eq_nil (quiet ▸ perm.symm.flatMap_right SourceFile.faults)
  exact ⟨files'.filterMap SourceFile.outline?, by rw [readFiles_eq, quiet'], perm.filterMap _⟩

namespace Job

/-- The job with other files. -/
def withFiles (job : Job) (files : List SourceFile) : Job := { job with files }

namespace Prepares

variable {job : Job} {merged linked : Draft} {relies : List Rely}

section

variable (prepares : job.Prepares merged linked relies)
include prepares

theorem library_wellMade : (job.library linked relies).draft.table.WellMade :=
  prepares.merged_wellMade.of_skeleton prepares.skeleton_library

theorem library_namedOnce : (job.library linked relies).draft.table.NamedOnce :=
  Table.NamedOnce.of_skeleton prepares.skeleton_library
    (prepares.of_merge (P := (·.table.NamedOnce)) fun _ _ => Draft.namedOnce_merge)

theorem leaves (n : Numbering) : n.Leaves (relies.map (·.table)) :=
  (RelyGraph.loaded_of_load prepares.loads).alike_table n

end

theorem alike_library (job : Job)
    (alike : linked.Alike n linked') (files : List SourceFile) (relies : List Rely) :
    (job.library linked relies).draft.Alike n
      ((job.withFiles files).library linked' relies).draft where
  table := alike.table.assignAddresses
  files := alike.files

/-- Files in another order pass the same stages, and the drafts differ in their numbers only. -/
theorem perm (prepares : job.Prepares merged linked relies)
    (perm : job.files.Perm files) : ∃ merged' linked' n, linked.Alike n linked' ∧
      (job.withFiles files).Prepares merged' linked' relies := by
  obtain ⟨outlines, reads, merges⟩ := prepares.merges
  obtain ⟨outlines', reads', sameOutlines⟩ := readFiles_perm perm reads
  obtain ⟨merged', merges', n, sameMerged⟩ :
      ∃ merged', Draft.merge job.name outlines' = ⟨merged', []⟩ ∧
        ∃ n : Numbering, merged.Alike n merged' := by
    have alike := Draft.merge_alike job.name sameOutlines (by rw [merges])
    rw [merges] at alike
    exact ⟨_, Noted.ext rfl alike.1, alike.2⟩
  have leaves : n.Leaves (relies.map (·.table)) := prepares.leaves n
  have links := sameMerged.link leaves prepares.merged_wellMade
    (prepares.merged_settled.imp fun _ _ => trivial)
  rw [prepares.links] at links
  obtain ⟨linked', links', sameLinked⟩ := links.exists_of_quiet
  refine ⟨merged', linked', n, sameLinked, ?_⟩
  constructor
  case loads => exact prepares.loads
  case merges => exact ⟨outlines', reads', merges'⟩
  case links => exact links'
  case checks => exact (sameLinked.check leaves prepares.linked_wellMade prepares.checks).1
  case exports => exact (sameLinked.exportSurface prepares.exports).1
  case binds =>
    have laidOut := alike_library job sameLinked files relies
    exact (laidOut.bindings leaves prepares.binds).1

/-- Libraries that differ in their numbers only have symbols of the same names. -/
theorem symbolNames {merged' : Draft} (prepares : job.Prepares merged linked relies)
    (prepares' : (job.withFiles files).Prepares merged' linked' relies)
    (alike : linked.Alike n linked') :
    ((job.withFiles files).library linked' relies).symbols.map Symbol.name =
      (job.library linked relies).symbols.map Symbol.name :=
  (alike_library job alike files relies).symbolNames (prepares.leaves n)
    prepares.library_wellMade prepares'.library_wellMade prepares.library_namedOnce
    prepares'.library_namedOnce _ _ _

end Prepares

end Job

/-- The names of the symbols that the last compilation produced. -/
def Builder.symbolNames (b : Builder) : Option (List String) :=
  b.artifact.bind fun artifact => artifact.symbols.map fun symbols => symbols.map Symbol.name

namespace Builder

/-- The order of the files does not matter: compiling ends in the same state, and if it ends well
and symbols are asked for, they have the same names in the same order. -/
theorem compile_perm (b : Builder) (plain : b.job.generator = .plain) {files : List SourceFile}
    (perm : b.job.files.Perm files) :
    ({ b with job := b.job.withFiles files } : Builder).compile.state = b.compile.state ∧
      (b.compile.state = .completed → b.job.options.symbolTable = true → ∃ names,
        b.compile.symbolNames = some names ∧
        ({ b with job := b.job.withFiles files } : Builder).compile.symbolNames = some names) := by
  by_cases idle : b.state = .compiling
  · simp [compile, idle]
  let b' : Builder := { b with job := b.job.withFiles files }
  have idle' : b'.state ≠ .compiling := idle
  by_cases ready : ∃ merged linked relies, b.job.Prepares merged linked relies
  · obtain ⟨merged, linked, relies, prepares⟩ := ready
    obtain ⟨merged', linked', n, alike, prepares'⟩ := prepares.perm perm
    obtain ⟨p, compiled, rfl, passes⟩ := compile_of_prepares idle plain prepares
    obtain ⟨p', compiled', same, passes'⟩ := compile_of_prepares (b := b') idle' plain prepares'
    rw [compiled, compiled']
    refine ⟨rfl, fun _ wanted => ⟨(b.job.library linked p.relies).symbols.map Symbol.name, ?_, ?_⟩⟩
    · show p.artifact.symbols.map _ = _
      rw [passes.symbols, if_pos wanted, Option.map_some]
    · show p'.artifact.symbols.map _ = _
      rw [passes'.symbols, if_pos (show b'.job.options.symbolTable = true from wanted),
        Option.map_some, same]
      exact congrArg some (prepares.symbolNames prepares' alike)
  · have stuck : ¬∃ merged linked relies, b'.job.Prepares merged linked relies := by
      rintro ⟨merged, linked, relies, prepares⟩
      obtain ⟨merged', linked', _, _, prepares'⟩ := prepares.perm perm.symm
      exact ready ⟨merged', linked', relies, prepares'⟩
    obtain ⟨_, _, compiled, _⟩ := compile_of_not_prepares idle ready
    obtain ⟨_, _, compiled', _⟩ := compile_of_not_prepares idle' stuck
    rw [compiled, compiled']
    refine ⟨rfl, fun completed => ?_⟩
    cases completed

end Builder

namespace Sample

/-- A class before the class that it derives from, and a function of a name that another file
uses too. -/
def parts : Job where
  name := "Parts"
  files := [⟨"wheel", "class Wheel : Part\nCount(Wheel w)\n"⟩,
    ⟨"part", "class Part\nCount(Part p)\n"⟩]
  surfaces := []

end Sample

/-- The two files of a library in both orders. -/
theorem Builder.compile_perm_parts :
    let b := mk Sample.parts .unstarted [] none
    let b' := mk (Sample.parts.withFiles Sample.parts.files.reverse) .unstarted [] none
    b.compile.state = .completed ∧ b'.compile.state = .completed ∧
      ∃ names, b.compile.symbolNames = some names ∧ b'.compile.symbolNames = some names := by
  intro b b'
  have completes : b.compile.state = .completed := by decide +kernel
  have both := compile_perm b rfl (List.reverse_perm Sample.parts.files).symm
  exact ⟨completes, both.1.trans completes, both.2 completes rfl⟩

end Linkage
