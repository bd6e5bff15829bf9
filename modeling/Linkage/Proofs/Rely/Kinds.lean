/-
Purpose: When the types of an accepted library are of the kinds of the classes that they name.
-/
import Linkage.Proofs.Rely.Mentions

namespace Linkage

open List Surface SurfaceType

variable {i : Nat} {c : ClassDef} {t : Table}

/-- The tables that come from surfaces, each resolved against tables that were built before. -/
inductive Table.Built : Table → Prop
  | instantiate {l : Linkup} {r : Rely} (elsewhere : l.own ≠ .kernel)
      (built : ∀ t, some t ∈ l.dependencies → Table.Built t)
      (accepted : l.instantiate = .ok r) : Table.Built r.table

/-- A type names a class if a library at its place has the class under its number. -/
structure Linkup.Means (l : Linkup) (own : Table) (x : TypeRef) (c : ClassDef) : Prop where
  definition : x.id.kind.isDefinition = true
  found : ∃ t ∈ l.libraries own, t.home = x.id.home ∧ t.classes[x.id.index]? = some c

/-! ### The kinds of classes -/

/-- In the kernel the value types come first, and the root of all handles ends them. -/
theorem Kernel.kind_of_class (found : Kernel.table.classes[i]? = some c) :
    c.kind = if i < TypeId.handle.index then .struct else .handle := by
  have all : ∀ entry ∈ Kernel.table.classes.zipIdx,
      entry.1.kind = if entry.2 < TypeId.handle.index then .struct else .handle := by decide
  exact all (c, i) (mk_mem_zipIdx_iff_getElem?.2 found)

theorem Surface.kind_of_class {s : Surface} {ρ : Placement}
    (found : (s.tableAt ρ).classes[i]? = some c) : c.kind = .handle := by
  obtain ⟨_, _, rfl⟩ := class_tableAt_iff.1 found
  rfl

/-- Outside of the kernel no value types are built. -/
theorem Table.Built.kind_of_class (built : t.Built)
    (found : t.classes[i]? = some c) : c.kind = .handle := by
  obtain ⟨_, _, accepted⟩ := built
  rw [(Linkup.instantiate_eq_ok.1 accepted).2] at found
  exact kind_of_class found

theorem Table.Built.home_ne_kernel (built : t.Built) : t.home ≠ .kernel := by
  obtain ⟨elsewhere, _, accepted⟩ := built
  rw [(Linkup.instantiate_eq_ok.1 accepted).2, home_tableAt]
  exact elsewhere

/-- The kind of the class that a type of a surface can name, read off its origin and number. -/
def SurfaceType.classKind (y : SurfaceType) : TypeKind :=
  match y.origin with
  | .kernel => if y.index < TypeId.handle.index then .struct else .handle
  | .own | .dependency _ => .handle

/-- A type that names a class says of what kind the class is. -/
def SurfaceType.Candid (y : SurfaceType) : Prop := y.kind.isDefinition = true → y.classKind = y.kind

instance (y : SurfaceType) : Decidable y.Candid :=
  inferInstanceAs (Decidable (y.kind.isDefinition = true → y.classKind = y.kind))

/-! ### The classes that types name -/

theorem TypeKind.ne_invalid_of_isDefinition {kind : TypeKind}
    (definition : kind.isDefinition = true) : kind ≠ .invalid := by
  rintro rfl
  cases definition

theorem SurfaceType.at_of_isDefinition {y : SurfaceType} (definition : y.kind.isDefinition = true)
    (ρ : Placement) : y.at ρ = ⟨⟨ρ y.origin, y.kind, y.index⟩, y.dimension⟩ :=
  if_neg (TypeKind.ne_invalid_of_isDefinition definition)

namespace Linkup

variable {l : Linkup} {y : SurfaceType}

/-- Every type of a class kind that is there names a class. -/
theorem exists_means (has : l.Has y) (definition : y.kind.isDefinition = true) :
    ∃ c, l.Means (l.surface.tableAt l.places) (y.at l.places) c := by
  obtain ⟨t, library, home, counted⟩ :=
    exists_library has (TypeKind.ne_invalid_of_isDefinition definition)
  have inside : y.index < t.classes.length := by
    cases kind : y.kind with
    | struct | handle =>
      rw [kind] at counted
      exact counted
    | _ =>
      rw [kind] at definition
      cases definition
  rw [at_of_isDefinition definition]
  exact ⟨_, definition, t, library, home, getElem?_eq_getElem inside⟩

/-- What a type names is of the kind that its origin and number tell, whatever kind it says. -/
theorem kind_of_means (elsewhere : l.own ≠ .kernel) (built : ∀ t, some t ∈ l.dependencies → t.Built)
    (has : l.Has y) (definition : y.kind.isDefinition = true)
    (means : l.Means (l.surface.tableAt l.places) (y.at l.places) c) : c.kind = y.classKind := by
  obtain ⟨_, t, library, home, found⟩ := means
  rw [at_of_isDefinition definition] at home found
  have outside (notKernel : l.places y.origin ≠ .kernel) : c.kind = .handle := by
    rcases mem_libraries.1 library with rfl | rfl | matched
    · exact absurd home.symm notKernel
    · exact kind_of_class found
    · exact (built t matched).kind_of_class found
  unfold classKind
  cases origin : y.origin with
  | kernel =>
    rw [origin] at home
    rcases mem_libraries.1 library with rfl | rfl | matched
    · exact Kernel.kind_of_class found
    · exact absurd (home_tableAt.symm.trans home) elsewhere
    · exact absurd home (built t matched).home_ne_kernel
  | own => exact outside (origin ▸ elsewhere)
  | dependency d =>
    refine outside ?_
    cases matched : l.dependencies[d]?.join with
    | none =>
      have nothing : l.available y.kind y.origin = 0 := by simp [origin, available, matched]
      have counted := has.resolve_left (TypeKind.ne_invalid_of_isDefinition definition)
      omega
    | some t' =>
      have place : l.places y.origin = t'.home := by simp [origin, places, matched]
      rw [place]
      exact (built t' (mem_of_getElem? (Option.join_eq_some_iff.1 matched))).home_ne_kernel

/-- The types of an accepted library are of the kinds of the classes that they name exactly if its
surface gives the right kind for each: value for the first types of the kernel and handle for all
others.  Accepting the library does not make sure of this. -/
theorem kinds_agree_iff {r : Rely} (elsewhere : l.own ≠ .kernel)
    (built : ∀ t, some t ∈ l.dependencies → t.Built) (accepted : l.instantiate = .ok r) :
    (∀ x ∈ r.table.types, ∀ c, l.Means r.table x c → c.kind = x.id.kind) ↔
      ∀ y ∈ l.surface.types, y.Candid := by
  obtain ⟨⟨all, _⟩, rfl⟩ := instantiate_eq_ok.1 accepted
  rw [types_tableAt, forall_mem_map]
  refine forall₂_congr fun y mentioned => ?_
  have has := all y mentioned
  constructor
  · intro agrees definition
    obtain ⟨c, means⟩ := exists_means has definition
    rw [← kind_of_means elsewhere built has definition means, agrees c means,
      at_of_isDefinition definition]
  · intro candid c means
    have definition : y.kind.isDefinition = true := by
      have definition := means.definition
      unfold SurfaceType.at at definition
      split at definition
      · cases definition
      · exact definition
    rw [kind_of_means elsewhere built has definition means, candid definition,
      at_of_isDefinition definition]

end Linkup

namespace Sample

/-- A library that takes a class of another library for a value type, and the integer of the kernel
for a class. -/
def odd : Linkup where
  surface :=
    { empty "Odd" with
      dependencies := ["Orchard"]
      globals := [⟨"plot", 0, false, ⟨.dependency 0, .struct, 0, 0⟩⟩,
        ⟨"count", 0, false, ⟨.kernel, .handle, 3, 0⟩⟩] }
  own := .rely 1
  dependencies := [some (orchard.surface.tableAt orchard.places)]

theorem orchard_built : (orchard.surface.tableAt orchard.places).Built := by
  obtain ⟨r, result, table⟩ := Linkup.exists_of_isOk (l := orchard) (by decide +kernel)
  exact table ▸ .instantiate (by decide) (by simp [orchard]) result

end Sample

/-- A library is accepted whose types say value where there is a class and class where there is a
value, and values of those types are taken for what the types say. -/
theorem Linkup.kinds_disagree : (∀ t, some t ∈ Sample.odd.dependencies → t.Built) ∧
    ∃ r, Sample.odd.instantiate = .ok r ∧
      (∃ x ∈ r.table.types, ∃ c, Sample.odd.Means r.table x c ∧ c.kind = .handle ∧
        x.id.kind = .struct ∧ x.isReference = false) ∧
      ∃ x ∈ r.table.types, ∃ c, Sample.odd.Means r.table x c ∧ c.kind = .struct ∧
        x.id.kind = .handle ∧ x.isReference = true := by
  obtain ⟨r, result, table⟩ := exists_of_isOk (l := Sample.odd) (by decide +kernel)
  refine ⟨by simp [Sample.odd, Sample.orchard_built], r, result, ?_⟩
  rw [table]
  constructor
  · have library : Sample.orchard.surface.tableAt Sample.orchard.places ∈
        Sample.odd.libraries (Sample.odd.surface.tableAt Sample.odd.places) :=
      mem_libraries.2 (.inr (.inr (mem_singleton.2 rfl)))
    obtain ⟨plot, found⟩ : ∃ plot,
        (Sample.orchard.surface.tableAt Sample.orchard.places).classes[0]? = some plot := by
      rw [classes_tableAt]
      exact ⟨_, rfl⟩
    exact ⟨TypeId.scalar ⟨.rely 0, .struct, 0⟩, by decide +kernel, plot,
      ⟨rfl, _, library, home_tableAt, found⟩, kind_of_class found, rfl, rfl⟩
  · exact ⟨TypeId.scalar ⟨.kernel, .handle, 3⟩, by decide +kernel, _,
      ⟨rfl, Kernel.table, mem_libraries.2 (.inl rfl), rfl, rfl⟩, rfl, rfl, rfl⟩

/-- All types of the annex say what they name, so they are of the right kinds. -/
theorem Linkup.kinds_agree_iff_annex :
    ∃ r, Sample.annex.instantiate = .ok r ∧ (∀ y ∈ Sample.annex.surface.types, y.Candid) ∧
      ∀ x ∈ r.table.types, ∀ c, Sample.annex.Means r.table x c → c.kind = x.id.kind := by
  obtain ⟨r, result, _⟩ := exists_of_isOk (l := Sample.annex) (by decide +kernel)
  have candid : ∀ y ∈ Sample.annex.surface.types, y.Candid := by decide
  have built : ∀ t, some t ∈ Sample.annex.dependencies → t.Built := by
    simp [Sample.annex, Sample.orchard_built]
  exact ⟨r, result, candid, (kinds_agree_iff (by decide) built result).2 candid⟩

end Linkage
