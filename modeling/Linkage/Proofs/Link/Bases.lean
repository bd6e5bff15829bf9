/-
Purpose: After linking no interface inherits itself, whatever was complained about; nor does one
  that a linked library sees in the published libraries it relies on.
-/
import Linkage.Proofs.Catalog.Depth
import Linkage.Proofs.Export.Published
import Linkage.Proofs.Link.Trimmed

namespace Linkage

open List Surface Catalog

namespace Draft

/-- What interfaces inherit is all that their cycles depend on. -/
theorem ownBases_congr {interfaces interfaces' : List InterfaceDef}
    (same : interfaces'.map (·.inherits) = interfaces.map (·.inherits)) :
    ownBases interfaces' = ownBases interfaces := by
  funext i
  have inherits := congrArg (fun l => l[i]?) same
  simp at inherits
  rw [ownBases, inherits, ownBases]

theorem acc_ownBases_of_link (d : Draft) (relies : List Table) (i : Nat) :
    Acc (fun k j => k ∈ ownBases (d.link relies).value.table.interfaces j) i := by
  have signatures (d : Draft) : (d.linkSignatures relies).value.table.interfaces.map (·.inherits) =
      d.table.interfaces.map (·.inherits) := by
    simp only [linkSignatures, Noted.value_bind, Noted.value_pure, Noted.value_traverse,
      map_map]
    rfl
  simp only [link, Noted.value_bind]
  rw [ownBases_congr (signatures _)]
  exact acc_ownBases_breakInterfaceCycles _ i

end Draft

/-! ### Published interfaces -/

/-- The interfaces of a surface that one of them inherits. -/
def Surface.ownBases (s : Surface) (index : Nat) : List Nat :=
  ((s.interfaces[index]?.map (·.inherits)).getD []).filterMap fun type =>
    if type.origin = .own ∧ type.kind = .interface then some type.index else none

theorem Surface.mem_ownBases {s : Surface} {i j : Nat} :
    j ∈ s.ownBases i ↔ ∃ x, s.interfaces[i]? = some x ∧
      ∃ type ∈ x.inherits, type.origin = .own ∧ type.kind = .interface ∧ type.index = j := by
  unfold ownBases
  cases s.interfaces[i]? <;> simp [mem_filterMap, and_assoc]

/-- Exported interfaces inherit themselves no more than the interfaces of the table do. -/
theorem Table.acc_ownBases_surfaceOf {t : Table} (exported : t.shown.Settled t.Exports)
    (dependencies : List String) (ends : ∀ i, Acc (fun k j => k ∈ Draft.ownBases t.interfaces j) i)
    (number : Nat) : Acc (fun k j => k ∈ (t.surfaceOf dependencies).ownBases j) number := by
  have kept : ∀ index number, t.exportIndex? .interface index = some number →
      Acc (fun k j => k ∈ (t.surfaceOf dependencies).ownBases j) number := by
    intro index
    induction ends index with
    | intro index _ ih =>
      intro number isNumber
      obtain ⟨x, found, _, there⟩ := getElem?_filter_of_keptIndex? isNumber
      have held := exported.interfaces x (mem_of_getElem? there)
      apply Acc.intro number
      intro k isBase
      obtain ⟨y, written, _, member, own, isInterface, rfl⟩ := mem_ownBases.1 isBase
      simp only [surfaceOf, shown, getElem?_map, there, Option.map_some,
        Option.some.injEq] at written
      subst written
      obtain ⟨type, inherited, rfl⟩ := mem_map.1 member
      obtain ⟨home, kind, isIndex⟩ := surfaceType_own (held.inherits type inherited).1 own
      rw [← kind, isInterface] at isIndex
      apply ih type.id.index _ _ isIndex
      exact Draft.mem_ownBases.2 ⟨x, found, type, inherited, home, kind.symm.trans isInterface, rfl⟩
  cases there : (t.interfaces.filter fun i => i.visibility = .public_)[number]? with
  | some x =>
    obtain ⟨index, _, isNumber⟩ := exists_keptIndex?_of_filter there
    exact kept index number isNumber
  | none =>
    apply Acc.intro number
    intro k isBase
    obtain ⟨_, found, _⟩ := mem_ownBases.1 isBase
    simp [surfaceOf, shown, there] at found

theorem Surface.Published.acc_ownBases {s : Surface} (published : s.Published) (index : Nat) :
    Acc (fun k j => k ∈ s.ownBases j) index := by
  obtain ⟨b, p, completes, rfl⟩ := published
  obtain ⟨merged, linked, passes⟩ := Job.passes_of_completes completes
  obtain ⟨surface, exported⟩ := passes.surface_eq
  have same : p.draft.table.interfaces = linked.table.interfaces := by
    rw [passes.draft]
    exact Table.assignAddresses_keeps (·.interfaces) (fun _ => rfl) _
  rw [surface]
  apply Table.acc_ownBases_surfaceOf exported
  intro i
  have ends := Draft.acc_ownBases_of_link merged (p.relies.map (·.table)) i
  rwa [passes.links, ← same] at ends

/-! ### Interfaces beside published ones -/

/-- The kernel has no interfaces that could inherit any. -/
theorem Catalog.acc_bases_kernel (c : Catalog) (kind : TypeKind) (index : Nat) :
    Acc (fun y x => y ∈ c.baseInterfaces x) ⟨.kernel, kind, index⟩ := by
  apply Acc.intro
  intro y isBase
  obtain ⟨_, isInterface, _⟩ := mem_baseInterfaces.1 isBase
  obtain ⟨_, t, atHome, inside⟩ := interfaceDef?_eq_some.1 isInterface
  cases atHome
  cases inside

namespace RelyGraph.Loaded

variable {g : RelyGraph} {built : List Rely}

/-- An interface of a library inherits finitely many, since no interface of a library inherits
itself. -/
theorem acc_bases_rely (loaded : g.Loaded built) (own : Table)
    (ends : ∀ s ∈ g.libraries, ∀ index, Acc (fun k j => k ∈ s.ownBases j) index) :
    ∀ (i : Nat) (kind : TypeKind) (index : Nat),
      Acc (fun y x => y ∈ (Catalog.mk own (built.map (·.table))).baseInterfaces x)
        ⟨.rely i, kind, index⟩ := by
  refine loaded.acc_of_links (acc_bases_kernel _) ends ?_
  intro i kind index y isBase
  obtain ⟨_, isInterface, listed⟩ := mem_baseInterfaces.1 isBase
  obtain ⟨_, t, atHome, inside⟩ := interfaceDef?_eq_some.1 isInterface
  obtain ⟨s, atIndex, rfl, _⟩ := loaded.surface_of_table atHome
  obtain ⟨x, found, rfl⟩ := interface_tableAt_iff.1 inside
  obtain ⟨_, placed, _, baseKind, rfl⟩ := mem_scalarInterfaces.1 listed
  obtain ⟨type, member, rfl⟩ := mem_map.1 placed
  have valid : type.kind ≠ .invalid := by
    intro unresolved
    rw [SurfaceType.at, if_pos unresolved] at baseKind
    cases baseKind
  have mentioned := inherits_mem_types (mem_of_getElem? found) member
  simp only [SurfaceType.at, if_neg valid] at baseKind ⊢
  refine .inr ⟨s, atIndex, type, mentioned, valid, rfl, fun origin => ?_⟩
  exact mem_ownBases.2 ⟨x, found, type, member, origin, baseKind, rfl⟩

/-- Beside a loaded list of libraries whose interfaces do not inherit themselves, every interface
inherits finitely many if those of the library do not inherit themselves either. -/
theorem acc_baseInterfaces (loaded : g.Loaded built)
    (ends : ∀ s ∈ g.libraries, ∀ index, Acc (fun k j => k ∈ s.ownBases j) index) {own : Table}
    (ownEnds : ∀ i, Acc (fun k j => k ∈ Draft.ownBases own.interfaces j) i) (x : TypeId) :
    Acc (fun y x => y ∈ (Catalog.mk own (built.map (·.table))).baseInterfaces x) x := by
  obtain ⟨home, kind, index⟩ := x
  cases home with
  | kernel => exact acc_bases_kernel _ kind index
  | rely i => exact loaded.acc_bases_rely own ends i kind index
  | here =>
    induction ownEnds index generalizing kind with
    | intro index _ ih =>
      apply Acc.intro
      intro y isBase
      obtain ⟨d, isInterface, listed⟩ := mem_baseInterfaces.1 isBase
      obtain ⟨_, t, atHome, inside⟩ := interfaceDef?_eq_some.1 isInterface
      cases atHome
      obtain ⟨type, member, _, baseKind, rfl⟩ := mem_scalarInterfaces.1 listed
      rw [show type.id = ⟨type.id.home, type.id.kind, type.id.index⟩ from rfl]
      cases place : type.id.home with
      | kernel => exact acc_bases_kernel _ _ _
      | rely i => exact loaded.acc_bases_rely own ends i _ _
      | here =>
        apply ih type.id.index
        exact Draft.mem_ownBases.2 ⟨d, inside, type, member, place, baseKind, rfl⟩

end RelyGraph.Loaded

end Linkage
