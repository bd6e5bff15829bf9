/-
Purpose: The kernel and the libraries that are relied on mention nothing of the library being
  compiled, so its numbers do not matter for them.
-/
import Linkage.Proofs.Reorder.Catalogs
import Linkage.Proofs.Compile.Stages

namespace Linkage

open List NameMap

variable {n : Numbering} {home : Home} {t : Table}

/-- A table of another library whose entries have no new numbers in them is like itself. -/
theorem Table.alike_self (away : home ≠ .here) (sound : t.Sound home)
    (classMembers : ∀ c ∈ t.classes, ∀ {name d}, c.members.find? name = some d →
      d.entity.isMember = true)
    (interfaceMembers : ∀ i ∈ t.interfaces, ∀ {name d}, i.members.find? name = some d →
      d.entity.isMember = true) (classes : t.classes.map (n.classDef home) = t.classes)
    (interfaces : t.interfaces.map (n.interfaceDef home) = t.interfaces)
    (delegates : t.delegates.map (n.delegateDef home) = t.delegates)
    (coroutines : t.coroutines.map (n.coroutineDef home) = t.coroutines)
    (globals : t.globals.map (n.variableDef home) = t.globals)
    (methods : t.methods.map (n.method home) = t.methods)
    (natives : t.natives.map (n.method home) = t.natives) : t.Alike n home t := by
  have same {α : Type} {f : α → α} {xs : List α} (fixed : xs.map f = xs) (i : Nat) :
      xs[i]? = xs[i]?.map f := by
    rw [← getElem?_map, fixed]
  have sameMethods {ms : List Method} (fixed : ms.map (n.method home) = ms) :
      Reindexed (.refl _) (Method.Alike n home) ms ms := by
    intro i
    show Option.Rel _ ms[i]? ms[i]?
    have image := same fixed i
    cases found : ms[i]? with
    | none => exact .none
    | some m =>
      rw [found] at image
      have equal : m = n.method home m := Option.some.inj image
      have related := Method.alike_method n home m
      rw [← equal] at related
      exact .some related
  have numbers := Numbering.within_of_ne (n := n) away
  constructor
  case toSameEntries =>
    refine ⟨?_, ?_, ?_, ?_, ?_, ?_, ?_⟩ <;> rw [numbers]
    · exact same classes
    · exact same interfaces
    · exact same delegates
    · exact same coroutines
    · intro i
      rw [← Function.comp_def, ← Option.map_map, ← same globals i]
      rfl
    · exact sameMethods methods
    · exact sameMethods natives
  case name => rfl
  case stands => exact sound.home
  case stands' => exact sound.home
  case kinds => exact sound.kinds
  case classMembers => exact classMembers
  case interfaceMembers => exact interfaceMembers
  case root => rw [numbers]; rfl
  case child =>
    intro space name
    rw [numbers]
    exact (Option.map_id' ..).symm
  case found =>
    intro space name
    rw [numbers]
    show t.lookup space name = _
    cases hit : t.lookup space name with
    | none => rfl
    | some d =>
      have declared : t.find (space, name) = some d := hit
      have elsewhere : d.home ≠ .here := (sound.names declared).1 ▸ away
      rw [Option.map_some, n.declaration_of_home_ne elsewhere]
  case parent =>
    intro space
    rw [numbers]
    exact (Option.map_id' ..).symm
  case label => intro space; rw [numbers]; rfl

/-! ### The kernel -/

theorem Kernel.alike_table (n : Numbering) : Kernel.table.Alike n .kernel Kernel.table := by
  have members : ∀ c ∈ Kernel.table.classes, ∀ entry ∈ c.members.entries,
      entry.2.entity.isMember = true := by decide
  refine Table.alike_self nofun Kernel.sound_table ?_ nofun ?_ rfl rfl rfl ?_ ?_ rfl
  · intro c member name d found
    exact members c member (name, d) (mem_entries_of_find? found)
  · rfl
  · rfl
  · rfl

/-! ### Libraries that are relied on -/

/-- What is in a map of a list was in the list. -/
theorem NameMap.mem_of_mem_entries_ofList {α : Type} {entries : List (String × α)}
    {entry : String × α} (member : entry ∈ (NameMap.ofList entries).entries) : entry ∈ entries := by
  induction entries using List.reverseRecOn generalizing entry with
  | nil => exact member
  | append_singleton front last ih =>
    rw [ofList_append_singleton] at member
    unfold insert at member
    split at member
    · obtain ⟨old, inside, rfl⟩ := mem_map.1 member
      split
      · exact mem_append_right _ (mem_singleton_self _)
      · exact mem_append_left _ (ih inside)
    · rcases mem_append.1 member with old | new
      · exact mem_append_left _ (ih old)
      · exact mem_append_right _ new

theorem Numbering.members_of_home_ne {names : NameMap Declaration}
    (away : ∀ entry ∈ names.entries, entry.2.home ≠ .here) : n.members names = names := by
  obtain ⟨entries⟩ := names
  have same : entries.map (fun entry => (entry.1, n.declaration entry.2)) = entries := by
    refine (map_congr_left fun entry member => ?_).trans (map_id entries)
    rw [n.declaration_of_home_ne (away entry member)]
    rfl
  exact congrArg NameMap.mk same

namespace Surface

variable {ρ : Placement} (away : ∀ origin, ρ origin ≠ .here)
include away

theorem ref_at (type : SurfaceType) : n.ref (type.at ρ) = type.at ρ := by
  refine n.ref_of_home_ne ?_
  unfold SurfaceType.at
  split
  · nofun
  · exact away type.origin

theorem map_ref_at (types : List SurfaceType) :
    (types.map (·.at ρ)).map n.ref = types.map (·.at ρ) := by
  rw [map_map]
  exact map_congr_left fun type _ => ref_at away type

theorem map_parameter_at (params : List SurfaceParameter) :
    (params.map (·.at ρ)).map n.parameter = params.map (·.at ρ) := by
  rw [map_map]
  refine map_congr_left fun p _ => ?_
  show Parameter.mk p.name (n.ref (p.type.at ρ)) = _
  rw [ref_at away]
  rfl

theorem map_function_at (functions : List SurfaceFunction) :
    (functions.map (·.at ρ)).map n.function = functions.map (·.at ρ) := by
  rw [map_map]
  refine map_congr_left fun f _ => ?_
  show Function.mk f.visibility ((f.params.map (·.at ρ)).map n.parameter)
    ((f.returns.map (·.at ρ)).map n.ref) none = _
  rw [map_parameter_at away, map_ref_at away]
  rfl

theorem map_method_at (stands : home ≠ .here) (methods : List SurfaceMethod) :
    (methods.map (·.at ρ)).map (n.method home) = methods.map (·.at ρ) := by
  rw [map_map]
  refine map_congr_left fun m _ => ?_
  show Method.mk m.name ((n.within home).spaces m.space) ((m.functions.map (·.at ρ)).map n.function)
    = _
  rw [map_function_at away, n.within_of_ne stands]
  rfl

theorem classDef_at (stands : home ≠ .here) (index : Nat) (c : SurfaceClass) :
    n.classDef home (c.at ρ index) = c.at ρ index := by
  have fields : (c.fields.map (·.at ρ)).map n.field = c.fields.map (·.at ρ) := by
    rw [map_map]
    refine map_congr_left fun v _ => ?_
    show MemberVariable.mk v.name v.visibility (n.ref (v.type.at ρ)) 0 none = _
    rw [ref_at away]
    rfl
  have members : n.members (c.at ρ index).members = (c.at ρ index).members := by
    refine n.members_of_home_ne fun entry member => ?_
    have listed := mem_of_mem_entries_ofList member
    rcases mem_append.1 listed with isField | isMethod
    · obtain ⟨_, _, rfl⟩ := mem_mapIdx.1 isField
      exact away .own
    · obtain ⟨_, _, rfl⟩ := mem_mapIdx.1 isMethod
      exact away .own
  unfold Numbering.classDef
  rw [members]
  show ClassDef.mk c.name ((n.within home).spaces c.space) .public_ .handle (n.ref (c.parent.at ρ))
    ((c.interfaces.map (·.at ρ)).map n.ref) ((c.fields.map (·.at ρ)).map n.field)
    ((c.methods.map (·.at ρ)).map (n.method home))
    ((c.constructors.map (·.at ρ)).map n.function) _ 0 none = _
  rw [ref_at away, map_ref_at away, fields, map_method_at away stands, map_function_at away,
    n.within_of_ne stands]
  rfl

theorem interfaceDef_at (stands : home ≠ .here) (index : Nat)
    (i : SurfaceInterface) : n.interfaceDef home (i.at ρ index) = i.at ρ index := by
  have members : n.members (i.at ρ index).members = (i.at ρ index).members := by
    refine n.members_of_home_ne fun entry member => ?_
    obtain ⟨_, _, rfl⟩ := mem_map.1 (mem_of_mem_entries_ofList member)
    exact away .own
  unfold Numbering.interfaceDef
  rw [members]
  show InterfaceDef.mk i.name ((n.within home).spaces i.space) .public_
    ((i.inherits.map (·.at ρ)).map n.ref) ((i.methods.map (·.at ρ)).map (n.method home)) _ none = _
  rw [map_ref_at away, map_method_at away stands, n.within_of_ne stands]
  rfl

/-- A table that was made from a surface elsewhere has no new numbers in it. -/
theorem alike_tableAt (s : Surface) (sound : (s.tableAt ρ).Sound (ρ .own)) :
    (s.tableAt ρ).Alike n (ρ .own) (s.tableAt ρ) := by
  have stands := away .own
  refine Table.alike_self stands sound ?_ ?_ ?_ ?_ ?_ ?_ ?_ ?_ ?_
  · intro c member name d found
    rw [classes_tableAt] at member
    obtain ⟨_, _, rfl⟩ := mem_mapIdx.1 member
    rcases mem_append.1 (mem_of_find?_ofList found) with isField | isMethod
    · obtain ⟨_, _, same⟩ := mem_mapIdx.1 isField
      cases same
      rfl
    · obtain ⟨_, _, same⟩ := mem_mapIdx.1 isMethod
      cases same
      rfl
  · intro i member name d found
    rw [interfaces_tableAt] at member
    obtain ⟨_, _, rfl⟩ := mem_mapIdx.1 member
    obtain ⟨_, _, same⟩ := mem_map.1 (mem_of_find?_ofList found)
    cases same
    rfl
  · rw [classes_tableAt]
    refine (map_congr_left fun c member => ?_).trans (map_id _)
    obtain ⟨_, _, rfl⟩ := mem_mapIdx.1 member
    exact classDef_at away stands _ _
  · rw [interfaces_tableAt]
    refine (map_congr_left fun i member => ?_).trans (map_id _)
    obtain ⟨_, _, rfl⟩ := mem_mapIdx.1 member
    exact interfaceDef_at away stands _ _
  · rw [delegates_tableAt, map_map]
    refine map_congr_left fun d _ => ?_
    show DelegateDef.mk d.name ((n.within (ρ .own)).spaces d.space) .public_
      ((d.params.map (·.at ρ)).map n.parameter) ((d.returns.map (·.at ρ)).map n.ref) none = _
    rw [map_parameter_at away, map_ref_at away, n.within_of_ne stands]
    rfl
  · rw [coroutines_tableAt, map_map]
    refine map_congr_left fun c _ => ?_
    show CoroutineDef.mk c.name ((n.within (ρ .own)).spaces c.space) .public_
      ((c.returns.map (·.at ρ)).map n.ref) none = _
    rw [map_ref_at away, n.within_of_ne stands]
    rfl
  · rw [globals_tableAt, map_map]
    refine map_congr_left fun v _ => ?_
    show VariableDef.mk v.name ((n.within (ρ .own)).spaces v.space) .public_ v.constant
      (n.ref (v.type.at ρ)) none 0 none = _
    rw [ref_at away, n.within_of_ne stands]
    rfl
  · rw [methods_tableAt]
    exact map_method_at away stands s.methods
  · rw [natives_tableAt]
    exact map_method_at away stands s.natives

end Surface

/-- The tables of a loaded list have no new numbers in them. -/
theorem RelyGraph.Loaded.alike_table {g : RelyGraph} {built : List Rely}
    (loaded : g.Loaded built) (n : Numbering) {i : Nat}
    (found : (built.map (·.table))[i]? = some t) : t.Alike n (.rely i) t := by
  have sound := loaded.sound_table found
  obtain ⟨s, _, rfl, _, _⟩ := loaded.surface_of_table found
  exact Surface.alike_tableAt (g.placement_ne_here s i) s sound

end Linkage
