/-
Purpose: What a library that passes the checks guarantees of its overloads and of the
  implementations of its interfaces, before and after it is laid out.
-/
import Linkage.Proofs.Catalog.Regular
import Linkage.Proofs.Compile.Stages

namespace Linkage

open List Noted

variable {c definition : ClassDef} {m method : Method} {i : InterfaceDef} {required : Function}
  {index : Nat} {id : TypeId}

/-! ### Checks without complaints -/

theorem Table.mem_overloadGroups_of_class {t : Table} {i : Nat} (isClass : t.classes[i]? = some c)
    {d : Declaration} (member : d ∈ classGroups t.home c i) : d ∈ t.overloadGroups := by
  obtain ⟨inside, rfl⟩ := List.getElem?_eq_some_iff.1 isClass
  simp only [overloadGroups, mem_append]
  exact .inl (.inl (.inl (mem_flatten.2 ⟨_, mem_mapIdx.2 ⟨i, inside, rfl⟩, member⟩)))

namespace Draft

variable {d : Draft} {relies : List Table}

/-- A group without complaints has functions that take different types. -/
theorem nodup_of_checkGroup {c : Catalog} {group : Declaration} {functions : List Function}
    (isGroup : d.table.overloads group = some functions)
    (sourced : ∀ f ∈ functions, f.source.isSome = true)
    (quiet : (d.checkGroup c group).notes = []) : (functions.map Function.paramTypes).Nodup := by
  simp only [checkGroup, isGroup, Option.getD_some, notes_noteAll,
    filterMap_eq_nil_iff] at quiet
  rw [nodup_iff_getElem?_ne_getElem?]
  intro i j earlier inside same
  rw [length_map] at inside
  have before : i < functions.length := Nat.lt_trans earlier inside
  rw [getElem?_map, getElem?_map, getElem?_eq_getElem before,
    getElem?_eq_getElem inside, Option.map_some, Option.map_some] at same
  have quietly := quiet (functions[j], j)
    (mk_mem_zipIdx_iff_getElem?.2 (getElem?_eq_getElem inside))
  have repeated : ((functions.take j).any fun f => f.sameParams functions[j]) = true := by
    rw [any_eq_true]
    refine ⟨functions[i], mem_of_getElem? (i := i) ?_, decide_eq_true (Option.some.inj same)⟩
    rw [getElem?_take_of_lt earlier, getElem?_eq_getElem before]
  obtain ⟨source, isSource⟩ :=
    Option.isSome_iff_exists.1 (sourced functions[j] (getElem_mem inside))
  simp [repeated, isSource] at quietly

/-- The check looks at every group of overloads and at the interfaces of every class. -/
theorem notes_of_check (quiet : (d.check relies).notes = []) :
    (∀ group ∈ d.table.overloadGroups, (d.checkGroup (d.catalog relies) group).notes = []) ∧
      ∀ entry ∈ d.table.classes.zipIdx,
        (d.checkImplementations (d.catalog relies) entry.1 entry.2).notes = [] := by
  simp only [check, checkOverloads, checkInterfaces, notes_bind, forM_eq_forM,
    notes_forM, append_eq_nil_iff, flatMap_eq_nil_iff] at quiet
  exact ⟨quiet.1, quiet.2.2.1⟩

/-- No two functions of a method of a class take the same types. -/
theorem distinct_of_check (made : d.table.WellMade) (quiet : (d.check relies).notes = [])
    (isClass : c ∈ d.table.classes) (isMethod : m ∈ c.methods) :
    (m.functions.map Function.paramTypes).Nodup := by
  obtain ⟨groups, _⟩ := notes_of_check quiet
  obtain ⟨index, inside, rfl⟩ := mem_iff_getElem.1 isClass
  obtain ⟨position, inClass, rfl⟩ := mem_iff_getElem.1 isMethod
  have isGroup : (⟨d.table.home, Table.firstVisibility d.table.classes[index].methods[position]
      d.table.classes[index].visibility, .memberMethod index position⟩ : Declaration) ∈
        d.table.overloadGroups :=
    Table.mem_overloadGroups_of_class (getElem?_eq_getElem inside)
      (mem_append_left _ (mem_mapIdx.2 ⟨position, inClass, rfl⟩))
  refine nodup_of_checkGroup ?_ ?_ (groups _ isGroup)
  · simp [Table.overloads, Table.method, Entity.group, getElem?_eq_getElem inside,
      getElem?_eq_getElem inClass]
  · exact (made.classes (getElem?_eq_getElem inside)).methods _ isMethod

/-- Where nothing is wrong with an implementation, it is there and fits. -/
theorem implementation_of_problem {c : Catalog} {owner : TypeId} {anchor : Anchor} {overload : Nat}
    (nothing : implementationProblem c owner definition anchor i m required overload = none) :
    ∃ declaration f, c.findImplementation owner m.name required = some (declaration, f) ∧
      f.returns = required.returns ∧ f.visibility ≠ .private_ := by
  unfold implementationProblem at nothing
  split at nothing
  · cases nothing
  · rename_i declaration f found
    split at nothing
    · cases nothing
    · rename_i returns
      split at nothing
      · cases nothing
      · rename_i visible
        exact ⟨declaration, f, found, not_not.1 returns, visible⟩

/-- Every function of an interface of a class has an implementation that fits. -/
theorem implementation_of_check (made : d.table.WellMade) (quiet : (d.check relies).notes = [])
    (isClass : d.table.classes[index]? = some definition)
    (implements : id ∈ (d.catalog relies).interfaceClosure ⟨.here, definition.kind, index⟩)
    (isInterface : (d.catalog relies).interfaceDef? id = some i) (isMethod : method ∈ i.methods)
    (isFunction : required ∈ method.functions) :
    ∃ declaration f, (d.catalog relies).findImplementation ⟨.here, definition.kind, index⟩
        method.name required = some (declaration, f) ∧
      f.returns = required.returns ∧ f.visibility ≠ .private_ := by
  obtain ⟨_, classes⟩ := notes_of_check quiet
  have checked := classes (definition, index) (mk_mem_zipIdx_iff_getElem?.2 isClass)
  obtain ⟨source, isSource⟩ := Option.isSome_iff_exists.1 (made.classes isClass).source
  simp only [checkImplementations, isSource, forM_eq_forM, notes_forM,
    flatMap_eq_nil_iff] at checked
  have interface_ := checked id implements
  simp only [isInterface, notes_forM, flatMap_eq_nil_iff] at interface_
  obtain ⟨o, atPosition⟩ := mem_iff_getElem?.1 isFunction
  have silent := interface_ method isMethod (required, o)
    (mk_mem_zipIdx_iff_getElem?.2 atPosition)
  split at silent
  · rename_i nothing
    exact implementation_of_problem nothing
  · cases silent

end Draft

/-! ### Lookups do not see addresses -/

namespace Catalog

variable (t : Table) (relies : List Table)

theorem links_unplaced : (Catalog.mk t.unplaced relies).links = (Catalog.mk t relies).links := by
  funext ⟨home, kind, index⟩
  cases home with
  | here =>
    show t.unplaced.links kind index = t.links kind index
    cases kind <;> simp [Table.links, Table.unplaced, ClassDef.unplaced, Function.comp_def]
  | kernel | rely i => rfl

theorem nextParent_unplaced :
    (Catalog.mk t.unplaced relies).nextParent = (Catalog.mk t relies).nextParent := by
  funext x
  simp only [nextParent, parent_eq_links, links_unplaced]

theorem parents_unplaced :
    (Catalog.mk t.unplaced relies).parents = (Catalog.mk t relies).parents := by
  simp [parents, tables, Table.unplaced, Function.comp_def, ClassDef.unplaced]

theorem typeChain_unplaced :
    (Catalog.mk t.unplaced relies).typeChain = (Catalog.mk t relies).typeChain := by
  funext x
  simp only [typeChain, nextParent_unplaced, parents_unplaced]

theorem interfaceClosure_unplaced : (Catalog.mk t.unplaced relies).interfaceClosure =
      (Catalog.mk t relies).interfaceClosure := by
  have bases : (Catalog.mk t.unplaced relies).baseInterfaces =
      (Catalog.mk t relies).baseInterfaces := by
    funext x
    simp only [baseInterfaces_eq_links, links_unplaced]
  have inherited : (Catalog.mk t.unplaced relies).inherited = (Catalog.mk t relies).inherited := rfl
  funext x
  simp only [interfaceClosure, interfaceLevels, ownInterfaces_eq_links, links_unplaced, bases,
    inherited]

theorem interfaceDef?_unplaced :
    (Catalog.mk t.unplaced relies).interfaceDef? = (Catalog.mk t relies).interfaceDef? := by
  funext ⟨home, kind, index⟩
  cases home <;> rfl

theorem findMethod_unplaced :
    (Catalog.mk t.unplaced relies).findMethod = (Catalog.mk t relies).findMethod := by
  funext ⟨home, kind, index⟩ name
  cases home with
  | here =>
    simp only [findMethod, findMember, classDef?, table?, Option.bind_some, Table.unplaced,
      getElem?_map]
    by_cases definition : kind.isDefinition = true
    · simp only [if_pos definition]
      cases t.classes[index]? <;> rfl
    · simp only [if_neg definition]
      rfl
  | kernel | rely i => rfl

theorem overloads_unplaced :
    (Catalog.mk t.unplaced relies).overloads = (Catalog.mk t relies).overloads := by
  funext ⟨home, v, entity⟩
  cases home with
  | here =>
    show t.unplaced.overloads _ = t.overloads _
    cases entity <;> simp [Table.overloads, Table.method, Table.unplaced, ClassDef.unplaced,
      Function.comp_def, Entity.group, Option.bind_map]
  | kernel | rely i => rfl

theorem findImplementation_unplaced : (Catalog.mk t.unplaced relies).findImplementation =
      (Catalog.mk t relies).findImplementation := by
  funext owner name required
  simp only [findImplementation, typeChain_unplaced, findMethod_unplaced, overloads_unplaced]

end Catalog

/-! ### The products -/

namespace Job.Passes

variable {job : Job} {p : Products} {merged linked : Draft} (passes : job.Passes p merged linked)
include passes

theorem distinct_overloads (isClass : c ∈ p.draft.table.classes)
    (isMethod : m ∈ c.methods) : (m.functions.map Function.paramTypes).Nodup := by
  have same : p.draft.table.classes.map (·.methods) = linked.table.classes.map (·.methods) := by
    rw [passes.draft]
    refine Table.assignAddresses_keeps (fun t => t.classes.map (·.methods)) (fun t => ?_) _
    rw [Table.unplaced, map_map]
    rfl
  have written : c.methods ∈ linked.table.classes.map (·.methods) :=
    same ▸ mem_map_of_mem isClass
  obtain ⟨c', isClass', methods⟩ := mem_map.1 written
  exact Draft.distinct_of_check passes.linked_wellMade passes.checks isClass' (methods ▸ isMethod)

/-- What does not see addresses is the same before and after they are assigned. -/
theorem view_catalog {γ : Type} (view : Catalog → γ)
    (blind : ∀ t relies, view ⟨t.unplaced, relies⟩ = view ⟨t, relies⟩) :
    view (p.draft.catalog p.tables) = view (linked.catalog p.tables) := by
  rw [passes.draft]
  exact Table.assignAddresses_keeps (fun t => view ⟨t, p.tables⟩) (fun t => blind t p.tables) _

/-- Every function of an interface of a class of the library has an implementation that fits. -/
theorem implementation (isClass : p.draft.table.classes[index]? = some definition)
    (implements : id ∈ (p.draft.catalog p.tables).interfaceClosure ⟨.here, definition.kind, index⟩)
    (isInterface : (p.draft.catalog p.tables).interfaceDef? id = some i)
    (isMethod : method ∈ i.methods) (isFunction : required ∈ method.functions) :
    ∃ declaration f, (p.draft.catalog p.tables).findImplementation ⟨.here, definition.kind, index⟩
        method.name required = some (declaration, f) ∧
      f.returns = required.returns ∧ f.visibility ≠ .private_ := by
  obtain ⟨definition', isClass', alike⟩ :=
    Table.exists_class_of_skeleton passes.skeleton_draft isClass
  have kind : definition'.kind = definition.kind := (congrArg ClassDef.kind alike :)
  rw [passes.view_catalog Catalog.findImplementation Catalog.findImplementation_unplaced]
  rw [passes.view_catalog Catalog.interfaceClosure Catalog.interfaceClosure_unplaced] at implements
  rw [passes.view_catalog Catalog.interfaceDef? Catalog.interfaceDef?_unplaced] at isInterface
  rw [← kind] at implements ⊢
  exact Draft.implementation_of_check passes.linked_wellMade passes.checks isClass' implements
    isInterface isMethod isFunction

end Job.Passes

end Linkage
