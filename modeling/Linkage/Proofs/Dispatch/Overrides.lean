/-
Purpose: A function of an ancestor is bound exactly where a function of the class has its name and
  parameter types, and then once.
-/
import Linkage.Proofs.Dispatch.Bindings
import Linkage.Proofs.Export.Published

namespace Linkage

open List Draft Option

variable {definition : ClassDef} {m o k l : Nat} {f g : Function} {base : TypeId}

/-- An entry of a class for a function of another class. -/
def Binding.isOverrideOf (x : Binding) (owner base : TypeId) (k l : Nat) : Bool :=
  x.type = owner ∧ x.base.home = base.home ∧ x.base.entity = .memberFunction base.index k l

namespace Draft

variable {d : Draft} {c : Catalog}

/-- A function of an ancestor has one entry if a function of the class overrides it. -/
theorem filter_overrideBindings (regular : c.Regular) {owner : TypeId}
    (handle : owner.kind = .handle) (isClass : c.classDef? owner = some definition)
    (overrides : c.Overrides owner m o f base k l g) (returns : g.returns = f.returns) :
    (d.overrideBindings c owner definition).value.filter (·.isOverrideOf owner base k l) =
      [⟨owner, base.function k l g, ⟨.here, f.visibility, .memberFunction owner.index m o⟩⟩] := by
  obtain ⟨n, path⟩ := overrides.above
  have atN : (c.ancestors owner)[n]? = some base := (regular.getElem?_ancestors owner n).trans path
  -- An entry for the function stands nowhere else than its one override says.
  have unique {m' o' : Nat} {method : Method} {f' : Function} {id : TypeId} {found : Selection}
      {implementation : Declaration} (isMethod : definition.methods[m']? = some method)
      (isFunction : method.functions[o']? = some f') (above : id ∈ c.ancestors owner)
      (selected : c.overriddenIn method.name f' id = some found)
      (wanted : Binding.isOverrideOf ⟨owner, found.declaration, implementation⟩ owner base k l =
        true) : m' = m ∧ o' = o ∧ id = base := by
    have isMember : c.MemberFunction owner method.name m' o' f' :=
      ⟨definition, method, isClass, isMethod, rfl, isFunction⟩
    obtain ⟨k', l', g', other, _, rfl⟩ := (regular.overriddenIn_iff isMember above).1 selected
    obtain ⟨_, home, entity⟩ := of_decide_eq_true wanted
    injection entity with index sameMethod sameOverload
    subst sameMethod sameOverload
    exact regular.overrides_unique overrides other home index
  obtain ⟨name, isMember, _⟩ := overrides.named
  have selected := (regular.overriddenIn_iff isMember (mem_of_getElem? atN)).2
    ⟨k, l, g, overrides, returns, rfl⟩
  obtain ⟨definition', method, isClass', isMethod, rfl, isFunction⟩ := isMember
  rw [isClass] at isClass'
  cases isClass'
  rw [value_overrideBindings regular handle, filter_zipIdx_flatMap_of_unique isMethod,
    filter_zipIdx_flatMap_of_unique isFunction, filter_flatMap_of_unique atN, selected]
  · exact filter_cons_of_pos (decide_eq_true ⟨rfl, rfl, rfl⟩)
  · intro n' id atN' different x bound
    obtain ⟨found, isFound, rfl⟩ := map_eq_some_iff.1 (mem_toList.1 bound)
    refine Bool.eq_false_iff.2 fun wanted => different ?_
    obtain ⟨_, _, rfl⟩ := unique isMethod isFunction (mem_of_getElem? atN') isFound wanted
    exact (getElem?_inj (lt_of_getElem? atN') (regular.nodup_ancestors owner)).1
      (atN'.trans atN.symm)
  · intro o' f' isFunction' different x bound
    obtain ⟨id, above, inside⟩ := mem_flatMap.1 bound
    obtain ⟨found, isFound, rfl⟩ := map_eq_some_iff.1 (mem_toList.1 inside)
    exact Bool.eq_false_iff.2 fun wanted =>
      different (unique isMethod isFunction' above isFound wanted).2.1
  · intro m' method' isMethod' different x bound
    obtain ⟨⟨f', o'⟩, inMethod, inFunction⟩ := mem_flatMap.1 bound
    obtain ⟨id, above, inside⟩ := mem_flatMap.1 inFunction
    obtain ⟨found, isFound, rfl⟩ := map_eq_some_iff.1 (mem_toList.1 inside)
    exact Bool.eq_false_iff.2 fun wanted => different
      (unique isMethod' (mk_mem_zipIdx_iff_getElem?.1 inMethod) above isFound wanted).1

/-- An entry for a function of a class stands for an override. -/
theorem overrides_of_mem_bindings {relies : List Table} (regular : (d.catalog relies).Regular)
    (kinds : ∀ definition ∈ d.table.classes, definition.kind = .handle) {x : Binding}
    (member : x ∈ (d.bindings relies).value) {i : Nat}
    (entity : x.base.entity = .memberFunction i k l) :
    ∃ index definition m o f base g, d.table.classes[index]? = some definition ∧
      (d.catalog relies).Overrides ⟨.here, definition.kind, index⟩ m o f base k l g ∧
      x = ⟨⟨.here, definition.kind, index⟩, base.function k l g,
        ⟨.here, f.visibility, .memberFunction index m o⟩⟩ := by
  rw [value_bindings] at member
  obtain ⟨⟨definition, index⟩, isEntry, inClass⟩ := mem_flatMap.1 member
  have isClass := mk_mem_zipIdx_iff_getElem?.1 isEntry
  have handle := kinds definition (mem_of_getElem? isClass)
  rcases mem_append.1 inClass with override | interface_
  · obtain ⟨m, o, f, base, k', l', g, overrides, _, rfl⟩ :=
      (mem_overrideBindings regular handle (classDef?_here isClass handle)).1 override
    injection entity with _ sameMethod sameOverload
    subst sameMethod sameOverload
    exact ⟨index, definition, m, o, f, base, g, isClass, overrides, rfl⟩
  · obtain ⟨_, id, m, o, isBase⟩ := mem_interfaceBindings regular interface_
    rw [isBase] at entity
    cases entity

end Draft

/-- A function that overrides another in a compilation that ended well has its returns. -/
theorem Job.Passes.returns_of_overrides {job : Job} {p : Products} {merged linked : Draft}
    (passes : job.Passes p merged linked) (regular : (p.draft.catalog p.tables).Regular)
    {index : Nat} (isClass : p.draft.table.classes[index]? = some definition)
    (overrides : (p.draft.catalog p.tables).Overrides
      ⟨.here, definition.kind, index⟩ m o f base k l g) : g.returns = f.returns := by
  have handle := (passes.wellMade.classes isClass).kind
  obtain ⟨⟨name, isMember, member⟩, path, params, visible⟩ := overrides
  have above := regular.mem_ancestors.2 path
  obtain ⟨definition', method, isClass', isMethod, rfl, isFunction⟩ := isMember
  rw [classDef?_here isClass handle] at isClass'
  cases isClass'
  have ⟨_, _, isBase, inBase, named, _⟩ := member
  obtain ⟨v, found⟩ := regular.exists_findMethod isBase inBase
  rw [named] at found
  have isGroup : (⟨base.home, v, .memberMethod base.index k⟩ : Declaration) ∈
      (p.draft.catalog p.tables).overriddenMethods ⟨.here, definition.kind, index⟩ method.name := by
    rw [regular.overriddenMethods_eq handle]
    exact mem_filterMap.2 ⟨base, above, found⟩
  have quiet : (p.draft.bindings p.tables).notes = [] := passes.draft ▸ passes.binds
  have sourced := (passes.wellMade.classes isClass).methods method (mem_of_getElem? isMethod) f
    (mem_of_getElem? isFunction)
  exact returns_of_bindOverride regular (regular.ne_interface_of_mem_ancestors above) found
    member visible params sourced
    (notes_of_bindings quiet isClass isMethod isFunction isGroup)

/-- Overrides are exact.  In a compilation that ended well and relied on published libraries only,
let a function of a class have the name and the parameter types of a function that is not private
in a proper ancestor.  Then the two have the same returns, and the ancestor's function has exactly
one entry under the class, which leads to the function of the class.  All entries for functions of
classes are of this form. -/
theorem Builder.override_bindings_exact {b : Builder} {p : Products} (completes : b.Completes p)
    (published : ∀ s ∈ b.job.surfaces, s.Published) :
    (∀ index definition, p.draft.table.classes[index]? = some definition → ∀ m o f base k l g,
      (p.draft.catalog p.tables).Overrides ⟨.here, definition.kind, index⟩ m o f base k l g →
      g.returns = f.returns ∧
      p.artifact.bindings.filter (fun x => x.type = ⟨.here, definition.kind, index⟩ ∧
          x.base.home = base.home ∧ x.base.entity = .memberFunction base.index k l) =
        [⟨⟨.here, definition.kind, index⟩,
          ⟨base.home, g.visibility, .memberFunction base.index k l⟩,
          ⟨.here, f.visibility, .memberFunction index m o⟩⟩]) ∧
    ∀ x ∈ p.artifact.bindings, ∀ i k l, x.base.entity = .memberFunction i k l →
      ∃ index definition m o f base g, p.draft.table.classes[index]? = some definition ∧
        (p.draft.catalog p.tables).Overrides ⟨.here, definition.kind, index⟩ m o f base k l g ∧
        x = ⟨⟨.here, definition.kind, index⟩,
          ⟨base.home, g.visibility, .memberFunction base.index k l⟩,
          ⟨.here, f.visibility, .memberFunction index m o⟩⟩ := by
  obtain ⟨merged, linked, passes⟩ := Job.passes_of_completes completes
  have regular := passes.regular_catalog published
  have kinds := passes.regular_table.kinds (by decide)
  have bindings : p.artifact.bindings = (p.draft.bindings p.tables).value := by
    rw [passes.bindings, passes.draft]
    rfl
  rw [bindings]
  constructor
  · intro index definition isClass m o f base k l g overrides
    have handle := kinds definition (mem_of_getElem? isClass)
    have returns := passes.returns_of_overrides regular isClass overrides
    refine ⟨returns, ?_⟩
    have noInterface : (Draft.interfaceBindings (p.draft.catalog p.tables)
        ⟨.here, definition.kind, index⟩).filter
          (·.isOverrideOf ⟨.here, definition.kind, index⟩ base k l) = [] := by
      refine filter_eq_nil_iff.2 fun x member => ?_
      obtain ⟨_, id, m, o, isBase⟩ := mem_interfaceBindings regular member
      simp [Binding.isOverrideOf, isBase, TypeId.interfaceFunction]
    show (p.draft.bindings p.tables).value.filter
      (·.isOverrideOf ⟨.here, definition.kind, index⟩ base k l) = _
    rw [filter_bindings regular kinds isClass fun x wanted => (of_decide_eq_true wanted).1,
      noInterface, append_nil]
    exact filter_overrideBindings regular handle (classDef?_here isClass handle)
      overrides returns
  · intro x member i k l entity
    exact overrides_of_mem_bindings regular kinds member entity

/-- The area of a tile overrides that of squares. -/
theorem Builder.override_bindings_exact_tiles :
    ∃ p, (Builder.mk Sample.tiles .unstarted [] none).Completes p ∧
      p.artifact.bindings.filter (fun x => x.type = ⟨.here, .handle, 0⟩ ∧
          x.base.home = .rely 0 ∧ x.base.entity = .memberFunction 0 0 0) =
        [⟨⟨.here, .handle, 0⟩, ⟨.rely 0, .public_, .memberFunction 0 0 0⟩,
          ⟨.here, .public_, .memberFunction 0 0 0⟩⟩] := by
  obtain ⟨p, completes, area, parent, tables⟩ :
      ∃ p, (Builder.mk Sample.tiles .unstarted [] none).Completes p ∧
        (p.draft.table.classes[0]?.bind fun c => c.methods[0]?.bind fun m =>
          m.functions[0]?.map fun f => (c.kind, m.name, f.paramTypes, f.visibility)) =
          some (.handle, "Area", [], .public_) ∧
        (p.draft.catalog p.tables).nextParent ⟨.here, .handle, 0⟩ = some ⟨.rely 0, .handle, 0⟩ ∧
        p.tables = [Sample.shapesRely.table] := Sample.completes_of_compile (by decide +kernel)
  obtain ⟨definition, isClass, inClass⟩ := Option.bind_eq_some_iff.1 area
  obtain ⟨method, isMethod, inMethod⟩ := Option.bind_eq_some_iff.1 inClass
  obtain ⟨f, isFunction, data⟩ := Option.map_eq_some_iff.1 inMethod
  simp only [Prod.mk.injEq] at data
  obtain ⟨kind, named, params, visibility⟩ := data
  have overrides : (p.draft.catalog p.tables).Overrides ⟨.here, definition.kind, 0⟩ 0 0 f
      ⟨.rely 0, .handle, 0⟩ 0 0 ⟨.public_, [], [TypeId.real.scalar], none⟩ := by
    refine ⟨⟨"Area", ⟨definition, method, classDef?_here isClass kind, isMethod, named,
      isFunction⟩, ?_⟩, ⟨0, ?_⟩, params.symm, by decide⟩
    · rw [tables]
      exact ⟨_, _, rfl, rfl, rfl, rfl⟩
    · rw [kind, Walk.steps, parent]
      rfl
  have bound := ((Builder.override_bindings_exact completes Sample.tiles_published).1 0 definition
    isClass 0 0 f _ 0 0 _ overrides).2
  rw [kind, visibility] at bound
  exact ⟨p, completes, bound⟩

end Linkage
