/-
Purpose: Every function of an interface of a class is bound exactly once, to the first function
  that matches on the way up from the class.
-/
import Linkage.Proofs.Dispatch.Bindings
import Linkage.Proofs.Export.Published

namespace Linkage

open List

/-- An entry of a class for a function of an interface. -/
def Binding.isFor (x : Binding) (owner id : TypeId) (m o : Nat) : Bool :=
  x.type = owner ∧ x.base.home = id.home ∧ x.base.entity = .interfaceFunction id.index m o

namespace Draft

variable {c : Catalog}

/-- The entries for a function of an interface stand nowhere else than under the class, the
interface, the method and the overload. -/
theorem filter_interfaceBindings (regular : c.Regular) {owner id : TypeId} {i : InterfaceDef}
    (implements : id ∈ c.interfaceClosure owner) (isInterface : c.interfaceDef? id = some i)
    {m o : Nat} {method : Method} {required : Function} (isMethod : i.methods[m]? = some method)
    (isFunction : method.functions[o]? = some required) :
    (interfaceBindings c owner).filter (·.isFor owner id m o) =
      (c.dispatch owner method.name required (id.interfaceFunction m o)).toList := by
  -- Whatever is bound elsewhere is an entry for another function.
  have apart {name : String} {f : Function} {id' : TypeId} {m' o' : Nat} {x : Binding}
      (different : ¬(id'.home = id.home ∧ id'.index = id.index ∧ m' = m ∧ o' = o))
      (dispatched : x ∈ (c.dispatch owner name f (id'.interfaceFunction m' o')).toList) :
      x.isFor owner id m o = false := by
    obtain ⟨_, base⟩ := bound_of_dispatch (Option.mem_toList.1 dispatched)
    rw [Binding.isFor, base]
    refine decide_eq_false ?_
    rintro ⟨_, home, entity⟩
    injection entity with index sameMethod sameOverload
    exact different ⟨home, index, sameMethod, sameOverload⟩
  have methods : c.interfaceMethods id = i.methods := by
    simp [Catalog.interfaceMethods, isInterface]
  obtain ⟨n, atPlace⟩ := mem_iff_getElem?.1 implements
  rw [interfaceBindings_eq regular, filter_flatMap_of_unique atPlace, methods,
    filter_zipIdx_flatMap_of_unique isMethod, filter_zipIdx_flatMap_of_unique isFunction]
  · refine filter_eq_self.2 fun x dispatched => ?_
    obtain ⟨type, base⟩ := bound_of_dispatch (Option.mem_toList.1 dispatched)
    exact decide_eq_true ⟨type, by rw [base]; rfl, by rw [base]; rfl⟩
  · intro k _ _ different x
    exact apart fun same => different same.2.2.2
  · intro k _ _ different x member
    obtain ⟨⟨f, o'⟩, _, dispatched⟩ := mem_flatMap.1 member
    exact apart (fun same => different same.2.2.1) dispatched
  · intro k id' atK different x member
    obtain ⟨⟨method', m'⟩, isMethod', inMethod⟩ := mem_flatMap.1 member
    obtain ⟨⟨f, o'⟩, _, dispatched⟩ := mem_flatMap.1 inMethod
    refine apart (fun same => different ?_) dispatched
    -- An interface that has methods is told by its home and its index.
    obtain ⟨i', isInterface'⟩ : ∃ i', c.interfaceDef? id' = some i' := by
      cases found : c.interfaceDef? id' with
      | some i' => exact ⟨i', rfl⟩
      | none => simp [Catalog.interfaceMethods, found] at isMethod'
    have kind := (Catalog.interfaceDef?_eq_some.1 isInterface).1
    have kind' := (Catalog.interfaceDef?_eq_some.1 isInterface').1
    have equal : id' = id := TypeId.eq_of_parts same.1 (kind'.trans kind.symm) same.2.1
    have distinct : (c.interfaceClosure owner).Nodup := Walk.nodup_levels _ _ _
    rw [equal] at atK
    exact (getElem?_inj (lt_of_getElem? atK) distinct).1
      (atK.trans atPlace.symm)

end Draft

/-- Interface dispatch is complete and unique.  In a compilation that ended well and relied on
published libraries only, every function of every interface in the closure of a class has exactly
one entry under the class.  The entry leads to the first function on the way up from the class
that has the name and exactly the parameter types; that function has exactly the returns and is
not private. -/
theorem Builder.interface_dispatch_unique {b : Builder} {p : Products} (completes : b.Completes p)
    (published : ∀ s ∈ b.job.surfaces, s.Published) {index : Nat} {definition : ClassDef}
    (isClass : p.draft.table.classes[index]? = some definition) {i : TypeId}
    (implements : i ∈ (p.draft.catalog p.tables).interfaceClosure ⟨.here, definition.kind, index⟩)
    {d : InterfaceDef} (isInterface : (p.draft.catalog p.tables).interfaceDef? i = some d)
    {m o : Nat} {method : Method} {required : Function} (isMethod : d.methods[m]? = some method)
    (isFunction : method.functions[o]? = some required) :
    ∃ id k l f, (p.draft.catalog p.tables).FirstMatch ⟨.here, definition.kind, index⟩ method.name
        required.paramTypes id k l f ∧
      f.returns = required.returns ∧ f.visibility ≠ .private_ ∧
      p.artifact.bindings.filter (fun x => x.type = ⟨.here, definition.kind, index⟩ ∧
          x.base.home = i.home ∧ x.base.entity = .interfaceFunction i.index m o) =
        [⟨⟨.here, definition.kind, index⟩, ⟨i.home, .public_, .interfaceFunction i.index m o⟩,
          ⟨id.home, f.visibility, .memberFunction id.index k l⟩⟩] := by
  obtain ⟨merged, linked, passes⟩ := Job.passes_of_completes completes
  have regular := passes.regular_catalog published
  have kinds := passes.regular_table.kinds (by decide)
  have handle := kinds definition (mem_of_getElem? isClass)
  obtain ⟨implementation, f, found, returns, visible⟩ := passes.implementation isClass implements
    isInterface (mem_of_getElem? isMethod) (mem_of_getElem? isFunction)
  obtain ⟨id, k, l, first, rfl⟩ := regular.firstMatch_of_findImplementation handle found
  refine ⟨id, k, l, f, first, returns, visible, ?_⟩
  have bindings : p.artifact.bindings = (p.draft.bindings p.tables).value := by
    rw [passes.bindings, passes.draft]
    rfl
  have noOverride : (p.draft.overrideBindings (p.draft.catalog p.tables)
      ⟨.here, definition.kind, index⟩ definition).value.filter
        (·.isFor ⟨.here, definition.kind, index⟩ i m o) = [] := by
    refine filter_eq_nil_iff.2 fun x member => ?_
    obtain ⟨_, _, _, _, _, _, _, _, _, rfl⟩ :=
      (Draft.mem_overrideBindings regular handle (Draft.classDef?_here isClass handle)).1 member
    simp [Binding.isFor, TypeId.function]
  show p.artifact.bindings.filter (·.isFor ⟨.here, definition.kind, index⟩ i m o) = _
  rw [bindings,
    Draft.filter_bindings regular kinds isClass fun x isFor => (of_decide_eq_true isFor).1,
    noOverride, nil_append,
    Draft.filter_interfaceBindings regular implements isInterface isMethod isFunction]
  simp only [Catalog.dispatch, found, Option.bind_some, if_pos returns]
  rfl

/-- The area of a tile, asked for through the interface of shapes, is computed by the tile. -/
theorem Builder.interface_dispatch_unique_tiles :
    ∃ p, (Builder.mk Sample.tiles .unstarted [] none).Completes p ∧ ∃ id k l f,
      (p.draft.catalog p.tables).FirstMatch ⟨.here, .handle, 0⟩ "Area" [] id k l f ∧
      f.returns = [TypeId.real.scalar] ∧ f.visibility ≠ .private_ ∧
      p.artifact.bindings.filter (fun x => x.type = ⟨.here, .handle, 0⟩ ∧
          x.base.home = .rely 0 ∧ x.base.entity = .interfaceFunction 0 0 0) =
        [⟨⟨.here, .handle, 0⟩, ⟨.rely 0, .public_, .interfaceFunction 0 0 0⟩,
          ⟨id.home, f.visibility, .memberFunction id.index k l⟩⟩] := by
  obtain ⟨p, completes, isClass, implements, tables⟩ :
      ∃ p, (Builder.mk Sample.tiles .unstarted [] none).Completes p ∧
        p.draft.table.classes[0]?.map (·.kind) = some .handle ∧
        (⟨.rely 0, .interface, 0⟩ : TypeId) ∈
          (p.draft.catalog p.tables).interfaceClosure ⟨.here, .handle, 0⟩ ∧
        p.tables = [Sample.shapesRely.table] := Sample.completes_of_compile (by decide +kernel)
  obtain ⟨definition, isClass, kind⟩ := Option.map_eq_some_iff.1 isClass
  rw [← kind] at implements
  have isInterface : (p.draft.catalog p.tables).interfaceDef? ⟨.rely 0, .interface, 0⟩ =
      some ((⟨"Shape", 0, [], [Sample.area]⟩ : SurfaceInterface).at
        (Sample.tiles.graph.placement Sample.shapesSurface 0) 0) := by
    rw [tables]
    rfl
  have dispatched := Builder.interface_dispatch_unique completes Sample.tiles_published isClass
    implements isInterface (m := 0) (o := 0) rfl rfl
  rw [kind] at dispatched
  exact ⟨p, completes, dispatched⟩

end Linkage
