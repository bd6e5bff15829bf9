/-
Purpose: What libraries publish is regular, and so is all that a compilation sees which relies on
  such libraries only.
-/
import Linkage.Proofs.Compile.Checks
import Linkage.Proofs.Export.RoundTrip
import Linkage.Proofs.Rely.Regular

namespace Linkage

open List

variable {home : Home} {c : ClassDef} {index : Nat} {x : TypeRef}

/-- A surface that a compilation without complaints produced. -/
def Surface.Published (s : Surface) : Prop := ∃ b p, Builder.Completes b p ∧ p.surface = s

/-! ### Different names -/

/-- The names of entities that stand under them are different. -/
theorem Faithful.nodup_of_place {find : String → Option Declaration}
    {place : Entity → Option String} (faithful : Faithful home find place) (entity : Nat → Entity)
    (injective : ∀ i j, entity i = entity j → i = j) {names : List String}
    (stands : ∀ i, place (entity i) = names[i]?) : names.Nodup := by
  rw [nodup_iff_getElem?_ne_getElem?]
  intro i j earlier inside same
  have found := getElem?_eq_getElem inside
  have equal := injective i j
    (faithful.entity_unique ((stands i).trans (same.trans found)) ((stands j).trans found))
  omega

/-- The members of a class have different names. -/
theorem ClassDef.nodup_names (faithful : Faithful home c.members.find? (c.memberAt index)) :
    (c.fields.map (·.name) ++ c.methods.map (·.name)).Nodup := by
  have field (i : Nat) :
      c.memberAt index (.memberVariable index i) = (c.fields.map (·.name))[i]? := by
    rw [memberAt, classMemberAt, if_pos rfl, getElem?_map]
  have method (i : Nat) :
      c.memberAt index (.memberMethod index i) = (c.methods.map (·.name))[i]? := by
    rw [memberAt, classMemberAt, if_pos rfl, getElem?_map]
  refine nodup_append'.2 ⟨?_, ?_, ?_⟩
  · exact faithful.nodup_of_place (.memberVariable index) (fun i j same => by cases same; rfl) field
  · exact faithful.nodup_of_place (.memberMethod index) (fun i j same => by cases same; rfl) method
  · intro name isField isMethod
    obtain ⟨i, found⟩ := mem_iff_getElem?.1 isField
    obtain ⟨j, found'⟩ := mem_iff_getElem?.1 isMethod
    cases faithful.entity_unique ((field i).trans found) ((method j).trans found')

theorem InterfaceDef.nodup_names {d : InterfaceDef}
    (faithful : Faithful home d.members.find? (d.memberAt index)) :
    (d.methods.map (·.name)).Nodup := by
  refine faithful.nodup_of_place (.interfaceMethod index) (fun i j same => by cases same; rfl)
    fun i => ?_
  rw [memberAt, interfaceMemberAt, if_pos rfl, getElem?_map]

/-- Libraries that go by their own names have different names. -/
theorem RelyGraph.Named.nodup {g : RelyGraph} (named : g.Named) :
    (g.libraries.map (·.name)).Nodup := by
  rw [nodup_iff_getElem?_ne_getElem?]
  intro i j earlier inside same
  rw [length_map] at inside
  have before : i < g.libraries.length := lt_trans earlier inside
  have atI := getElem?_eq_getElem before
  have atJ := getElem?_eq_getElem inside
  rw [getElem?_map, getElem?_map, atI, atJ] at same
  have equal : g.libraries[i].name = g.libraries[j].name := Option.some.inj same
  have node : g.node? g.libraries[i].name = some (.rely i) := named atI
  rw [equal, named atJ] at node
  cases node
  omega

/-! ### What is written down -/

namespace Table

variable {t : Table}

theorem proper_surfaceType (proper : x.Proper) : (t.surfaceType x).Proper := by
  rcases proper with rfl | valid
  · exact fun _ => rfl
  · unfold surfaceType
    cases x.id.home with
    | here =>
      cases t.exportIndex? x.id.kind x.id.index with
      | none => exact fun _ => rfl
      | some number => exact fun invalid => absurd invalid valid
    | _ => exact fun invalid => absurd invalid valid

/-- Writing down tells exported types apart. -/
theorem surfaceType_injective {y : TypeRef} (exportedX : t.Exports x) (exportedY : t.Exports y)
    (same : t.surfaceType x = t.surfaceType y) : x = y := by
  obtain ⟨⟨home, kind, index⟩, dimension⟩ := x
  obtain ⟨⟨home', kind', index'⟩, dimension'⟩ := y
  cases home with
  | here =>
    obtain ⟨number, isNumber⟩ := Option.isSome_iff_exists.1 (exportedX rfl)
    rw [surfaceType_here isNumber] at same
    cases home' with
    | here =>
      obtain ⟨number', isNumber'⟩ := Option.isSome_iff_exists.1 (exportedY rfl)
      rw [surfaceType_here isNumber'] at same
      cases same
      cases exportIndex?_inj isNumber isNumber'
      rfl
    | _ => cases same
  | _ =>
    cases home' with
    | here =>
      obtain ⟨number', isNumber'⟩ := Option.isSome_iff_exists.1 (exportedY rfl)
      rw [surfaceType_here isNumber'] at same
      cases same
    | _ => cases same <;> rfl

theorem names_restrictMethods (keep : Function → Bool) (methods : List Method) :
    ((restrictMethods keep methods).map (·.name)).Sublist (methods.map (·.name)) := by
  have names : (methods.map (Method.restrict keep)).map (·.name) = methods.map (·.name) := by
    rw [map_map]
    rfl
  rw [← names]
  exact filter_sublist.map _

/-- The surface of a class leaves no choice if the class does not. -/
theorem regular_surfaceClass (regular : c.Regular .here index)
    (parent : c.parent.canBeParent = true) (exported : c.shown.Settled t.Exports) :
    (t.surfaceClass c.shown).Regular := by
  obtain ⟨scalar, kind, place⟩ := TypeRef.canBeParent_iff.1 parent
  refine ⟨?_, ?_, ?_, ?_, ?_⟩
  · have fields : (t.surfaceClass c.shown).fields.map (·.name) = c.shown.fields.map (·.name) :=
      map_map
    have methods : (t.surfaceClass c.shown).methods.map (·.name) = c.shown.methods.map (·.name) :=
      map_map
    rw [fields, methods]
    exact (ClassDef.nodup_names regular.names).sublist
      ((filter_sublist.map _).append (names_restrictMethods _ _))
  · refine forall_mem_map.2 fun m member => ?_
    have held := exported.methods m member
    have images : (t.surfaceMethod m).functions.map (fun f => f.params.map (·.type)) =
        (m.functions.map Function.paramTypes).map (map t.surfaceType) := by
      simp [surfaceMethod, surfaceFunction, Function.paramTypes, surfaceParameter,
        Function.comp_def]
    rw [images]
    refine nodup_map_map ?_ (fun _ _ => surfaceType_injective) ?_
    · refine forall_mem_map.2 fun f isFunction => forall_mem_map.2 ?_
      exact (held f isFunction).params
    · obtain ⟨old, written, rfl⟩ := mem_map.1 (mem_filter.1 member).1
      exact (regular.overloads old written).sublist (filter_sublist.map _)
  · exact (surfaceType_of_exports exported.parent).2.trans scalar
  · exact (surfaceType_of_exports exported.parent).1.trans kind
  · show (t.surfaceType c.parent).origin = .kernel →
      (t.surfaceType c.parent).index = TypeId.handle.index
    unfold surfaceType
    cases home : c.parent.id.home with
    | kernel =>
      rcases place with elsewhere | root
      · exact absurd home elsewhere
      · exact fun _ => congrArg TypeId.index root
    | here =>
      obtain ⟨number, isNumber⟩ := Option.isSome_iff_exists.1 (exported.parent home)
      intro other
      change t.exportIndex? c.parent.id.kind c.parent.id.index = some number at isNumber
      rw [isNumber] at other
      cases other
    | rely i =>
      intro other
      cases other

/-- Exported classes are their own ancestors no more than the classes of the table are. -/
theorem acc_ownParent_surfaceOf (exported : t.shown.Settled t.Exports) (dependencies : List String)
    (ends : ∀ i, Acc (Walk.Onward (Draft.ownParent t.classes)) i) (number : Nat) :
    Acc (Walk.Onward (t.surfaceOf dependencies).ownParent) number := by
  have kept : ∀ index number, t.exportIndex? .handle index = some number →
      Acc (Walk.Onward (t.surfaceOf dependencies).ownParent) number := by
    intro index
    induction ends index with
    | intro index _ ih =>
      intro number isNumber
      obtain ⟨c, found, _, there⟩ := getElem?_filter_of_keptIndex? isNumber
      have shown : t.shown.classes[number]? = some c.shown := by
        rw [shown, getElem?_map, there]
        rfl
      have held := exported.classes _ (mem_of_getElem? shown)
      refine Acc.intro number fun next onward => ?_
      simp only [Walk.Onward, Surface.ownParent, surfaceOf, getElem?_map, shown,
        Option.map_some, Option.bind_some, Option.ite_none_right_eq_some, Option.some.injEq]
        at onward
      obtain ⟨own, rfl⟩ := onward
      have kind : c.parent.id.kind = .handle := (TypeRef.canBeParent_iff.1 held.canBeParent).2.1
      obtain ⟨home, _, isNumber⟩ := surfaceType_own (x := c.parent) held.parent own
      refine ih c.parent.id.index ?_ _ (kind ▸ isNumber)
      simp [Walk.Onward, Draft.ownParent, found, home, kind]
  cases there : (t.classes.filter fun c => c.visibility = .public_)[number]? with
  | some c =>
    obtain ⟨index, _, isNumber⟩ := exists_keptIndex?_of_filter there
    exact kept index number isNumber
  | none =>
    refine Acc.intro number fun next onward => ?_
    simp [Walk.Onward, Surface.ownParent, surfaceOf, shown, there] at onward

end Table

/-! ### Products -/

namespace Job.Passes

variable {job : Job} {p : Products} {merged linked : Draft} (passes : job.Passes p merged linked)
include passes

/-- The table of a library that was compiled is regular. -/
theorem regular_table : p.draft.table.Regular .here where
  home := passes.wellMade.home
  classes := fun found =>
    ⟨(passes.wellMade.classes found).names,
      fun _ => passes.distinct_overloads (mem_of_getElem? found),
      .inr (passes.settled.classes _ (mem_of_getElem? found)).canBeParent⟩
  kinds := by
    intro _ c member
    obtain ⟨i, found⟩ := mem_iff_getElem?.1 member
    exact (passes.wellMade.classes found).kind
  interfaces := fun found =>
    ⟨(passes.wellMade.interfaces found).names, (passes.wellMade.interfaces found).open_⟩

/-- What a library publishes is regular. -/
theorem regular_surface : p.surface.Regular := by
  obtain ⟨surface, exported⟩ := passes.surface_eq
  rw [surface]
  refine ⟨?_, ?_, ?_, ?_, ?_⟩
  · have named : job.graph.Named := passes.loaded.named
    exact named.nodup
  · exact Table.all_surfaceOf (fun _ => Table.proper_surfaceType)
      (passes.settled.shown.imp fun _ fits => fits.proper)
  · refine forall_mem_map.2 fun c isShown => ?_
    have held := exported.classes c isShown
    obtain ⟨old, kept, rfl⟩ := mem_map.1 isShown
    obtain ⟨i, found⟩ := mem_iff_getElem?.1 (mem_filter.1 kept).1
    exact Table.regular_surfaceClass (passes.regular_table.classes found) held.canBeParent held
  · refine forall_mem_map.2 fun x isShown => ?_
    obtain ⟨i, found⟩ := mem_iff_getElem?.1 (mem_filter.1 isShown).1
    have names : (p.draft.table.surfaceInterface x).methods.map (·.name) =
        x.methods.map (·.name) := map_map
    rw [names]
    exact InterfaceDef.nodup_names (passes.wellMade.interfaces found).names
  · exact Table.acc_ownParent_surfaceOf exported _ passes.acc_ownParent

end Job.Passes

theorem Surface.Published.regular {s : Surface} (published : s.Published) : s.Regular := by
  obtain ⟨b, p, completes, rfl⟩ := published
  obtain ⟨_, _, passes⟩ := Job.passes_of_completes completes
  exact passes.regular_surface

/-- All that a compilation sees is regular if it relies on published libraries only. -/
theorem Job.Passes.regular_catalog {job : Job} {p : Products} {merged linked : Draft}
    (passes : job.Passes p merged linked) (published : ∀ s ∈ job.surfaces, s.Published) :
    (p.draft.catalog p.tables).Regular :=
  passes.loaded.regular_catalog (fun s member => (published s member).regular)
    passes.regular_table passes.acc_ownParent

theorem Sample.tiles_published : ∀ s ∈ tiles.surfaces, s.Published := by
  obtain ⟨p, completes, surface⟩ := shapes_completes
  exact forall_mem_singleton.2 ⟨_, p, completes, surface⟩

end Linkage
