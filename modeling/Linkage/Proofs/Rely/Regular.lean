/-
Purpose: Surfaces whose names and overloads leave no choice, and that a rely list of such
  surfaces makes a regular catalog.
-/
import Linkage.Proofs.Catalog.Regular
import Linkage.Proofs.Rely.Loaded

namespace Linkage

open List Surface Catalog

variable {fields : List MemberVariable} {name : String} {d : Declaration} {α β : Type}
  {x y : SurfaceType} {c : Catalog} {own : Table}

variable {index : Nat} {methods : List Method} {home : Home}

/-! ### Members by name -/

theorem keys_classMemberList (home : Home) (index : Nat) (fields : List MemberVariable)
    (methods : List Method) : (classMemberList home index fields methods).map (·.1) =
      fields.map (·.name) ++ methods.map (·.name) := by
  simp only [classMemberList, map_append, mapIdx_eq_zipIdx_map, map_map]
  congr 1
  · conv_rhs => rw [← zipIdx_map_fst 0 fields, map_map]
    rfl
  · conv_rhs => rw [← zipIdx_map_fst 0 methods, map_map]
    rfl

theorem memberAt_of_mem_classMemberList
    (member : (name, d) ∈ classMemberList home index fields methods) :
    d.home = home ∧ classMemberAt fields methods index d.entity = some name := by
  rcases mem_append.1 member with field | method
  · obtain ⟨i, inside, same⟩ := mem_mapIdx.1 field
    cases same
    simp [classMemberAt, getElem?_eq_getElem inside]
  · obtain ⟨i, inside, same⟩ := mem_mapIdx.1 method
    cases same
    simp [classMemberAt, getElem?_eq_getElem inside]

/-- Members with different names are found where they stand. -/
theorem faithful_classMemberList (distinct : (fields.map (·.name) ++ methods.map (·.name)).Nodup) :
    Faithful home (NameMap.ofList (classMemberList home index fields methods)).find?
      (classMemberAt fields methods index) := by
  rw [← keys_classMemberList home index] at distinct
  constructor
  · intro name d found
    exact memberAt_of_mem_classMemberList ((NameMap.find?_ofList_iff distinct).1 found)
  · intro e name stands
    have finds {d : Declaration} (member : (name, d) ∈ classMemberList home index fields methods) :
        (NameMap.ofList (classMemberList home index fields methods)).find? name = some d :=
      (NameMap.find?_ofList_iff distinct).2 member
    cases e with
    | memberVariable owner i =>
      simp only [classMemberAt, Option.ite_none_right_eq_some, Option.map_eq_some_iff] at stands
      obtain ⟨rfl, v, found, rfl⟩ := stands
      obtain ⟨inside, rfl⟩ := List.getElem?_eq_some_iff.1 found
      exact ⟨_, finds (mem_append_left _ (mem_mapIdx.2 ⟨i, inside, rfl⟩)), rfl⟩
    | memberMethod owner i =>
      simp only [classMemberAt, Option.ite_none_right_eq_some, Option.map_eq_some_iff] at stands
      obtain ⟨rfl, m, found, rfl⟩ := stands
      obtain ⟨inside, rfl⟩ := List.getElem?_eq_some_iff.1 found
      exact ⟨_, finds (mem_append_right _ (mem_mapIdx.2 ⟨i, inside, rfl⟩)), rfl⟩
    | _ => cases stands

theorem mem_interfaceMemberList : (name, d) ∈ interfaceMemberList home index methods ↔
      ∃ m method, methods[m]? = some method ∧ method.name = name ∧
        d = ⟨home, .public_, .interfaceMethod index m⟩ := by
  simp only [interfaceMemberList, mem_map, Prod.exists, mk_mem_zipIdx_iff_getElem?,
    Prod.mk.injEq]
  constructor
  · rintro ⟨method, m, found, named, rfl⟩
    exact ⟨m, method, found, named, rfl⟩
  · rintro ⟨m, method, found, named, rfl⟩
    exact ⟨method, m, found, named, rfl⟩

/-- Methods of an interface with different names are found where they stand. -/
theorem regular_interfaceMemberList {i : InterfaceDef} (distinct : (i.methods.map (·.name)).Nodup)
    (members : i.members = .ofList (interfaceMemberList home index i.methods)) :
    i.Regular home index := by
  have keys : (interfaceMemberList home index i.methods).map (·.1) = i.methods.map (·.name) := by
    conv_rhs => rw [← zipIdx_map_fst 0 i.methods, map_map]
    rw [interfaceMemberList, map_map]
    rfl
  rw [← keys] at distinct
  have finds (name : String) (d : Declaration) : i.members.find? name = some d ↔
      ∃ m method, i.methods[m]? = some method ∧ method.name = name ∧
        d = ⟨home, .public_, .interfaceMethod index m⟩ := by
    rw [members, NameMap.find?_ofList_iff distinct, mem_interfaceMemberList]
  refine ⟨⟨?_, ?_⟩, ?_⟩
  · intro name d found
    obtain ⟨m, method, isMethod, named, rfl⟩ := (finds name d).1 found
    simp [InterfaceDef.memberAt, interfaceMemberAt, isMethod, named]
  · intro e name stands
    cases e with
    | interfaceMethod owner m =>
      simp only [InterfaceDef.memberAt, interfaceMemberAt, Option.ite_none_right_eq_some,
        Option.map_eq_some_iff] at stands
      obtain ⟨rfl, method, isMethod, named⟩ := stands
      exact ⟨_, (finds name _).2 ⟨m, method, isMethod, named, rfl⟩, rfl⟩
    | _ => cases stands
  · intro name d found
    obtain ⟨_, _, _, _, rfl⟩ := (finds name d).1 found
    rfl

/-! ### The kernel -/

/-- The types of the kernel are regular. -/
theorem Kernel.regular_table : Kernel.table.Regular .kernel where
  home := rfl
  classes := by
    have all : ∀ entry ∈ Kernel.table.classes.zipIdx, entry.1.members = .ofList
          (classMemberList .kernel entry.2 entry.1.fields entry.1.methods) ∧
        (entry.1.fields.map (·.name) ++ entry.1.methods.map (·.name)).Nodup ∧
        (∀ m ∈ entry.1.methods, (m.functions.map Function.paramTypes).Nodup) ∧
        (entry.1.parent = .invalid ∨ entry.1.parent.canBeParent = true) := by decide
    intro i c found
    obtain ⟨members, distinct, overloads, parent⟩ :=
      all (c, i) (mk_mem_zipIdx_iff_getElem?.2 found)
    exact ⟨members ▸ faithful_classMemberList distinct, overloads, parent⟩
  kinds := fun elsewhere => absurd rfl elsewhere
  interfaces := nofun

/-! ### Regular surfaces -/

/-- A type that could not be resolved is written in one way only. -/
def SurfaceType.Proper (type : SurfaceType) : Prop := type.kind = .invalid → type = .invalid

/-- The members of a class have different names, the functions of a method take different types,
and the parent can be one. -/
structure SurfaceClass.Regular (c : SurfaceClass) : Prop where
  names : (c.fields.map (·.name) ++ c.methods.map (·.name)).Nodup
  overloads : ∀ m ∈ c.methods, (m.functions.map fun f => f.params.map (·.type)).Nodup
  scalar : c.parent.dimension = 0
  kind : c.parent.kind = .handle
  root : c.parent.origin = .kernel → c.parent.index = TypeId.handle.index

namespace Surface

/-- The index of the parent of a class, if the same surface has it. -/
def ownParent (s : Surface) (index : Nat) : Option Nat :=
  s.classes[index]?.bind fun c => if c.parent.origin = .own then some c.parent.index else none

/-- The names, overloads and parents of a surface leave no choice. -/
structure Regular (s : Surface) : Prop where
  dependencies : s.dependencies.Nodup
  types : s.All SurfaceType.Proper
  classes : ∀ c ∈ s.classes, c.Regular
  interfaces : ∀ i ∈ s.interfaces, (i.methods.map (·.name)).Nodup
  ends : ∀ index, Acc (Walk.Onward s.ownParent) index

end Surface

/-! ### Regular surfaces in their places -/

/-- A map that tells the elements of two lists apart tells the lists apart. -/
private theorem map_inj_of_forall {g : α → β} {xs ys : List α}
    (apart : ∀ x ∈ xs, ∀ y ∈ ys, g x = g y → x = y) (same : xs.map g = ys.map g) : xs = ys := by
  induction xs generalizing ys with
  | nil => exact (map_eq_nil_iff.1 same.symm).symm
  | cons x rest ih =>
    cases ys with
    | nil => cases same
    | cons y others =>
      obtain ⟨first, later⟩ := cons.inj same
      rw [apart x (mem_cons_self ..) y (mem_cons_self ..) first,
        ih (fun a inA b inB => apart a (mem_cons_of_mem _ inA) b
          (mem_cons_of_mem _ inB)) later]

/-- Different lists stay different under a map that tells their elements apart. -/
theorem nodup_map_map {g : α → β} {P : α → Prop} {lists : List (List α)}
    (held : ∀ xs ∈ lists, ∀ x ∈ xs, P x) (apart : ∀ x y, P x → P y → g x = g y → x = y)
    (distinct : lists.Nodup) : (lists.map (map g)).Nodup := by
  refine List.Nodup.map_on (fun xs isXs ys isYs same => ?_) distinct
  exact map_inj_of_forall
    (fun x isX y isY => apart x y (held xs isXs x isX) (held ys isYs y isY)) same

namespace RelyGraph.Loaded

variable {g : RelyGraph} {built : List Rely} {i : Nat} {s : Surface}

section

variable (loaded : g.Loaded built) (atIndex : g.libraries[i]? = some s)
include loaded atIndex

/-- A dependency that has types is one of the list, and needed. -/
theorem placement_dependency {type : SurfaceType} (has : g.Has s type)
    (valid : type.kind ≠ .invalid) {d : Nat} (origin : type.origin = .dependency d) :
    ∃ name k, s.dependencies[d]? = some name ∧ g.node? name = some (.rely k) ∧
      g.placement s i (.dependency d) = .rely k ∧ g.Needs k i := by
  have inside := has.resolve_left valid
  rw [origin] at inside
  cases named : s.dependencies[d]? with
  | none => simp [available, named] at inside
  | some name =>
    have member := mem_of_getElem? named
    obtain ⟨k, atNode⟩ := loaded.resolved s (mem_of_getElem? atIndex) name member
    refine ⟨name, k, rfl, atNode, ?_, s, name, atIndex, member, atNode⟩
    simp [placement, named, homeOf, atNode]

/-- Different origins stand at different places. -/
theorem placement_injective (distinct : s.dependencies.Nodup) (hasX : g.Has s x)
    (hasY : g.Has s y) (validX : x.kind ≠ .invalid) (validY : y.kind ≠ .invalid)
    (same : g.placement s i x.origin = g.placement s i y.origin) : x.origin = y.origin := by
  cases one : x.origin with
  | kernel =>
    rw [one] at same
    cases other : y.origin with
    | kernel => rfl
    | own => rw [other] at same; cases same
    | dependency e =>
      obtain ⟨_, k, _, _, place, _⟩ := loaded.placement_dependency atIndex hasY validY other
      rw [other, place] at same
      cases same
  | own =>
    rw [one] at same
    cases other : y.origin with
    | kernel => rw [other] at same; cases same
    | own => rfl
    | dependency e =>
      obtain ⟨_, k, _, _, place, needs⟩ := loaded.placement_dependency atIndex hasY validY other
      rw [other, place] at same
      cases same
      exact absurd needs (loaded.not_needs_self i)
  | dependency d =>
    obtain ⟨name, k, named, atNode, place, needs⟩ :=
      loaded.placement_dependency atIndex hasX validX one
    rw [one, place] at same
    cases other : y.origin with
    | kernel => rw [other] at same; cases same
    | own =>
      rw [other] at same
      cases same
      exact absurd needs (loaded.not_needs_self i)
    | dependency e =>
      obtain ⟨name', k', named', atNode', place', _⟩ :=
        loaded.placement_dependency atIndex hasY validY other
      rw [other, place'] at same
      cases same
      -- Both names are the name of the library that stands there.
      obtain ⟨s', atK, rfl⟩ := exists_of_node? atNode
      obtain ⟨s'', atK', rfl⟩ := exists_of_node? atNode'
      rw [atK] at atK'
      cases atK'
      rw [(getElem?_inj (lt_of_getElem? named) distinct).1
        (named.trans named'.symm)]

/-- Placing the types of a surface tells them apart. -/
theorem at_injective (distinct : s.dependencies.Nodup) (hasX : g.Has s x)
    (hasY : g.Has s y) (properX : x.Proper) (properY : y.Proper)
    (same : x.at (g.placement s i) = y.at (g.placement s i)) : x = y := by
  unfold SurfaceType.at at same
  by_cases unresolvedX : x.kind = .invalid
  · by_cases unresolvedY : y.kind = .invalid
    · rw [properX unresolvedX, properY unresolvedY]
    · rw [if_pos unresolvedX, if_neg unresolvedY] at same
      exact absurd (congrArg (fun type => type.id.kind) same).symm unresolvedY
  · by_cases unresolvedY : y.kind = .invalid
    · rw [if_neg unresolvedX, if_pos unresolvedY] at same
      exact absurd (congrArg (fun type => type.id.kind) same) unresolvedX
    · rw [if_neg unresolvedX, if_neg unresolvedY] at same
      simp at same
      obtain ⟨⟨home, kind, index⟩, dimension⟩ := same
      have origin := loaded.placement_injective atIndex distinct hasX hasY unresolvedX unresolvedY
        home
      obtain ⟨_, _, _, _⟩ := y
      cases origin
      cases kind
      cases index
      cases dimension
      rfl

/-- The classes of a regular surface are regular where they are placed. -/
theorem regular_classAt (regular : s.Regular) {c : SurfaceClass} (member : c ∈ s.classes)
    (index : Nat) : (c.at (g.placement s i) index).Regular (.rely i) index := by
  have has {y : SurfaceType} (inside : y ∈ c.types) : g.Has s y ∧ y.Proper :=
    have mentioned := class_types_subset member inside
    ⟨(loaded.placed atIndex).2.1 y mentioned, regular.types y mentioned⟩
  have held := regular.classes c member
  refine ⟨?_, ?_, .inr ?_⟩
  · refine faithful_classMemberList ?_
    rw [map_map, map_map]
    exact held.names
  · refine forall_mem_map.2 fun m isMethod => ?_
    have images : (m.at (g.placement s i)).functions.map Function.paramTypes =
        (m.functions.map fun f => f.params.map (·.type)).map
          (map (·.at (g.placement s i))) := by
      simp [SurfaceMethod.at, SurfaceFunction.at, Function.paramTypes, SurfaceParameter.at,
        Function.comp_def]
    rw [images]
    refine nodup_map_map (P := fun x => g.Has s x ∧ x.Proper) ?_ ?_ (held.overloads m isMethod)
    · refine forall_mem_map.2 fun f isFunction => forall_mem_map.2 fun p isParam => ?_
      apply has
      simp only [SurfaceClass.types, mem_cons, mem_append, mem_flatMap,
        SurfaceMethod.types, SurfaceFunction.types]
      exact .inr (.inl (.inr ⟨m, isMethod, f, isFunction, .inl (mem_map_of_mem isParam)⟩))
    · rintro x y ⟨hasX, properX⟩ ⟨hasY, properY⟩
      exact loaded.at_injective atIndex regular.dependencies hasX hasY properX properY
  · have valid : c.parent.kind ≠ .invalid := by simp [held.kind]
    have parent : c.parent.at (g.placement s i) =
        ⟨⟨g.placement s i c.parent.origin, .handle, c.parent.index⟩, 0⟩ := by
      rw [SurfaceType.at, if_neg valid, held.kind, held.scalar]
    show (c.parent.at (g.placement s i)).canBeParent = true
    rw [parent]
    cases origin : c.parent.origin with
    | kernel =>
      rw [held.root origin]
      rfl
    | own => rfl
    | dependency d =>
      obtain ⟨_, k, _, _, place, _⟩ :=
        loaded.placement_dependency atIndex (has mem_cons_self).1 valid origin
      rw [place]
      rfl

/-- The table of a regular surface is regular. -/
theorem regular_tableAt
    (regular : s.Regular) : (s.tableAt (g.placement s i)).Regular (.rely i) := by
  refine ⟨home_tableAt, ?_, ?_, ?_⟩
  · intro index definition found
    obtain ⟨c, inside, rfl⟩ := class_tableAt_iff.1 found
    exact loaded.regular_classAt atIndex regular (mem_of_getElem? inside) index
  · intro _ definition member
    rw [classes_tableAt] at member
    obtain ⟨_, _, rfl⟩ := mem_mapIdx.1 member
    rfl
  · intro index definition found
    obtain ⟨x, inside, rfl⟩ := interface_tableAt_iff.1 found
    refine regular_interfaceMemberList ?_ rfl
    show ((x.methods.map _).map _).Nodup
    rw [map_map]
    exact regular.interfaces x (mem_of_getElem? inside)

end

end RelyGraph.Loaded

/-! ### Going up ends -/

theorem Kernel.parent_eq {kind : TypeKind} {d : ClassDef}
    (found : c.classDef? ⟨.kernel, kind, index⟩ = some d) (valid : d.parent.id.isValid = true) :
    d.parent.id = .handle := by
  have parents : ∀ d ∈ Kernel.table.classes, d.parent.id.isValid = true →
      d.parent.id = .handle := by decide
  obtain ⟨_, t, atHome, inside⟩ := classDef?_eq_some.1 found
  cases atHome
  exact parents d (mem_of_getElem? inside) valid

namespace Catalog

/-- Going up within the kernel ends at its root. -/
theorem acc_kernel (c : Catalog) (kind : TypeKind) (index : Nat) :
    Acc (Walk.Onward c.nextParent) ⟨.kernel, kind, index⟩ := by
  have root : Acc (Walk.Onward c.nextParent) TypeId.handle := Acc.intro _ fun _ next => nomatch next
  have handles (index : Nat) : Acc (Walk.Onward c.nextParent) ⟨.kernel, .handle, index⟩ := by
    refine Acc.intro _ fun y next => ?_
    obtain ⟨valid, ⟨d, isClass, rfl⟩ | ⟨other, _⟩⟩ := nextParent_cases next
    · rw [Kernel.parent_eq isClass valid]
      exact root
    · cases other
  refine Acc.intro _ fun y next => ?_
  obtain ⟨valid, ⟨d, isClass, rfl⟩ | ⟨_, rfl | rfl | rfl⟩⟩ := nextParent_cases next
  · rw [Kernel.parent_eq isClass valid]
    exact root
  all_goals exact handles _

/-- Going up from a type ends if it does from the parent of the class. -/
theorem acc_of_parent {x : TypeId}
    (parent : ∀ d, c.classDef? x = some d → d.parent.id.isValid = true →
      Acc (Walk.Onward c.nextParent) d.parent.id) : Acc (Walk.Onward c.nextParent) x := by
  refine Acc.intro x fun y next => ?_
  obtain ⟨valid, ⟨d, isClass, rfl⟩ | ⟨_, rfl | rfl | rfl⟩⟩ := nextParent_cases next
  · exact parent d isClass valid
  all_goals exact c.acc_kernel _ _

end Catalog

namespace RelyGraph.Loaded

variable {g : RelyGraph} {built : List Rely}

/-- Links end at every type of a library if they end in the kernel and within each library, since
the libraries that a library needs come before it. -/
theorem acc_of_links (loaded : g.Loaded built) {r : TypeId → TypeId → Prop}
    {within : Surface → Nat → Nat → Prop} (kernel : ∀ kind index, Acc r ⟨.kernel, kind, index⟩)
    (ends : ∀ s ∈ g.libraries, ∀ index, Acc (within s) index)
    (links : ∀ {i kind index y}, r y ⟨.rely i, kind, index⟩ → y.home = .kernel ∨
      ∃ s, g.libraries[i]? = some s ∧ ∃ type ∈ s.types, type.kind ≠ .invalid ∧
        y.home = g.placement s i type.origin ∧ (type.origin = .own → within s y.index index))
    (i : Nat) (kind : TypeKind) (index : Nat) : Acc r ⟨.rely i, kind, index⟩ := by
  -- By the order of the libraries, and within one by its own links.
  induction loaded.ordered i generalizing kind index with
  | intro i _ outer =>
    cases atIndex : g.libraries[i]? with
    | none =>
      apply Acc.intro
      rintro ⟨home, kind', index'⟩ link
      rcases links link with rfl | ⟨s, found, _⟩
      · exact kernel _ _
      · cases atIndex.symm.trans found
    | some s =>
      induction ends s (mem_of_getElem? atIndex) index generalizing kind with
      | intro index _ inner =>
        apply Acc.intro
        rintro ⟨home, kind', index'⟩ link
        rcases links link with rfl | ⟨_, found, type, mentioned, valid, rfl, own⟩
        · exact kernel _ _
        cases atIndex.symm.trans found
        cases origin : type.origin with
        | kernel => exact kernel _ _
        | own => exact inner index' (own origin) _
        | dependency e =>
          have has := (loaded.placed atIndex).2.1 type mentioned
          obtain ⟨_, k, _, _, place, needs⟩ := loaded.placement_dependency atIndex has valid origin
          rw [place]
          exact outer k needs _ _

/-- Going up from a type of a library ends, since no class of a library is its own ancestor. -/
theorem acc_rely (loaded : g.Loaded built) (own : Table)
    (regular : ∀ s ∈ g.libraries, s.Regular) :
    ∀ (i : Nat) (kind : TypeKind) (index : Nat),
      Acc (Walk.Onward (Catalog.mk own (built.map (·.table))).nextParent)
        ⟨.rely i, kind, index⟩ := by
  refine loaded.acc_of_links (acc_kernel _) (fun s inside => (regular s inside).ends) ?_
  intro i kind index y next
  obtain ⟨valid, ⟨d, isClass, rfl⟩ | ⟨_, rfl | rfl | rfl⟩⟩ := nextParent_cases next
  · obtain ⟨_, t, atHome, inside⟩ := classDef?_eq_some.1 isClass
    obtain ⟨s, atIndex, rfl, _⟩ := loaded.surface_of_table atHome
    obtain ⟨c, found, rfl⟩ := class_tableAt_iff.1 inside
    have member := mem_of_getElem? found
    have kind := ((regular s (mem_of_getElem? atIndex)).classes c member).kind
    have named : c.parent.kind ≠ .invalid := by simp [kind]
    have parent : ((c.at (g.placement s i) index).parent).id =
        ⟨g.placement s i c.parent.origin, .handle, c.parent.index⟩ := by
      simp [SurfaceClass.at, SurfaceType.at, kind]
    have mentioned := class_types_subset member mem_cons_self
    rw [parent]
    refine .inr ⟨s, atIndex, c.parent, mentioned, named, rfl, fun origin => ?_⟩
    simp [Walk.Onward, ownParent, found, origin]
  all_goals exact .inl rfl

/-- Going up from any type ends beside a loaded list of regular surfaces, if the parents of the
classes of the library can be parents and none of them is its own ancestor. -/
theorem acc_catalog (loaded : g.Loaded built) (regular : ∀ s ∈ g.libraries, s.Regular)
    (parents : ∀ d ∈ own.classes, d.parent = .invalid ∨ d.parent.canBeParent = true)
    (ends : ∀ i, Acc (Walk.Onward (Draft.ownParent own.classes)) i) (x : TypeId) :
    Acc (Walk.Onward (Catalog.mk own (built.map (·.table))).nextParent) x := by
  obtain ⟨home, kind, index⟩ := x
  cases home with
  | kernel => exact acc_kernel _ kind index
  | rely i => exact loaded.acc_rely own regular i kind index
  | here =>
    induction ends index generalizing kind with
    | intro index _ ih =>
      refine acc_of_parent fun d isClass valid => ?_
      obtain ⟨_, t, atHome, inside⟩ := classDef?_eq_some.1 isClass
      cases atHome
      rw [show d.parent.id = ⟨d.parent.id.home, d.parent.id.kind, d.parent.id.index⟩ from rfl]
      cases place : d.parent.id.home with
      | kernel => exact acc_kernel _ _ _
      | rely i => exact loaded.acc_rely own regular i _ _
      | here =>
        have handle : d.parent.id.kind = .handle := by
          rcases parents d (mem_of_getElem? inside) with unresolved | asParent
          · rw [unresolved] at place
            cases place
          · exact (TypeRef.canBeParent_iff.1 asParent).2.1
        refine ih d.parent.id.index ?_ _
        simp [Walk.Onward, Draft.ownParent, inside, place, handle]

/-- A regular table beside a loaded list of regular surfaces makes a regular catalog, if no class
of the table is its own ancestor. -/
theorem regular_catalog (loaded : g.Loaded built) (regular : ∀ s ∈ g.libraries, s.Regular)
    (isRegular : own.Regular .here)
    (ends : ∀ i, Acc (Walk.Onward (Draft.ownParent own.classes)) i) :
    (Catalog.mk own (built.map (·.table))).Regular := by
  constructor
  · intro home t atHome
    cases home with
    | kernel =>
      cases atHome
      exact Kernel.regular_table
    | here =>
      cases atHome
      exact isRegular
    | rely i =>
      obtain ⟨s, atIndex, rfl, _⟩ := loaded.surface_of_table atHome
      exact loaded.regular_tableAt atIndex (regular s (mem_of_getElem? atIndex))
  · refine loaded.acc_catalog regular (fun d member => ?_) ends
    obtain ⟨i, found⟩ := mem_iff_getElem?.1 member
    exact (isRegular.classes found).parent

end RelyGraph.Loaded

end Linkage
