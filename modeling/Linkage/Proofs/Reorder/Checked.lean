/-
Purpose: What is checked, exported and bound without complaint is so under new numbers, too.
-/
import Linkage.Proofs.Compile.Checks
import Linkage.Proofs.Reorder.Linked

namespace Linkage

open List Reindexed Linkage.Numbering

variable {t t' : Table} {group method : Declaration} {c c' : Catalog} {owner : TypeId}
  {definition : ClassDef} {returns args : List TypeRef} {accept : Declaration → Bool} {α : Type}

variable {n : Numbering}

/-! ### Overloads -/

/-- The groups of overloads are the same, in some order. -/
theorem Table.Alike.overloadGroups_perm (alike : t.Alike n .here t') :
    (t'.overloadGroups.map (·.entity)).Perm
      (t.overloadGroups.map fun group => n.entity group.entity) := by
  simp only [Table.overloadGroups, map_append, mapIdx_eq_zipIdx_map, ← flatMap_def,
    map_flatMap, map_map]
  refine (((?_ : List.Perm _ _).append ?_).append ?_).append ?_
  · refine (of_map alike.classes).zipIdx.flatMap_perm ?_
    simp [classGroups, classDef, mapIdx_eq_zipIdx_map, zipIdx_map,
      Function.comp_def, entity, apply_ite (map _)]
  · refine (of_map alike.interfaces).zipIdx.flatMap_perm ?_
    simp [interfaceDef, zipIdx_map, Function.comp_def, entity]
  · refine alike.methods.zipIdx.map_perm ?_
    rintro ⟨m, i⟩ ⟨_, _⟩ ⟨_, rfl⟩
    rfl
  · refine alike.natives.zipIdx.map_perm ?_
    rintro ⟨m, i⟩ ⟨_, _⟩ ⟨_, rfl⟩
    rfl

/-- All groups are of the library itself. -/
theorem Table.home_of_mem_overloadGroups
    (member : group ∈ t.overloadGroups) : group.home = t.home := by
  simp only [Table.overloadGroups, mem_append, mem_flatten, mem_mapIdx] at member
  rcases member with ((⟨_, ⟨_, _, rfl⟩, inClass⟩ | ⟨_, ⟨_, _, rfl⟩, inside⟩) | ⟨_, _, rfl⟩) |
    ⟨_, _, rfl⟩
  · simp only [Table.classGroups, mem_append, mem_mapIdx] at inClass
    rcases inClass with ⟨_, _, rfl⟩ | constructors
    · rfl
    · split at constructors
      · cases constructors
      · rw [mem_singleton.1 constructors]
  · obtain ⟨_, _, rfl⟩ := mem_mapIdx.1 inside
    rfl
  · rfl
  · rfl

/-- Whatever a declaration of a table from source leads to was written somewhere. -/
theorem Table.WellMade.sourced_overloads (made : t.WellMade) {d : Declaration}
    {fs : List Function} (found : t.overloads d = some fs) : ∀ f ∈ fs, f.source.isSome = true := by
  have ofMethod (isMethod : (t.method d).map (·.functions) = some fs) :
      ∀ f ∈ fs, f.source.isSome = true := by
    obtain ⟨m, isListed, rfl⟩ := Option.map_eq_some_iff.1 isMethod
    unfold Table.method at isListed
    split at isListed
    · obtain ⟨c, isClass, inside⟩ := Option.bind_eq_some_iff.1 isListed
      exact (made.classes isClass).methods m (mem_of_getElem? inside)
    · obtain ⟨i, isInterface, inside⟩ := Option.bind_eq_some_iff.1 isListed
      exact ((made.interfaces isInterface).methods m (mem_of_getElem? inside)).2
    · exact made.methods m (mem_of_getElem? isListed)
    · exact made.natives m (mem_of_getElem? isListed)
    · cases isListed
  unfold Table.overloads at found
  split at found
  · obtain ⟨c, isClass, rfl⟩ := Option.map_eq_some_iff.1 found
    exact (made.classes isClass).constructors
  · obtain ⟨c, isClass, rfl⟩ := Option.map_eq_some_iff.1 found
    exact (made.classes isClass).constructors
  · exact ofMethod found

namespace Draft

variable {d d' : Draft} {relies : List Table}

/-- Functions that take different types are not complained about. -/
theorem notes_checkGroup_of_nodup
    (distinct : (((d.table.overloads group).getD []).map Function.paramTypes).Nodup) :
    (d.checkGroup c group).notes = [] := by
  unfold checkGroup
  generalize (d.table.overloads group).getD [] = functions at distinct
  rw [Noted.notes_noteAll, filterMap_eq_nil_iff]
  rintro ⟨f, i⟩ member
  have found := mk_mem_zipIdx_iff_getElem?.1 member
  have first : ((functions.take i).any fun earlier => earlier.sameParams f) = false := by
    rw [any_eq_false]
    intro earlier before same
    obtain ⟨j, atPlace⟩ := mem_iff_getElem?.1 before
    rw [getElem?_take] at atPlace
    split at atPlace
    · rename_i less
      refine nodup_iff_getElem?_ne_getElem?.1 distinct j i less ?_ ?_
      · rw [length_map]
        exact lt_of_getElem? found
      · rw [getElem?_map, getElem?_map, atPlace, found]
        exact congrArg some (of_decide_eq_true same)
    · cases atPlace
  simp [first]

namespace Alike

theorem checkGroup (alike : d.Alike n d') (made : d.table.WellMade) {group' : Declaration}
    (home : group.home = .here) (same : group'.entity = n.entity group.entity) :
    Noted.Hushes (d.checkGroup c group) (d'.checkGroup c' group') := by
  intro quiet
  refine ⟨notes_checkGroup_of_nodup ?_, trivial⟩
  have related := (home ▸ alike.table : d.table.Alike n group.home d'.table).overloads
  have sameGroup : d'.table.overloads group' = d'.table.overloads (n.declaration group) := by
    simp only [Table.overloads, Table.method, same, declaration, home,
      within_here]
  rw [sameGroup]
  cases found : d.table.overloads group with
  | none =>
    rw [found] at related
    obtain none : d'.table.overloads (n.declaration group) = none := by
      cases found' : d'.table.overloads (n.declaration group) with
      | none => rfl
      | some fs' =>
        rw [found'] at related
        cases related
    rw [none]
    exact .nil
  | some fs =>
    have distinct := nodup_of_checkGroup found (made.sourced_overloads found) quiet
    obtain ⟨fs', found', perm⟩ := (exists_of_rel related).1 fs found
    rw [found', Option.getD_some, (perm.map Function.paramTypes).nodup_iff, map_map]
    have images : fs.map (Function.paramTypes ∘ n.function) =
        (fs.map Function.paramTypes).map (map n.ref) := by
      simp [Function.comp_def, n.paramTypes_function]
    rw [images]
    exact distinct.map (map_injective_iff.2 n.ref_injective)

theorem checkOverloads (alike : d.Alike n d') (made : d.table.WellMade)
    (c c' : Catalog) : Noted.Hushes (d.checkOverloads c) (d'.checkOverloads c') := by
  refine .forM_of_mem fun group' member => ?_
  have listed := (alike.table.overloadGroups_perm).subset (mem_map_of_mem member)
  obtain ⟨group, inside, same⟩ := mem_map.1 listed
  have home := (Table.home_of_mem_overloadGroups inside).trans alike.table.stands
  exact ⟨group, inside, alike.checkGroup made home same.symm⟩

/-! ### Variables and implementations -/

/-- Every class has its counterpart, under its new number. -/
theorem exists_class (alike : d.Alike n d') {entry' : ClassDef × Nat}
    (member : entry' ∈ d'.table.classes.zipIdx) :
    ∃ c i, (c, i) ∈ d.table.classes.zipIdx ∧ entry' = (n.classDef .here c, n.classes i) ∧
      n.type ⟨.here, c.kind, i⟩ = ⟨.here, c.kind, n.classes i⟩ := by
  obtain ⟨_, ⟨c, i⟩, found, _, same, index⟩ :=
    (of_map alike.table.classes).zipIdx.exists_of_mem member
  have listed := mem_of_getElem? found
  refine ⟨c, i, listed, Prod.ext same index, ?_⟩
  exact alike.table.type_classDef (mk_mem_zipIdx_iff_getElem?.1 listed)

theorem checkVariables (alike : d.Alike n d')
    (catalogs : c.Alike n c') : Noted.Hushes (d.checkVariables c) (d'.checkVariables c') := by
  refine .forM_of_mem fun entry' member => ?_
  obtain ⟨definition, i, inside, rfl, type⟩ := alike.exists_class member
  refine ⟨(definition, i), inside, fun quiet => ⟨?_, trivial⟩⟩
  simp only [checkHidden, Noted.notes_noteAll, filterMap_eq_nil_iff] at quiet ⊢
  intro v' member'
  obtain ⟨v, member, rfl⟩ := mem_map.1 member'
  have hidden := quiet v member
  have images : inheritedVariable c' ⟨.here, definition.kind, n.classes i⟩ v.name =
      (inheritedVariable c ⟨.here, definition.kind, i⟩ v.name).map n.type := by
    rw [← type]
    exact catalogs.inheritedVariable _ _
  show (v.source.map n.variableSource).bind (fun source =>
    (inheritedVariable c' ⟨.here, definition.kind, n.classes i⟩ v.name).map _) = none
  rw [images]
  cases written : v.source with
  | none => rfl
  | some source =>
    rw [written, Option.bind_some, Option.map_eq_none_iff] at hidden
    rw [hidden]
    rfl

theorem implementationProblem (catalogs : c.Alike n c')
    {definition' : ClassDef} {anchor anchor' : Anchor} {i i' : InterfaceDef}
    {m m' : Method} {required : Function} {overload overload' : Nat} (name : m'.name = m.name)
    (nothing : implementationProblem c owner definition anchor i m required overload = none) :
    implementationProblem c' (n.type owner) definition' anchor' i' m' (n.function required)
      overload' = none := by
  obtain ⟨declaration, f, found, returns, visible⟩ := implementation_of_problem nothing
  have found' := catalogs.findImplementation owner m.name required
  rw [found] at found'
  unfold Draft.implementationProblem
  rw [name, found']
  simp [returns, visible]

theorem checkImplementations (catalogs : c.Alike n c')
    {i : Nat} (type : n.type ⟨.here, definition.kind, i⟩ = ⟨.here, definition.kind, n.classes i⟩) :
    Noted.Hushes (d.checkImplementations c definition i)
      (d'.checkImplementations c' (n.classDef .here definition) (n.classes i)) := by
  unfold Draft.checkImplementations
  cases written : definition.source with
  | none =>
    simp only [classDef, written, Option.map_none]
    exact .pure trivial
  | some source =>
    simp only [classDef, written, Option.map_some]
    rw [← type, catalogs.interfaceClosure]
    refine .forM_of_mem fun id' member => ?_
    obtain ⟨id, inside, rfl⟩ := mem_map.1 member
    refine ⟨id, inside, ?_⟩
    rw [catalogs.interfaceDef?]
    cases c.interfaceDef? id with
    | none => exact .pure trivial
    | some x =>
      refine .forM_of_mem fun m' member => ?_
      obtain ⟨m, inside, rfl⟩ := mem_map.1 member
      refine ⟨m, inside, .forM_of_mem fun entry' member => ?_⟩
      have listed : entry' ∈ (m.functions.map n.function).zipIdx := member
      rw [zipIdx_map] at listed
      obtain ⟨⟨f, o⟩, inside, rfl⟩ := mem_map.1 listed
      refine ⟨(f, o), inside, fun quiet => ?_⟩
      split at quiet
      · rename_i nothing
        dsimp only [Prod.map]
        have name : (n.method id.home m).name = m.name := rfl
        rw [implementationProblem catalogs name nothing]
        exact ⟨rfl, trivial⟩
      · cases quiet

theorem checkInterfaces (alike : d.Alike n d')
    (catalogs : c.Alike n c') : Noted.Hushes (d.checkInterfaces c) (d'.checkInterfaces c') := by
  refine .forM_of_mem fun entry' member => ?_
  obtain ⟨definition, i, inside, rfl, type⟩ := alike.exists_class member
  exact ⟨(definition, i), inside, checkImplementations catalogs type⟩

end Alike

end Draft

/-! ### Selection -/

namespace Catalog

theorem exact_isSome_iff {declare : Nat → Function → Option Declaration}
    {functions : List Function} {params : List TypeRef} :
    (exact declare functions params returns).isSome = true ↔
      ∃ i f, functions[i]? = some f ∧ f.paramTypes = params ∧ f.returns = returns ∧
        (declare i f).isSome = true := by
  unfold exact
  rw [findSome?_isSome_iff]
  constructor
  · rintro ⟨⟨f, i⟩, member, found⟩
    dsimp only at found
    split at found
    · rename_i fits
      exact ⟨i, f, mk_mem_zipIdx_iff_getElem?.1 member, fits.1, fits.2, by simpa using found⟩
    · cases found
  · rintro ⟨i, f, found, params, returns, declared⟩
    exact ⟨(f, i), mk_mem_zipIdx_iff_getElem?.2 found, by simp [params, returns, declared]⟩

/-- Where it makes no difference which of its functions a function is, one is selected if
there is one with that signature that is admitted. -/
theorem selectFunctionWhere_isSome_iff
    (blind : ∀ i v, ((method.group.overload? i).any fun d => accept { d with visibility := v }) =
      (method.group.overload? 0).any fun d => accept { d with visibility := v }) :
    (c.selectFunctionWhere accept method args (some returns)).isSome = true ↔
      method.group.entity.isMethod = true ∧ ∃ fs, c.overloads method.group = some fs ∧
        ∃ f ∈ fs, f.paramTypes = args ∧ f.returns = returns ∧
          ((method.group.overload? 0).any fun d =>
            accept { d with visibility := f.visibility }) = true := by
  have declared (i : Nat) (v : Visibility) :
      (((method.group.overload? i).map fun d => { d with visibility := v }).filter
        accept).isSome = (method.group.overload? 0).any fun d =>
          accept { d with visibility := v } := by
    rw [← blind i v]
    cases method.group.overload? i with
    | none => rfl
    | some d => cases admitted : accept { d with visibility := v } <;> simp [admitted]
  unfold selectFunctionWhere
  dsimp only
  split
  · rename_i isMethod
    simp only [isMethod, true_and]
    constructor
    · intro selected
      cases found : c.overloads method.group with
      | none =>
        rw [found] at selected
        cases selected
      | some fs =>
        rw [found, Option.bind_some, exact_isSome_iff] at selected
        obtain ⟨i, f, atPlace, params, returns, admitted⟩ := selected
        rw [declared] at admitted
        exact ⟨fs, rfl, f, mem_of_getElem? atPlace, params, returns, admitted⟩
    · rintro ⟨fs, found, f, member, params, returns, admitted⟩
      obtain ⟨i, atPlace⟩ := mem_iff_getElem?.1 member
      rw [found, Option.bind_some, exact_isSome_iff]
      refine ⟨i, f, atPlace, params, returns, ?_⟩
      rw [declared]
      exact admitted
  · rename_i noMethod
    simp [noMethod]

/-- Under new numbers a function is selected if one was. -/
theorem Alike.selectFunctionWhere (alike : c.Alike n c') (accept' : Declaration → Bool)
    (admits : ∀ d, accept' (n.declaration d) = accept d)
    (blind : ∀ i v, ((method.group.overload? i).any fun d => accept { d with visibility := v }) =
      (method.group.overload? 0).any fun d => accept { d with visibility := v })
    (selected : (c.selectFunctionWhere accept method args (some returns)).isSome = true) :
    (c'.selectFunctionWhere accept' (n.declaration method) (args.map n.ref)
      (some (returns.map n.ref))).isSome = true := by
  have any (i : Nat) (v : Visibility) : (((n.declaration method).group.overload? i).any fun d =>
        accept' { d with visibility := v }) =
      (method.group.overload? i).any fun d => accept { d with visibility := v } := by
    rw [n.group_declaration, n.overload?_declaration]
    cases method.group.overload? i with
    | none => rfl
    | some d => exact admits { d with visibility := v }
  rw [selectFunctionWhere_isSome_iff blind] at selected
  obtain ⟨isMethod, fs, found, f, member, params, result, admitted⟩ := selected
  rw [selectFunctionWhere_isSome_iff fun i v => by rw [any, any, blind], n.group_declaration]
  obtain ⟨fs', found', perm⟩ := (exists_of_rel (alike.overloads method.group)).1 fs found
  refine ⟨?_, fs', found', n.function f, perm.symm.subset (mem_map_of_mem member), ?_, ?_, ?_⟩
  · exact (isMethod_entity _ _).trans isMethod
  · rw [n.paramTypes_function, params]
  · rw [n.returns_function, result]
  · rw [← n.group_declaration, any]
    exact admitted

end Catalog

/-- Which of its functions it is makes no difference for who may refer to a function. -/
theorem Scope.isAccessible_overload (s : Scope) (d : Declaration) (i : Nat) (v : Visibility) :
    ((d.overload? i).any fun o => s.isAccessible { o with visibility := v }) =
      (d.overload? 0).any fun o => s.isAccessible { o with visibility := v } := by
  obtain ⟨home, v', e⟩ := d
  cases e <;> rfl

namespace Draft.Alike

variable {d d' : Draft} {relies : List Table}

theorem checkDelegate (alike : d.Alike n d') (leaves : n.Leaves relies)
    {v v' : VariableDef} (related : v'.unplaced = (n.variableDef .here v).unplaced) :
    Noted.Hushes (d.checkDelegate relies v) (d'.checkDelegate relies v') := by
  have sources : v'.source = v.source.map n.variableSource :=
    (congrArg VariableDef.source related :)
  have types : v'.type = n.ref v.type := (congrArg VariableDef.type related :)
  have spaces : v'.space = n.spaces v.space := (congrArg VariableDef.space related :)
  have initializers : v'.initializer = v.initializer := (congrArg VariableDef.initializer related :)
  have catalogs := alike.catalog leaves
  have delegates : (if (n.ref v.type).isArray = true then none
        else (d'.catalog relies).delegateDef? (n.ref v.type).id) =
      (if v.type.isArray = true then none
        else (d.catalog relies).delegateDef? v.type.id).map (n.delegateDef v.type.id.home) := by
    show (if v.type.isArray = true then none
      else (d'.catalog relies).delegateDef? (n.type v.type.id)) = _
    rw [catalogs.delegateDef?]
    split <;> rfl
  unfold Draft.checkDelegate
  dsimp only
  rw [sources, types, spaces, initializers, delegates]
  cases v.source with
  | none => exact .pure trivial
  | some source =>
    cases if v.type.isArray = true then none else (d.catalog relies).delegateDef? v.type.id with
    | none => exact .pure trivial
    | some delegate =>
      cases v.initializer.bind functionPath? with
      | none => exact .pure trivial
      | some path =>
        have scope := alike.scope leaves v.space source.anchor
        refine .bind (scope.findPath path source.anchor.span) ?_
        rintro (_ | group) _ rfl
        · exact .pure trivial
        have isMethod : (n.declaration group).entity.isMethod = group.entity.isMethod :=
          isMethod_entity _ _
        have params : (n.delegateDef v.type.id.home delegate).params.map (·.type) =
            (delegate.params.map (·.type)).map n.ref := by
          simp [delegateDef, parameter]
        simp only [Option.map_some, isMethod, params]
        split
        · split
          · exact fun quiet => by simp [reportAt] at quiet
          · rename_i bound
            rw [Bool.not_eq_true, Option.isNone_eq_false_iff] at bound
            have bound' := catalogs.selectFunctionWhere _ (scope.isAccessible)
              (fun i u => Scope.isAccessible_overload _ _ i u) bound
            rw [if_neg (by
              rw [Bool.not_eq_true, Option.isNone_eq_false_iff]
              exact bound')]
            exact .pure trivial
        · exact .pure trivial

/-- A draft under new numbers passes the checks that the draft passes. -/
theorem check (alike : d.Alike n d') (leaves : n.Leaves relies)
    (made : d.table.WellMade) : Noted.Hushes (d.check relies) (d'.check relies) := by
  have catalogs := alike.catalog leaves
  refine .bind (alike.checkOverloads made _ _) fun _ _ _ => ?_
  refine .bind (alike.checkVariables catalogs) fun _ _ _ => ?_
  refine .bind (alike.checkInterfaces catalogs) fun _ _ _ => ?_
  refine .forM_of_mem fun v' member => ?_
  obtain ⟨_, v, found, _, related⟩ := (iff_map.2 alike.table.globals).exists_of_mem member
  exact ⟨v, mem_of_getElem? found, alike.checkDelegate leaves related⟩

end Draft.Alike

/-! ### Export -/

theorem keptIndex?_isSome (keep : α → Bool) (entries : List α) (i : Nat) :
    (keptIndex? keep entries i).isSome = entries[i]?.any keep := by
  unfold keptIndex?
  cases entries[i]? with
  | none => rfl
  | some entry => cases kept : keep entry <;> simp [kept]

/-- The same types are exported. -/
theorem Table.Alike.exportIndex?_isSome (alike : t.Alike n .here t') (kind : TypeKind) (i : Nat) :
    (t'.exportIndex? kind (n.ofKind kind i)).isSome = (t.exportIndex? kind i).isSome := by
  have any {α : Type} (x : Option α) {f : α → α} {keep : α → Bool}
      (keeps : ∀ a, keep (f a) = keep a) : (x.map f).any keep = x.any keep := by
    cases x with
    | none => rfl
    | some a => exact keeps a
  have classes := alike.classes i
  have interfaces := alike.interfaces i
  have delegates := alike.delegates i
  have coroutines := alike.coroutines i
  rw [within_here] at classes interfaces delegates coroutines
  cases kind with
  | invalid => rfl
  | struct | handle =>
    simp only [Table.exportIndex?, ofKind, keptIndex?_isSome, classes]
    exact any _ fun _ => rfl
  | interface =>
    simp only [Table.exportIndex?, ofKind, keptIndex?_isSome, interfaces]
    exact any _ fun _ => rfl
  | delegate =>
    simp only [Table.exportIndex?, ofKind, keptIndex?_isSome, delegates]
    exact any _ fun _ => rfl
  | coroutine =>
    simp only [Table.exportIndex?, ofKind, keptIndex?_isSome, coroutines]
    exact any _ fun _ => rfl

/-- A type that is mentioned, under its new number. -/
def Numbering.use (n : Numbering) (use : Draft.User × TypeRef) : Draft.User × TypeRef :=
  (⟨use.1.name, use.1.anchor.map n.anchor⟩, n.ref use.2)

theorem Function.uses_function (name : String) (f : Function) :
    (n.function f).uses name = (f.uses name).map n.use := by
  simp [Function.uses, Function.types, Function.paramTypes, function, use,
    parameter, functionSource, Function.comp_def]

theorem Method.uses_method {k : Function → Bool} (keeps : ∀ f, k (n.function f) = k f)
    (qualifier : String) (m : Method) : ((n.method .here m).restrict k).uses qualifier =
      ((m.restrict k).uses qualifier).map n.use := by
  simp [Method.uses, Method.restrict, method, filter_map, Function.comp_def, keeps,
    flatMap_map, map_flatMap, Function.uses_function]

/-- The same types are mentioned, under their new numbers. -/
theorem Table.Alike.uses_shown (alike : t.Alike n .here t') :
    t'.shown.uses ⊆ t.shown.uses.map n.use := by
  have listed {α : Type} {π : Equiv.Perm Nat} {R : α → α → Prop} {xs ys : List α}
      (reindexed : Reindexed π R xs ys) {p : α → Bool} {g : α → List (Draft.User × TypeRef)}
      (keeps : ∀ a b, R a b → p b = p a) (moves : ∀ a b, R a b → (g b).Perm ((g a).map n.use)) :
      (ys.filter p).flatMap g ⊆ ((xs.filter p).flatMap g).map n.use := by
    intro use mentioned
    obtain ⟨b, kept, inside⟩ := mem_flatMap.1 mentioned
    obtain ⟨isListed, isKept⟩ := mem_filter.1 kept
    obtain ⟨i, a, found, _, related⟩ := reindexed.exists_of_mem isListed
    rw [map_flatMap]
    refine mem_flatMap.2 ⟨a, mem_filter.2 ⟨mem_of_getElem? found, ?_⟩,
      (moves a b related).subset inside⟩
    rwa [← keeps a b related]
  have methods {π : Equiv.Perm Nat} {ms ms' : List Method}
      (reindexed : Reindexed π (Method.Alike n .here) ms ms') {keep : Function → Bool}
      (keeps : ∀ f, keep (n.function f) = keep f) (qualifier : String) :
      (restrictMethods keep ms').flatMap (·.uses qualifier) ⊆
        ((restrictMethods keep ms).flatMap (·.uses qualifier)).map n.use := by
    have all := listed reindexed (p := fun _ => true) (fun _ _ _ => rfl)
      (g := fun m => (m.restrict keep).uses qualifier) fun m m' related => by
        rw [← Method.uses_method keeps, Method.restrict, related.name]
        exact (related.functions.filter keep).flatMap_right _
    simpa only [Draft.flatMap_uses_restrictMethods, filter_true] using all
  have both {as bs cs ds : List (Draft.User × TypeRef)} (one : as ⊆ cs) (other : bs ⊆ ds) :
      as ++ bs ⊆ cs ++ ds := by
    intro use mentioned
    rcases mem_append.1 mentioned with inside | inside
    · exact mem_append_left _ (one inside)
    · exact mem_append_right _ (other inside)
  simp only [Table.uses, map_append]
  refine both (both (both (both (both (both ?_ ?_) ?_) ?_) ?_)
    (methods alike.methods (fun _ => rfl) "")) (methods alike.natives (fun _ => rfl) "")
  · simp only [Table.shown, flatMap_map]
    refine listed (.of_map alike.classes) (by rintro _ _ rfl; rfl) ?_
    rintro c _ rfl
    have methods := Method.uses_method (n := n) (k := (·.visibility.isShown)) (fun _ => rfl)
    simp [ClassDef.uses, ClassDef.shown, Draft.flatMap_uses_restrictMethods, Numbering.classDef,
      flatMap_map, map_flatMap, methods, Function.uses_function, filter_map,
      Function.comp_def, Numbering.use, Numbering.typeSource, Numbering.field,
      Numbering.variableSource]
  · refine listed (.of_map alike.interfaces) (by rintro _ _ rfl; rfl) ?_
    rintro i _ rfl
    simp [InterfaceDef.uses, Method.uses, Numbering.interfaceDef, Numbering.method,
      flatMap_map, map_flatMap, Function.uses_function, Function.comp_def, Numbering.use,
      Numbering.typeSource]
  · refine listed (.of_map alike.delegates) (by rintro _ _ rfl; rfl) ?_
    rintro x _ rfl
    simp [DelegateDef.uses, DelegateDef.types, Numbering.delegateDef, Numbering.parameter,
      Function.comp_def, Numbering.use, Numbering.functionSource]
  · refine listed (.of_map alike.coroutines) (by rintro _ _ rfl; rfl) ?_
    rintro x _ rfl
    simp [CoroutineDef.uses, Numbering.coroutineDef, Function.comp_def, Numbering.use,
      Numbering.functionSource]
  · refine listed (iff_map.2 alike.globals) (fun v v' related => ?_)
      fun v v' related => .of_eq ?_
    · rw [show v'.visibility = v.visibility from (congrArg VariableDef.visibility related :)]
    · rw [show v'.uses = (n.variableDef .here v).uses from (congrArg VariableDef.uses related :)]
      simp [VariableDef.uses, Numbering.variableDef, Numbering.use, Function.comp_def,
        Numbering.variableSource]

namespace Draft.Alike

variable {d d' : Draft} {relies : List Table}

/-- A type that may be mentioned may be mentioned under its new number. -/
theorem complaints (alike : d.Alike n d') (use : User × TypeRef) (quiet : d.complaints use = []) :
    d'.complaints (n.use use) = [] := by
  obtain ⟨⟨name, anchor⟩, x⟩ := use
  unfold Draft.complaints Draft.exportType use at *
  rw [show (n.ref x).id.home = x.id.home from rfl, show (n.ref x).id.kind = x.id.kind from rfl]
  cases home : x.id.home with
  | kernel | rely => rfl
  | here =>
    have index : (n.ref x).id.index = n.ofKind x.id.kind x.id.index := by
      simp [TypeRef.rename, type, home]
    have exported := alike.table.exportIndex?_isSome x.id.kind x.id.index
    rw [home] at quiet
    dsimp only at quiet ⊢
    split at quiet
    · rename_i invalid
      rw [if_pos invalid]
      rfl
    · rename_i valid
      rw [if_neg valid, index]
      cases found : d.table.exportIndex? x.id.kind x.id.index with
      | some k =>
        rw [found] at exported
        obtain ⟨k', found'⟩ := Option.isSome_iff_exists.1 exported
        rw [found']
        rfl
      | none =>
        rw [found, Option.isSome_none, Option.isSome_eq_false_iff, Option.isNone_iff_eq_none]
          at exported
        rw [exported]
        cases anchor with
        | none => rfl
        | some anchor => simp [found, reportAt] at quiet

theorem exportSurface (alike : d.Alike n d') :
    Noted.Hushes (d.exportSurface relies) (d'.exportSurface relies) := by
  intro quiet
  rw [notes_exportSurface, flatMap_eq_nil_iff] at quiet ⊢
  refine ⟨fun use' mentioned => ?_, trivial⟩
  obtain ⟨use, inside, rfl⟩ := mem_map.1 (alike.table.uses_shown mentioned)
  exact alike.complaints use (quiet use inside)

/-! ### Bindings -/

theorem isSome_find?_zipIdx (xs : List α) (test : α → Bool) :
    (xs.zipIdx.find? fun entry => test entry.1).isSome = xs.any test := by
  have plain := any_map (f := Prod.fst) (l := xs.zipIdx) (p := test)
  rw [zipIdx_map_fst] at plain
  rw [plain, Bool.eq_iff_iff, find?_isSome, any_eq_true]
  rfl

/-- A function is complained about if none is selected and one with the same parameters could
have been. -/
theorem notes_bindOverride_eq_nil_iff {f : Function} {implementation : Declaration} :
    (d.bindOverride c owner f implementation group).notes = [] ↔
      (c.selectFunctionWhere (fun base => decide (base.visibility ≠ .private_)) group f.paramTypes
        (some f.returns)).isSome = true ∨ f.source = none ∨
      ((c.overloads group).getD []).any (fun base =>
        decide (base.visibility ≠ .private_) && base.sameParams f) = false := by
  rw [← isSome_find?_zipIdx _ fun base : Function =>
    decide (base.visibility ≠ .private_) && base.sameParams f]
  unfold bindOverride
  dsimp only
  cases c.selectFunctionWhere (fun base => decide (base.visibility ≠ .private_)) group f.paramTypes
    (some f.returns) with
  | some selection => simp
  | none =>
    cases ((c.overloads group).getD []).zipIdx.find? fun entry =>
        decide (entry.1.visibility ≠ .private_) && entry.1.sameParams f with
    | none => cases f.source <;> simp
    | some clash => cases f.source <;> simp [reportAt]

section

variable {c c' : Catalog} (catalogs : c.Alike n c') {implementation implementation' : Declaration}

include catalogs

/-- A function that overrides what it may overrides it under new numbers. -/
theorem bindOverride {owner' : TypeId} (f : Function) (group : Declaration) :
    Noted.Hushes (d.bindOverride c owner f implementation group)
      (d'.bindOverride c' owner' (n.function f) implementation' (n.declaration group)) := by
  have clashes : ((c'.overloads (n.declaration group)).getD []).any (fun base =>
        decide (base.visibility ≠ .private_) && base.sameParams (n.function f)) =
      ((c.overloads group).getD []).any fun base =>
        decide (base.visibility ≠ .private_) && base.sameParams f := by
    have related := catalogs.overloads group
    revert related
    generalize c.overloads group = fs, c'.overloads (n.declaration group) = fs'
    rintro (perm | _)
    · rw [Option.getD_some, perm.any_eq, any_map]
      simp only [Function.comp_def, n.sameParams_function, n.visibility_function]
      rfl
    · rfl
  intro quiet
  rw [notes_bindOverride_eq_nil_iff] at quiet ⊢
  rw [n.paramTypes_function, clashes]
  refine ⟨?_, trivial⟩
  rcases quiet with selected | unwritten | noClash
  · refine .inl (catalogs.selectFunctionWhere _ (fun _ => rfl) (fun i v => ?_) selected)
    obtain ⟨home, u, e⟩ := group
    cases e <;> rfl
  · exact .inr (.inl (by simp [function, unwritten]))
  · exact .inr (.inr noClash)

theorem bindFunction (owner : TypeId) (name : String) (f : Function) :
    Noted.Hushes (d.bindFunction c owner name f implementation)
      (d'.bindFunction c' (n.type owner) name (n.function f) implementation') := by
  refine .bind (.traverse_of_mem fun group' member => ?_)
    fun _ _ _ => .pure trivial
  rw [catalogs.overriddenMethods] at member
  obtain ⟨group, inside, rfl⟩ := mem_map.1 member
  exact ⟨group, inside, bindOverride catalogs f group⟩

theorem overrideBindings (owner : TypeId) (definition : ClassDef) :
    Noted.Hushes (d.overrideBindings c owner definition)
      (d'.overrideBindings c' (n.type owner) (n.classDef .here definition)) := by
  refine .bind (.traverse_of_mem ?_) fun _ _ _ => .pure trivial
  rintro entry' member
  obtain ⟨⟨m', position⟩, isMethod', inside⟩ := mem_flatMap.1 member
  obtain ⟨⟨f', o⟩, isFunction', rfl⟩ := mem_map.1 inside
  change (m', position) ∈ (definition.methods.map (n.method .here)).zipIdx at isMethod'
  rw [zipIdx_map] at isMethod'
  obtain ⟨⟨m, position⟩, isMethod, equal⟩ := mem_map.1 isMethod'
  cases equal
  change (f', o) ∈ (m.functions.map n.function).zipIdx at isFunction'
  rw [zipIdx_map] at isFunction'
  obtain ⟨⟨f, o⟩, isFunction, equal⟩ := mem_map.1 isFunction'
  cases equal
  exact ⟨_, mem_flatMap.2 ⟨(m, position), isMethod, mem_map.2 ⟨(f, o), isFunction, rfl⟩⟩,
    bindFunction catalogs owner m.name f⟩

end

theorem bindings (alike : d.Alike n d') (leaves : n.Leaves relies) :
    Noted.Hushes (d.bindings relies) (d'.bindings relies) := by
  refine .bind (.traverse_of_mem fun entry' member => ?_)
    fun _ _ _ => .pure trivial
  obtain ⟨definition, i, inside, rfl, type⟩ := alike.exists_class member
  refine ⟨(definition, i), inside, .bind (R := fun _ _ => True) ?_ fun _ _ _ => .pure trivial⟩
  show Noted.Hushes _ (d'.overrideBindings _ ⟨.here, definition.kind, n.classes i⟩ _)
  rw [← type]
  exact overrideBindings (alike.catalog leaves) _ definition

end Draft.Alike

end Linkage
