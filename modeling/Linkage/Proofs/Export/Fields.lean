/-
Purpose: No variable of a class has the name of another one, of the class or of a type above it,
  whatever libraries these come from.
-/
import Linkage.Proofs.Export.Published
import Linkage.Proofs.Export.Subtyping

namespace Linkage

open List Catalog

variable {x : TypeId} {d : Draft} {index i number : Nat} {c : Catalog} {kind : TypeKind}
  {s : Surface}

variable {definition : ClassDef}

/-! ### The variables of a line of classes -/

namespace Catalog

/-- The names of the variables of a type. -/
def fieldNames (c : Catalog) (x : TypeId) : List String :=
  ((c.classDef? x).map fun d => d.fields.map (·.name)).getD []

/-- The names of the variables of a type and of all types above it. -/
def lineNames (c : Catalog) (x : TypeId) : List String := (x :: c.ancestors x).flatMap c.fieldNames

/-- The variables of a type have different names, and none is that of a variable of a type above
it. -/
@[mk_iff]
structure Unhidden (c : Catalog) (x : TypeId) : Prop where
  distinct : (c.fieldNames x).Nodup
  fresh : ∀ y ∈ c.ancestors x, (c.fieldNames x).Disjoint (c.fieldNames y)

variable {c : Catalog}

theorem mem_fieldNames {name : String} : name ∈ c.fieldNames x ↔
    ∃ d, c.classDef? x = some d ∧ ∃ v ∈ d.fields, v.name = name := by
  unfold fieldNames
  cases c.classDef? x <;> simp

theorem unhidden_of_fieldNames_eq_nil (none : c.fieldNames x = []) : c.Unhidden x := by
  refine ⟨?_, fun y _ => ?_⟩
  · rw [none]
    exact nodup_nil
  · rw [none]
    exact disjoint_nil_left _

/-- In a line of types from a type upwards, each type is followed by types above it. -/
theorem Regular.pairwise_line (regular : c.Regular) (x : TypeId) :
    (x :: c.ancestors x).Pairwise fun y z => z ∈ c.ancestors y := by
  refine pairwise_cons.2 ⟨fun _ => id, pairwise_iff_getElem.2 ?_⟩
  intro i j iInside jInside earlier
  have atI := regular.getElem?_ancestors x i
  have atJ := regular.getElem?_ancestors x j
  rw [getElem?_eq_getElem iInside] at atI
  rw [getElem?_eq_getElem jInside, show j + 1 = i + 1 + (j - i - 1 + 1) by omega,
    Walk.steps_add, ← atI] at atJ
  exact regular.mem_ancestors.2 ⟨j - i - 1, atJ.symm⟩

/-- If no type of a line hides a variable, all variables of the line have different names. -/
theorem Regular.nodup_lineNames (regular : c.Regular)
    (unhidden : ∀ y ∈ x :: c.ancestors x, c.Unhidden y) : (c.lineNames x).Nodup := by
  refine nodup_flatMap.2 ⟨fun y member => (unhidden y member).distinct, ?_⟩
  refine (regular.pairwise_line x).imp_of_mem fun {y z} isBelow _ above => ?_
  exact (unhidden y isBelow).fresh z above

end Catalog

/-! ### The classes of the library -/

theorem Draft.hidden_of_check {relies : List Table} (made : d.table.WellMade)
    (quiet : (d.check relies).notes = []) (isClass : d.table.classes[index]? = some definition)
    {v : MemberVariable} (isField : v ∈ definition.fields) :
    inheritedVariable (d.catalog relies) ⟨.here, definition.kind, index⟩ v.name = none := by
  simp only [check, checkVariables, Noted.notes_bind, forM_eq_forM, Noted.notes_forM,
    append_eq_nil_iff, flatMap_eq_nil_iff] at quiet
  have checked := quiet.2.1 (definition, index) (mk_mem_zipIdx_iff_getElem?.2 isClass)
  simp only [checkHidden, Noted.notes_noteAll, filterMap_eq_nil_iff] at checked
  obtain ⟨source, isSource⟩ := Option.isSome_iff_exists.1 ((made.classes isClass).fields v isField)
  have silent := checked v isField
  rw [isSource, Option.bind_some, Option.map_eq_none_iff] at silent
  exact silent

theorem Catalog.fieldNames_here
    (isDefinition : kind.isDefinition = true) (isClass : c.own.classes[index]? = some definition) :
    c.fieldNames ⟨.here, kind, index⟩ = definition.fields.map (·.name) := by
  have found : c.classDef? ⟨.here, kind, index⟩ = some definition :=
    classDef?_eq_some.2 ⟨isDefinition, c.own, rfl, isClass⟩
  rw [fieldNames, found]
  rfl

/-- A class of a library that passes the checks hides no variable. -/
theorem Draft.unhidden_of_check {relies : List Table} (made : d.table.WellMade)
    (quiet : (d.check relies).notes = []) (isClass : d.table.classes[index]? = some definition) :
    (d.catalog relies).Unhidden ⟨.here, .handle, index⟩ := by
  have madeClass := made.classes isClass
  have names : (d.catalog relies).fieldNames ⟨.here, .handle, index⟩ =
      definition.fields.map (·.name) := fieldNames_here rfl isClass
  refine ⟨?_, fun y above name own inherited => ?_⟩
  · rw [names]
    exact (ClassDef.nodup_names madeClass.names).of_append_left
  · rw [names] at own
    obtain ⟨v, isField, rfl⟩ := mem_map.1 own
    obtain ⟨d', isClass', w, isField', same⟩ := mem_fieldNames.1 inherited
    have none := hidden_of_check made quiet isClass isField
    rw [madeClass.kind, inheritedVariable, find?_eq_none] at none
    refine none y above ?_
    rw [isClass', Option.any_some, any_eq_true]
    exact ⟨w, isField', decide_eq_true same⟩

namespace Catalog

variable (t : Table) (relies : List Table)

theorem ancestors_unplaced :
    (Catalog.mk t.unplaced relies).ancestors = (Catalog.mk t relies).ancestors := by
  funext x
  simp only [ancestors, nextParent_unplaced, parents_unplaced]

theorem fieldNames_unplaced :
    (Catalog.mk t.unplaced relies).fieldNames = (Catalog.mk t relies).fieldNames := by
  funext ⟨home, kind, index⟩
  cases home with
  | here =>
    simp only [fieldNames, classDef?, table?, Option.bind_some, Table.unplaced, getElem?_map]
    split
    · cases t.classes[index]? with
      | none => rfl
      | some definition => simp [ClassDef.unplaced, MemberVariable.unplaced]
    · rfl
  | kernel | rely i => rfl

theorem unhidden_unplaced :
    (Catalog.mk t.unplaced relies).Unhidden = (Catalog.mk t relies).Unhidden := by
  funext x
  rw [unhidden_iff, unhidden_iff, fieldNames_unplaced, ancestors_unplaced]

end Catalog

namespace Job.Passes

variable {job : Job} {p : Products} {merged linked : Draft} (passes : job.Passes p merged linked)
include passes

/-- A class of a library that was compiled hides no variable. -/
theorem unhidden_here (index : Nat) :
    (p.draft.catalog p.tables).Unhidden ⟨.here, .handle, index⟩ := by
  rw [passes.view_catalog Catalog.Unhidden unhidden_unplaced]
  cases isClass : linked.table.classes[index]? with
  | some definition => exact Draft.unhidden_of_check passes.linked_wellMade passes.checks isClass
  | none =>
    refine unhidden_of_fieldNames_eq_nil ?_
    simp [fieldNames, classDef?, Draft.catalog, table?, isClass]

end Job.Passes

/-! ### The classes of other libraries -/

namespace Catalog.Embedding

variable {φ : TypeId → TypeId} {D : TypeId → Prop} {c c' : Catalog}

theorem steps (embedding : Embedding φ D c c') (n : Nat) (inside : D x) :
    Walk.steps c'.nextParent n (φ x) = (Walk.steps c.nextParent n x).map φ := by
  induction n generalizing x with
  | zero => rfl
  | succ n ih =>
    rw [Walk.steps, Walk.steps, embedding.nextParent inside]
    cases next : c.nextParent x with
    | none => rfl
    | some y => exact ih (embedding.nextParent_inside inside next)

theorem steps_inside (embedding : Embedding φ D c c') {n : Nat} {y : TypeId} (inside : D x)
    (path : Walk.steps c.nextParent n x = some y) : D y :=
  Walk.steps_keep (fun _ _ inside next => embedding.nextParent_inside inside next) inside path

/-- What hides no variable in a catalog hides none where the catalog stands inside another one, in
which the types may show fewer variables. -/
theorem unhidden (embedding : Embedding φ D c c') (regular : c.Regular) (regular' : c'.Regular)
    (fewer : ∀ x, D x → (c'.fieldNames (φ x)).Sublist (c.fieldNames x)) (inside : D x)
    (unhidden : c.Unhidden x) : c'.Unhidden (φ x) := by
  refine ⟨unhidden.distinct.sublist (fewer x inside), fun y above => ?_⟩
  obtain ⟨n, path⟩ := regular'.mem_ancestors.1 above
  rw [embedding.steps _ inside] at path
  obtain ⟨z, path', rfl⟩ := Option.map_eq_some_iff.1 path
  have fresh := unhidden.fresh z (regular.mem_ancestors.2 ⟨n, path'⟩)
  intro name own inherited
  exact fresh ((fewer x inside).subset own)
    ((fewer z (embedding.steps_inside inside path')).subset inherited)

end Catalog.Embedding

/-- The names of the variables of a class of a surface. -/
def Surface.fieldNames (s : Surface) (kind : TypeKind) (index : Nat) : List String :=
  if kind.isDefinition then ((s.classes[index]?).map fun c => c.fields.map (·.name)).getD [] else []

theorem Catalog.fieldNames_rely {ρ : Placement}
    (atIndex : c.relies[i]? = some (s.tableAt ρ)) (kind : TypeKind) (index : Nat) :
    c.fieldNames ⟨.rely i, kind, index⟩ = s.fieldNames kind index := by
  simp only [fieldNames, classDef?, table?, atIndex, Option.bind_some, Surface.fieldNames,
    Surface.classes_tableAt, getElem?_mapIdx]
  split
  · cases s.classes[index]? with
    | none => rfl
    | some shown => simp [SurfaceClass.at, SurfaceMember.at]
  · rfl

/-- The surface has the names of the variables that the exported classes show. -/
theorem Table.fieldNames_surfaceOf {t : Table} (exported : t.exportIndex? kind index = some number)
    (dependencies : List String) (relies : List Table) :
    ((t.surfaceOf dependencies).fieldNames kind number).Sublist
      ((Catalog.mk t relies).fieldNames ⟨.here, kind, index⟩) := by
  by_cases isDefinition : kind.isDefinition = true
  · have kept : keptIndex? (fun c => c.visibility = .public_) t.classes index = some number := by
      cases kind with
      | struct | handle => exact exported
      | _ => cases isDefinition
    obtain ⟨c, found, _, there⟩ := getElem?_filter_of_keptIndex? kept
    have written : (t.surfaceOf dependencies).fieldNames kind number =
        (t.surfaceClass c.shown).fields.map (·.name) := by
      simp [Surface.fieldNames, isDefinition, surfaceOf, shown, there]
    rw [fieldNames_here isDefinition found, written, surfaceClass, map_map]
    exact filter_sublist.map _
  · rw [Surface.fieldNames, if_neg isDefinition]
    exact nil_sublist _

namespace Job.Relied

variable {job : Job} {p : Products} {merged linked : Draft} {position : Nat} {relies : Nat → Nat}
  {g : RelyGraph} {built : List Rely}

/-- A type that is shared shows no variables in the later compilation that it did not have in the
earlier one. -/
theorem fieldNames_sublist (relied : job.Relied p position relies g)
    (passes : job.Passes p merged linked) (loaded : g.Loaded built) (own : Table)
    (shared : (p.renumbering position relies).Shared job.surfaces.length x) :
    (fieldNames ⟨own, built.map (·.table)⟩
      ((p.renumbering position relies).typeId x)).Sublist
      ((p.draft.catalog p.tables).fieldNames x) := by
  obtain ⟨home, kind, index⟩ := x
  cases home with
  | kernel => exact .refl _
  | here =>
    obtain ⟨number, isNumber⟩ := Option.isSome_iff_exists.1 shared
    have isNumber : p.draft.table.exportIndex? kind index = some number := isNumber
    have atIndex : (Catalog.mk own (built.map (·.table))).relies[position]? = _ :=
      loaded.table relied.own
    show (fieldNames _
      ⟨.rely position, kind, p.draft.table.publicBefore kind index⟩).Sublist _
    rw [Table.publicBefore_of_exportIndex? isNumber, fieldNames_rely atIndex,
      passes.surface_eq.1]
    exact Table.fieldNames_surfaceOf isNumber _ p.tables
  | rely i =>
    have atIndex := getElem?_eq_getElem (show i < job.surfaces.length from shared)
    have before : (p.draft.catalog p.tables).relies[i]? = _ := passes.table atIndex
    have after : (Catalog.mk own (built.map (·.table))).relies[relies i]? = _ :=
      loaded.table (relied.others.present atIndex)
    show (fieldNames _ ⟨.rely (relies i), kind, index⟩).Sublist _
    rw [fieldNames_rely after, fieldNames_rely before]

end Job.Relied

/-! ### Lines of classes across libraries -/

/-- The surface of a library that was compiled with some of the given surfaces. -/
def Surface.PublishedWith (surfaces : List Surface) (s : Surface) : Prop :=
  ∃ b p, Builder.Completes b p ∧ p.surface = s ∧ b.job.surfaces ⊆ surfaces

theorem Surface.PublishedWith.published {surfaces : List Surface}
    (published : s.PublishedWith surfaces) : s.Published := by
  obtain ⟨b, p, completes, surface, _⟩ := published
  exact ⟨b, p, completes, surface⟩

/-- The handles of the kernel have no variables. -/
theorem Kernel.fieldNames_handle (c : Catalog) (kernel : x.home = .kernel)
    (handle : ∀ d, c.classDef? x = some d → d.kind = .handle) : c.fieldNames x = [] := by
  have none : ∀ d ∈ Kernel.table.classes, d.kind = .handle → d.fields = [] := by decide
  unfold fieldNames
  cases found : c.classDef? x with
  | none => rfl
  | some d =>
    obtain ⟨_, t, atHome, inside⟩ := classDef?_eq_some.1 found
    rw [kernel] at atHome
    cases atHome
    simp [none d (mem_of_getElem? inside) (handle d found)]

/-- A class of a surface is the image of an exported class of the library. -/
theorem Job.Passes.exists_exportIndex? {job : Job} {p : Products} {merged linked : Draft}
    (passes : job.Passes p merged linked) (inside : number < p.surface.classes.length) :
    ∃ index, p.draft.table.exportIndex? .handle index = some number := by
  rw [passes.surface_eq.1] at inside
  simp only [Table.surfaceOf, Table.shown, length_map] at inside
  obtain ⟨index, _, isNumber⟩ := exists_keptIndex?_of_filter (getElem?_eq_getElem inside)
  exact ⟨index, isNumber⟩

namespace Job.Passes

variable {job : Job} {p : Products} {merged linked : Draft} (passes : job.Passes p merged linked)
include passes

/-- A class of a library that was compiled with libraries that are still there hides no
variable. -/
theorem unhidden_rely (consistent : ∀ s ∈ job.surfaces, s.PublishedWith job.surfaces)
    (atIndex : job.surfaces[i]? = some s) (inside : number < s.classes.length) :
    (p.draft.catalog p.tables).Unhidden ⟨.rely i, .handle, number⟩ := by
  obtain ⟨b, p', completes, rfl, among⟩ := consistent s (mem_of_getElem? atIndex)
  obtain ⟨merged', linked', passes'⟩ := passes_of_completes completes
  have present (k : Nat) :
      ∃ l : Nat, ∀ r, b.job.surfaces[k]? = some r → job.surfaces[l]? = some r := by
    cases found : b.job.surfaces[k]? with
    | none => exact ⟨0, fun _ other => by cases other⟩
    | some r =>
      obtain ⟨l, there⟩ := mem_iff_getElem?.1 (among (mem_of_getElem? found))
      refine ⟨l, ?_⟩
      rintro _ ⟨⟩
      exact there
  choose relies others using present
  have relied : b.job.Relied p' i relies job.graph :=
    ⟨atIndex, passes.loaded.named, fun {k r} => others k r⟩
  have published : ∀ r ∈ job.surfaces, r.Published := fun r member =>
    (consistent r member).published
  obtain ⟨index, isNumber⟩ := passes'.exists_exportIndex? inside
  have shared : (p'.renumbering i relies).Shared b.job.surfaces.length ⟨.here, .handle, index⟩ :=
    Option.isSome_iff_exists.2 ⟨number, isNumber⟩
  have image : (p'.renumbering i relies).typeId ⟨.here, .handle, index⟩ =
      ⟨.rely i, .handle, number⟩ :=
    congrArg (TypeId.mk (.rely i) .handle) (Table.publicBefore_of_exportIndex? isNumber)
  rw [← image]
  exact (relied.embedding passes' passes.loaded p.draft.table).unhidden
    (passes'.regular_catalog fun r member => published r (among member))
    (passes.regular_catalog published)
    (fun x => relied.fieldNames_sublist passes' passes.loaded p.draft.table) shared
    (passes'.unhidden_here index)

/-- No handle hides a variable. -/
theorem unhidden (consistent : ∀ s ∈ job.surfaces, s.PublishedWith job.surfaces)
    (handle : x.kind = .handle)
    (isHandle : ∀ d, (p.draft.catalog p.tables).classDef? x = some d → d.kind = .handle) :
    (p.draft.catalog p.tables).Unhidden x := by
  obtain ⟨home, kind, index⟩ := x
  cases handle
  cases home with
  | here => exact passes.unhidden_here index
  | kernel => exact unhidden_of_fieldNames_eq_nil (Kernel.fieldNames_handle _ rfl isHandle)
  | rely i =>
    cases found : (p.draft.catalog p.tables).classDef? ⟨.rely i, .handle, index⟩ with
    | none =>
      refine unhidden_of_fieldNames_eq_nil ?_
      rw [fieldNames, found]
      rfl
    | some d =>
      obtain ⟨_, t, atHome, isClass⟩ := classDef?_eq_some.1 found
      obtain ⟨s, atIndex, rfl, _⟩ := passes.surface_of_table atHome
      refine passes.unhidden_rely consistent atIndex ?_
      have inside := lt_of_getElem? isClass
      rwa [Surface.classes_tableAt, length_mapIdx] at inside

end Job.Passes

/-! ### Three libraries -/

/-- A surface that a compilation without complaints produced, with all that it relied on. -/
inductive Surface.DeeplyPublished : Surface → Prop where
  | intro {b : Builder} {p : Products} (completes : b.Completes p)
      (relies : ∀ s ∈ b.job.surfaces, DeeplyPublished s) : DeeplyPublished p.surface

namespace Sample

/-- A library with an empty class. -/
def ground : Job where
  name := "Ground"
  files := [⟨"ground", "public class Plot\n"⟩]
  surfaces := []

/-- A later form of the library, in which the class has a variable. -/
def groundAgain : Job :=
  { ground with files := [⟨"ground", "public class Plot\n    public integer size\n"⟩] }

/-- The variable. -/
def size : SurfaceMember := ⟨"size", .public_, ⟨.kernel, .struct, 3, 0⟩⟩

/-- What the library shows, with the variables of its class. -/
def groundSurface (fields : List SurfaceMember) : Surface :=
  { Surface.empty "Ground" with
    classes := [⟨"Plot", 0, ⟨.kernel, .handle, 10, 0⟩, [], fields, [], []⟩] }

/-- A class that derives from the empty one and has the variable itself. -/
def house : Job where
  name := "House"
  files := [⟨"house", "public class Hut : Ground.Plot\n    public integer size\n"⟩]
  surfaces := [groundSurface []]

def houseSurface : Surface :=
  { Surface.empty "House" with
    dependencies := ["Ground"]
    classes := [⟨"Hut", 0, ⟨.dependency 0, .handle, 0, 0⟩, [], [size], [], []⟩] }

/-- A class below both, which is compiled with a form of the first library. -/
def port (fields : List SurfaceMember) : Job where
  name := "Port"
  files := [⟨"port", "class Inn : House.Hut\n    integer rooms\n"⟩]
  surfaces := [groundSurface fields, houseSurface]

theorem grounds_complete :
    (∃ p, (Builder.mk ground .unstarted [] none).Completes p ∧ p.surface = groundSurface []) ∧
      ∃ p, (Builder.mk groundAgain .unstarted [] none).Completes p ∧
        p.surface = groundSurface [size] :=
  ⟨completes_of_compile (by decide +kernel), completes_of_compile (by decide +kernel)⟩

theorem house_completes :
    ∃ p, (Builder.mk house .unstarted [] none).Completes p ∧ p.surface = houseSurface :=
  completes_of_compile (by decide +kernel)

theorem grounds_published : (groundSurface []).DeeplyPublished ∧
    (groundSurface [size]).DeeplyPublished := by
  obtain ⟨⟨p, completes, surface⟩, q, completesAgain, surfaceAgain⟩ := grounds_complete
  rw [← surface, ← surfaceAgain]
  exact ⟨.intro completes (forall_mem_nil _), .intro completesAgain (forall_mem_nil _)⟩

theorem house_published : houseSurface.DeeplyPublished := by
  obtain ⟨p, completes, surface⟩ := house_completes
  rw [← surface]
  exact .intro completes (forall_mem_singleton.2 grounds_published.1)

/-- The libraries that the class was compiled with before are those that it relies on. -/
theorem port_consistent : ∀ s ∈ (port []).surfaces, s.PublishedWith (port []).surfaces := by
  obtain ⟨⟨p, completes, surface⟩, _⟩ := grounds_complete
  obtain ⟨q, completes', surface'⟩ := house_completes
  refine forall_mem_cons.2 ⟨⟨_, p, completes, surface, nil_subset _⟩, ?_⟩
  refine forall_mem_singleton.2 ⟨_, q, completes', surface', ?_⟩
  exact cons_subset.2 ⟨mem_cons_self .., nil_subset _⟩

end Sample

/-! ### Lines of classes across libraries -/

/-- The variables of a class and of all types above it have different names, if every library that
is relied on was compiled with surfaces that are relied on as well. -/
theorem Builder.fields_unique {b : Builder} {p : Products} (completes : b.Completes p)
    (consistent : ∀ s ∈ b.job.surfaces, s.PublishedWith b.job.surfaces) {index : Nat}
    {definition : ClassDef} (isClass : p.draft.table.classes[index]? = some definition) :
    ((p.draft.catalog p.tables).lineNames ⟨.here, definition.kind, index⟩).Nodup := by
  obtain ⟨merged, linked, passes⟩ := Job.passes_of_completes completes
  have regular := passes.regular_catalog fun s member => (consistent s member).published
  have handle := (passes.wellMade.classes isClass).kind
  rw [handle]
  refine regular.nodup_lineNames (forall_mem_cons.2 ⟨passes.unhidden_here index, ?_⟩)
  intro y above
  obtain ⟨kind, isHandle⟩ := regular.kind_of_mem_ancestors above
  exact passes.unhidden consistent kind isHandle

theorem Builder.fields_unique_port :
    ∃ p, (Builder.mk (Sample.port []) .unstarted [] none).Completes p ∧
      (∀ s ∈ (Sample.port []).surfaces, s.PublishedWith (Sample.port []).surfaces) ∧
      (p.draft.catalog p.tables).lineNames ⟨.here, .handle, 0⟩ = ["rooms", "size"] ∧
      ((p.draft.catalog p.tables).lineNames ⟨.here, .handle, 0⟩).Nodup := by
  obtain ⟨p, completes, isClass, line⟩ :
      ∃ p, (Builder.mk (Sample.port []) .unstarted [] none).Completes p ∧
        p.draft.table.classes[0]?.map (·.kind) = some .handle ∧
        (p.draft.catalog p.tables).lineNames ⟨.here, .handle, 0⟩ = ["rooms", "size"] :=
    Sample.completes_of_compile (by decide +kernel)
  obtain ⟨definition, isClass, kind⟩ := Option.map_eq_some_iff.1 isClass
  have unique := fields_unique completes Sample.port_consistent isClass
  rw [kind] at unique
  exact ⟨p, completes, Sample.port_consistent, line, unique⟩

/-- A class can have two variables of one name above it, if one of the libraries in between was
compiled with another form of the library above. -/
theorem Builder.fields_repeated :
    ∃ p, (Builder.mk (Sample.port [Sample.size]) .unstarted [] none).Completes p ∧
      (∀ s ∈ (Sample.port [Sample.size]).surfaces, s.DeeplyPublished) ∧
      p.draft.table.classes[0]?.map (·.kind) = some .handle ∧
      ¬ ((p.draft.catalog p.tables).lineNames ⟨.here, .handle, 0⟩).Nodup := by
  obtain ⟨p, completes, isClass, line⟩ :
      ∃ p, (Builder.mk (Sample.port [Sample.size]) .unstarted [] none).Completes p ∧
        p.draft.table.classes[0]?.map (·.kind) = some .handle ∧
        (p.draft.catalog p.tables).lineNames ⟨.here, .handle, 0⟩ = ["rooms", "size", "size"] :=
    Sample.completes_of_compile (by decide +kernel)
  refine ⟨p, completes, ?_, isClass, by simp [line]⟩
  exact forall_mem_cons.2 ⟨Sample.grounds_published.2,
    forall_mem_singleton.2 Sample.house_published⟩

end Linkage
