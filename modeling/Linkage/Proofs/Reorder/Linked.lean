/-
Purpose: Linking a draft whose files and entries are numbered anew.
-/
import Linkage.Proofs.Link.Trimmed
import Linkage.Proofs.Reorder.Others
import Linkage.Proofs.Reorder.Scopes

/-!
Linking asks the catalog what names stand for, and writes the answers into the entries.  The
answers for a draft under new numbers are the answers under new numbers, as long as nothing is
reported: which of several candidates a report names may depend on the order.
-/

namespace Linkage

open List

/-- A file with the new numbers of the spaces it imports. -/
def Numbering.draftFile (n : Numbering) (file : DraftFile) : DraftFile :=
  { file with spaces := file.spaces.map n.spaceRef }

/-- The second draft is the first one under new numbers. -/
structure Draft.Alike (n : Numbering) (d d' : Draft) : Prop where
  table : d.table.Alike n .here d'.table
  files : ∀ k, d'.files[n.files k]? = d.files[k]?.map n.draftFile

/-- The libraries that are relied on have no new numbers in them. -/
def Numbering.Leaves (n : Numbering) (relies : List Table) : Prop :=
  ∀ {i : Nat} {t : Table}, relies[i]? = some t → t.Alike n (.rely i) t

/-- Tables that are alike stay so when nothing but the types and addresses of their entries
changes, in corresponding ways. -/
theorem Table.Alike.refit {n : Numbering} {home : Home} {t t' u u' : Table}
    (alike : t.Alike n home t') (same : t.skeleton = u.skeleton) (same' : t'.skeleton = u'.skeleton)
    (entries : u.SameEntries n home u') : u.Alike n home u' := by
  have spaces := spaces_eq_of_skeleton same
  have spaces' := spaces_eq_of_skeleton same'
  constructor
  case toSameEntries => exact entries
  case name =>
    have names : t.name = u.name := (congrArg Table.name same :)
    have names' : t'.name = u'.name := (congrArg Table.name same' :)
    rw [← names, ← names']
    exact alike.name
  case stands => exact (home_eq_of_skeleton same).symm.trans alike.stands
  case stands' => exact (home_eq_of_skeleton same').symm.trans alike.stands'
  case kinds =>
    refine forall_mem_of_map_eq (fun c c' equal definition => ?_)
      (congrArg Table.classes same :) alike.kinds
    have kinds : c.kind = c'.kind := (congrArg ClassDef.kind equal :)
    exact kinds ▸ definition
  case classMembers =>
    refine forall_mem_of_map_eq (fun c c' equal held => ?_)
      (congrArg Table.classes same :) fun c member => @alike.classMembers c member
    have members : c.members = c'.members := (congrArg ClassDef.members equal :)
    exact members ▸ @held
  case interfaceMembers =>
    refine forall_mem_of_map_eq (fun i i' equal held => ?_)
      (congrArg Table.interfaces same :) fun i member => @alike.interfaceMembers i member
    have members : i.members = i'.members := (congrArg InterfaceDef.members equal :)
    exact members ▸ @held
  case root => exact alike.root
  case child =>
    intro space name
    have child := alike.child space name
    simp only [Table.childSpace, spaces, spaces'] at child ⊢
    exact child
  case found =>
    intro space name
    have found := alike.found space name
    simp only [Table.lookup, spaces, spaces'] at found ⊢
    exact found
  case parent =>
    intro space
    have parent := alike.parent space
    simp only [Table.parentSpace, spaces, spaces'] at parent ⊢
    exact parent
  case label =>
    intro space
    have label := alike.label space
    rw [spaces, spaces'] at label
    exact label

namespace Draft.Alike

variable {n : Numbering} {d d' : Draft} {relies : List Table}

theorem catalog (alike : d.Alike n d') (leaves : n.Leaves relies) :
    (d.catalog relies).Alike n (d'.catalog relies) where
  tables := by
    intro home
    cases home with
    | kernel => exact .some (Kernel.alike_table n)
    | here => exact .some alike.table
    | rely i =>
      show Option.Rel _ relies[i]? relies[i]?
      cases found : relies[i]? with
      | none => exact .none
      | some t => exact .some (leaves found)
  relies := rfl
  away := by
    intro t member
    obtain ⟨i, found⟩ := mem_iff_getElem?.1 member
    rw [(leaves found).stands]
    nofun

theorem imports (alike : d.Alike n d') (a : Anchor) :
    d'.imports (n.anchor a) = (d.imports a).map n.spaceRef := by
  unfold Draft.imports Numbering.anchor
  rw [alike.files]
  cases d.files[a.file]? <;> rfl

theorem scope (alike : d.Alike n d') (leaves : n.Leaves relies) (space : Nat) (a : Anchor) :
    (d.scope relies space none a).Alike n (d'.scope relies (n.spaces space) none (n.anchor a)) :=
  ⟨alike.catalog leaves, rfl, rfl, rfl, alike.imports a⟩

end Draft.Alike

variable {n : Numbering} {s s' : Scope}

/-! ### Imports -/

/-- Under a map that keeps things apart, what is appended unless it is there stays so. -/
theorem map_append_of_absent {α β : Type} [DecidableEq α] [DecidableEq β] {f : α → β}
    (injective : Function.Injective f) (xs : List α) (x : α) :
    (if f x ∈ xs.map f then xs.map f else xs.map f ++ [f x]) =
      (if x ∈ xs then xs else xs ++ [x]).map f := by
  simp only [mem_map_of_injective injective]
  split <;> simp

theorem Scope.Alike.importedSpaces (alike : s.Alike n s')
    (decls : List ImportDecl) (found : List SpaceRef) :
    Noted.Follows (fun xs ys => ys = xs.map n.spaceRef) (Draft.importedSpaces s found decls)
      (Draft.importedSpaces s' (found.map n.spaceRef) decls) := by
  induction decls generalizing found with
  | nil => exact .pure rfl
  | cons decl rest ih =>
    unfold Draft.importedSpaces
    rw [alike.findSpace]
    cases s.findSpace decl.path with
    | none => exact fun quiet => by simp at quiet
    | some ref =>
      simp only [Option.map_some, map_append_of_absent n.spaceRef_injective]
      exact ih _

theorem Draft.Alike.linkImports {d d' : Draft} {relies : List Table} (alike : d.Alike n d')
    (leaves : n.Leaves relies) :
    Noted.Follows (Draft.Alike n) (d.linkImports relies) (d'.linkImports relies) := by
  refine .bind (R := Reindexed n.files fun f f' => f' = n.draftFile f) ?_ ?_
  · refine .traverse (.of_map alike.files) ?_
    rintro file _ rfl
    have scope : Scope.Alike n ⟨d.catalog relies, Table.rootSpace, none, [], file.path⟩
        ⟨d'.catalog relies, Table.rootSpace, none, [], file.path⟩ :=
      ⟨alike.catalog leaves, alike.table.root.symm, rfl, rfl, rfl⟩
    refine .bind (scope.importedSpaces file.imports []) ?_
    rintro spaces _ rfl
    exact .pure rfl
  · intro files files' reindexed
    exact .pure ⟨alike.table, reindexed.getElem?_eq_map⟩

/-! ### Inheritance lists -/

theorem Numbering.isInterface_ref (n : Numbering) (x : TypeRef) :
    (n.ref x).isInterface = x.isInterface := rfl

theorem Numbering.canBeParent_ref (n : Numbering) (x : TypeRef) :
    (n.ref x).canBeParent = x.canBeParent := by
  by_cases kernel : x.id.home = .kernel
  · rw [n.ref_of_home_ne (by rw [kernel]; nofun)]
  · simp [TypeRef.canBeParent, TypeRef.isArray, TypeRef.rename, kernel]

theorem Numbering.appendNew_map (types : List TypeRef) (x : TypeRef) :
    appendNew (types.map n.ref) (n.ref x) = (appendNew types x).map n.ref :=
  map_append_of_absent n.ref_injective types x

/-- The inheritance list of a class is linked to the same types. -/
theorem Scope.Alike.addInherits (alike : s.Alike n s') (first : Bool)
    (es : List TypeExpr) (c : ClassDef) :
    Noted.Follows (fun c c' => c' = n.classDef .here c) (Draft.addInherits s first es c)
      (Draft.addInherits s' first es (n.classDef .here c)) := by
  induction es generalizing first c with
  | nil => exact .pure rfl
  | cons e rest ih =>
    refine .bind (alike.findType e) ?_
    rintro (_ | type) _ rfl
    · exact ih false c
    · simp only [Option.map_some, n.isInterface_ref, n.canBeParent_ref]
      split
      · have image : n.classDef .here { c with interfaces := appendNew c.interfaces type } =
            { n.classDef .here c with
              interfaces := appendNew (n.classDef .here c).interfaces (n.ref type) } := by
          show _ = { n.classDef .here c with
            interfaces := appendNew (c.interfaces.map n.ref) (n.ref type) }
          rw [n.appendNew_map]
          rfl
        rw [← image]
        exact ih false _
      · split
        · exact ih false { c with parent := type }
        · exact fun quiet => by simp at quiet

theorem Scope.Alike.baseInterfaces (alike : s.Alike n s')
    (name : String) (es : List TypeExpr) (found : List TypeRef) :
    Noted.Follows (fun xs ys => ys = xs.map n.ref) (Draft.baseInterfaces s name found es)
      (Draft.baseInterfaces s' name (found.map n.ref) es) := by
  induction es generalizing found with
  | nil => exact .pure rfl
  | cons e rest ih =>
    refine .bind (alike.findType e) ?_
    rintro (_ | type) _ rfl
    · exact ih found
    · simp only [Option.map_some, n.isInterface_ref, n.appendNew_map]
      split
      · exact ih _
      · exact fun quiet => by simp at quiet

namespace Draft.Alike

variable {d d' : Draft} {relies : List Table}

/-- Tables with the same skeletons as before are alike if their entries are. -/
theorem refit {x y : Reported Draft} (alike : d.Alike n d')
    (same : x.value.table.skeleton = d.table.skeleton)
    (same' : y.value.table.skeleton = d'.table.skeleton)
    (follows : Noted.Follows (fun e e' => e.table.SameEntries n .here e'.table ∧
      ∀ k, e'.files[n.files k]? = e.files[k]?.map n.draftFile) x y) :
    Noted.Follows (Draft.Alike n) x y := by
  intro quiet
  obtain ⟨quiet', entries, files⟩ := follows quiet
  exact ⟨quiet', alike.table.refit same.symm same'.symm entries, files⟩

variable (alike : d.Alike n d') (leaves : n.Leaves relies)
include alike leaves

theorem linkClass (c : ClassDef) :
    Noted.Follows (fun c c' => c' = n.classDef .here c) (d.linkClass relies c)
      (d'.linkClass relies (n.classDef .here c)) := by
  rcases c with ⟨_, _, _, _, _, _, _, _, _, _, _, _ | source⟩
  · exact .pure rfl
  · exact (alike.scope leaves _ source.anchor).addInherits true source.inherits
      ⟨_, _, _, _, TypeId.handle.scalar, [], _, _, _, _, _, some source⟩

theorem linkInterface (i : InterfaceDef) :
    Noted.Follows (fun i i' => i' = n.interfaceDef .here i) (d.linkInterface relies i)
      (d'.linkInterface relies (n.interfaceDef .here i)) := by
  rcases i with ⟨name, _, _, _, _, _, _ | source⟩
  · exact .pure rfl
  · refine .bind ((alike.scope leaves _ source.anchor).baseInterfaces name source.inherits []) ?_
    rintro inherits _ rfl
    exact .pure rfl

theorem linkInherits :
    Noted.Follows (Draft.Alike n) (d.linkInherits relies) (d'.linkInherits relies) := by
  refine alike.refit (linkInherits_refits (.any d relies)).skeleton
    (linkInherits_refits (.any d' relies)).skeleton ?_
  refine .bind (.traverse (.of_map alike.table.classes)
    (by rintro c _ rfl; exact alike.linkClass leaves c)) ?_
  intro classes classes' sameClasses
  refine .bind (.traverse (.of_map alike.table.interfaces)
    (by rintro i _ rfl; exact alike.linkInterface leaves i)) ?_
  intro interfaces interfaces' sameInterfaces
  exact .pure ⟨{ alike.table with
    classes := sameClasses.getElem?_eq_map
    interfaces := sameInterfaces.getElem?_eq_map }, alike.files⟩

end Draft.Alike

/-! ### Cycles -/

/-- The number of a type of the library being compiled, if a reference is to one. -/
theorem Numbering.ownIndex_ref (n : Numbering) (kind : TypeKind) (x : TypeRef) :
    (if (n.ref x).id.home = .here ∧ (n.ref x).id.kind = kind then some (n.ref x).id.index
      else none) =
      (if x.id.home = .here ∧ x.id.kind = kind then some x.id.index else none).map
        (n.ofKind kind) := by
  by_cases own : x.id.home = .here ∧ x.id.kind = kind
  · obtain ⟨home, rfl⟩ := own
    simp [TypeRef.rename, Numbering.type, home]
  · rw [if_neg own, if_neg (show ¬((n.ref x).id.home = .here ∧ (n.ref x).id.kind = kind) from own)]
    rfl

namespace Draft

variable {classes classes' : List ClassDef} {interfaces interfaces' : List InterfaceDef}

section Classes

variable (same : ∀ i, classes'[n.classes i]? = classes[i]?.map (n.classDef .here))

include same

theorem ownParent_map (i : Nat) :
    ownParent classes' (n.classes i) = (ownParent classes i).map n.classes := by
  unfold ownParent
  rw [same]
  cases classes[i]? with
  | none => rfl
  | some c => exact n.ownIndex_ref .handle c.parent

theorem acc_ownParent_map (ends : ∀ i, Acc (Walk.Onward (ownParent classes)) i) (i : Nat) :
    Acc (Walk.Onward (ownParent classes')) i := by
  obtain ⟨i, rfl⟩ := n.classes.surjective i
  refine Walk.acc_map (fun i j' isParent => ?_) (ends i)
  exact Option.map_eq_some_iff.1 ((ownParent_map same i).symm.trans isParent)

end Classes

section Interfaces

variable (same : ∀ i, interfaces'[n.interfaces i]? = interfaces[i]?.map (n.interfaceDef .here))

include same

theorem ownBases_map (i : Nat) :
    ownBases interfaces' (n.interfaces i) = (ownBases interfaces i).map n.interfaces := by
  have own (types : List TypeRef) : (types.map n.ref).filterMap (fun type =>
        if type.id.home = .here ∧ type.id.kind = .interface then some type.id.index else none) =
      (types.filterMap fun type =>
        if type.id.home = .here ∧ type.id.kind = .interface then some type.id.index
        else none).map n.interfaces := by
    rw [filterMap_map, map_filterMap]
    exact congrArg (filterMap · types) (funext fun type => n.ownIndex_ref .interface type)
  unfold ownBases
  rw [same]
  cases interfaces[i]? with
  | none => rfl
  | some x => exact own x.inherits

theorem acc_ownBases_map (ends : ∀ i, Acc (fun k j => k ∈ ownBases interfaces j) i) (i : Nat) :
    Acc (fun k j => k ∈ ownBases interfaces' j) i := by
  obtain ⟨i, rfl⟩ := n.interfaces.surjective i
  refine Walk.acc_map (fun i j' isBase => ?_) (ends i)
  rw [ownBases_map same] at isBase
  exact mem_map.1 isBase

end Interfaces

end Draft

namespace Draft.Alike

variable {d d' : Draft} {relies : List Table}

theorem breakClassCycles (alike : d.Alike n d') (made : d.table.WellMade) :
    Noted.Follows (fun e e' => e = d ∧ e' = d') d.breakClassCycles d'.breakClassCycles := by
  intro quiet
  have sourced : ∀ c ∈ d.table.classes, c.source.isSome = true := by
    intro c member
    obtain ⟨i, found⟩ := mem_iff_getElem?.1 member
    exact (made.classes found).source
  obtain ⟨value, ends⟩ := breakClassCycles_of_quiet sourced quiet
  rw [breakClassCycles_eq_pure _ (acc_ownParent_map alike.table.classes ends)]
  exact ⟨rfl, value, rfl⟩

theorem breakInterfaceCycles (alike : d.Alike n d')
    (made : d.table.WellMade) (settled : d.table.Settled fun _ => True) :
    Noted.Follows (fun e e' => e = d ∧ e' = d') d.breakInterfaceCycles d'.breakInterfaceCycles := by
  intro quiet
  have sourced : ∀ x ∈ d.table.interfaces, x.source.isSome = true := by
    intro x member
    obtain ⟨i, found⟩ := mem_iff_getElem?.1 member
    exact (made.interfaces found).source
  obtain ⟨value, ends⟩ := breakInterfaceCycles_of_quiet sourced quiet
  have resolved : ∀ x ∈ d'.table.interfaces, ∀ type ∈ x.inherits, type.isInterface = true := by
    intro x' member' type' inside'
    obtain ⟨j, found'⟩ := mem_iff_getElem?.1 member'
    obtain ⟨i, rfl⟩ := n.interfaces.surjective j
    obtain ⟨x, found, rfl⟩ :=
      Option.map_eq_some_iff.1 ((alike.table.interfaces i).symm.trans found')
    obtain ⟨type, inside, rfl⟩ := mem_map.1 inside'
    exact ((settled.interfaces x (mem_of_getElem? found)).inherits type inside).2
  rw [breakInterfaceCycles_eq_pure resolved (acc_ownBases_map alike.table.interfaces ends)]
  exact ⟨rfl, value, rfl⟩

end Draft.Alike

/-! ### Signatures -/

theorem Scope.Alike.linkType (alike : s.Alike n s') (e : TypeExpr) :
    Noted.Follows (fun x x' => x' = n.ref x) (Draft.linkType s e) (Draft.linkType s' e) := by
  refine .bind (alike.findType e) ?_
  rintro (_ | type) _ rfl
  · exact .pure rfl
  · exact .pure rfl

theorem Numbering.fillTypes_map (n : Numbering) (params : List Parameter) (types : List TypeRef) :
    Draft.fillTypes (params.map n.parameter) (types.map n.ref) =
      (Draft.fillTypes params types).map n.parameter := by
  fun_induction Draft.fillTypes params types with
  | case1 p params type types ih =>
    simp only [map_cons, Draft.fillTypes, ih]
    rfl
  | case2 params types small =>
    cases params with
    | nil => rfl
    | cons p params =>
      cases types with
      | nil => rfl
      | cons type types => exact absurd rfl (small p params type types rfl)

namespace Draft.Alike

variable {d d' : Draft} {relies : List Table} (alike : d.Alike n d') (leaves : n.Leaves relies)
  (space : Nat)

include alike leaves

theorem linkSource (source : FunctionSource) :
    Noted.Follows (fun x x' => x' = (x.1.map n.ref, x.2.map n.ref))
      (d.linkSource relies space source)
      (d'.linkSource relies (n.spaces space) (n.functionSource source)) := by
  have scope := alike.scope leaves space source.anchor
  have each (es : List TypeExpr) : Noted.Follows (fun us vs => vs = us.map n.ref)
      (Noted.traverse (Draft.linkType (d.scope relies space none source.anchor)) es)
      (Noted.traverse (Draft.linkType (d'.scope relies (n.spaces space) none
        (n.anchor source.anchor))) es) := by
    rw [← map_id es]
    nth_rewrite 1 [map_id]
    exact .traverse_map fun e => scope.linkType e
  refine .bind (each source.params) ?_
  rintro params _ rfl
  refine .bind (each source.returns) ?_
  rintro returns _ rfl
  exact .pure rfl

theorem linkFunction (f : Function) :
    Noted.Follows (fun f f' => f' = n.function f) (d.linkFunction relies space f)
      (d'.linkFunction relies (n.spaces space) (n.function f)) := by
  rcases f with ⟨_, _, _, _ | source⟩
  · exact .pure rfl
  · refine .bind (alike.linkSource leaves space source) ?_
    rintro ⟨params, returns⟩ _ rfl
    exact .pure (by rw [Numbering.function, n.fillTypes_map]; rfl)

theorem linkMember_method (m : Method) :
    Noted.Follows (fun m m' => m' = n.method .here m) (d.linkMethod relies space m)
      (d'.linkMethod relies (n.spaces space) (n.method .here m)) := by
  refine .bind (.traverse_map fun f => alike.linkFunction leaves space f) ?_
  rintro functions _ rfl
  exact .pure rfl

theorem linkMethod {m m' : Method} (related : m.Alike n .here m') :
    Noted.Follows (Method.Alike n .here) (d.linkMethod relies m.space m)
      (d'.linkMethod relies m'.space m') := by
  rw [related.space]
  refine .bind (.traverse_perm (fun f => alike.linkFunction leaves m.space f) related.functions) ?_
  intro functions functions' perm
  exact .pure ⟨related.name, related.space, perm⟩

theorem linkMember (v : MemberVariable) :
    Noted.Follows (fun v v' => v' = n.field v) (d.linkMember relies space v)
      (d'.linkMember relies (n.spaces space) (n.field v)) := by
  rcases v with ⟨_, _, _, _, _ | source⟩
  · exact .pure rfl
  · refine .bind ((alike.scope leaves space source.anchor).linkType source.type) ?_
    rintro type _ rfl
    exact .pure rfl

theorem linkMembers (c : ClassDef) :
    Noted.Follows (fun c c' => c' = n.classDef .here c) (d.linkMembers relies c)
      (d'.linkMembers relies (n.classDef .here c)) := by
  refine .bind (.traverse_map fun v => alike.linkMember leaves c.space v) ?_
  rintro fields _ rfl
  refine .bind (.traverse_map fun m => alike.linkMember_method leaves c.space m) ?_
  rintro methods _ rfl
  refine .bind (.traverse_map fun f => alike.linkFunction leaves c.space f) ?_
  rintro constructors _ rfl
  exact .pure rfl

theorem linkDelegate (x : DelegateDef) :
    Noted.Follows (fun x x' => x' = n.delegateDef .here x) (d.linkDelegate relies x)
      (d'.linkDelegate relies (n.delegateDef .here x)) := by
  rcases x with ⟨_, _, _, _, _, _ | source⟩
  · exact .pure rfl
  · refine .bind (alike.linkSource leaves _ source) ?_
    rintro ⟨params, returns⟩ _ rfl
    exact .pure (by rw [Numbering.delegateDef, n.fillTypes_map]; rfl)

theorem linkCoroutine (x : CoroutineDef) :
    Noted.Follows (fun x x' => x' = n.coroutineDef .here x) (d.linkCoroutine relies x)
      (d'.linkCoroutine relies (n.coroutineDef .here x)) := by
  rcases x with ⟨_, _, _, _, _ | source⟩
  · exact .pure rfl
  · refine .bind (alike.linkSource leaves _ source) ?_
    rintro ⟨params, returns⟩ _ rfl
    exact .pure rfl

theorem linkVariable {v v' : VariableDef}
    (related : v'.unplaced = (n.variableDef .here v).unplaced) :
    Noted.Follows (fun v v' => v'.unplaced = (n.variableDef .here v).unplaced)
      (d.linkVariable relies v) (d'.linkVariable relies v') := by
  have same : v' = { n.variableDef .here v with address := v'.address } :=
    congrArg (fun w : VariableDef => { w with address := v'.address }) related
  rw [same]
  rcases v with ⟨_, _, _, _, _, _, _, _ | source⟩
  · exact .pure rfl
  · refine .bind ((alike.scope leaves _ source.anchor).linkType source.type) ?_
    rintro type _ rfl
    exact .pure rfl

theorem linkSignatures :
    Noted.Follows (Draft.Alike n) (d.linkSignatures relies) (d'.linkSignatures relies) := by
  refine alike.refit (linkSignatures_refits (.any d relies)).skeleton
    (linkSignatures_refits (.any d' relies)).skeleton ?_
  refine .bind (.traverse (.of_map alike.table.classes)
    (by rintro c _ rfl; exact alike.linkMembers leaves c)) ?_
  intro classes classes' sameClasses
  refine .bind (.traverse (S := fun i i' => i' = n.interfaceDef .here i)
    (.of_map alike.table.interfaces) ?_) ?_
  · rintro i _ rfl
    refine .bind (.traverse_map fun m => alike.linkMember_method leaves i.space m) ?_
    rintro methods _ rfl
    exact .pure rfl
  intro interfaces interfaces' sameInterfaces
  refine .bind (.traverse alike.table.methods
    fun m m' related => alike.linkMethod leaves related) ?_
  intro methods methods' sameMethods
  refine .bind (.traverse alike.table.natives
    fun m m' related => alike.linkMethod leaves related) ?_
  intro natives natives' sameNatives
  refine .bind (.traverse (.of_map alike.table.delegates)
    (by rintro x _ rfl; exact alike.linkDelegate leaves x)) ?_
  intro delegates delegates' sameDelegates
  refine .bind (.traverse (.of_map alike.table.coroutines)
    (by rintro x _ rfl; exact alike.linkCoroutine leaves x)) ?_
  intro coroutines coroutines' sameCoroutines
  refine .bind (.traverse (Reindexed.iff_map.2 alike.table.globals)
    fun v v' related => alike.linkVariable leaves related) ?_
  intro globals globals' sameGlobals
  exact .pure ⟨⟨sameClasses.getElem?_eq_map, sameInterfaces.getElem?_eq_map,
    sameDelegates.getElem?_eq_map, sameCoroutines.getElem?_eq_map,
    Reindexed.iff_map.1 sameGlobals, sameMethods, sameNatives⟩, alike.files⟩

/-- Linking a draft under new numbers gives the linked draft under new numbers. -/
theorem link (made : d.table.WellMade) (settled : d.table.Settled fun _ => True) :
    Noted.Follows (Draft.Alike n) (d.link relies) (d'.link relies) := by
  refine .bind (R := fun e e' => e.Alike n e' ∧ e.table = d.table) ?_ ?_
  · exact (alike.linkImports leaves).and_left rfl
  rintro d₁ d₁' ⟨alike₁, table⟩
  rw [← table] at made settled
  have refits := linkInherits_refits (.any d₁ relies)
  have made₂ := made.of_skeleton refits.skeleton.symm
  have settled₂ := refits.settled settled
  refine .bind (R := fun e e' => e.Alike n e' ∧ e = (d₁.linkInherits relies).value) ?_ ?_
  · exact (alike₁.linkInherits leaves).and_left rfl
  rintro _ d₂' ⟨alike₂, rfl⟩
  refine .bind (alike₂.breakClassCycles made₂) ?_
  rintro _ _ ⟨rfl, rfl⟩
  refine .bind (alike₂.breakInterfaceCycles made₂ settled₂) ?_
  rintro _ _ ⟨rfl, rfl⟩
  exact alike₂.linkSignatures leaves

end Draft.Alike

/-! ### Addresses -/

/-- The variables of a class are placed as before: their sizes do not depend on numbers. -/
theorem Numbering.placeMembers_map (n : Numbering) (offset : Nat) (fields : List MemberVariable) :
    placeMembers offset (fields.map n.field) =
      ((placeMembers offset fields).1.map n.field, (placeMembers offset fields).2) := by
  induction fields generalizing offset with
  | nil => rfl
  | cons v rest ih =>
    have size : (n.field v).type.slotSize = v.type.slotSize := n.slotSize_ref v.type
    simp only [map_cons, placeMembers, size, ih]
    rfl

theorem Table.Alike.assignAddresses {t t' : Table} (alike : t.Alike n .here t') :
    t.assignAddresses.1.Alike n .here t'.assignAddresses.1 := by
  have unplaced (u : Table) (i : Nat) : u.assignAddresses.1.globals[i]?.map VariableDef.unplaced =
      u.globals[i]?.map VariableDef.unplaced := by
    rw [← getElem?_map, ← getElem?_map]
    exact congrArg (·[i]?) (placeVariables_unplaced ⟨0, 0⟩ u.globals)
  refine alike.refit t.assignAddresses_skeleton.symm t'.assignAddresses_skeleton.symm
    { alike with classes := ?_, globals := ?_ }
  · intro i
    have found := alike.classes i
    simp only [Table.assignAddresses, getElem?_map] at found ⊢
    rw [found]
    cases t.classes[i]? with
    | none => rfl
    | some c => simp only [Option.map_some, Numbering.classDef, n.placeMembers_map]
  · intro i
    have image := congrArg (Option.map fun v => (n.variableDef .here v).unplaced) (unplaced t i)
    rw [Option.map_map, Option.map_map] at image
    exact (unplaced t' _).trans ((alike.globals i).trans image.symm)

end Linkage
