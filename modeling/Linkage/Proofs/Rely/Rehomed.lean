/-
Purpose: Building a library at another place, from dependencies at other places, gives the same
  library at that place, or fails as it does here, for something that is not there.
-/
import Linkage.Proofs.Catalog.Embedding
import Linkage.Proofs.Lists
import Linkage.Proofs.NameMap
import Linkage.Proofs.Noted
import Linkage.Rely.Instance

namespace Linkage

open List

/-! ### Other places -/

section Rehome

variable (φ : Home → Home)

/-- The type at the place that takes the place of its library. -/
def TypeId.rehome (x : TypeId) : TypeId := { x with home := φ x.home }

def TypeRef.rehome (x : TypeRef) : TypeRef := x.rename (TypeId.rehome φ)

def Parameter.rehome (p : Parameter) : Parameter := { p with type := p.type.rehome φ }

def Function.rehome (f : Function) : Function :=
  { f with params := f.params.map (·.rehome φ), returns := f.returns.map (·.rehome φ) }

def Method.rehome (m : Method) : Method := { m with functions := m.functions.map (·.rehome φ) }

def MemberVariable.rehome (v : MemberVariable) : MemberVariable :=
  { v with type := v.type.rehome φ }

def Declaration.rehome (d : Declaration) : Declaration := { d with home := φ d.home }

def ClassDef.rehome (c : ClassDef) : ClassDef :=
  { c with
    parent := c.parent.rehome φ
    interfaces := c.interfaces.map (·.rehome φ)
    fields := c.fields.map (·.rehome φ)
    methods := c.methods.map (·.rehome φ)
    constructors := c.constructors.map (·.rehome φ)
    members := c.members.map (·.rehome φ) }

def InterfaceDef.rehome (i : InterfaceDef) : InterfaceDef :=
  { i with
    inherits := i.inherits.map (·.rehome φ)
    methods := i.methods.map (·.rehome φ)
    members := i.members.map (·.rehome φ) }

def DelegateDef.rehome (d : DelegateDef) : DelegateDef :=
  { d with params := d.params.map (·.rehome φ), returns := d.returns.map (·.rehome φ) }

def CoroutineDef.rehome (c : CoroutineDef) : CoroutineDef :=
  { c with returns := c.returns.map (·.rehome φ) }

def VariableDef.rehome (v : VariableDef) : VariableDef := { v with type := v.type.rehome φ }

def Space.rehome (s : Space) : Space := { s with declarations := s.declarations.map (·.rehome φ) }

/-- The table with every place in it replaced. -/
def Table.rehome (t : Table) : Table :=
  ⟨t.name, φ t.home, t.spaces.map (·.rehome φ), t.classes.map (·.rehome φ),
    t.interfaces.map (·.rehome φ), t.delegates.map (·.rehome φ), t.coroutines.map (·.rehome φ),
    t.globals.map (·.rehome φ), t.methods.map (·.rehome φ), t.natives.map (·.rehome φ)⟩

/-- The library with every place in it replaced. -/
def Rely.rehome (r : Rely) : Rely := ⟨r.table.rehome φ, r.dependencies.map φ⟩

/-- The same library, to be built at another place from dependencies at other places. -/
def Linkup.rehome (l : Linkup) : Linkup :=
  ⟨l.surface, φ l.own, l.dependencies.map (·.map (·.rehome φ))⟩

end Rehome

/-! ### Results along a function -/

section Follows

variable {α α' β β' : Type}

/-- A computation fails, if it does, for something that is not there. -/
def Lacks (x : Except RelyProblem α) : Prop :=
  Ends (fun problem => problem.code = .unresolvedRely) (fun _ => True) x

/-- One computation ends as another does, with its result sent along a function, or for lack of the
same thing. -/
structure Follows (h : α → α') (x : Except RelyProblem α) (y : Except RelyProblem α') : Prop where
  same : y = x.map h
  lacks : Lacks x

namespace Follows

variable {h : α → α'} {k : β → β'}

protected theorem refl {x : Except RelyProblem α} (lacks : Lacks x) : Follows id x x :=
  ⟨by cases x <;> rfl, lacks⟩

protected theorem pure {a : α} {a' : α'} (same : a' = h a) : Follows h (pure a) (pure a') :=
  ⟨congrArg Except.ok same, trivial⟩

theorem bind {x : Except RelyProblem α} {y : Except RelyProblem α'} {f : α → Except RelyProblem β}
    {f' : α' → Except RelyProblem β'} (first : Follows h x y)
    (second : ∀ a, Follows k (f a) (f' (h a))) : Follows k (x >>= f) (y >>= f') := by
  refine ⟨?_, Ends.bind first.lacks fun a _ => (second a).lacks⟩
  rw [first.same]
  cases x with
  | ok a => exact (second a).same
  | error e => rfl

theorem mapM {f : α → Except RelyProblem β} {f' : α → Except RelyProblem β'} {xs : List α}
    (each : ∀ a, Follows k (f a) (f' a)) : Follows (map k) (xs.mapM f) (xs.mapM f') := by
  induction xs with
  | nil => exact .pure rfl
  | cons a rest ih =>
    rw [mapM_cons, mapM_cons]
    exact (each a).bind fun b => ih.bind fun bs => .pure rfl

end Follows

end Follows

/-! ### Building elsewhere -/

theorem foldl_follows {α σ τ : Type} {f : σ → α → σ} {k : τ → α → τ} {h : σ → τ}
    (step : ∀ s a, h (f s a) = k (h s) a) (xs : List α) (s : σ) :
    h (xs.foldl f s) = xs.foldl k (h s) := by
  induction xs generalizing s with
  | nil => rfl
  | cons a rest ih => rw [foldl_cons, foldl_cons, ih, step]

theorem Table.typeCount_rehome (φ : Home → Home) (t : Table) (kind : TypeKind) :
    (t.rehome φ).typeCount kind = t.typeCount kind := by
  cases kind <;> simp [Table.typeCount, Table.rehome]

theorem Table.rehome_declare (φ : Home → Home) (t : Table) (space : Nat) (name : String)
    (d : Declaration) :
    (t.declare space name d).rehome φ = (t.rehome φ).declare space name (d.rehome φ) := by
  have inside : (t.spaces.modify space fun s =>
        { s with declarations := s.declarations.insert name d }).map (·.rehome φ) =
      (t.spaces.map (·.rehome φ)).modify space fun s =>
        { s with declarations := s.declarations.insert name (d.rehome φ) } := by
    refine map_modify_of_comm (fun s => ?_) t.spaces space
    simp only [Space.rehome, NameMap.map_insert]
  simp only [Table.declare, Table.modifySpace, Table.rehome, inside]

namespace Linkup

variable {φ : Home → Home} (l : Linkup)

section

variable (kernel : φ .kernel = .kernel)
include kernel

theorem origin_rehome (type : SurfaceType) :
    Follows (fun found => (φ found.1, found.2)) (l.origin type) ((l.rehome φ).origin type) := by
  unfold origin
  cases type.origin with
  | kernel => exact ⟨by simp [Except.map, kernel], trivial⟩
  | own => exact ⟨rfl, trivial⟩
  | dependency d =>
    simp only [rehome, getElem?_map]
    cases l.dependencies[d]? with
    | none => exact ⟨rfl, rfl⟩
    | some found =>
      cases found with
      | none => exact ⟨rfl, rfl⟩
      | some table =>
        refine ⟨?_, trivial⟩
        show Except.ok (φ table.home, (table.rehome φ).typeCount type.kind, _) = _
        rw [Table.typeCount_rehome]
        rfl

theorem type_rehome (type : SurfaceType) :
    Follows (TypeRef.rehome φ) (l.type type) ((l.rehome φ).type type) := by
  unfold Linkup.type
  split
  · refine .pure ?_
    simp [TypeRef.rehome, TypeRef.rename, TypeRef.invalid, TypeId.rehome, TypeId.scalar,
      TypeId.invalid, TypeId.kernel, kernel]
  · refine (l.origin_rehome kernel type).bind ?_
    rintro ⟨home, available, target⟩
    dsimp only
    split
    · exact .pure rfl
    · exact ⟨rfl, rfl⟩

theorem types_rehome (types : List SurfaceType) :
    Follows (map (TypeRef.rehome φ)) (l.types types) ((l.rehome φ).types types) :=
  .mapM (l.type_rehome kernel)

theorem params_rehome (params : List SurfaceParameter) :
    Follows (map (Parameter.rehome φ)) (l.params params) ((l.rehome φ).params params) :=
  .mapM fun p => (l.type_rehome kernel p.type).bind fun _ => .pure rfl

theorem function_rehome (f : SurfaceFunction) :
    Follows (Function.rehome φ) (l.function f) ((l.rehome φ).function f) :=
  (l.params_rehome kernel f.params).bind fun _ =>
    (l.types_rehome kernel f.returns).bind fun _ => .pure rfl

theorem method_rehome (m : SurfaceMethod) :
    Follows (Method.rehome φ) (l.method m) ((l.rehome φ).method m) :=
  (Follows.mapM (l.function_rehome kernel)).bind fun _ => .pure rfl

end

theorem requireSpace_rehome (name : String) (space : Nat) :
    Follows id (l.requireSpace name space) ((l.rehome φ).requireSpace name space) := by
  refine .refl ?_
  unfold requireSpace
  split
  · trivial
  · exact rfl

theorem spaces_rehome : Follows (map (Space.rehome φ)) l.spaces (l.rehome φ).spaces := by
  have parent (s : SurfaceSpace) :
      Follows id (l.requireParent s) ((l.rehome φ).requireParent s) := by
    refine .refl ?_
    unfold requireParent
    split
    · exact rfl
    · split
      · trivial
      · exact rfl
  refine (Follows.mapM parent).bind fun _ => .pure ?_
  rw [foldl_follows (h := List.map (Space.rehome φ))]
  · -- No space declares anything yet.
    rw [map_cons, map_map]
    rfl
  · rintro spaces ⟨s, i⟩
    refine map_modify_of_comm (fun parent => ?_) spaces (s.parent.getD Table.rootSpace)
    rfl

theorem methodVisibility_rehome (m : Method) :
    methodVisibility (m.rehome φ) = methodVisibility m := by
  simp only [methodVisibility, Method.rehome, map_map]
  rfl

theorem classMembers_rehome (index : Nat) (fields : List MemberVariable) (methods : List Method) :
    (l.rehome φ).classMembers index (fields.map (·.rehome φ)) (methods.map (·.rehome φ)) =
      (l.classMembers index fields methods).map (·.rehome φ) := by
  refine .trans ?_ (NameMap.map_ofList (Declaration.rehome φ) _).symm
  refine congrArg NameMap.ofList ?_
  rw [map_append]
  simp only [mapIdx_eq_zipIdx_map, zipIdx_map, map_map]
  refine congrArg (_ ++ ·) (map_congr_left fun entry _ => ?_)
  simp only [Function.comp_apply, Prod.map, methodVisibility_rehome]
  rfl

section

variable (kernel : φ .kernel = .kernel)
include kernel

theorem classDef_rehome (c : SurfaceClass) (index : Nat) :
    Follows (ClassDef.rehome φ) (l.classDef c index) ((l.rehome φ).classDef c index) := by
  have field (v : SurfaceMember) : Follows (MemberVariable.rehome φ)
      (do return (⟨v.name, v.visibility, ← l.type v.type, 0, none⟩ : MemberVariable))
      (do return (⟨v.name, v.visibility, ← (l.rehome φ).type v.type, 0, none⟩ : MemberVariable)) :=
    (l.type_rehome kernel v.type).bind fun _ => .pure rfl
  refine (Follows.mapM field).bind fun fields => ?_
  refine (Follows.mapM (l.method_rehome kernel)).bind fun methods => ?_
  refine (l.type_rehome kernel c.parent).bind fun parent => ?_
  refine (l.types_rehome kernel c.interfaces).bind fun interfaces => ?_
  refine (Follows.mapM (l.function_rehome kernel)).bind fun constructors => ?_
  refine (l.requireSpace_rehome c.name c.space).bind fun _ => .pure ?_
  simp only [ClassDef.rehome, ← l.classMembers_rehome]

theorem interfaceDef_rehome (i : SurfaceInterface) (index : Nat) :
    Follows (InterfaceDef.rehome φ) (l.interfaceDef i index)
      ((l.rehome φ).interfaceDef i index) := by
  refine (Follows.mapM (l.method_rehome kernel)).bind fun methods => ?_
  refine (l.types_rehome kernel i.inherits).bind fun inherits => ?_
  refine (l.requireSpace_rehome i.name i.space).bind fun _ => .pure ?_
  have members (own : Home) (methods : List Method) :
      methods.zipIdx.foldl (fun members (entry : Method × Nat) =>
          members.insert entry.1.name ⟨own, .public_, .interfaceMethod index entry.2⟩)
          NameMap.empty =
        NameMap.ofList (methods.zipIdx.map fun entry =>
          (entry.1.name, (⟨own, .public_, .interfaceMethod index entry.2⟩ : Declaration))) := by
    rw [NameMap.ofList, foldl_map]
  simp only [InterfaceDef.rehome, members]
  simp only [NameMap.map_ofList, zipIdx_map, map_map]
  rfl

theorem delegateDef_rehome (d : SurfaceDelegate) :
    Follows (DelegateDef.rehome φ) (l.delegateDef d) ((l.rehome φ).delegateDef d) := by
  refine (l.params_rehome kernel d.params).bind fun _ => ?_
  refine (l.types_rehome kernel d.returns).bind fun _ => ?_
  exact (l.requireSpace_rehome d.name d.space).bind fun _ => .pure rfl

theorem coroutineDef_rehome (c : SurfaceCoroutine) :
    Follows (CoroutineDef.rehome φ) (l.coroutineDef c) ((l.rehome φ).coroutineDef c) :=
  (l.types_rehome kernel c.returns).bind fun _ =>
    (l.requireSpace_rehome c.name c.space).bind fun _ => .pure rfl

theorem variableDef_rehome (v : SurfaceVariable) :
    Follows (VariableDef.rehome φ) (l.variableDef v) ((l.rehome φ).variableDef v) :=
  (l.type_rehome kernel v.type).bind fun _ =>
    (l.requireSpace_rehome v.name v.space).bind fun _ => .pure rfl

theorem spaceMethod_rehome (m : SurfaceMethod) :
    Follows (Method.rehome φ) (l.spaceMethod m) ((l.rehome φ).spaceMethod m) :=
  (l.method_rehome kernel m).bind fun _ =>
    (l.requireSpace_rehome m.name m.space).bind fun _ => .pure rfl

end

theorem entries_rehome (t : Table) : entries (t.rehome φ) = entries t := by
  simp only [entries, Table.rehome, mapIdx_eq_zipIdx_map, zipIdx_map, map_map]
  rfl

theorem table_rehome (kernel : φ .kernel = .kernel) :
    Follows (Table.rehome φ) l.table (l.rehome φ).table := by
  refine l.spaces_rehome.bind fun spaces => ?_
  refine (Follows.mapM fun (entry : SurfaceClass × Nat) =>
    l.classDef_rehome kernel entry.1 entry.2).bind fun classes => ?_
  refine (Follows.mapM fun (entry : SurfaceInterface × Nat) =>
    l.interfaceDef_rehome kernel entry.1 entry.2).bind fun interfaces => ?_
  refine (Follows.mapM (l.delegateDef_rehome kernel)).bind fun delegates => ?_
  refine (Follows.mapM (l.coroutineDef_rehome kernel)).bind fun coroutines => ?_
  refine (Follows.mapM (l.variableDef_rehome kernel)).bind fun globals => ?_
  refine (Follows.mapM (l.spaceMethod_rehome kernel)).bind fun methods => ?_
  refine (Follows.mapM (l.spaceMethod_rehome kernel)).bind fun natives => .pure ?_
  refine .trans ?_ (foldl_follows (k := fun t (entry : Nat × String × Entity) =>
    t.declare entry.1 entry.2.1 ⟨φ l.own, .public_, entry.2.2⟩) (fun t entry => ?_) _ _).symm
  · rw [← entries_rehome ⟨l.surface.name, l.own, spaces, classes, interfaces, delegates,
      coroutines, globals, methods, natives⟩]
    rfl
  · exact t.rehome_declare φ entry.1 entry.2.1 ⟨l.own, .public_, entry.2.2⟩

/-- A library that is built elsewhere ends as it does here: with the same complaint, or with the
same library at other places. -/
theorem instantiate_rehome (kernel : φ .kernel = .kernel) :
    Follows (Rely.rehome φ) l.instantiate (l.rehome φ).instantiate := by
  refine (l.table_rehome kernel).bind fun table => .pure ?_
  simp only [Rely.rehome, rehome, filterMap_map, map_filterMap]
  congr 2
  funext found
  cases found <;> rfl

/-- A library that cannot be built lacks something. -/
theorem lacks_instantiate : Lacks l.instantiate := (l.instantiate_rehome (φ := id) rfl).lacks

end Linkup

end Linkage
