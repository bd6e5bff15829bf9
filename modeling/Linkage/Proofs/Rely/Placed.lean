/-
Purpose: The table of a surface as a plain function of where its libraries stand, and the
  conditions under which instantiating the surface gives that table.
-/
import Linkage.Proofs.NameMap
import Linkage.Rely.Instance
import Mathlib.Tactic.MkIffOfInductiveProp
import Mathlib.Tactic.Tauto

namespace Linkage

open List

variable {s : Surface} {c : SurfaceClass} {i : SurfaceInterface} {m : SurfaceMethod} {x : Method}
  {index : Nat}

/-! ### Computations that may fail -/

variable {ε α β : Type}

theorem bind_eq_ok {x : Except ε α} {f : α → Except ε β} {b : β} :
    x >>= f = .ok b ↔ ∃ a, x = .ok a ∧ f a = .ok b := by
  cases x <;> simp [Bind.bind, Except.bind]

theorem pure_eq_ok {a b : α} : (pure a : Except ε α) = .ok b ↔ b = a := by
  rw [eq_comm (a := b)]
  exact Except.ok.injEq a b ▸ Iff.rfl

theorem mapM_eq_ok {f : α → Except ε β} {P : α → Prop} {g : α → β}
    (each : ∀ a b, f a = .ok b ↔ P a ∧ b = g a) {xs : List α} {ys : List β} :
    xs.mapM f = .ok ys ↔ (∀ x ∈ xs, P x) ∧ ys = xs.map g := by
  induction xs generalizing ys with
  | nil => simp [pure_eq_ok]
  | cons x rest ih =>
    simp only [mapM_cons, bind_eq_ok, each, ih, pure_eq_ok, forall_mem_cons,
      map_cons, and_assoc, exists_and_left, exists_eq_left]

/-! ### Surfaces in their places -/

/-- Where the libraries that a surface mentions stand in a compilation. -/
abbrev Placement := SurfaceOrigin → Home

/-- A type of a surface in the numbering of a compilation. -/
def SurfaceType.at (ρ : Placement) (type : SurfaceType) : TypeRef :=
  if type.kind = .invalid then .invalid
  else ⟨⟨ρ type.origin, type.kind, type.index⟩, type.dimension⟩

/-- A parameter with its type in place. -/
def SurfaceParameter.at (ρ : Placement) (p : SurfaceParameter) : Parameter := ⟨p.name, p.type.at ρ⟩

/-- A function with its types in place. -/
def SurfaceFunction.at (ρ : Placement) (f : SurfaceFunction) : Function :=
  ⟨f.visibility, f.params.map (·.at ρ), f.returns.map (·.at ρ), none⟩

/-- A method with its types in place. -/
def SurfaceMethod.at (ρ : Placement) (m : SurfaceMethod) : Method :=
  ⟨m.name, m.space, m.functions.map (·.at ρ)⟩

/-- A variable of a class with its type in place. -/
def SurfaceMember.at (ρ : Placement) (v : SurfaceMember) : MemberVariable :=
  ⟨v.name, v.visibility, v.type.at ρ, 0, none⟩

/-- The members of a class with their names, variables first. -/
def classMemberList (home : Home) (index : Nat) (fields : List MemberVariable)
    (methods : List Method) : List (String × Declaration) :=
  fields.mapIdx (fun i v => (v.name, ⟨home, v.visibility, .memberVariable index i⟩)) ++
    methods.mapIdx fun i m => (m.name, ⟨home, Linkup.methodVisibility m, .memberMethod index i⟩)

/-- A class with its types in place. -/
def SurfaceClass.at (ρ : Placement) (index : Nat) (c : SurfaceClass) : ClassDef where
  name := c.name
  space := c.space
  visibility := .public_
  kind := .handle
  parent := c.parent.at ρ
  interfaces := c.interfaces.map (·.at ρ)
  fields := c.fields.map (·.at ρ)
  methods := c.methods.map (·.at ρ)
  constructors := c.constructors.map (·.at ρ)
  members := .ofList (classMemberList (ρ .own) index (c.fields.map (·.at ρ)) (c.methods.map (·.at ρ)))
  size := 0
  source := none

/-- The members of an interface with their names. -/
def interfaceMemberList (home : Home) (index : Nat) (methods : List Method) :
    List (String × Declaration) :=
  methods.zipIdx.map fun (m, i) => (m.name, ⟨home, .public_, .interfaceMethod index i⟩)

/-- An interface with its types in place. -/
def SurfaceInterface.at (ρ : Placement) (index : Nat) (i : SurfaceInterface) : InterfaceDef :=
  ⟨i.name, i.space, .public_, i.inherits.map (·.at ρ), i.methods.map (·.at ρ),
    .ofList (interfaceMemberList (ρ .own) index (i.methods.map (·.at ρ))), none⟩

/-- A delegate with its types in place. -/
def SurfaceDelegate.at (ρ : Placement) (d : SurfaceDelegate) : DelegateDef :=
  ⟨d.name, d.space, .public_, d.params.map (·.at ρ), d.returns.map (·.at ρ), none⟩

/-- A coroutine with its types in place. -/
def SurfaceCoroutine.at (ρ : Placement) (c : SurfaceCoroutine) : CoroutineDef :=
  ⟨c.name, c.space, .public_, c.returns.map (·.at ρ), none⟩

/-- A variable of a space with its type in place. -/
def SurfaceVariable.at (ρ : Placement) (v : SurfaceVariable) : VariableDef :=
  ⟨v.name, v.space, .public_, v.constant, v.type.at ρ, none, 0, none⟩

namespace Surface

/-- The spaces below the root. -/
def below (s : Surface) : List SurfaceSpace := s.spaces.drop 1

/-- The spaces, before anything is declared in them. -/
def emptySpaces (s : Surface) : List Space :=
  s.below.zipIdx.foldl (fun spaces (x, i) =>
    spaces.modify (x.parent.getD Table.rootSpace) fun parent =>
      { parent with children := parent.children.insert x.name (i + 1) })
    (Space.root :: s.below.map fun x => ⟨x.name, x.parent, .empty, .empty⟩)

/-- The table of a surface before its names are declared. -/
def bareAt (ρ : Placement) (s : Surface) : Table where
  name := s.name
  home := ρ .own
  spaces := s.emptySpaces
  classes := s.classes.mapIdx fun i c => c.at ρ i
  interfaces := s.interfaces.mapIdx fun i x => x.at ρ i
  delegates := s.delegates.map (·.at ρ)
  coroutines := s.coroutines.map (·.at ρ)
  globals := s.globals.map (·.at ρ)
  methods := s.methods.map (·.at ρ)
  natives := s.natives.map (·.at ρ)

/-- The table of a surface whose libraries stand at given places. -/
def tableAt (ρ : Placement) (s : Surface) : Table :=
  (Linkup.entries (s.bareAt ρ)).foldl (fun t entry =>
    t.declare entry.1 entry.2.1 ⟨ρ .own, .public_, entry.2.2⟩) (s.bareAt ρ)

end Surface

/-! ### Types and spaces that a surface mentions -/

/-- The types of a signature. -/
def SurfaceFunction.types (f : SurfaceFunction) : List SurfaceType :=
  f.params.map (·.type) ++ f.returns

/-- The types of the functions of a method. -/
def SurfaceMethod.types (m : SurfaceMethod) : List SurfaceType := m.functions.flatMap (·.types)

/-- The types of a class: its parent, its interfaces and those of its members. -/
def SurfaceClass.types (c : SurfaceClass) : List SurfaceType :=
  c.parent :: (c.interfaces ++ c.fields.map (·.type) ++ c.methods.flatMap (·.types) ++
    c.constructors.flatMap (·.types))

/-- The types of an interface: its base interfaces and those of its methods. -/
def SurfaceInterface.types (i : SurfaceInterface) : List SurfaceType :=
  i.inherits ++ i.methods.flatMap (·.types)

/-- The types of the signature of a delegate. -/
def SurfaceDelegate.types (d : SurfaceDelegate) : List SurfaceType :=
  d.params.map (·.type) ++ d.returns

/-- Every type that stands somewhere in a surface. -/
def Surface.types (s : Surface) : List SurfaceType :=
  s.classes.flatMap (·.types) ++ s.interfaces.flatMap (·.types) ++ s.delegates.flatMap (·.types) ++
    s.coroutines.flatMap (·.returns) ++ s.globals.map (·.type) ++ s.methods.flatMap (·.types) ++
    s.natives.flatMap (·.types)

namespace Surface

/-- All types that a surface mentions satisfy `P`. -/
def All (P : SurfaceType → Prop) (s : Surface) : Prop := ∀ y ∈ s.types, P y

theorem class_types_subset (member : c ∈ s.classes) : c.types ⊆ s.types := by
  intro y inside
  simp only [types, mem_append, mem_flatMap]
  exact .inl (.inl (.inl (.inl (.inl (.inl ⟨c, member, inside⟩)))))

theorem inherits_mem_types {base : SurfaceType}
    (member : i ∈ s.interfaces) (inherited : base ∈ i.inherits) : base ∈ s.types := by
  simp only [types, mem_append, mem_flatMap]
  exact .inl (.inl (.inl (.inl (.inl (.inr ⟨i, member, mem_append_left _ inherited⟩)))))

/-- There is a space of this number.  The root is always there. -/
def HasSpace (s : Surface) (space : Nat) : Prop := space = Table.rootSpace ∨ space < s.spaces.length

/-- Every space has a parent, and every entry stands in a space. -/
@[mk_iff]
structure Spaced (s : Surface) : Prop where
  parents : ∀ x ∈ s.below, ∃ p, x.parent = some p ∧ p < s.spaces.length
  classes : ∀ c ∈ s.classes, s.HasSpace c.space
  interfaces : ∀ i ∈ s.interfaces, s.HasSpace i.space
  delegates : ∀ d ∈ s.delegates, s.HasSpace d.space
  coroutines : ∀ c ∈ s.coroutines, s.HasSpace c.space
  globals : ∀ v ∈ s.globals, s.HasSpace v.space
  methods : ∀ m ∈ s.methods, s.HasSpace m.space
  natives : ∀ m ∈ s.natives, s.HasSpace m.space

end Surface

/-! ### Instantiating a surface -/

namespace Linkup

variable {l : Linkup}

/-- Where the libraries of a linkup stand. -/
def places (l : Linkup) : Placement
  | .kernel => .kernel
  | .own => l.own
  | .dependency d => (l.dependencies[d]?.join.map (·.home)).getD .kernel

/-- How many types of a kind an origin has. -/
def available (l : Linkup) (kind : TypeKind) : SurfaceOrigin → Nat
  | .kernel => if kind.isDefinition then Kernel.table.classes.length else 0
  | .own => l.surface.typeCount kind
  | .dependency d => (l.dependencies[d]?.join.map (·.typeCount kind)).getD 0

/-- A type is there, or it is the one that could not be resolved. -/
def Has (l : Linkup) (type : SurfaceType) : Prop :=
  type.kind = .invalid ∨ type.index < l.available type.kind type.origin

theorem origin_cases (l : Linkup) (type : SurfaceType) : (∃ target, l.origin type =
      .ok (l.places type.origin, l.available type.kind type.origin, target)) ∨
    ∃ problem, l.origin type = .error problem ∧ l.available type.kind type.origin = 0 := by
  unfold origin
  cases from_ : type.origin with
  | kernel | own => exact .inl ⟨_, rfl⟩
  | dependency d =>
    cases found : l.dependencies[d]?.join with
    | none =>
      simp [available, found]
    | some table => exact .inl ⟨l.surface.name, by simp [places, available, found]⟩

/-- A type is resolved exactly if it is there. -/
theorem type_eq_ok {type : SurfaceType} {x : TypeRef} :
    l.type type = .ok x ↔ l.Has type ∧ x = type.at l.places := by
  unfold Linkup.type SurfaceType.at Has
  by_cases unresolved : type.kind = .invalid
  · simp [unresolved, eq_comm]
  · simp only [unresolved, if_false, false_or, bind_eq_ok]
    rcases l.origin_cases type with ⟨target, found⟩ | ⟨problem, found, nothing⟩
    · simp only [found, Except.ok.injEq, exists_eq_left']
      split
      · rename_i there
        rw [pure_eq_ok]
        simp [there]
      · rename_i missing
        simp [missing, throw, throwThe, MonadExceptOf.throw]
    · simp [found, nothing]

theorem types_eq_ok {types : List SurfaceType} {xs : List TypeRef} :
    l.types types = .ok xs ↔ (∀ t ∈ types, l.Has t) ∧ xs = types.map (·.at l.places) :=
  mapM_eq_ok fun _ _ => type_eq_ok

theorem params_eq_ok {params : List SurfaceParameter} {xs : List Parameter} :
    l.params params = .ok xs ↔ (∀ p ∈ params, l.Has p.type) ∧ xs = params.map (·.at l.places) := by
  refine mapM_eq_ok fun p x => ?_
  simp only [bind_eq_ok, type_eq_ok, pure_eq_ok, and_assoc, exists_and_left, exists_eq_left]
  rfl

theorem function_eq_ok {f : SurfaceFunction} {x : Function} :
    l.function f = .ok x ↔ (∀ y ∈ f.types, l.Has y) ∧ x = f.at l.places := by
  simp only [function, bind_eq_ok, params_eq_ok, types_eq_ok, pure_eq_ok, and_assoc,
    exists_and_left, exists_eq_left, SurfaceFunction.types, forall_mem_append,
    forall_mem_map]
  rfl

theorem method_eq_ok :
    l.method m = .ok x ↔ (∀ y ∈ m.types, l.Has y) ∧ x = m.at l.places := by
  simp only [method, bind_eq_ok, mapM_eq_ok fun _ _ => function_eq_ok, pure_eq_ok, and_assoc,
    exists_and_left, exists_eq_left, SurfaceMethod.types, forall_mem_flatMap]
  rfl

theorem requireSpace_eq_ok {name : String} {space : Nat} {x : Unit} :
    l.requireSpace name space = .ok x ↔ l.surface.HasSpace space := by
  unfold requireSpace Surface.HasSpace
  split <;> simp [*]

theorem classDef_eq_ok {x : ClassDef} :
    l.classDef c index = .ok x ↔
      ((∀ y ∈ c.types, l.Has y) ∧ l.surface.HasSpace c.space) ∧ x = c.at l.places index := by
  have fields {xs : List MemberVariable} : (c.fields.mapM fun v => do
      return (⟨v.name, v.visibility, ← l.type v.type, 0, none⟩ : MemberVariable)) = .ok xs ↔
      (∀ v ∈ c.fields, l.Has v.type) ∧ xs = c.fields.map (·.at l.places) := by
    refine mapM_eq_ok fun v x => ?_
    simp only [bind_eq_ok, type_eq_ok, pure_eq_ok, and_assoc, exists_and_left, exists_eq_left]
    rfl
  simp only [classDef, bind_eq_ok, fields, mapM_eq_ok fun _ _ => method_eq_ok, type_eq_ok,
    types_eq_ok, mapM_eq_ok fun _ _ => function_eq_ok, requireSpace_eq_ok, pure_eq_ok, and_assoc,
    exists_and_left, exists_eq_left, exists_const, SurfaceClass.types, forall_mem_cons,
    forall_mem_append, forall_mem_map, forall_mem_flatMap]
  constructor
  · rintro ⟨fields, methods, parent, interfaces, constructors, space, same⟩
    exact ⟨parent, interfaces, fields, methods, constructors, space, same⟩
  · rintro ⟨parent, interfaces, fields, methods, constructors, space, same⟩
    exact ⟨fields, methods, parent, interfaces, constructors, space, same⟩

theorem interfaceDef_eq_ok {x : InterfaceDef} :
    l.interfaceDef i index = .ok x ↔
      ((∀ y ∈ i.types, l.Has y) ∧ l.surface.HasSpace i.space) ∧ x = i.at l.places index := by
  have members (methods : List Method) : (methods.zipIdx.foldl (fun members (m, position) =>
      members.insert m.name ⟨l.own, .public_, .interfaceMethod index position⟩) NameMap.empty) =
      NameMap.ofList (interfaceMemberList l.own index methods) := by
    rw [NameMap.ofList, interfaceMemberList, foldl_map]
  simp only [interfaceDef, bind_eq_ok, mapM_eq_ok fun _ _ => method_eq_ok, types_eq_ok,
    requireSpace_eq_ok, pure_eq_ok, and_assoc, exists_and_left, exists_eq_left, exists_const,
    members, SurfaceInterface.types, forall_mem_append, forall_mem_flatMap]
  exact and_left_comm

theorem delegateDef_eq_ok {d : SurfaceDelegate} {x : DelegateDef} : l.delegateDef d = .ok x ↔
      ((∀ y ∈ d.types, l.Has y) ∧ l.surface.HasSpace d.space) ∧ x = d.at l.places := by
  simp only [delegateDef, bind_eq_ok, params_eq_ok, types_eq_ok, requireSpace_eq_ok, pure_eq_ok,
    and_assoc, exists_and_left, exists_eq_left, exists_const, SurfaceDelegate.types,
    forall_mem_append, forall_mem_map]
  rfl

theorem coroutineDef_eq_ok {c : SurfaceCoroutine} {x : CoroutineDef} : l.coroutineDef c = .ok x ↔
      ((∀ r ∈ c.returns, l.Has r) ∧ l.surface.HasSpace c.space) ∧ x = c.at l.places := by
  simp only [coroutineDef, bind_eq_ok, types_eq_ok, requireSpace_eq_ok, pure_eq_ok, and_assoc,
    exists_and_left, exists_eq_left, exists_const]
  rfl

theorem variableDef_eq_ok {v : SurfaceVariable} {x : VariableDef} : l.variableDef v = .ok x ↔
      (l.Has v.type ∧ l.surface.HasSpace v.space) ∧ x = v.at l.places := by
  simp only [variableDef, bind_eq_ok, type_eq_ok, requireSpace_eq_ok, pure_eq_ok, and_assoc,
    exists_and_left, exists_eq_left, exists_const]
  rfl

theorem spaceMethod_eq_ok : l.spaceMethod m = .ok x ↔
      ((∀ y ∈ m.types, l.Has y) ∧ l.surface.HasSpace m.space) ∧ x = m.at l.places := by
  simp only [spaceMethod, bind_eq_ok, method_eq_ok, requireSpace_eq_ok, pure_eq_ok, and_assoc,
    exists_and_left, exists_eq_left, exists_const]

theorem requireParent_eq_ok {s : SurfaceSpace} {x : Unit} :
    l.requireParent s = .ok x ↔ ∃ p, s.parent = some p ∧ p < l.surface.spaces.length := by
  unfold requireParent
  split
  · rename_i orphan
    simp [orphan]
  · rename_i p has
    simp [has]

theorem spaces_eq_ok {xs : List Space} : l.spaces = .ok xs ↔
      (∀ x ∈ l.surface.below, ∃ p, x.parent = some p ∧ p < l.surface.spaces.length) ∧
        xs = l.surface.emptySpaces := by
  have parents {ys : List Unit} : (l.surface.spaces.drop 1).mapM l.requireParent = .ok ys ↔
      (∀ x ∈ l.surface.below, ∃ p, x.parent = some p ∧ p < l.surface.spaces.length) ∧
        ys = (l.surface.spaces.drop 1).map fun _ => () :=
    mapM_eq_ok fun x y => by rw [requireParent_eq_ok, and_iff_left rfl]
  simp only [spaces, bind_eq_ok, parents, pure_eq_ok, and_assoc, exists_and_left, exists_eq_left]
  rfl

/-- Going through a list with the positions of its elements. -/
private theorem zipIdx_mapM_eq_ok {ε α β : Type} {f : α → Nat → Except ε β} {P : α → Prop}
    {g : Nat → α → β} (each : ∀ a i b, f a i = .ok b ↔ P a ∧ b = g i a) {xs : List α}
    {ys : List β} :
    (xs.zipIdx.mapM fun entry => f entry.1 entry.2) = .ok ys ↔
      (∀ x ∈ xs, P x) ∧ ys = xs.mapIdx g := by
  refine (mapM_eq_ok
   
    fun entry b => each entry.1 entry.2 b).trans (and_congr ?_ ?_)
  · constructor
    · intro all x member
      obtain ⟨i, found⟩ := mem_iff_getElem?.1 member
      exact all (x, i) (mk_mem_zipIdx_iff_getElem?.2 found)
    · exact fun all entry member => all entry.1 (fst_mem_of_mem_zipIdx member)
  · rw [mapIdx_eq_zipIdx_map]

/-- Instantiating a surface succeeds exactly if all its types and spaces are there. -/
theorem table_eq_ok {t : Table} : l.table = .ok t ↔
      (l.surface.All l.Has ∧ l.surface.Spaced) ∧ t = l.surface.tableAt l.places := by
  have classes {xs : List ClassDef} :
      (l.surface.classes.zipIdx.mapM fun entry => l.classDef entry.1 entry.2) = .ok xs ↔
        (∀ c ∈ l.surface.classes, (∀ y ∈ c.types, l.Has y) ∧ l.surface.HasSpace c.space) ∧
          xs = l.surface.classes.mapIdx fun i c => c.at l.places i :=
    zipIdx_mapM_eq_ok (f := l.classDef) fun _ _ _ => classDef_eq_ok
  have interfaces {xs : List InterfaceDef} :
      (l.surface.interfaces.zipIdx.mapM fun entry => l.interfaceDef entry.1 entry.2) = .ok xs ↔
        (∀ c ∈ l.surface.interfaces, (∀ y ∈ c.types, l.Has y) ∧ l.surface.HasSpace c.space) ∧
          xs = l.surface.interfaces.mapIdx fun i c => c.at l.places i :=
    zipIdx_mapM_eq_ok (f := l.interfaceDef) fun _ _ _ => interfaceDef_eq_ok
  simp only [table, bind_eq_ok, spaces_eq_ok, pure_eq_ok, and_assoc, classes, interfaces,
    mapM_eq_ok fun _ _ => delegateDef_eq_ok, mapM_eq_ok fun _ _ => coroutineDef_eq_ok,
    mapM_eq_ok fun _ _ => variableDef_eq_ok, mapM_eq_ok fun _ _ => spaceMethod_eq_ok,
    exists_and_left, exists_eq_left, Surface.All, Surface.spaced_iff, Surface.types,
    forall_mem_append, forall_mem_flatMap, forall_mem_map, imp_and, forall_and]
  tauto

theorem instantiate_eq_ok {r : Rely} :
    l.instantiate = .ok r ↔ (l.surface.All l.Has ∧ l.surface.Spaced) ∧
      r = ⟨l.surface.tableAt l.places,
        l.dependencies.filterMap fun found => found.map (·.home)⟩ := by
  simp only [instantiate, bind_eq_ok, table_eq_ok, pure_eq_ok, and_assoc, exists_and_left,
    exists_eq_left]

end Linkup

end Linkage
