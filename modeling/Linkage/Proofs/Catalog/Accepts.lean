/-
Purpose: What a type is accepted for, and the rules by which it has a depth there.
-/
import Linkage.Proofs.Catalog.Nearest

namespace Linkage

variable {x id : TypeId} {n : Nat} {base sub : TypeRef}

namespace Catalog

open Walk (Path)

variable {base sub : TypeRef}

/-! ### What is accepted in the place of what -/

/-- Where a value of the type `base` is expected one of the type `sub` will do: of the same type;
an array for the root of arrays or of handles; a class for one above it, or for an interface that
one above it names or inherits through such a name; an interface for one it inherits; and what is
no class for the root of its kind or of handles. -/
inductive Accepts (c : Catalog) : TypeRef → TypeRef → Prop
  | same {x : TypeRef} (valid : x.isValid = true) : Accepts c x x
  | array {base : TypeId} {sub : TypeRef} (valid : sub.isValid = true)
      (isArray : sub.isArray = true) (isRoot : base = .array ∨ base = .handle) :
      Accepts c base.scalar sub
  | parent {base sub : TypeId} {n : Nat} (isClass : sub.kind = .handle)
      (up : Walk.steps c.nextParent n sub = some base) : Accepts c base.scalar sub.scalar
  | implements {base sub id i : TypeId} {n m : Nat} (isClass : sub.kind = .handle)
      (up : Walk.steps c.nextParent n sub = some id) (definition : id.kind.isDefinition = true)
      (named : i ∈ c.ownInterfaces id) (path : Path c.Link m i base) :
      Accepts c base.scalar sub.scalar
  | inherits {base sub : TypeId} {n : Nat} (isInterface : sub.kind = .interface)
      (path : Path c.Link n sub base) : Accepts c base.scalar sub.scalar
  | root {base sub : TypeId} (valid : sub.isValid = true) (other : sub.kind.isDefinition = false)
      (isRoot : base = (c.parent sub).id ∨ base = .handle) : Accepts c base.scalar sub.scalar

variable {c : Catalog}

theorem inheritDepth_self {x : TypeRef} (valid : x.isValid = true) :
    c.inheritDepth x x = some 0 := by
  simp [inheritDepth, valid]

/-- Arrays of all types are below the root of arrays and the root of handles. -/
theorem inheritDepth_of_array (resolved : base.isValid = true)
    (valid : sub.isValid = true) (different : base ≠ sub) (isArray : sub.isArray = true) :
    c.inheritDepth base sub =
      if base = TypeId.array.scalar then some 1
      else if base = TypeId.handle.scalar then some 2
      else none := by
  simp [inheritDepth, resolved, valid, different, isArray]

/-- What is no class and no interface below another is below the root of its kind and the root of
handles. -/
theorem inheritDepth_of_other {base sub : TypeId} (resolved : base.isValid = true)
    (valid : sub.isValid = true) (different : base ≠ sub) (other : sub.kind.isDefinition = false)
    (apart : ¬(sub.kind = .interface ∧ base.kind = .interface)) :
    c.inheritDepth base.scalar sub.scalar =
      if base = (c.parent sub).id then some 1
      else if base = TypeId.handle then some 2
      else none := by
  rw [inheritDepth_scalar resolved valid different, if_neg apart]
  cases kind : sub.kind with
  | invalid => simp [TypeId.isValid, kind] at valid
  | struct | handle => simp [TypeKind.isDefinition, kind] at other
  | interface | delegate | coroutine => rfl

theorem isValid_of_steps {y : TypeId} (valid : x.isValid = true)
    (up : Walk.steps c.nextParent n x = some y) : y.isValid = true :=
  Walk.steps_keep (P := fun x => x.isValid = true) (fun _ _ _ next => (nextParent_cases next).1)
    valid up

/-- The roots of the kinds that are no classes. -/
theorem parent_of_other (valid : x.isValid = true) (other : x.kind.isDefinition = false) :
    (c.parent x).id = .interface ∨ (c.parent x).id = .delegate ∨ (c.parent x).id = .coroutine := by
  unfold parent
  cases kind : x.kind with
  | invalid => simp [TypeId.isValid, kind] at valid
  | struct | handle => simp [TypeKind.isDefinition, kind] at other
  | interface => exact .inl rfl
  | delegate => exact .inr (.inl rfl)
  | coroutine => exact .inr (.inr rfl)

theorem inheritDepth_isSome_of_steps {base sub : TypeId}
    (resolved : base.isValid = true) (isClass : sub.kind = .handle)
    (up : Walk.steps c.nextParent n sub = some id) (own : (c.ownDepth base id).isSome = true) :
    (c.inheritDepth base.scalar sub.scalar).isSome = true := by
  have valid : sub.isValid = true := by simp [TypeId.isValid, isClass]
  by_cases same : base = sub
  · rw [same, inheritDepth_self (x := sub.scalar) valid]
    rfl
  · obtain ⟨k, id', d, _, nearest⟩ := exists_nearest up own
    rw [inheritDepth_of_class resolved same isClass, Option.isSome_iff_exists]
    exact ⟨_, (chainDepth_typeChain_iff valid).2 ⟨k, id', d, nearest, rfl⟩⟩

/-- The root of a kind that is no class, and the root of handles, are handles of the kernel. -/
theorem kernel_of_root {base sub : TypeId} (valid : sub.isValid = true)
    (other : sub.kind.isDefinition = false) (isRoot : base = (c.parent sub).id ∨ base = .handle) :
    base.home = .kernel ∧ base.kind = .handle := by
  rcases isRoot with rfl | rfl
  · rcases parent_of_other (c := c) valid other with root | root | root <;> simp [root] <;> decide
  · decide

namespace Accepts

/-- Only types that could be resolved are accepted, and only for such types. -/
theorem isValid (accepts : c.Accepts base sub) : base.isValid = true ∧ sub.isValid = true := by
  have valid {x : TypeId} {kind : TypeKind} (isKind : x.kind = kind) (known : kind ≠ .invalid) :
      x.scalar.isValid = true := by
    simpa [TypeRef.isValid, TypeId.scalar, TypeId.isValid, isKind] using known
  cases accepts with
  | same known => exact ⟨known, known⟩
  | array known _ isRoot =>
    refine ⟨?_, known⟩
    rcases isRoot with rfl | rfl <;> rfl
  | parent isClass up =>
    have known := valid isClass (by decide)
    exact ⟨isValid_of_steps known up, known⟩
  | implements isClass _ _ named path =>
    have isInterface := kind_of_path (kind_of_mem_ownInterfaces named) path
    exact ⟨valid isInterface (by decide), valid isClass (by decide)⟩
  | inherits isInterface path =>
    exact ⟨valid (kind_of_path isInterface path) (by decide), valid isInterface (by decide)⟩
  | root known other isRoot =>
    exact ⟨valid (kernel_of_root known other isRoot).2 (by decide), known⟩

/-- What is accepted has a depth. -/
theorem isSome (accepts : c.Accepts base sub) : (c.inheritDepth base sub).isSome = true := by
  obtain ⟨resolved, known⟩ := accepts.isValid
  by_cases same : base = sub
  · rw [same, inheritDepth_self known]
    rfl
  cases accepts with
  | same _ => exact absurd rfl same
  | array _ isArray isRoot =>
    rw [inheritDepth_of_array resolved known same isArray]
    rcases isRoot with rfl | rfl <;> rfl
  | parent isClass up => exact inheritDepth_isSome_of_steps resolved isClass up (by simp [ownDepth])
  | implements isClass up definition named path =>
    exact inheritDepth_isSome_of_steps resolved isClass up (ownDepth_isSome definition named path)
  | @inherits base sub n isInterface path =>
    have different : base ≠ sub := fun equal => same (congrArg TypeId.scalar equal)
    have lengths : {m | ∃ i ∈ [sub], Path c.Link m i base}.Nonempty :=
      ⟨n, sub, List.mem_singleton_self sub, path⟩
    rw [inheritDepth_of_interfaces different (kind_of_path isInterface path) isInterface,
      Option.isSome_iff_exists]
    refine ⟨_, (interfaceDepth_iff (by simpa using isInterface)).2 ⟨Nat.sInf_mem lengths, ?_⟩⟩
    exact fun m longer => Nat.sInf_le longer
  | @root base sub _ other isRoot =>
    have different : base ≠ sub := fun equal => same (congrArg TypeId.scalar equal)
    have apart : ¬(sub.kind = .interface ∧ base.kind = .interface) := by
      simp [(kernel_of_root known other isRoot).2]
    have depth : c.inheritDepth base.scalar sub.scalar = _ :=
      inheritDepth_of_other resolved known different other apart
    rw [depth]
    rcases isRoot with isParent | isHandle
    · rw [if_pos isParent]
      rfl
    · split <;> rfl

end Accepts

/-! ### How a depth comes about -/

/-- The depth of a type below another, by the rule that gives it: nothing for the same type, the
steps to the nearest class that leads to it and from there, the least number of steps through base
interfaces, and one or two for the roots. -/
inductive Measured (c : Catalog) : TypeRef → TypeRef → Nat → Prop
  | same {x : TypeRef} (valid : x.isValid = true) : Measured c x x 0
  | array {base : TypeId} {sub : TypeRef} {n : Nat} (valid : sub.isValid = true)
      (isArray : sub.isArray = true) (isRoot : base = .array ∨ base = .handle)
      (small : 0 < n ∧ n ≤ 2) : Measured c base.scalar sub n
  | climb {base sub id : TypeId} {k d : Nat} (isClass : sub.kind = .handle)
      (nearest : c.Nearest base sub k id d) : Measured c base.scalar sub.scalar (k + d)
  | inherits {base sub : TypeId} {n : Nat} (isInterface : sub.kind = .interface)
      (path : Path c.Link n sub base) (least : ∀ m, Path c.Link m sub base → n ≤ m) :
      Measured c base.scalar sub.scalar n
  | root {base sub : TypeId} {n : Nat} (valid : sub.isValid = true)
      (other : sub.kind.isDefinition = false)
      (isRoot : base = (c.parent sub).id ∨ base = .handle) (small : 0 < n ∧ n ≤ 2) :
      Measured c base.scalar sub.scalar n

/-- The depth between two different types without array brackets. -/
theorem measured_of_scalar {base sub : TypeId} (resolved : base.isValid = true)
    (valid : sub.isValid = true) (different : base ≠ sub)
    (depth : c.inheritDepth base.scalar sub.scalar = some n) :
    c.Measured base.scalar sub.scalar n := by
  by_cases isClass : sub.kind = .handle
  · rw [inheritDepth_of_class resolved different isClass, chainDepth_typeChain_iff valid] at depth
    obtain ⟨k, id, d, nearest, rfl⟩ := depth
    exact .climb isClass nearest
  by_cases both : sub.kind = .interface ∧ base.kind = .interface
  · rw [inheritDepth_of_interfaces different both.2 both.1,
      interfaceDepth_iff (by simpa using both.1)] at depth
    obtain ⟨⟨i, isSub, path⟩, least⟩ := depth
    rw [List.mem_singleton.1 isSub] at path
    exact .inherits both.1 path fun m path' => least ⟨sub, List.mem_singleton_self sub, path'⟩
  have other : sub.kind.isDefinition = false := by
    cases kind : sub.kind with
    | struct =>
      rw [inheritDepth_scalar resolved valid different, kind] at depth
      cases depth
    | handle => exact absurd kind isClass
    | _ => rfl
  rw [inheritDepth_of_other resolved valid different other both] at depth
  split at depth
  · rename_i isParent
    cases depth
    exact .root valid other (.inl isParent) (by decide)
  · split at depth
    · rename_i isHandle
      cases depth
      exact .root valid other (.inr isHandle) (by decide)
    · cases depth

/-- Every depth comes about by one of the rules. -/
theorem measured_of_inheritDepth
    (depth : c.inheritDepth base sub = some n) : c.Measured base sub n := by
  have ⟨resolved, valid⟩ : base.isValid = true ∧ sub.isValid = true := by
    by_contra unknown
    rw [inheritDepth, if_pos (not_and_or.1 unknown)] at depth
    cases depth
  by_cases same : base = sub
  · subst same
    rw [inheritDepth_self valid] at depth
    cases depth
    exact .same valid
  by_cases isArray : sub.isArray = true
  · rw [inheritDepth_of_array resolved valid same isArray] at depth
    split at depth
    · rename_i isRoot
      subst isRoot
      cases depth
      exact .array valid isArray (.inl rfl) (by decide)
    · split at depth
      · rename_i isRoot
        subst isRoot
        cases depth
        exact .array valid isArray (.inr rfl) (by decide)
      · cases depth
  by_cases ofArrays : base.isArray = true
  · simp [inheritDepth, resolved, valid, same, isArray, ofArrays] at depth
  · obtain ⟨base, baseBrackets⟩ := base
    obtain ⟨sub, brackets⟩ := sub
    obtain rfl : baseBrackets = 0 := by simpa [TypeRef.isArray] using ofArrays
    obtain rfl : brackets = 0 := by simpa [TypeRef.isArray] using isArray
    exact measured_of_scalar resolved valid (fun equal => same (congrArg TypeId.scalar equal)) depth

/-- A type has a depth below another exactly if it is accepted for it. -/
theorem inheritDepth_isSome_iff : (c.inheritDepth base sub).isSome = true ↔ c.Accepts base sub := by
  refine ⟨fun deep => ?_, Accepts.isSome⟩
  obtain ⟨n, depth⟩ := Option.isSome_iff_exists.1 deep
  cases measured_of_inheritDepth depth with
  | same valid => exact .same valid
  | array valid isArray isRoot => exact .array valid isArray isRoot
  | climb isClass nearest =>
    rcases ownDepth_eq_some.1 nearest.own with
      ⟨rfl, _⟩ | ⟨_, _, definition, m, _, ⟨i, named, path⟩, _⟩
    · exact .parent isClass nearest.up
    · exact .implements isClass nearest.up definition named path
  | inherits isInterface path => exact .inherits isInterface path
  | root valid other isRoot => exact .root valid other isRoot

/-! ### Above the classes of the kernel -/

/-- A class that is accepted for an interface is not one of the kernel. -/
theorem outside_of_implements {base sub i : TypeId} {m : Nat} (isClass : sub.kind = .handle)
    (up : Walk.steps c.nextParent n sub = some id) (definition : id.kind.isDefinition = true)
    (named : i ∈ c.ownInterfaces id) (path : Path c.Link m i base) : sub.home ≠ .kernel := by
  intro home
  obtain ⟨home', isClass'⟩ := kernel_of_steps home isClass up
  have own := ownDepth_isSome definition named path
  rw [ownDepth_kernel (kind_of_path (kind_of_mem_ownInterfaces named) path) home' isClass'] at own
  cases own

/-- A class of the kernel is accepted for itself and for the root of all handles only. -/
theorem Accepts.of_kernel {a : TypeRef} {b : TypeId} (home : b.home = .kernel)
    (isClass : b.kind = .handle) (accepts : c.Accepts a b.scalar) :
    a = b.scalar ∨ a = TypeId.handle.scalar := by
  cases accepts with
  | same _ => exact .inl rfl
  | array _ isArray _ => cases isArray
  | parent _ up => exact (eq_or_root_of_steps home isClass up).imp (congrArg _) (congrArg _)
  | implements _ up definition named path =>
    exact absurd home (outside_of_implements isClass up definition named path)
  | inherits isInterface _ => cases isClass.symm.trans isInterface
  | root _ other _ =>
    rw [isClass] at other
    cases other

end Catalog

end Linkage
