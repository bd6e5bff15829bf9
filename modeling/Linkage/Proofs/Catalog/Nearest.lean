/-
Purpose: The depth of a class below an interface is counted through the nearest class that names
  the interface, whether or not a shorter way passes that class by.
-/
import Linkage.Proofs.Catalog.Depth
import Linkage.Proofs.Compile.Stages

namespace Linkage

/-- The classes of the kernel implement nothing, and the class above one is the root. -/
theorem Kernel.classes_plain : ∀ d ∈ Kernel.table.classes,
    d.interfaces = [] ∧ (d.parent.isValid = true → d.parent.id = TypeId.handle) := by
  decide

namespace Catalog

variable {n j m : Nat} {x : TypeId}

open Walk (Path)

variable {c : Catalog} {base sub : TypeId} {k d : Nat} {id : TypeId}

/-! ### Above what is no class -/

section

variable {x y : TypeId} (home : x.home = .kernel)
include home

/-- Above a class of the kernel there is only the root. -/
theorem eq_root_of_next
    (definition : x.kind.isDefinition = true) (next : c.nextParent x = some y) : y = .handle := by
  obtain ⟨d, found, resolved, rfl⟩ := (nextParent_eq_some_of_isDefinition definition).1 next
  obtain ⟨_, t, atHome, inside⟩ := classDef?_eq_some.1 found
  rw [home] at atHome
  cases atHome
  exact (Kernel.classes_plain d (List.mem_of_getElem? inside)).2 resolved

theorem eq_or_root_of_steps (isClass : x.kind = .handle)
    (up : Walk.steps c.nextParent n x = some y) : y = x ∨ y = .handle := by
  cases n with
  | zero => exact .inl (Option.some.inj up).symm
  | succ n =>
    obtain ⟨z, next, rest⟩ := Option.bind_eq_some_iff.1 up
    rw [eq_root_of_next home (by rw [isClass]; rfl) next] at rest
    -- Nothing is above the root.
    cases n with
    | zero => exact .inr (Option.some.inj rest).symm
    | succ n => cases rest

theorem kernel_of_steps (isClass : x.kind = .handle)
    (path : Walk.steps c.nextParent n x = some y) : y.home = .kernel ∧ y.kind = .handle := by
  rcases eq_or_root_of_steps home isClass path with rfl | rfl
  · exact ⟨home, isClass⟩
  · exact ⟨rfl, rfl⟩

end

theorem ownDepth_kernel (isInterface : base.kind = .interface) (home : id.home = .kernel)
    (isClass : id.kind = .handle) : c.ownDepth base id = none := by
  by_contra something
  obtain ⟨d, own⟩ := Option.ne_none_iff_exists'.1 something
  rcases ownDepth_eq_some.1 own with ⟨rfl, _⟩ | ⟨_, _, definition, _, _, ⟨i, named, _⟩, _⟩
  · rw [isInterface] at isClass
    cases isClass
  · obtain ⟨e, found, listed⟩ := (mem_ownInterfaces_of_isDefinition definition).1 named
    obtain ⟨_, t, atHome, inside⟩ := classDef?_eq_some.1 found
    rw [home] at atHome
    cases atHome
    rw [(Kernel.classes_plain e (List.mem_of_getElem? inside)).1] at listed
    cases listed

/-! ### The nearest class that names an interface -/

namespace Nearest

section

variable (nearest : c.Nearest base sub k id d) (isInterface : base.kind = .interface)
include nearest isInterface

/-- Every type below the nearest one is a class.  After any other come the roots of the kernel,
which lead to no interface. -/
theorem classes (early : j < k)
    (there : Walk.steps c.nextParent j sub = some x) : x.kind.isDefinition = true := by
  have onward : Walk.steps c.nextParent (k - j - 1 + 1) x = some id := by
    have up := nearest.up
    rw [show k = j + (k - j - 1 + 1) by omega, Walk.steps_add, there] at up
    exact up
  obtain ⟨z, next, rest⟩ := Option.bind_eq_some_iff.1 onward
  obtain ⟨_, ⟨_, isClass, _⟩ | ⟨_, isRoot⟩⟩ := nextParent_cases next
  · exact (classDef?_eq_some.1 isClass).1
  · have root : z.home = .kernel ∧ z.kind = .handle := by
      rcases isRoot with rfl | rfl | rfl <;> exact ⟨rfl, rfl⟩
    obtain ⟨home, kind⟩ := kernel_of_steps root.1 root.2 rest
    have nothing := ownDepth_kernel (c := c) isInterface home kind
    rw [nearest.own] at nothing
    cases nothing

/-- Nothing below the nearest type makes a turn. -/
theorem not_turn (early : j < k)
    (there : Walk.steps c.nextParent j sub = some x) (l : Nat) : ¬c.Turn base l x := by
  intro turn
  have noInterface : x.kind ≠ .interface := by
    intro kind
    have definition := nearest.classes isInterface early there
    rw [kind] at definition
    cases definition
  have leads := ownDepth_isSome_of_turn turn noInterface
  rw [nearest.first j early x there] at leads
  cases leads

theorem path : Path c.Link (k + d) sub base :=
  (path_of_steps nearest.up fun _ early _ there => nearest.classes isInterface early there).append
    (isLeast_turn nearest.own).1.path

/-- A path that is shorter passes the nearest type by: it makes its turn further up. -/
theorem passed_by (shorter : m < k + d) (path : Path c.Link m sub base) :
    ∃ above l, c.nextParent id = some above ∧ Path c.Link l above base ∧ m = k + 1 + l := by
  obtain ⟨j, y, l, up, classes, turn, rfl⟩ := exists_climb path
  rcases lt_trichotomy j k with early | rfl | late
  · exact absurd turn (nearest.not_turn isInterface early up l)
  · obtain rfl : y = id := Option.some.inj (up.symm.trans nearest.up)
    have least := (isLeast_turn nearest.own).2 turn
    omega
  · obtain ⟨i, rfl⟩ : ∃ i, j = k + (i + 1) := ⟨j - k - 1, by omega⟩
    have further (i' : Nat) : Walk.steps c.nextParent (k + (i' + 1)) sub =
        (c.nextParent id).bind (Walk.steps c.nextParent i') := by
      rw [Walk.steps_add, nearest.up]
      rfl
    obtain ⟨above, next, rest⟩ := Option.bind_eq_some_iff.1 ((further i).symm.trans up)
    refine ⟨above, i + l, next, (path_of_steps rest fun i' early z there => ?_).append turn.path,
      by omega⟩
    refine classes (k + (i' + 1)) (by omega) z ?_
    rw [further, next]
    exact there

end

theorem eq_of_nearest {k' d' : Nat} {id' : TypeId} (nearest : c.Nearest base sub k id d)
    (other : c.Nearest base sub k' id' d') : k = k' ∧ d = d' := by
  rcases lt_trichotomy k k' with early | rfl | late
  · have nothing := other.first k early id nearest.up
    rw [nearest.own] at nothing
    cases nothing
  · obtain rfl : id = id' := Option.some.inj (nearest.up.symm.trans other.up)
    exact ⟨rfl, Option.some.inj (nearest.own.symm.trans other.own)⟩
  · have nothing := nearest.first k' late id' other.up
    rw [other.own] at nothing
    cases nothing

/-- What is nearest from a type that makes no turn is nearest from the type above it. -/
theorem tail {parent : TypeId} (nearest : c.Nearest base sub (k + 1) id d)
    (next : c.nextParent sub = some parent) : c.Nearest base parent k id d := by
  have skip (j : Nat) : Walk.steps c.nextParent (j + 1) sub = Walk.steps c.nextParent j parent := by
    rw [Walk.steps, next]
    rfl
  exact ⟨skip k ▸ nearest.up, nearest.own,
    fun j early x there => nearest.first (j + 1) (by omega) x (skip j ▸ there)⟩

end Nearest

/-- The depth of a type below an interface, where it has one, is found at the nearest type. -/
theorem exists_nearest_of_inheritDepth (isInterface : base.kind = .interface)
    (definition : sub.kind.isDefinition = true)
    (found : c.inheritDepth base.scalar sub.scalar = some n) :
    ∃ k id d, c.Nearest base sub k id d ∧ n = k + d := by
  have resolved : base.isValid = true := by simp [TypeId.isValid, isInterface]
  have valid : sub.isValid = true := by
    unfold TypeId.isValid
    cases kind : sub.kind with
    | invalid =>
      rw [kind] at definition
      cases definition
    | _ => rfl
  have different : base ≠ sub := by
    rintro rfl
    rw [isInterface] at definition
    cases definition
  have isClass : sub.kind = .handle := by
    cases kind : sub.kind with
    | handle => rfl
    | struct =>
      rw [inheritDepth_scalar resolved valid different, kind] at found
      cases found
    | _ =>
      rw [kind] at definition
      cases definition
  rw [inheritDepth_of_class resolved different isClass] at found
  exact (chainDepth_typeChain_iff valid).1 found

/-- Whatever depth a type has below an interface is that of the nearest type. -/
theorem Nearest.eq_of_inheritDepth (nearest : c.Nearest base sub k id d)
    (isInterface : base.kind = .interface)
    (found : c.inheritDepth base.scalar sub.scalar = some m) : m = k + d := by
  by_cases same : sub = base
  · subst same
    have here : c.Nearest sub sub 0 sub 0 := ⟨rfl, by simp [ownDepth], nofun⟩
    obtain ⟨rfl, rfl⟩ := nearest.eq_of_nearest here
    have known : ¬(¬sub.scalar.isValid = true ∨ ¬sub.scalar.isValid = true) := by
      simp [TypeRef.isValid, TypeId.scalar, TypeId.isValid, isInterface]
    rw [inheritDepth, if_neg known, if_pos rfl] at found
    exact (Option.some.inj found).symm
  · have definition : sub.kind.isDefinition = true := by
      cases k with
      | zero =>
        cases nearest.up
        rcases ownDepth_eq_some.1 nearest.own with ⟨here, _⟩ | ⟨_, _, definition, _⟩
        · exact absurd here same
        · exact definition
      | succ k => exact nearest.classes isInterface (Nat.succ_pos k) rfl
    obtain ⟨k', id', d', nearest', rfl⟩ :=
      exists_nearest_of_inheritDepth isInterface definition found
    obtain ⟨rfl, rfl⟩ := nearest.eq_of_nearest nearest'
    rfl

/-- The depth below an interface counts the steps up to the nearest class that leads there without
its parent, and then the links of the shortest way from that class.  Whatever way is shorter goes on
to the parent of that class.  So a class that leads to the interface only through its parent is
one deeper than the parent. -/
theorem inheritDepth_by_nearest (c : Catalog) {base sub : TypeId} {n : Nat}
    (isInterface : base.kind = .interface) (isClass : sub.kind = .handle)
    (found : c.inheritDepth base.scalar sub.scalar = some n) :
    Path c.Link n sub base ∧
    (∃ k id l, Walk.steps c.nextParent k sub = some id ∧ IsLeast {l | c.Turn base l id} l ∧
      (∀ j < k, ∀ x, Walk.steps c.nextParent j sub = some x → ∀ l, ¬c.Turn base l x) ∧ n = k + l ∧
      ∀ m < n, Path c.Link m sub base →
        ∃ above l', c.nextParent id = some above ∧ Path c.Link l' above base ∧ m = k + 1 + l') ∧
    ∀ parent m, c.nextParent sub = some parent → c.inheritDepth base.scalar parent.scalar = some m →
      (∀ l, ¬c.Turn base l sub) → n = m + 1 := by
  obtain ⟨k, id, l, nearest, rfl⟩ :=
    exists_nearest_of_inheritDepth isInterface (by rw [isClass]; rfl) found
  refine ⟨nearest.path isInterface, ⟨k, id, l, nearest.up, isLeast_turn nearest.own,
    fun j early x there => nearest.not_turn isInterface early there, rfl,
    fun m shorter path => nearest.passed_by isInterface shorter path⟩, ?_⟩
  intro parent m next depth none
  obtain ⟨k, rfl⟩ : ∃ k', k = k' + 1 := by
    refine Nat.exists_eq_succ_of_ne_zero ?_
    rintro rfl
    cases nearest.up
    exact none l (isLeast_turn nearest.own).1
  rw [(nearest.tail next).eq_of_inheritDepth isInterface depth]
  omega

end Catalog

/-! ### A shorter way that is passed by -/

namespace Sample

/-- A gate names an interface that lies two links below the shape, which its parent names itself. -/
def gates : Job where
  name := "Gates"
  files := [⟨"gates", "interface Shape\ninterface Solid : Shape\ninterface Block : Solid\n" ++
    "class Wall : Shape\nclass Gate : Wall, Block\n"⟩]
  surfaces := []

def gatesLinked : Draft :=
  ((Draft.merge gates.name (readFiles gates.files).value).value.link []).value

def gatesCatalog : Catalog :=
  ({ gatesLinked with table := gatesLinked.table.assignAddresses.1 } : Draft).catalog []

theorem gates_completes : ∃ p, (Builder.mk gates .unstarted [] none).Completes p ∧
    p.draft.catalog p.tables = gatesCatalog := by
  obtain ⟨p, completes, table, tables⟩ : ∃ p, (Builder.mk gates .unstarted [] none).Completes p ∧
      p.draft.table = gatesCatalog.own ∧ p.tables = [] := completes_of_compile (by decide +kernel)
  exact ⟨p, completes, by rw [Draft.catalog, table, tables]; rfl⟩

theorem gates_depth : gatesCatalog.inheritDepth (TypeId.scalar ⟨.here, .interface, 0⟩)
    (TypeId.scalar ⟨.here, .handle, 1⟩) = some 3 := by
  decide +kernel

/-- Through the wall there are two links from the gate to the shape. -/
theorem gates_path : Walk.Path gatesCatalog.Link 2 ⟨.here, .handle, 1⟩ ⟨.here, .interface, 0⟩ := by
  have up : gatesCatalog.Link ⟨.here, .handle, 1⟩ ⟨.here, .handle, 0⟩ :=
    Catalog.link_iff.2 (.inl ⟨rfl, .inl (by decide +kernel)⟩)
  have named : gatesCatalog.Link ⟨.here, .handle, 0⟩ ⟨.here, .interface, 0⟩ :=
    Catalog.link_iff.2 (.inl ⟨rfl, .inr (by decide +kernel)⟩)
  exact .cons up (.cons named (.nil _))

end Sample

/-- The depth below an interface can be more than the length of a path, and more than one above the
depth of the parent. -/
theorem Builder.depth_not_shortest : ∃ p, (Builder.mk Sample.gates .unstarted [] none).Completes p ∧
      (p.draft.catalog p.tables).inheritDepth (TypeId.scalar ⟨.here, .interface, 0⟩)
        (TypeId.scalar ⟨.here, .handle, 1⟩) = some 3 ∧
      Walk.Path (p.draft.catalog p.tables).Link 2 ⟨.here, .handle, 1⟩ ⟨.here, .interface, 0⟩ ∧
      (p.draft.catalog p.tables).nextParent ⟨.here, .handle, 1⟩ = some ⟨.here, .handle, 0⟩ ∧
      (p.draft.catalog p.tables).inheritDepth (TypeId.scalar ⟨.here, .interface, 0⟩)
        (TypeId.scalar ⟨.here, .handle, 0⟩) = some 1 := by
  obtain ⟨p, completes, catalog⟩ := Sample.gates_completes
  refine ⟨p, completes, ?_⟩
  rw [catalog]
  exact ⟨Sample.gates_depth, Sample.gates_path, by decide +kernel, by decide +kernel⟩

/-- The two links from the gate to the shape go past the gate, over the wall. -/
theorem Catalog.inheritDepth_by_nearest_gates :
    Sample.gatesCatalog.inheritDepth (TypeId.scalar ⟨.here, .interface, 0⟩)
      (TypeId.scalar ⟨.here, .handle, 1⟩) = some 3 ∧
    Walk.Path Sample.gatesCatalog.Link 3 ⟨.here, .handle, 1⟩ ⟨.here, .interface, 0⟩ ∧
    ∃ k id above l, Walk.steps Sample.gatesCatalog.nextParent k ⟨.here, .handle, 1⟩ = some id ∧
      Sample.gatesCatalog.nextParent id = some above ∧
      Walk.Path Sample.gatesCatalog.Link l above ⟨.here, .interface, 0⟩ ∧ 2 = k + 1 + l := by
  obtain ⟨path, ⟨k, id, l, up, _, _, _, shorter⟩, _⟩ :=
    inheritDepth_by_nearest Sample.gatesCatalog rfl rfl Sample.gates_depth
  obtain ⟨above, l', next, rest, total⟩ := shorter 2 (by decide) Sample.gates_path
  exact ⟨Sample.gates_depth, path, k, id, above, l', up, next, rest, total⟩

end Linkage
