/-
Purpose: What a table of declarations from source files guarantees, whatever its types are.
-/
import Linkage.Proofs.Table.Spaces

namespace Linkage

/-- All functions of a method were written somewhere. -/
def Method.Sourced (m : Method) : Prop := ∀ f ∈ m.functions, f.source.isSome = true

/-- A class from source: it knows where it and its members were written, and its member names
lead exactly to its variables and methods, which are as visible as the widest of their
functions. -/
structure ClassDef.WellMade (index : Nat) (c : ClassDef) : Prop where
  kind : c.kind = .handle
  source : c.source.isSome = true
  names : Faithful .here c.members.find? (c.memberAt index)
  shown : Shown c.members.find? (classMemberVisibilities c.fields c.methods index)
  fields : ∀ v ∈ c.fields, v.source.isSome = true
  methods : ∀ m ∈ c.methods, m.Sourced
  constructors : ∀ f ∈ c.constructors, f.source.isSome = true

/-- An interface from source: its member names lead exactly to its methods, which are
public, and each method has a function. -/
structure InterfaceDef.WellMade (index : Nat) (i : InterfaceDef) : Prop where
  source : i.source.isSome = true
  names : Faithful .here i.members.find? (i.memberAt index)
  open_ : ∀ {name d}, i.members.find? name = some d → d.visibility = .public_
  shown : Shown i.members.find? (interfaceMemberVisibilities i.methods index)
  methods : ∀ m ∈ i.methods, m.functions ≠ [] ∧ m.Sourced

/-- A table from source: what it declares and the spaces it has bear different names, and a
declaration is as visible as the widest of what it declares. -/
structure Table.WellMade (t : Table) : Prop where
  home : t.home = .here
  tree : t.TreeShaped
  apart : t.Apart
  names : Faithful .here t.find t.entryAt
  shown : Shown t.find t.visibilities
  classes : ∀ {i : Nat} {c : ClassDef}, t.classes[i]? = some c → c.WellMade i
  interfaces : ∀ {i : Nat} {d : InterfaceDef}, t.interfaces[i]? = some d → d.WellMade i
  delegates : ∀ d ∈ t.delegates, d.source.isSome = true
  coroutines : ∀ c ∈ t.coroutines, c.source.isSome = true
  globals : ∀ v ∈ t.globals, v.source.isSome = true
  methods : ∀ m ∈ t.methods, m.Sourced
  natives : ∀ m ∈ t.natives, m.Sourced

theorem Table.WellMade.space_lt {t : Table} (made : t.WellMade) {e : Entity} {space : Nat}
    {name : String} (stands : t.entryAt e = some (space, name)) : space < t.spaces.length := by
  obtain ⟨d, found, _⟩ := made.names.complete stands
  obtain ⟨s, inside, _⟩ := Option.bind_eq_some_iff.1 found
  exact lt_of_getElem? inside

/-! ### Types do not matter -/

private theorem sourced_of_skeleton {fs fs' : List Function}
    (same : fs.map Function.skeleton = fs'.map Function.skeleton)
    (all : ∀ f ∈ fs, f.source.isSome = true) : ∀ f ∈ fs', f.source.isSome = true := by
  refine forall_mem_of_map_eq (fun f f' equal sourced => ?_) same all
  have sources : f.source = f'.source := (congrArg Function.source equal :)
  exact sources ▸ sourced

theorem Method.Sourced.of_skeleton {m m' : Method} (same : m.skeleton = m'.skeleton)
    (sourced : m.Sourced) : m'.Sourced :=
  sourced_of_skeleton (congrArg Method.functions same :) sourced

theorem ClassDef.WellMade.of_skeleton {index : Nat} {c c' : ClassDef}
    (same : c.skeleton = c'.skeleton) (made : c.WellMade index) : c'.WellMade index where
  kind := (congrArg ClassDef.kind same :).symm.trans made.kind
  source := (congrArg ClassDef.source same :) ▸ made.source
  names := by
    have members : c.members = c'.members := (congrArg ClassDef.members same :)
    exact made.names.congr (fun _ => by rw [members])
      fun e => (memberAt_eq_of_skeleton same index e).symm
  shown := by
    have members : c.members = c'.members := (congrArg ClassDef.members same :)
    refine ⟨fun {name d} found => ?_⟩
    rw [← memberVisibilities_eq_of_skeleton same]
    exact made.shown.widest (members ▸ found)
  fields := by
    refine forall_mem_of_map_eq (fun v v' equal sourced => ?_)
      (congrArg ClassDef.fields same :) made.fields
    have sources : v.source = v'.source := (congrArg MemberVariable.source equal :)
    exact sources ▸ sourced
  methods := forall_mem_of_map_eq (fun _ _ equal sourced => sourced.of_skeleton equal)
    (congrArg ClassDef.methods same :) made.methods
  constructors := sourced_of_skeleton (congrArg ClassDef.constructors same :) made.constructors

theorem InterfaceDef.WellMade.of_skeleton {index : Nat} {i i' : InterfaceDef}
    (same : i.skeleton = i'.skeleton) (made : i.WellMade index) : i'.WellMade index := by
  have members : i.members = i'.members := (congrArg InterfaceDef.members same :)
  refine ⟨(congrArg InterfaceDef.source same :) ▸ made.source, ?_, ?_, ?_, ?_⟩
  · exact made.names.congr (fun _ => by rw [members])
      fun e => (memberAt_eq_of_skeleton same index e).symm
  · rw [← members]
    exact made.open_
  · refine ⟨fun {name d} found => ?_⟩
    rw [← memberVisibilities_eq_of_skeleton same]
    exact made.shown.widest (members ▸ found)
  · refine forall_mem_of_map_eq (fun m m' equal held => ⟨?_, held.2.of_skeleton equal⟩)
      (congrArg InterfaceDef.methods same :) made.methods
    have functions : m.functions.map Function.skeleton = m'.functions.map Function.skeleton :=
      (congrArg Method.functions equal :)
    intro empty
    rw [empty, List.map_nil, List.map_eq_nil_iff] at functions
    exact held.1 functions

/-- Whether a table is well made is decided by its skeleton. -/
theorem Table.WellMade.of_skeleton {t t' : Table} (same : t.skeleton = t'.skeleton)
    (made : t.WellMade) : t'.WellMade where
  home := (home_eq_of_skeleton same).symm.trans made.home
  tree := made.tree.of_skeleton same
  apart := made.apart.of_spaces (spaces_eq_of_skeleton same)
  names := made.names.congr (fun key => by rw [find_eq_of_skeleton same])
    fun e => (entryAt_eq_of_skeleton same e).symm
  shown := by
    refine ⟨fun {key d} found => ?_⟩
    rw [← visibilities_eq_of_skeleton same]
    exact made.shown.widest (find_eq_of_skeleton same key ▸ found)
  classes := by
    intro i c' found
    obtain ⟨c, found', alike⟩ := exists_class_of_skeleton same.symm found
    exact (made.classes found').of_skeleton alike
  interfaces := by
    intro i d' found
    obtain ⟨d, found', alike⟩ := exists_interface_of_skeleton same.symm found
    exact (made.interfaces found').of_skeleton alike
  delegates := by
    refine forall_mem_of_map_eq (fun d d' equal sourced => ?_)
      (congrArg Table.delegates same :) made.delegates
    have sources : d.source = d'.source := (congrArg DelegateDef.source equal :)
    exact sources ▸ sourced
  coroutines := by
    refine forall_mem_of_map_eq (fun c c' equal sourced => ?_)
      (congrArg Table.coroutines same :) made.coroutines
    have sources : c.source = c'.source := (congrArg CoroutineDef.source equal :)
    exact sources ▸ sourced
  globals := by
    refine forall_mem_of_map_eq (fun v v' equal sourced => ?_)
      (congrArg Table.globals same :) made.globals
    have sources : v.source = v'.source := (congrArg VariableDef.source equal :)
    exact sources ▸ sourced
  methods := forall_mem_of_map_eq (fun _ _ equal sourced => sourced.of_skeleton equal)
    (congrArg Table.methods same :) made.methods
  natives := forall_mem_of_map_eq (fun _ _ equal sourced => sourced.of_skeleton equal)
    (congrArg Table.natives same :) made.natives

end Linkage
