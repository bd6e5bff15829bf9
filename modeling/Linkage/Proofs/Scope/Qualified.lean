/-
Purpose: Whatever a published library declares is found under its full path where it is relied
  on.
-/
import Linkage.Proofs.Export.Published
import Linkage.Proofs.Reorder.Scopes
import Linkage.Proofs.Symbols.Spelling

namespace Linkage

open List Surface

variable {home : Home} {t : Table}

/-! ### Following a path -/

namespace Scope

variable {s : Scope}

theorem descend_append (s : Scope) (ref : SpaceRef) (names rest : List String) :
    s.descend ref (names ++ rest) = (s.descend ref names).bind fun ref => s.descend ref rest := by
  induction names generalizing ref with
  | nil => rfl
  | cons name names ih => simp only [cons_append, descend, Option.bind_assoc, ih]

/-- The path of a space leads to it from the root. -/
theorem descend_spacePath (atHome : s.catalog.table? home = some t) (tree : t.TreeShaped)
    (distinct : t.DistinctSpaces) {space : Nat} (inside : space < t.spaces.length) :
    s.descend ⟨home, Table.rootSpace⟩ (t.spacePath space) = some ⟨home, space⟩ := by
  -- Spaces lie in spaces with smaller numbers.
  induction space using Nat.strongRecOn with
  | ind space ih =>
    cases space with
    | zero => rw [tree.spacePath_root]; rfl
    | succ i =>
      obtain ⟨p, name, key, before⟩ := tree.exists_key inside
      have child := (Table.childSpace_eq_some_iff tree distinct).2 key
      rw [tree.spacePath_child key, descend_append, ih p (by omega) (by omega)]
      simp [descend, atHome, child]

/-- Where no space near by has the name of a library, the name stands for the root of the
library. -/
theorem spaceHead_of_library {name : String} (foreign : name ≠ Kernel.name)
    (named : s.catalog.relyNamed? name = some t)
    (around : ∀ space ∈ s.catalog.own.spaceChain s.space,
      s.catalog.own.childSpace space name = none)
    (imported : ∀ ref ∈ s.imports, ∀ t ∈ s.catalog.table? ref.home,
      t.childSpace ref.space name = none) : s.spaceHead name = some ⟨t.home, Table.rootSpace⟩ := by
  have noneAround : s.nearHead name = none := by
    rw [nearHead, findSome?_eq_none_iff]
    intro space encloses
    rw [around space encloses]
    rfl
  have noneImported : s.importedHead name = none := by
    rw [importedHead, findSome?_eq_none_iff]
    intro ref member
    cases atHome : s.catalog.table? ref.home with
    | none => rfl
    | some t =>
      rw [Option.bind_some, imported ref member t atHome]
      rfl
  simp [spaceHead_eq, noneAround, noneImported, farHead, foreign, named]

/-- A public entry may be referred to from everywhere, if the methods among the entries all have a
public function. -/
theorem isAccessible_of_entry (atHome : s.catalog.table? home = some t)
    (openly : ∀ m ∈ t.methods ++ t.natives, ∃ f ∈ m.functions, f.visibility = .public_)
    {e : Entity} {key : Nat × String} (stands : t.entryAt e = some key) :
    s.isAccessible ⟨home, .public_, e⟩ = true := by
  have visible (e : Entity) : s.isVisible ⟨home, .public_, e⟩ = true := by
    simp [isVisible, atHome, admits]
  by_cases isMethod : e.isMethod = true
  · obtain ⟨m, member, overloads, part, isPart⟩ : ∃ m ∈ t.methods ++ t.natives,
        t.overloads ⟨home, .public_, e⟩ = some m.functions ∧
        ∃ part, e.overload? 0 = some part := by
      cases e with
      | globalMethod i =>
        obtain ⟨m, found, _⟩ := Option.map_eq_some_iff.1 stands
        exact ⟨m, mem_append_left _ (mem_of_getElem? found),
          congrArg (Option.map Method.functions) found, _, rfl⟩
      | nativeMethod i =>
        obtain ⟨m, found, _⟩ := Option.map_eq_some_iff.1 stands
        exact ⟨m, mem_append_right _ (mem_of_getElem? found),
          congrArg (Option.map Method.functions) found, _, rfl⟩
      | memberMethod | interfaceMethod => cases stands
      | _ => cases isMethod
    obtain ⟨f, inside, isPublic⟩ := openly m member
    rw [isAccessible_eq_any isMethod, Catalog.overloads, atHome, Option.bind_some, overloads,
      Option.getD_some, any_eq_true]
    refine ⟨f, inside, ?_⟩
    rw [isPublic, Declaration.overload?, isPart]
    exact visible part
  · unfold isAccessible
    rw [if_neg isMethod]
    exact visible e

end Scope

/-! ### Published libraries -/

/-- The spaces of a published library are a tree in which paths are told apart, and its methods
have public functions. -/
theorem Surface.Published.open_tableAt {s : Surface} (published : s.Published) (ρ : Placement) :
    (s.tableAt ρ).TreeShaped ∧ (s.tableAt ρ).DistinctSpaces ∧
      ∀ m ∈ (s.tableAt ρ).methods ++ (s.tableAt ρ).natives,
        ∃ f ∈ m.functions, f.visibility = .public_ := by
  obtain ⟨b, p, completes, rfl⟩ := published
  obtain ⟨_, _, passes⟩ := Job.passes_of_completes completes
  obtain ⟨surface, _⟩ := passes.surface_eq
  have frames := Table.frames_surfaceOf passes.wellMade.tree (b.job.surfaces.map (·.name)) ρ
  have shown {m : Method} {methods : List Method}
      (member : m ∈ ((restrictMethods (fun f => f.visibility = .public_) methods).map
        p.draft.table.surfaceMethod).map (·.at ρ)) :
      ∃ f ∈ m.functions, f.visibility = .public_ := by
    obtain ⟨_, written, rfl⟩ := mem_map.1 member
    obtain ⟨_, kept, rfl⟩ := mem_map.1 written
    obtain ⟨restricted, inhabited⟩ := mem_filter.1 kept
    obtain ⟨old, _, rfl⟩ := mem_map.1 restricted
    obtain ⟨f, inside⟩ := exists_mem_of_ne_nil _ (by simpa using inhabited)
    have isPublic : f.visibility = .public_ := by simpa using (mem_filter.1 inside).2
    exact ⟨_, mem_map_of_mem (mem_map_of_mem inside), isPublic⟩
  rw [surface]
  refine ⟨passes.wellMade.tree.of_frames frames, ?_, ?_⟩
  · intro i j q name one other
    rw [Table.spaceKeys_of_frames frames] at one other
    exact passes.distinctSpaces one other
  · intro m member
    rw [methods_tableAt, natives_tableAt] at member
    rcases mem_append.1 member with method | native
    · exact shown method
    · exact shown native

/-- A library of a loaded list is the one that its name stands for. -/
theorem RelyGraph.Loaded.relyNamed? {g : RelyGraph} {built : List Rely} (loaded : g.Loaded built)
    (own : Table) (member : t ∈ built.map (·.table)) :
    (Catalog.mk own (built.map (·.table))).relyNamed? t.name = some t := by
  have named : g.Named := loaded.named
  cases found : (Catalog.mk own (built.map (·.table))).relyNamed? t.name with
  | none => simpa using find?_eq_none.1 found t member
  | some t' =>
    have same : t'.name = t.name := by simpa using find?_some found
    obtain ⟨i, atI⟩ := getElem?_of_mem member
    obtain ⟨j, atJ⟩ := getElem?_of_mem (mem_of_find?_eq_some found)
    obtain ⟨s, isS, rfl, _⟩ := loaded.surface_of_table atI
    obtain ⟨s', isS', rfl, _⟩ := loaded.surface_of_table atJ
    rw [name_tableAt, name_tableAt] at same
    obtain rfl := index_eq_of_nodup_map named.nodup isS' isS same
    exact congrArg some (Option.some.inj (atJ.symm.trans atI))

/-- Qualified names lead to what other libraries declare.  Where no space around a position and no
imported space has a space of the name of a library right below it, that name, the path of a space
and a name in it stand for what the library declares there, and nothing is reported. -/
theorem Scope.findPath_of_library {library : String} {surfaces : List Surface} {relies : List Rely}
    (published : ∀ s ∈ surfaces, s.Published)
    (loads : (RelyGraph.mk library surfaces).load = .ok relies)
    {r : Rely} (relied : r ∈ relies) (foreign : r.table.name ≠ Kernel.name)
    {space : Nat} {name : String} {d : Declaration} (declared : r.table.lookup space name = some d)
    {s : Scope} (sees : s.catalog.relies = relies.map (·.table))
    (around : ∀ outer ∈ s.catalog.own.spaceChain s.space,
      s.catalog.own.childSpace outer r.table.name = none)
    (imported : ∀ ref ∈ s.imports, ∀ t ∈ s.catalog.table? ref.home,
      t.childSpace ref.space r.table.name = none) (span : Span) :
    s.findPath (r.table.name :: r.table.spacePath space ++ [name]) span = ⟨some d, []⟩ := by
  have loaded := RelyGraph.loaded_of_load loads
  have member : r.table ∈ relies.map (·.table) := mem_map_of_mem relied
  have named : s.catalog.relyNamed? r.table.name = some r.table := by
    rw [Catalog.relyNamed?, sees]
    exact loaded.relyNamed? s.catalog.own member
  obtain ⟨i, atIndex⟩ := getElem?_of_mem member
  have atHome : s.catalog.table? (.rely i) = some r.table := by
    rw [Catalog.table?, sees]
    exact atIndex
  obtain ⟨written, isWritten, table, _, spaced⟩ := loaded.surface_of_table atIndex
  have home : r.table.home = .rely i := table ▸ home_tableAt
  obtain ⟨tree, distinct, openly⟩ :=
    (published written (mem_of_getElem? isWritten)).open_tableAt
      ((RelyGraph.mk library surfaces).placement written i)
  have found : (written.tableAt ((RelyGraph.mk library surfaces).placement written i)).find
      (space, name) = some d := table ▸ declared
  obtain ⟨e, isEntry, stands⟩ := exists_entry_tableAt spaced.parents found
  rw [← table] at tree distinct openly stands
  have inside : space < r.table.spaces.length := by
    obtain ⟨_, there, _⟩ := Option.bind_eq_some_iff.1 declared
    exact (List.getElem?_eq_some_iff.1 there).1
  have leads : s.findSpace (r.table.name :: r.table.spacePath space) = some ⟨.rely i, space⟩ := by
    rw [findSpace, spaceHead_of_library foreign named around imported, home]
    exact descend_spacePath atHome tree distinct inside
  have access : s.isAccessible d = true := by
    rw [isEntry]
    exact isAccessible_of_entry atHome openly stands
  unfold findPath
  rw [getLast?_concat, dropLast_concat]
  simp only [isEmpty_cons, Bool.false_eq_true, if_false, leads, atHome, Option.bind_some,
    declared, access, if_true]
  rfl

/-- A file of the library of tiles, which imports the library of shapes. -/
def Sample.tilesScope : Scope where
  catalog := ⟨tilesMerged.table, [shapesRely.table]⟩
  space := Table.rootSpace
  type := none
  imports := [⟨.rely 0, Table.rootSpace⟩]
  path := "tiles"

/-- The class of squares is found under the name of its library and its own. -/
theorem Scope.findPath_of_library_square :
    Sample.tilesScope.findPath ["Shapes", "Square"] ⟨0, 20, 33⟩ =
      ⟨some ⟨.rely 0, .public_, .classDef 0⟩, []⟩ := by
  obtain ⟨foreign, declared, around, imported, path⟩ : Sample.shapesRely.table.name ≠ Kernel.name ∧
      Sample.shapesRely.table.lookup Table.rootSpace "Square" =
        some ⟨.rely 0, .public_, .classDef 0⟩ ∧
      (∀ outer ∈ Sample.tilesScope.catalog.own.spaceChain Sample.tilesScope.space,
        Sample.tilesScope.catalog.own.childSpace outer Sample.shapesRely.table.name = none) ∧
      (∀ ref ∈ Sample.tilesScope.imports, ∀ t ∈ Sample.tilesScope.catalog.table? ref.home,
        t.childSpace ref.space Sample.shapesRely.table.name = none) ∧
      Sample.shapesRely.table.name :: Sample.shapesRely.table.spacePath Table.rootSpace =
        ["Shapes"] := by
    decide +kernel
  have found := findPath_of_library Sample.tiles_published Sample.tiles_loads
    (mem_singleton_self Sample.shapesRely) foreign declared (s := Sample.tilesScope) rfl
    around imported ⟨0, 20, 33⟩
  rwa [path] at found

end Linkage
