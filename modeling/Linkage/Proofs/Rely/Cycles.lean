/-
Purpose: The cycles reported among libraries are exactly those that the graph of the libraries
  has: none is reported unless there is one, and some is reported if there is one.
-/
import Linkage.Proofs.Loops
import Linkage.Proofs.Rely.Loaded

namespace Linkage.RelyGraph

open List

variable {a b : RelyNode} {i : Nat} {circle : List RelyNode} {g : RelyGraph}
  {node : RelyNode} {name : String}

/-! ### Which library relies on which -/

/-- A library goes by this name: the one that is compiled, or one given to it. -/
def IsKnown (g : RelyGraph) (name : String) : Prop :=
  name = g.current ∨ ∃ s ∈ g.libraries, s.name = name

/-- One library relies on another, both by name.  The library that is compiled relies on all
that it was given, another one on what its dependencies name.  Only the first library of a name
counts, and none that has the name of the one that is compiled. -/
inductive Relies (g : RelyGraph) : String → String → Prop
  | given {s : Surface} (member : s ∈ g.libraries) (other : s.name ≠ g.current) :
      Relies g g.current s.name
  | named {s : Surface} {name : String}
      (first : g.libraries.find? (fun t => t.name = s.name) = some s)
      (other : s.name ≠ g.current) (dependency : name ∈ s.dependencies)
      (known : g.IsKnown name) : Relies g s.name name

/-- Either the library that is compiled relies on one given, or one given on what it names. -/
theorem relies_cases {a b : String} (relies : g.Relies a b) :
    (a = g.current ∧ b ≠ g.current ∧ ∃ s ∈ g.libraries, s.name = b) ∨ (a ≠ g.current ∧ g.IsKnown b ∧
        ∃ s, g.libraries.find? (fun t => t.name = a) = some s ∧ b ∈ s.dependencies) := by
  cases relies with
  | given member other => exact .inl ⟨rfl, other, _, member, rfl⟩
  | named first other dependency known => exact .inr ⟨other, known, _, first, dependency⟩

/-! ### Libraries and their names -/

/-- A library that its own name leads to. -/
def Stands (g : RelyGraph) (node : RelyNode) : Prop := g.node? (g.nodeName node) = some node

theorem node?_current (g : RelyGraph) : g.node? g.current = some .current := if_pos rfl

theorem stands_current (g : RelyGraph) : g.Stands .current := g.node?_current

theorem nodeName_rely {s : Surface} (found : g.libraries[i]? = some s) :
    g.nodeName (.rely i) = s.name := by
  simp [nodeName, found]

theorem nodeName_of_node? (leads : g.node? name = some node) : g.nodeName node = name := by
  cases node with
  | current =>
    unfold node? at leads
    split at leads
    · rename_i same
      exact same.symm
    · cases found : g.libraries.findIdx? fun s => s.name = name <;> simp [found] at leads
  | rely i =>
    obtain ⟨s, found, rfl⟩ := exists_of_node? leads
    exact nodeName_rely found

theorem stands_of_node? (leads : g.node? name = some node) : g.Stands node := by
  rw [Stands, nodeName_of_node? leads, leads]

theorem Stands.eq_of_nodeName (first : g.Stands a) (second : g.Stands b)
    (same : g.nodeName a = g.nodeName b) : a = b := by
  rw [Stands, same, second] at first
  exact (Option.some.inj first).symm

theorem isKnown_iff : g.IsKnown name ↔ ∃ node, g.node? name = some node := by
  unfold IsKnown node?
  by_cases here : name = g.current
  · simp [here]
  · simp only [here, false_or, if_false]
    rw [← Option.isSome_iff_exists, Option.isSome_map, findIdx?_isSome]
    simp

/-- A library is at a place that its name leads to if it is the first of its name, and its name
is not that of the library that is compiled. -/
theorem node?_eq_rely_iff : g.node? name = some (.rely i) ↔
      name ≠ g.current ∧ (g.libraries.findIdx? fun s => s.name = name) = some i := by
  unfold node?
  split
  · rename_i same
    simp [same]
  · rename_i other
    simp [other]

theorem find?_of_node? (leads : g.node? name = some (.rely i)) :
    ∃ s, g.libraries[i]? = some s ∧ s.name = name ∧
      g.libraries.find? (fun t => t.name = name) = some s := by
  obtain ⟨s, found, named⟩ := exists_of_node? leads
  refine ⟨s, found, named, ?_⟩
  rw [find?_eq_bind_findIdx?_getElem?, (node?_eq_rely_iff.1 leads).2]
  exact found

/-- The libraries given that stand. -/
theorem mem_relyNodes : node ∈ g.relyNodes ↔ node ≠ .current ∧ g.Stands node := by
  constructor
  · intro member
    obtain ⟨⟨s, i⟩, _, kept⟩ := mem_filterMap.1 member
    dsimp only at kept
    split at kept
    · rename_i leads
      cases kept
      exact ⟨nofun, stands_of_node? leads⟩
    · cases kept
  · rintro ⟨notCurrent, stands⟩
    cases node with
    | current => exact absurd rfl notCurrent
    | rely i =>
      obtain ⟨s, found, named⟩ := exists_of_node? stands
      refine mem_filterMap.2 ⟨(s, i), mk_mem_zipIdx_iff_getElem?.2 found, ?_⟩
      exact if_pos (named ▸ stands)

/-! ### Edges -/

theorem mem_edges_rely :
    node ∈ g.edges (.rely i) ↔ ∃ s name, g.libraries[i]? = some s ∧ name ∈ s.dependencies ∧
      g.node? name = some node := by
  simp only [edges, mem_mergeSort, mem_filterMap]
  cases g.libraries[i]? with
  | none | some s => simp

theorem stands_of_mem_edges (edge : b ∈ g.edges a) : g.Stands b := by
  cases a with
  | current => exact (mem_relyNodes.1 edge).2
  | rely i =>
    obtain ⟨s, name, _, _, leads⟩ := mem_edges_rely.1 edge
    exact stands_of_node? leads

/-- The edges of a library that stands lead to what it relies on. -/
theorem relies_iff_edge (stands : g.Stands node) :
    g.Relies (g.nodeName node) name ↔ ∃ b ∈ g.edges node, g.nodeName b = name := by
  cases node with
  | current =>
    constructor
    · intro relies
      rcases relies_cases relies with ⟨_, other, s, member, rfl⟩ | ⟨other, _⟩
      · obtain ⟨b, leads⟩ := isKnown_iff.1 (.inr ⟨s, member, rfl⟩)
        refine ⟨b, mem_relyNodes.2 ⟨?_, stands_of_node? leads⟩, nodeName_of_node? leads⟩
        rintro rfl
        exact other (nodeName_of_node? leads).symm
      · exact absurd rfl other
    · rintro ⟨b, edge, rfl⟩
      obtain ⟨notCurrent, stands⟩ := mem_relyNodes.1 edge
      cases b with
      | current => exact absurd rfl notCurrent
      | rely i =>
        obtain ⟨s, found, named⟩ := exists_of_node? stands
        rw [← named]
        exact .given (mem_of_getElem? found) (named ▸ (node?_eq_rely_iff.1 stands).1)
  | rely i =>
    obtain ⟨s, found, named, first⟩ := find?_of_node? stands
    have other : s.name ≠ g.current := named ▸ (node?_eq_rely_iff.1 stands).1
    rw [← named] at first ⊢
    constructor
    · intro relies
      rcases relies_cases relies with ⟨same, _⟩ | ⟨_, known, s', first', dependency⟩
      · exact absurd same other
      · rw [first] at first'
        cases first'
        obtain ⟨b, leads⟩ := isKnown_iff.1 known
        exact ⟨b, mem_edges_rely.2 ⟨s, name, found, dependency, leads⟩, nodeName_of_node? leads⟩
    · rintro ⟨b, edge, rfl⟩
      obtain ⟨s', name, found', dependency, leads⟩ := mem_edges_rely.1 edge
      rw [found] at found'
      cases found'
      rw [nodeName_of_node? leads]
      exact .named first other dependency (isKnown_iff.2 ⟨b, leads⟩)

theorem exists_stands_of_relies {a b : String} (relies : g.Relies a b) :
    ∃ node, g.Stands node ∧ g.nodeName node = a := by
  have known : g.IsKnown a := by
    rcases relies_cases relies with ⟨same, _⟩ | ⟨_, _, s, first, _⟩
    · exact .inl same
    · exact .inr ⟨s, mem_of_find?_eq_some first, by simpa using find?_some first⟩
  obtain ⟨node, leads⟩ := isKnown_iff.1 known
  exact ⟨node, stands_of_node? leads, nodeName_of_node? leads⟩

/-! ### Circles that a search meets -/

/-- The circles that the search from the library that is compiled meets. -/
def circles (g : RelyGraph) : List (List RelyNode) :=
  (Walk.loops g.edges g.relyNodes [.current] (g.edges .current)).2

theorem cycles_eq (g : RelyGraph) :
    g.cycles = g.circles.map fun circle => .cycle (circle.map g.nodeName) := rfl

/-- A circle that is met is one: edges lead from library to library, all of which stand, and the
library that is compiled is on it only if the circle starts there. -/
structure Circle (g : RelyGraph) (circle : List RelyNode) : Prop where
  loop : Walk.IsLoop (fun a b => b ∈ g.edges a) circle
  stands : ∀ node ∈ circle, g.Stands node
  start : .current ∈ circle → circle.head? = some .current

theorem circle_of_mem (met : circle ∈ g.circles) : g.Circle circle := by
  have start : Walk.Trail g.edges g.relyNodes [.current] [.current] :=
    ⟨prefix_refl _, fun _ => .inl, by simp, by simp⟩
  obtain ⟨before, a, after, way, back, rfl⟩ := Walk.exists_trail_of_mem_loops start (by simp) met
  have suffix : a :: after <:+ before ++ a :: after := suffix_append _ _
  refine ⟨Walk.isLoop_of_trail (suffix.sublist.nodup way.nodup) (way.linked.suffix suffix) back,
    ?_, ?_⟩
  · have onWay (node : RelyNode) (member : node ∈ a :: after) : g.Stands node := by
      rcases way.inside node (suffix.subset member) with first | given
      · rw [mem_singleton.1 first]
        exact g.stands_current
      · exact (mem_relyNodes.1 given).2
    intro node member
    rcases mem_append.1 member with early | last
    · exact onWay node early
    · rw [mem_singleton.1 last]
      exact onWay a (mem_cons_self ..)
  · intro member
    have onWay : RelyNode.current ∈ a :: after := by
      rcases mem_append.1 member with early | last
      · exact early
      · rw [mem_singleton.1 last]
        exact mem_cons_self ..
    rw [way.eq_of_mem_loop onWay]
    rfl

/-- Where all circles that are met start at excepted libraries, edges to other libraries can be
followed only finitely often. -/
theorem acc_of_circles {excepted : RelyNode → Prop}
    (starts : ∀ circle ∈ g.circles, ∀ a ∈ circle.head?, excepted a)
    (stands : g.Stands node) : Acc (Walk.Below g.edges excepted) node := by
  have known (b : RelyNode) (stands : g.Stands b) : b ∈ g.relyNodes ∨ b ∈ [RelyNode.current] ∨
      Acc (Walk.Below g.edges excepted) b := by
    by_cases isCurrent : b = .current
    · exact .inr (.inl (mem_singleton.2 isCurrent))
    · exact .inl (mem_relyNodes.2 ⟨isCurrent, stands⟩)
  have visited := (Walk.acc_of_loops (fun a b edge => known b (stands_of_mem_edges edge))
    (fun b edge => known b (stands_of_mem_edges edge)) starts).2
  have given (b : RelyNode) (member : b ∈ g.relyNodes) : Acc (Walk.Below g.edges excepted) b := by
    refine visited b member (Walk.not_mem_loops_left_of_mem ?_ member)
    exact fun first => (mem_relyNodes.1 member).1 (mem_singleton.1 first)
  by_cases isCurrent : node = .current
  · subst isCurrent
    exact Acc.intro _ fun b below => given b below.1
  · exact given node (mem_relyNodes.2 ⟨isCurrent, stands⟩)

/-- Where no circle is met, what a library relies on can be followed only finitely often. -/
theorem acc_relies_of_circles (none : g.circles = []) (stands : g.Stands node) :
    Acc (fun b a => g.Relies a b) (g.nodeName node) := by
  have ends : Acc (Walk.Below g.edges fun _ => False) node := acc_of_circles (by simp [none]) stands
  induction ends with
  | intro node _ ih =>
    refine Acc.intro _ fun name relies => ?_
    obtain ⟨b, edge, rfl⟩ := (relies_iff_edge stands).1 relies
    exact ih b ⟨edge, not_false⟩ (stands_of_mem_edges edge)

/-- The names along a circle that is met form a loop of libraries that rely on one another. -/
theorem Circle.names (met : g.Circle circle) : Walk.IsLoop g.Relies (circle.map g.nodeName) := by
  refine met.loop.map ?_ ?_
  · intro a inA b inB same
    exact (met.stands a inA).eq_of_nodeName (met.stands b inB) same
  · intro a inA b _ edge
    exact (relies_iff_edge (met.stands a inA)).2 ⟨b, edge, rfl⟩

/-- A cycle is reported exactly if the libraries rely on one another in a circle, and every
report is the chain of names along such a circle: it ends where it starts, meets no library
twice on the way, and goes from each library to one that it relies on. -/
theorem cycles_exact (g : RelyGraph) :
    (g.cycles = [] ↔ ∀ name, ¬Relation.TransGen g.Relies name name) ∧
      ∀ problem ∈ g.cycles, ∃ chain, problem = .cycle chain ∧ Walk.IsLoop g.Relies chain := by
  have reported : ∀ problem ∈ g.cycles,
      ∃ chain, problem = .cycle chain ∧ Walk.IsLoop g.Relies chain := by
    intro problem member
    obtain ⟨circle, met, rfl⟩ := mem_map.1 (g.cycles_eq ▸ member)
    exact ⟨_, rfl, (circle_of_mem met).names⟩
  refine ⟨⟨?_, ?_⟩, reported⟩
  · intro quiet name round
    obtain ⟨b, first, _⟩ := Relation.TransGen.head'_iff.1 round
    obtain ⟨node, stands, rfl⟩ := exists_stands_of_relies first
    have none : g.circles = [] := map_eq_nil_iff.1 (g.cycles_eq ▸ quiet)
    exact Walk.not_transGen_self_of_acc (acc_relies_of_circles none stands) round
  · intro acyclic
    rw [eq_nil_iff_forall_not_mem]
    intro problem member
    obtain ⟨chain, _, loop⟩ := reported problem member
    obtain ⟨name, _, round⟩ := loop.transGen
    exact acyclic name round

end Linkage.RelyGraph
