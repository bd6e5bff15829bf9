/-
Purpose: The loops that a search in depth lists are loops, and where it lists none there is
  none: what was visited can be left along links only finitely often.
-/
import Linkage.Proofs.Walk
import Mathlib.Data.List.Chain

namespace Linkage.Walk

open List

/-! ### Loops -/

variable {α β : Type} {link : α → α → Prop}

/-- Places along links from one of them round to it again, on the way nowhere twice. -/
structure IsLoop (link : α → α → Prop) (places : List α) : Prop where
  long : 2 ≤ places.length
  closed : places.head? = places.getLast?
  nodup : places.dropLast.Nodup
  linked : places.IsChain link

/-- A trail whose last place links to its first is a loop. -/
theorem isLoop_of_trail {a : α} {after : List α} (nodup : (a :: after).Nodup)
    (linked : (a :: after).IsChain link) (back : ∀ x ∈ (a :: after).getLast?, link x a) :
    IsLoop link (a :: after ++ [a]) where
  long := by simp
  closed := by
    rw [getLast?_concat]
    rfl
  nodup := by rwa [dropLast_concat]
  linked := by
    refine linked.append (isChain_singleton a) ?_
    intro x last y first
    cases first
    exact back x last

theorem IsLoop.transGen {places : List α} (loop : IsLoop link places) :
    ∃ a ∈ places, Relation.TransGen link a a := by
  obtain ⟨long, closed, _, linked⟩ := loop
  match places with
  | a :: b :: rest =>
    obtain ⟨first, later⟩ := isChain_cons_cons.1 linked
    have last : (b :: rest).getLast (cons_ne_nil _ _) = a := by
      exact (Option.some.inj closed).symm
    have back : Relation.ReflTransGen link b a :=
      relationReflTransGen_of_exists_isChain_cons rest later last
    exact ⟨a, mem_cons_self .., .head' first back⟩

/-- A map that tells the places of a loop apart and keeps its links carries it to a loop. -/
theorem IsLoop.map {link' : β → β → Prop} {f : α → β} {places : List α} (loop : IsLoop link places)
    (apart : ∀ a ∈ places, ∀ b ∈ places, f a = f b → a = b)
    (keeps : ∀ a ∈ places, ∀ b ∈ places, link a b → link' (f a) (f b)) :
    IsLoop link' (places.map f) where
  long := by simpa using loop.long
  closed := by rw [head?_map, getLast?_map, loop.closed]
  nodup := by
    rw [← map_dropLast]
    refine loop.nodup.map_on fun a inA b inB => ?_
    exact apart a (dropLast_subset _ inA) b (dropLast_subset _ inB)
  linked := by
    rw [isChain_map]
    exact loop.linked.imp_of_mem_imp fun a b inA inB => keeps a inA b inB

/-- Where links can be followed only finitely often, none lead back. -/
theorem not_transGen_self_of_acc {a : α} (acc : Acc (fun b a => link a b) a) :
    ¬Relation.TransGen link a a := by
  intro round
  rw [← Relation.transGen_swap] at round
  have ends : Acc (Relation.TransGen fun b a => link a b) a := acc.transGen
  induction ends with
  | intro a _ ih => exact ih a round (acc.inv_of_transGen round) round

/-- A link that is followed: it does not lead to an excepted place. -/
def Below (next : α → List α) (excepted : α → Prop) (y x : α) : Prop := y ∈ next x ∧ ¬excepted y

/-! ### Every loop that is listed -/

/-- A way that a search can be on: it goes on from `path` through `room` along links, and is
nowhere twice. -/
structure Trail (next : α → List α) (room path trail : List α) : Prop where
  goesOn : path <+: trail
  inside : ∀ b ∈ trail, b ∈ path ∨ b ∈ room
  nodup : trail.Nodup
  linked : trail.IsChain fun a b => b ∈ next a

namespace Trail

variable {next : α → List α} {room room' path trail : List α}

theorem mono (way : Trail next room path trail) (wider : ∀ b ∈ room, b ∈ room') :
    Trail next room' path trail :=
  ⟨way.goesOn, fun b member => (way.inside b member).imp_right (wider b), way.nodup, way.linked⟩

/-- One more place, linked from the last one. -/
theorem concat (way : Trail next room path path) {a : α} (offPath : a ∉ path)
    (along : ∀ x ∈ path.getLast?, a ∈ next x) (room' : List α) :
    Trail next room' (path ++ [a]) (path ++ [a]) where
  goesOn := prefix_refl _
  inside := fun _ => .inl
  nodup := by
    rw [nodup_append]
    refine ⟨way.nodup, by simp, fun b member c last => ?_⟩
    rw [mem_singleton.1 last]
    rintro rfl
    exact offPath member
  linked := by
    refine way.linked.append (isChain_singleton a) ?_
    intro x last y first
    cases first
    exact along x last

/-- A loop that closes on a way from one place contains this place only if it starts there. -/
theorem eq_of_mem_loop {root a : α} {before after : List α}
    (way : Trail next room [root] (before ++ a :: after)) (member : root ∈ a :: after) :
    a = root := by
  obtain ⟨rest, whole⟩ := way.goesOn
  cases before with
  | nil =>
    rw [nil_append, singleton_append, List.cons.injEq] at whole
    exact whole.1.symm
  | cons first before =>
    rw [singleton_append, cons_append, List.cons.injEq] at whole
    have apart := way.nodup
    rw [cons_append, nodup_cons, ← whole.1] at apart
    exact absurd (mem_append_right _ member) apart.1

variable [DecidableEq α]

/-- A way on from one more place is a way on from the places before it. -/
theorem of_concat {a : α} (present : a ∈ room)
    (way : Trail next (without room a) (path ++ [a]) trail) : Trail next room path trail where
  goesOn := (prefix_append path [a]).trans way.goesOn
  inside := by
    intro b member
    rcases way.inside b member with onPath | off
    · rcases mem_append.1 onPath with early | last
      · exact .inl early
      · exact .inr (mem_singleton.1 last ▸ present)
    · exact .inr (mem_without.1 off).1
  nodup := way.nodup
  linked := way.linked

end Trail

variable [DecidableEq α]

theorem exists_of_dropWhile_ne {path : List α} {a : α} (onPath : a ∈ path) :
    ∃ before after, path = before ++ a :: after ∧
      path.dropWhile (fun b => decide (b ≠ a)) = a :: after := by
  induction path with
  | nil => simp at onPath
  | cons b rest ih =>
    by_cases here : b = a
    · exact ⟨[], rest, by simp [here], by simp [here]⟩
    · have later : a ∈ rest := (mem_cons.1 onPath).resolve_left fun same => here same.symm
      obtain ⟨before, after, whole, left⟩ := ih later
      refine ⟨b :: before, after, by rw [whole, cons_append], ?_⟩
      rw [dropWhile_cons_of_pos (by simpa using here), left]

/-- Every loop that is listed closes on a way that the search was on. -/
theorem exists_trail_of_mem_loops {next : α → List α} {room path targets loop : List α}
    (way : Trail next room path path) (along : ∀ t ∈ targets, ∀ x ∈ path.getLast?, t ∈ next x)
    (listed : loop ∈ (loops next room path targets).2) :
    ∃ before a after, Trail next room path (before ++ a :: after) ∧
      (∀ x ∈ (a :: after).getLast?, a ∈ next x) ∧ loop = a :: after ++ [a] := by
  fun_induction loops next room path targets with
  | case1 room path => simp at listed
  | case2 room path a others inPath rest ih =>
    rcases mem_cons.1 listed with rfl | later
    · obtain ⟨before, after, whole, left⟩ := exists_of_dropWhile_ne inPath
      refine ⟨before, a, after, whole ▸ way, fun x last => ?_, by rw [left]⟩
      refine along a (mem_cons_self ..) x ?_
      rw [whole, getLast?_append, last]
      rfl
    · exact ih way (fun t member => along t (mem_cons_of_mem _ member)) later
  | case3 room path a others offPath present below shorter rest ihBelow ihRest =>
    rcases mem_append.1 listed with deeper | later
    · have longer := way.concat offPath (along a (mem_cons_self ..)) (without room a)
      obtain ⟨before, b, after, found, back, same⟩ := ihBelow longer (by simp) deeper
      exact ⟨before, b, after, found.of_concat present, back, same⟩
    · have still : Trail next below.1.1 path path :=
        ⟨way.goesOn, fun _ => .inl, way.nodup, way.linked⟩
      obtain ⟨before, b, after, found, back, same⟩ :=
        ihRest still (fun t member => along t (mem_cons_of_mem _ member)) later
      refine ⟨before, b, after, found.mono fun c left => ?_, back, same⟩
      exact (mem_without.1 (mem_of_mem_loops_left left)).1
  | case4 room path a others offPath absent ih =>
    exact ih way (fun t member => along t (mem_cons_of_mem _ member)) listed

/-! ### Every loop is met -/

/-- Where all loops that are listed start at excepted places, links to other places can be
followed only finitely often, from every target and from every place that was visited. -/
theorem acc_of_loops {next : α → List α} {room path targets : List α} {excepted : α → Prop}
    (known : ∀ x, ∀ y ∈ next x, y ∈ room ∨ y ∈ path ∨ Acc (Below next excepted) y)
    (aimed : ∀ t ∈ targets, t ∈ room ∨ t ∈ path ∨ Acc (Below next excepted) t)
    (starts : ∀ loop ∈ (loops next room path targets).2, ∀ a ∈ loop.head?, excepted a) :
    (∀ t ∈ targets, ¬excepted t → Acc (Below next excepted) t) ∧
      ∀ a ∈ room, a ∉ (loops next room path targets).1.1 → Acc (Below next excepted) a := by
  fun_induction loops next room path targets with
  | case1 room path => exact ⟨by simp, fun a present gone => absurd present gone⟩
  | case2 room path a others inPath rest ih =>
    have isExcepted : excepted a := by
      obtain ⟨_, after, _, left⟩ := exists_of_dropWhile_ne inPath
      refine starts _ (mem_cons_self ..) a ?_
      rw [left]
      rfl
    obtain ⟨targets, visited⟩ := ih known (fun t member => aimed t (mem_cons_of_mem _ member))
      fun loop member => starts loop (mem_cons_of_mem _ member)
    refine ⟨fun t member other => ?_, visited⟩
    rcases mem_cons.1 member with rfl | later
    · exact absurd isExcepted other
    · exact targets t later other
  | case3 room path a others offPath present below shorter rest ihBelow ihRest =>
    have narrower (y : α) (place : y ∈ room ∨ y ∈ path ∨ Acc (Below next excepted) y) :
        y ∈ without room a ∨ y ∈ path ++ [a] ∨ Acc (Below next excepted) y := by
      grind [mem_without]
    obtain ⟨nextOnes, deeper⟩ := ihBelow (fun x y linked => narrower y (known x y linked))
      (fun t linked => narrower t (known a t linked))
      fun loop member => starts loop (mem_append_left _ member)
    have here : Acc (Below next excepted) a :=
      Acc.intro a fun y linked => nextOnes y linked.1 linked.2
    have visitedBelow (b : α) (inRoom : b ∈ room) (gone : b ∉ below.1.1) :
        Acc (Below next excepted) b := by
      by_cases same : b = a
      · exact same ▸ here
      · exact deeper b (mem_without.2 ⟨inRoom, same⟩) gone
    have fewer (y : α) (place : y ∈ room ∨ y ∈ path ∨ Acc (Below next excepted) y) :
        y ∈ below.1.1 ∨ y ∈ path ∨ Acc (Below next excepted) y := by
      rcases place with inRoom | other
      · by_cases left : y ∈ below.1.1
        · exact .inl left
        · exact .inr (.inr (visitedBelow y inRoom left))
      · exact .inr other
    obtain ⟨targets, visited⟩ := ihRest (fun x y linked => fewer y (known x y linked))
      (fun t member => fewer t (aimed t (mem_cons_of_mem _ member)))
      fun loop member => starts loop (mem_append_right _ member)
    refine ⟨fun t member other => ?_, fun b inRoom gone => ?_⟩
    · rcases mem_cons.1 member with rfl | later
      · exact here
      · exact targets t later other
    · by_cases left : b ∈ below.1.1
      · exact visited b left gone
      · exact visitedBelow b inRoom left
  | case4 room path a others offPath absent ih =>
    obtain ⟨targets, visited⟩ := ih known
      (fun t member => aimed t (mem_cons_of_mem _ member)) starts
    refine ⟨fun t member other => ?_, visited⟩
    rcases mem_cons.1 member with rfl | later
    · exact (aimed t (mem_cons_self ..)).elim (absurd · absent)
        fun place => place.elim (absurd · offPath) id
    · exact targets t later other

end Linkage.Walk
