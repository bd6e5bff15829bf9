/-
Purpose: Following links through a finite set of places without visiting one twice.
-/

namespace Linkage.Walk

variable {α : Type} [DecidableEq α]

/-- The places other than `a`. -/
def without (room : List α) (a : α) : List α := room.filter fun b => decide (b ≠ a)

theorem length_without_lt {room : List α} {a : α} (h : a ∈ room) :
    (without room a).length < room.length := by
  refine List.length_filter_lt_length_iff_exists.2 ⟨a, h, ?_⟩
  simp

/-- The places met by following `next` from `a`, each visited once.  The walk ends
at a place outside `room`, at one it has visited, or where there is no next one. -/
def chain (next : α → Option α) (room : List α) (a : α) : List α :=
  if a ∈ room then
    match next a with
    | none => [a]
    | some b => a :: chain next (without room a) b
  else []
termination_by room.length
decreasing_by exact length_without_lt (by assumption)

/-- The first result of `f` on the way that `chain` describes.  The walk goes no further
than that. -/
def search {β : Type} (next : α → Option α) (f : α → Option β) (room : List α) (a : α) : Option β :=
  if a ∈ room then
    match f a with
    | some b => some b
    | none =>
      match next a with
      | none => none
      | some b => search next f (without room a) b
  else none
termination_by room.length
decreasing_by exact length_without_lt (by assumption)

theorem search_eq_findSome? {β : Type} (next : α → Option α) (f : α → Option β)
    (room : List α) (a : α) :
    search next f room a = (chain next room a).findSome? f := by
  fun_induction search next f room a with
  | case1 room a h b hb =>
    rw [chain, if_pos h]
    cases next a <;> simp [hb]
  | case2 room a h hf hn =>
    rw [chain, if_pos h]
    simp [hn, hf]
  | case3 room a h hf b hn ih =>
    rw [chain, if_pos h]
    simp [hn, hf, ih]
  | case4 room a h =>
    rw [chain, if_neg h]
    simp

/-- How many places and links a walk can still meet. -/
def weight (next : α → List α) (room : List α) : Nat := (room.flatMap fun a => a :: next a).length

omit [DecidableEq α] in
theorem weight_le (next : α → List α) {left room : List α} (part : left.Sublist room) :
    weight next left ≤ weight next room := by
  unfold weight
  induction part with
  | slnil => exact Nat.le_refl _
  | cons a part ih | cons_cons a part ih =>
    simp only [List.flatMap_cons, List.length_append]
    omega

theorem weight_without_lt (next : α → List α) {room : List α} {a : α} (h : a ∈ room) :
    (next a).length + weight next (without room a) < weight next room := by
  obtain ⟨before, after, rfl⟩ := List.append_of_mem h
  have fewer : (without (before ++ a :: after) a).Sublist (before ++ after) := by
    simp only [without, List.filter_append, List.filter_cons, ne_eq, not_true_eq_false,
      decide_false]
    exact List.filter_sublist.append List.filter_sublist
  have := weight_le next fewer
  simp only [weight, List.flatMap_append, List.flatMap_cons, List.length_append,
    List.length_cons] at this ⊢
  omega

/-- Breadth-first search.  The queue holds places with their distance; each place of
`room` is listed once, at the distance at which it was first reached, and places
outside `room` are passed over. -/
def levels (next : α → List α) (room : List α) (queue : List (α × Nat)) : List (α × Nat) :=
  match queue with
  | [] => []
  | (a, distance) :: queue =>
    if a ∈ room then
      (a, distance) ::
        levels next (without room a) (queue ++ (next a).map fun b => (b, distance + 1))
    else
      levels next room queue
termination_by queue.length + weight next room
decreasing_by
  · have := weight_without_lt next (by assumption)
    simp
    omega
  · simp

/-- Depth-first search for links back into the path that leads to them.  `room` holds the
places not yet visited, `path` the places from the start to the one whose links are
`targets`.  Each link back into the path closes a loop, listed from the place it leads
to round to that place again.  The places left unvisited come with the loops. -/
def loops (next : α → List α) (room path targets : List α) :
    { left : List α // left.Sublist room } × List (List α) :=
  match targets with
  | [] => (⟨room, .refl _⟩, [])
  | a :: others =>
    if a ∈ path then
      let rest := loops next room path others
      (rest.1, (path.dropWhile (fun b => decide (b ≠ a)) ++ [a]) :: rest.2)
    else if a ∈ room then
      let below := loops next (without room a) (path ++ [a]) (next a)
      have fewer := below.1.2.trans List.filter_sublist
      let rest := loops next below.1.1 path others
      (⟨rest.1.1, rest.1.2.trans fewer⟩, below.2 ++ rest.2)
    else
      loops next room path others
termination_by targets.length + weight next room
decreasing_by
  · simp
  · have := weight_without_lt next (by assumption)
    simp
    omega
  · exact Nat.add_lt_add_of_lt_of_le (by simp) (weight_le next fewer)
  · simp

/-- Depth-first search for a route to `goal` that starts at one of `starts`: the route, or
the places of `room` that were not visited in vain. -/
def route (next : α → List α) (goal : α) (room starts : List α) :
    { left : List α // left.Sublist room } × Option (List α) :=
  match starts with
  | [] => (⟨room, .refl _⟩, none)
  | a :: others =>
    if a = goal then (⟨room, .refl _⟩, some [a])
    else if a ∈ room then
      let below := route next goal (without room a) (next a)
      have fewer := below.1.2.trans List.filter_sublist
      match below.2 with
      | some path => (⟨below.1.1, fewer⟩, some (a :: path))
      | none =>
        let rest := route next goal below.1.1 others
        (⟨rest.1.1, rest.1.2.trans fewer⟩, rest.2)
    else
      route next goal room others
termination_by starts.length + weight next room
decreasing_by
  · have := weight_without_lt next (by assumption)
    simp
    omega
  · exact Nat.add_lt_add_of_lt_of_le (by simp) (weight_le next fewer)
  · simp

end Linkage.Walk
