/-
Purpose: What the walks through a finite set of places visit, and when two walks through
  different sets visit corresponding places.
-/
import Linkage.Walk
import Mathlib.Data.List.Nodup
import Mathlib.Data.Nat.Find
import Mathlib.Logic.Relation

namespace Linkage.Walk

open List Option

variable {n i m h : Nat} {α β : Type} {room : List α} {a : α}

/-! ### Steps -/

section

variable {next : α → Option α}

/-- The relation of a place to the one that a walk goes on to. -/
def Onward (next : α → Option α) (b a : α) : Prop := next a = some b

/-- A walk that ends never comes back to where it was. -/
theorem not_transGen_self {r : α → α → Prop} (ends : Acc r a) : ¬Relation.TransGen r a a := by
  have accessible := ends.transGen
  clear ends
  intro back
  induction accessible with
  | intro x _ ih => exact ih x back back

/-- The place that a number of steps leads to. -/
def steps (next : α → Option α) : Nat → α → Option α
  | 0, a => some a
  | n + 1, a => (next a).bind (steps next n)

theorem steps_add (m n : Nat) (a : α) :
    steps next (m + n) a = (steps next m a).bind (steps next n) := by
  induction m generalizing a with
  | zero => simp [steps]
  | succ m ih =>
    rw [Nat.succ_add, steps, steps, bind_assoc]
    congr 1
    funext b
    exact ih b

theorem steps_mono {next next' : α → Option α} (fewer : ∀ x y, next' x = some y → next x = some y)
    {a b : α} (path : steps next' n a = some b) : steps next n a = some b := by
  induction n generalizing a with
  | zero => exact path
  | succ n ih =>
    obtain ⟨c, go, rest⟩ := bind_eq_some_iff.1 path
    rw [steps, fewer a c go]
    exact ih rest

theorem steps_keep {P : α → Prop} (keeps : ∀ x y, P x → next x = some y → P y) {a b : α}
    (start : P a) (path : steps next n a = some b) : P b := by
  induction n generalizing a with
  | zero =>
    cases path
    exact start
  | succ n ih =>
    obtain ⟨c, go, rest⟩ := bind_eq_some_iff.1 path
    exact ih (keeps a c start go) rest

theorem steps_succ (n : Nat) (a : α) : steps next (n + 1) a = (steps next n a).bind next := by
  rw [steps_add]
  congr 1
  funext b
  cases go : next b <;> simp [steps, go]

/-- No number of steps leads back to a place from which a walk ends. -/
theorem steps_succ_ne_self (ends : Acc (Onward next) a) (n : Nat) :
    steps next (n + 1) a ≠ some a := by
  induction ends with
  | intro a _ ih =>
    intro back
    obtain ⟨b, go, path⟩ := bind_eq_some_iff.1 back
    refine ih b go ?_
    rw [steps_add, path]
    simp [steps, go]

theorem acc_of_steps {a b : α} (ends : Acc (Onward next) a)
    (path : steps next n a = some b) : Acc (Onward next) b :=
  steps_keep (fun _ _ ends go => ends.inv go) ends path

theorem steps_ne_of_lt {a b : α} (ends : Acc (Onward next) a) {j : Nat}
    (less : i < j) (path : steps next j a = some b) : steps next i a ≠ some b := by
  intro earlier
  rw [show j = i + (j - i - 1 + 1) by omega, steps_add, earlier] at path
  exact steps_succ_ne_self (acc_of_steps ends earlier) _ path

/-- Walks that go on alike from all places that one of them meets are the same. -/
theorem steps_congr {next' : α → Option α}
    (same : ∀ n b, steps next n a = some b → next' b = next b) (n : Nat) :
    steps next' n a = steps next n a := by
  induction n with
  | zero => rfl
  | succ n ih =>
    rw [steps_succ, steps_succ, ih]
    cases reached : steps next n a with
    | none => rfl
    | some b => exact same n b reached

/-- A walk that comes back goes on forever, and from every place back to its start. -/
theorem return_of_steps (back : steps next (n + 1) a = some a) (m : Nat) :
    ∃ b k, steps next m a = some b ∧ steps next (k + 1) b = some a := by
  induction m with
  | zero => exact ⟨a, n, rfl, back⟩
  | succ m ih =>
    obtain ⟨b, k, reached, onward⟩ := ih
    obtain ⟨c, go, rest⟩ := bind_eq_some_iff.1 onward
    have next' : steps next (m + 1) a = some c := by rw [steps_succ, reached, bind_some, go]
    cases k with
    | zero =>
      cases rest
      exact ⟨a, n, next', back⟩
    | succ k => exact ⟨c, k, next', rest⟩

/-- The places from one on until the walk is back there for the first time. -/
def Round (next : α → Option α) (a : α) (cycle : List α) : Prop :=
  ∃ n, steps next (n + 1) a = some a ∧ (∀ m, m < n → steps next (m + 1) a ≠ some a) ∧
    cycle.length = n + 2 ∧ ∀ m, m ≤ n + 1 → cycle[m]? = steps next m a

theorem Round.congr {next' : α → Option α} {cycle : List α}
    (same : ∀ n, steps next' n a = steps next n a) (round : Round next' a cycle) :
    Round next a cycle := by
  simpa only [Round, same] using round

end

/-- Following links ends in an image if each link there is the image of one. -/
theorem acc_map {r : α → α → Prop} {r' : β → β → Prop} {φ : α → β}
    (image : ∀ a b', r' b' (φ a) → ∃ b, r b a ∧ φ b = b') (ends : Acc r a) : Acc r' (φ a) := by
  induction ends with
  | intro a _ ih =>
    apply Acc.intro
    intro b' link
    obtain ⟨b, below, rfl⟩ := image a b' link
    exact ih b below

variable [DecidableEq α] [DecidableEq β]

@[simp] theorem mem_without {a b : α} : b ∈ without room a ↔ b ∈ room ∧ b ≠ a := by
  simp [without]

/-! ### Corresponding walks

Two walks correspond when a map carries each place of the first to a place of the second and
commutes with going on.  The sets that the walks are confined to need not correspond, only
the places that are met. -/

/-- What the places that a walk can meet have in common: the map tells them apart and
carries one room into the other. -/
structure Carries (φ : α → β) (D : α → Prop) (room : List α) (room' : List β) : Prop where
  injective : ∀ x y, D x → D y → φ x = φ y → x = y
  rooms : ∀ x, D x → (φ x ∈ room' ↔ x ∈ room)

/-- Leaving out a place and its image keeps the correspondence. -/
theorem Carries.without {φ : α → β} {D : α → Prop} {room' : List β}
    (carries : Carries φ D room room') (inside : D a) :
    Carries φ D (Walk.without room a) (Walk.without room' (φ a)) where
  injective := carries.injective
  rooms := by
    intro x member
    rw [mem_without, mem_without, carries.rooms x member]
    constructor
    · rintro ⟨present, different⟩
      exact ⟨present, fun same => different (congrArg φ same)⟩
    · rintro ⟨present, different⟩
      exact ⟨present, fun same => different (carries.injective x a member inside same)⟩

/-- A chain is carried to the chain of the image. -/
theorem chain_map {φ : α → β} {D : α → Prop} {next : α → Option α} {next' : β → Option β}
    (commutes : ∀ x, D x → next' (φ x) = (next x).map φ)
    (closed : ∀ x y, D x → next x = some y → D y) {room' : List β}
    (carries : Carries φ D room room') (inside : D a) :
    chain next' room' (φ a) = (chain next room a).map φ := by
  fun_induction chain next room a generalizing room' with
  | case1 room a present stop =>
    rw [chain, if_pos ((carries.rooms a inside).2 present), commutes a inside, stop]
    rfl
  | case2 room a present b go ih =>
    rw [chain, if_pos ((carries.rooms a inside).2 present), commutes a inside, go]
    have rest := ih (carries.without inside) (closed a b inside go)
    simp [rest]
  | case3 room a absent =>
    rw [chain, if_neg fun present => absent ((carries.rooms a inside).1 present)]
    rfl

section

variable {φ : α → β} {D : α → Prop} {next : α → List α} {next' : β → List β}
    (commutes : ∀ x, D x → next' (φ x) = (next x).map φ) (closed : ∀ x, D x → ∀ y ∈ next x, D y)
include commutes closed

/-- A breadth-first search is carried to that of the image, with the same distances. -/
theorem levels_map {room : List α} {room' : List β} {queue : List (α × Nat)}
    (carries : Carries φ D room room') (inside : ∀ entry ∈ queue, D entry.1) :
    levels next' room' (queue.map fun entry => (φ entry.1, entry.2)) =
      (levels next room queue).map fun entry => (φ entry.1, entry.2) := by
  fun_induction levels next room queue generalizing room' with
  | case1 room => simp [levels]
  | case2 room a distance queue present ih =>
    have first : D a := inside (a, distance) (mem_cons_self ..)
    have later : ∀ entry ∈ queue ++ (next a).map (fun b => (b, distance + 1)), D entry.1 := by
      intro entry member
      rcases mem_append.1 member with old | new
      · exact inside entry (mem_cons_of_mem _ old)
      · obtain ⟨b, step, rfl⟩ := mem_map.1 new
        exact closed a first b step
    have rest := ih (carries.without first) later
    rw [map_cons, levels, if_pos ((carries.rooms a first).2 present), map_cons,
      commutes a first, ← rest]
    simp [Function.comp_def]
  | case3 room a distance queue absent ih =>
    have first : D a := inside (a, distance) (mem_cons_self ..)
    rw [map_cons, levels, if_neg fun present => absent ((carries.rooms a first).1 present)]
    exact ih carries fun entry member => inside entry (mem_cons_of_mem _ member)

end

theorem forall_mem_chain {P : α → Prop} {next : α → Option α}
    (closed : ∀ x y, P x → next x = some y → P y) (first : P a) : ∀ b ∈ chain next room a, P b := by
  fun_induction chain next room a with
  | case1 room a present stop =>
    rw [forall_mem_singleton]
    exact first
  | case2 room a present b go ih =>
    rw [forall_mem_cons]
    exact ⟨first, ih (closed a b first go)⟩
  | case3 room a absent => exact forall_mem_nil _

/-- What going on keeps holds of all places that a breadth-first search lists. -/
theorem forall_mem_levels {P : α → Prop} {next : α → List α}
    (closed : ∀ x, P x → ∀ y ∈ next x, P y) {queue : List (α × Nat)}
    (first : ∀ entry ∈ queue, P entry.1) : ∀ entry ∈ levels next room queue, P entry.1 := by
  fun_induction levels next room queue with
  | case1 room => exact forall_mem_nil _
  | case2 room a distance queue present ih =>
    rw [forall_mem_cons] at first ⊢
    refine ⟨first.1, ih ?_⟩
    intro entry member
    rcases mem_append.1 member with old | new
    · exact first.2 entry old
    · obtain ⟨b, step, rfl⟩ := mem_map.1 new
      exact closed a first.1 b step
  | case3 room a distance queue absent ih =>
    rw [forall_mem_cons] at first
    exact ih first.2

/-! ### Chains that end -/

section

variable {next : α → Option α}

/-- Where a walk ends, its chain goes on from place to place with nothing left out. -/
theorem chain_eq_cons_of_acc (ends : Acc (Onward next) a) (present : a ∈ room)
    (onward : ∀ x y, next x = some y → y ∈ room) :
    chain next room a = a :: (match next a with
        | none => []
        | some b => chain next room b) := by
  rw [chain, if_pos present]
  cases go : next a with
  | none => rfl
  | some b =>
    -- The place that was left out does not lie ahead, so leaving it out changes nothing.
    have ahead : ∀ x, Relation.ReflTransGen (Onward next) x b → x ≠ a := by
      rintro x path rfl
      exact not_transGen_self ends (Relation.TransGen.tail' path go)
    have same : chain next (without room a) (id b) = (chain next room b).map id :=
      chain_map (D := fun x => x ∈ room ∧ Relation.ReflTransGen (Onward next) x b)
        (fun x _ => by simp)
        (fun x y inside step => ⟨onward x y step, Relation.ReflTransGen.head step inside.2⟩)
        ⟨fun _ _ _ _ h => h, fun x inside => by simp [ahead x inside.2]⟩
        ⟨onward a b go, Relation.ReflTransGen.refl⟩
    simpa using same

/-! ### Coming back

A walk that never returns to a place ends, because there are only finitely many places to
go on from.  Where one does return, the chain from there stops right before. -/

/-- Where a walk ends, its chain has each place at the number of steps that lead to it. -/
theorem getElem?_chain_of_acc
    (ends : Acc (Onward next) a) (present : a ∈ room) (onward : ∀ x y, next x = some y → y ∈ room)
    (n : Nat) : (chain next room a)[n]? = steps next n a := by
  induction n generalizing a with
  | zero =>
    rw [chain_eq_cons_of_acc ends present onward]
    rfl
  | succ n ih =>
    rw [chain_eq_cons_of_acc ends present onward, steps]
    cases go : next a with
    | none => rfl
    | some b => exact ih (ends.inv go) (onward a b go)

/-- A walk ends if no place leads back to itself and the places that lead on are finitely
many. -/
theorem acc_of_no_return (inside : ∀ n x y, steps next n a = some x → next x = some y → x ∈ room)
    (noReturn : ∀ n x, steps next (n + 1) x ≠ some x) : Acc (Onward next) a := by
  induction size : room.length using Nat.strongRecOn generalizing a room with
  | ind size ih =>
    refine Acc.intro a fun b go => ?_
    have present : a ∈ room := inside 0 a b rfl go
    refine ih (without room a).length (size ▸ length_without_lt present) ?_ rfl
    intro n x y path onward
    have fromStart : steps next (n + 1) a = some x := by
      rw [steps, show next a = some b from go]
      exact path
    refine mem_without.2 ⟨inside (n + 1) x y fromStart onward, ?_⟩
    rintro rfl
    exact noReturn n x fromStart

/-- A chain whose places are different lists them up to the first that it cannot visit. -/
theorem chain_of_stop {x a : α} (path : steps next (m + 1) a = some x)
    (stops : x ∉ without room a) (inside : ∀ i, i ≤ m → ∀ y, steps next i a = some y → y ∈ room)
    (different : ∀ i j, i < j → j ≤ m → steps next i a ≠ steps next j a) :
    (chain next room a).length = m + 1 ∧ ∀ i, i ≤ m → (chain next room a)[i]? = steps next i a := by
  have present : a ∈ room := inside 0 (Nat.zero_le m) a rfl
  induction m generalizing a room with
  | zero =>
    have go : next a = some x := by simpa [steps] using path
    rw [chain, if_pos present, go]
    dsimp only
    rw [chain, if_neg stops]
    refine ⟨rfl, fun i small => ?_⟩
    obtain rfl := Nat.le_zero.1 small
    rfl
  | succ m ih =>
    obtain ⟨b, go, path'⟩ := bind_eq_some_iff.1 path
    have shift (i : Nat) : steps next (i + 1) a = steps next i b := by
      rw [steps, go]
      rfl
    have inside' : ∀ i, i ≤ m → ∀ y, steps next i b = some y → y ∈ without room a := by
      intro i small y reached
      refine mem_without.2 ⟨inside (i + 1) (by omega) y (shift i ▸ reached), ?_⟩
      rintro rfl
      exact different 0 (i + 1) (by omega) (by omega) (by rw [shift, reached]; rfl)
    obtain ⟨length, places⟩ := ih path' (fun again => stops (mem_without.1 again).1) inside'
      (fun i j less small => by
        rw [← shift, ← shift]
        exact different (i + 1) (j + 1) (by omega) (by omega))
      (inside' 0 (Nat.zero_le m) b rfl)
    rw [chain, if_pos present, go]
    refine ⟨congrArg (· + 1) length, fun i small => ?_⟩
    cases i with
    | zero => rfl
    | succ i => exact (places i (by omega)).trans (shift i).symm

/-- The chain of a place that leads back to itself stops right before it. -/
theorem round_chain {x : α} (back : steps next (n + 1) x = some x)
    (leadsOn : ∀ y z, next y = some z → y ∈ room) :
    (chain next room x).getLast?.bind next = some x ∧ Round next x (chain next room x ++ [x]) := by
  -- The shortest way back passes through different places.
  have exists_ : ∃ n, steps next (n + 1) x = some x := ⟨n, back⟩
  obtain ⟨k, back', shortest⟩ : ∃ k, steps next (k + 1) x = some x ∧
      ∀ m, m < k → steps next (m + 1) x ≠ some x :=
    ⟨Nat.find exists_, Nat.find_spec exists_, fun m less => Nat.find_min exists_ less⟩
  have different : ∀ i j, i < j → j ≤ k → steps next i x ≠ steps next j x := by
    intro i j less small same
    refine shortest (i + k - j) (by omega) ?_
    rw [show i + k - j + 1 = i + (k + 1 - j) by omega, steps_add, same, ← steps_add,
      show j + (k + 1 - j) = k + 1 by omega, back']
  have inside : ∀ i, i ≤ k → ∀ y, steps next i x = some y → y ∈ room := by
    intro i _ y reached
    obtain ⟨b, _, reached', onward⟩ := return_of_steps back i
    obtain rfl := Option.some.inj (reached.symm.trans reached')
    obtain ⟨z, go, _⟩ := bind_eq_some_iff.1 onward
    exact leadsOn y z go
  obtain ⟨length, places⟩ :=
    chain_of_stop back' (fun again => (mem_without.1 again).2 rfl) inside different
  refine ⟨?_, k, back', shortest, by simp [length], fun m small => ?_⟩
  · rw [getLast?_eq_getElem?, length, Nat.add_sub_cancel, places k (le_refl k),
      ← steps_succ, back']
  · by_cases last : m = k + 1
    · rw [last, getElem?_append_right (by omega), length, Nat.sub_self, back']
      rfl
    · rw [getElem?_append_left (by omega), places m (by omega)]

/-! ### Where cycles begin -/

/-- A place on a cycle that is the lowest one there. -/
def Heads (next : Nat → Option Nat) (i : Nat) : Prop :=
  (∃ n, steps next (n + 1) i = some i) ∧ ∀ m j, steps next m i = some j → i ≤ j

/-- Every cycle has a lowest place, from which all others are reached. -/
theorem exists_heads {next : Nat → Option Nat} (back : steps next (n + 1) i = some i) :
    ∃ h, Heads next h ∧ (∃ m, steps next m i = some h) ∧ ∃ m, steps next m h = some i := by
  classical
  have reached : ∃ h m, steps next m i = some h := ⟨i, 0, rfl⟩
  obtain ⟨m, path⟩ := Nat.find_spec reached
  obtain ⟨h, k, path', onward⟩ := return_of_steps back m
  have isLowest : Nat.find reached = h := Option.some.inj (path.symm.trans path')
  refine ⟨h, ⟨⟨k + m, ?_⟩, fun m' j ahead => ?_⟩, ⟨m, path'⟩, ⟨k + 1, onward⟩⟩
  · rw [show k + m + 1 = k + 1 + m by omega, steps_add, onward]
    exact path'
  · rw [← isLowest]
    refine Nat.find_min' reached ⟨m + m', ?_⟩
    rw [steps_add, path']
    exact ahead

theorem Heads.unique {next : Nat → Option Nat} {h' m' : Nat} (first : Heads next h)
    (second : Heads next h') (path : steps next m h = some h') (path' : steps next m' h' = some h) :
    h' = h :=
  le_antisymm (second.2 m' h path') (first.2 m h' path)

/-- A walk that does not go on from a place on a cycle does not come back on that cycle. -/
theorem no_return_of_cut {next next' : Nat → Option Nat}
    (fewer : ∀ x y, next' x = some y → next x = some y) (path : steps next m i = some h)
    (cut : next' h = none) : steps next' (n + 1) i ≠ some i := by
  intro back
  obtain ⟨b, k, reached, onward⟩ := return_of_steps back m
  obtain rfl := Option.some.inj (path.symm.trans (steps_mono fewer reached))
  obtain ⟨c, go, _⟩ := bind_eq_some_iff.1 onward
  rw [cut] at go
  cases go

end

/-! ### Each place once -/

variable {next : α → List α}

theorem mem_room_of_mem_levels {queue : List (α × Nat)}
    {entry : α × Nat} (member : entry ∈ levels next room queue) : entry.1 ∈ room := by
  fun_induction levels next room queue with
  | case1 room => simp at member
  | case2 room a distance queue present ih =>
    rcases mem_cons.1 member with rfl | later
    · exact present
    · exact (mem_without.1 (ih later)).1
  | case3 room a distance queue absent ih => exact ih member

theorem nodup_levels (next : α → List α) (room : List α) (queue : List (α × Nat)) :
    ((levels next room queue).map (·.1)).Nodup := by
  fun_induction levels next room queue with
  | case1 room => simp
  | case2 room a distance queue present ih =>
    rw [map_cons, nodup_cons]
    refine ⟨?_, ih⟩
    intro again
    obtain ⟨entry, later, same⟩ := mem_map.1 again
    have inside := mem_room_of_mem_levels later
    rw [same] at inside
    exact (mem_without.1 inside).2 rfl
  | case3 room a distance queue absent ih => exact ih

/-! ### Links back into a path -/

theorem mem_of_mem_loops_left {room path targets : List α} {b : α}
    (member : b ∈ (loops next room path targets).1.1) : b ∈ room :=
  (loops next room path targets).1.2.subset member

/-- A search for loops visits all its targets. -/
theorem not_mem_loops_left_of_mem {room path targets : List α}
    (offPath : a ∉ path) (target : a ∈ targets) : a ∉ (loops next room path targets).1.1 := by
  fun_induction loops next room path targets with
  | case1 room path => simp at target
  | case2 room path b others inPath rest ih =>
    rcases mem_cons.1 target with rfl | later
    · exact absurd inPath offPath
    · exact ih offPath later
  | case3 room path b others notOnPath present below shorter rest ihBelow ihRest =>
    rcases mem_cons.1 target with rfl | later
    · intro left
      have inBelow : a ∈ below.1.1 := mem_of_mem_loops_left left
      exact (mem_without.1 (mem_of_mem_loops_left inBelow)).2 rfl
    · exact ihRest offPath later
  | case4 room path b others notOnPath absent ih =>
    rcases mem_cons.1 target with rfl | later
    · exact fun left => absent (mem_of_mem_loops_left left)
    · exact ih offPath later

/-- Where no loop is found, no place that was visited links back into the path. -/
theorem loops_eq_nil_avoids {room path targets : List α} {x : α}
    (none : (loops next room path targets).2 = []) (onPath : x ∈ path) :
    x ∉ targets ∧ ∀ a ∈ room, a ∉ (loops next room path targets).1.1 → x ∉ next a := by
  fun_induction loops next room path targets with
  | case1 room path => exact ⟨by simp, fun a present gone => absurd present gone⟩
  | case2 room path a others inPath rest ih => simp at none
  | case3 room path a others offPath present below shorter rest ihBelow ihRest =>
    obtain ⟨noneBelow, noneRest⟩ := append_eq_nil_iff.1 none
    obtain ⟨notNext, avoidsBelow⟩ := ihBelow noneBelow (mem_append_left _ onPath)
    obtain ⟨notOthers, avoidsRest⟩ := ihRest noneRest onPath
    refine ⟨?_, ?_⟩
    · rintro (_ | ⟨_, later⟩)
      · exact offPath onPath
      · exact notOthers later
    · intro b inRoom gone
      by_cases same : b = a
      · exact same ▸ notNext
      · by_cases left : b ∈ below.1.1
        · exact avoidsRest b left gone
        · exact avoidsBelow b (mem_without.2 ⟨inRoom, same⟩) left
  | case4 room path a others offPath absent ih =>
    obtain ⟨notOthers, avoids⟩ := ih none onPath
    refine ⟨?_, avoids⟩
    rintro (_ | ⟨_, later⟩)
    · exact offPath onPath
    · exact notOthers later

/-! ### Routes -/

open Relation (ReflTransGen TransGen)

variable {goal : α} {starts : List α}

theorem mem_of_mem_route_left {b : α} (member : b ∈ (route next goal room starts).1.1) :
    b ∈ room :=
  (route next goal room starts).1.2.subset member

/-- The goal of a route can be reached from one of the starts. -/
theorem reaches_of_route_isSome (found : (route next goal room starts).2.isSome = true) :
    ∃ a ∈ starts, ReflTransGen (fun x y => y ∈ next x) a goal := by
  fun_induction route next goal room starts with
  | case1 room => cases found
  | case2 room others => exact ⟨goal, mem_cons_self .., .refl⟩
  | case3 room a others apart present below shorter path isPath ih =>
    obtain ⟨b, link, reaches⟩ := ih (by rw [isPath]; rfl)
    exact ⟨a, mem_cons_self .., .head link reaches⟩
  | case4 room a others apart present below shorter none rest ihBelow ihRest =>
    obtain ⟨b, member, reaches⟩ := ihRest found
    exact ⟨b, mem_cons_of_mem _ member, reaches⟩
  | case5 room a others apart absent ih =>
    obtain ⟨b, member, reaches⟩ := ih found
    exact ⟨b, mem_cons_of_mem _ member, reaches⟩

/-- Places that are done with: none is the goal or waits in `left`. -/
def Shut (goal : α) (left places : List α) : Prop := ∀ a ∈ places, a ≠ goal ∧ a ∉ left

omit [DecidableEq α] in
theorem Shut.mono {left left' places : List α} (shut : Shut goal left places)
    (fewer : ∀ a ∈ left', a ∈ left) : Shut goal left' places := by
  intro a member
  exact ⟨(shut a member).1, fun inside => (shut a member).2 (fewer a inside)⟩

/-- After a search in vain, the starts are done with, and so is all that the places visited
link to. -/
theorem shut_of_route_eq_none (none : (route next goal room starts).2 = none) :
    Shut goal (route next goal room starts).1.1 starts ∧
      ∀ a ∈ room, a ∉ (route next goal room starts).1.1 →
        Shut goal (route next goal room starts).1.1 (next a) := by
  fun_induction route next goal room starts with
  | case1 room =>
    refine ⟨forall_mem_nil _, ?_⟩
    intro a present gone
    exact absurd present gone
  | case2 room others | case3 room a others apart present below shorter path found ih => cases none
  | case4 room a others apart present below shorter noneBelow rest ihBelow ihRest =>
    obtain ⟨shutNext, visitedBelow⟩ := ihBelow noneBelow
    obtain ⟨shutOthers, visitedRest⟩ := ihRest none
    have fewer (b : α) (left : b ∈ rest.1.1) : b ∈ below.1.1 := mem_of_mem_route_left left
    have gone : a ∉ rest.1.1 := by
      intro left
      exact (mem_without.1 (mem_of_mem_route_left (fewer a left))).2 rfl
    refine ⟨forall_mem_cons.2 ⟨⟨apart, gone⟩, shutOthers⟩, ?_⟩
    intro x inside visited
    by_cases here : x = a
    · subst here
      exact shutNext.mono fewer
    · by_cases waits : x ∈ below.1.1
      · exact visitedRest x waits visited
      · exact (visitedBelow x (mem_without.2 ⟨inside, here⟩) waits).mono fewer
  | case5 room a others apart absent ih =>
    obtain ⟨shutOthers, visited⟩ := ih none
    refine ⟨forall_mem_cons.2 ⟨⟨apart, ?_⟩, shutOthers⟩, visited⟩
    exact fun left => absent (mem_of_mem_route_left left)

/-- Where a search finds no route, no links lead from a start to the goal. -/
theorem not_reaches_of_route_eq_none (leadsOn : ∀ x y, y ∈ next x → x ∈ room)
    (none : (route next goal room starts).2 = none) {a : α} (start : a ∈ starts) :
    ¬ReflTransGen (fun x y => y ∈ next x) a goal := by
  intro reaches
  obtain ⟨shut, visited⟩ := shut_of_route_eq_none none
  -- Being done with carries over each link, and the goal never is.
  have done : ∀ {x : α}, ReflTransGen (fun x y => y ∈ next x) a x →
      x ≠ goal ∧ x ∉ (route next goal room starts).1.1 := by
    intro x along
    induction along with
    | refl => exact shut a start
    | tail _ link ih => exact visited _ (leadsOn _ _ link) ih.2 _ link
  exact (done reaches).1 rfl

omit [DecidableEq α] in
/-- What the goal links to has no part in whether it is reached. -/
theorem reaches_congr {next' : α → List α} (same : ∀ x, x ≠ goal → next' x = next x) {a : α}
    (reaches : ReflTransGen (fun x y => y ∈ next x) a goal) :
    ReflTransGen (fun x y => y ∈ next' x) a goal := by
  induction reaches using ReflTransGen.head_induction_on with
  | refl => exact .refl
  | head link _ ih =>
    rename_i x y _
    by_cases arrived : x = goal
    · rw [arrived]
    · exact .head (same x arrived ▸ link) ih

/-- Links can be followed only finitely often if no place leads back to itself and the places
that lead on are finitely many. -/
theorem acc_of_no_round {a : α} {room : List α}
    (inside : ∀ x y, ReflTransGen (fun x y => y ∈ next x) a x → y ∈ next x → x ∈ room)
    (noRound : ∀ x, ¬TransGen (fun x y => y ∈ next x) x x) :
    Acc (fun y x => y ∈ next x) a := by
  induction size : room.length using Nat.strongRecOn generalizing a room with
  | ind size ih =>
    apply Acc.intro a
    intro b link
    have present : a ∈ room := inside a b .refl link
    refine ih (without room a).length (size ▸ length_without_lt present) ?_ rfl
    intro x y along onward
    apply mem_without.2
    refine ⟨inside x y (along.head link) onward, ?_⟩
    rintro rfl
    exact noRound x (.head' link along)

end Linkage.Walk
