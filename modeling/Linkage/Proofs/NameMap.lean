/-
Purpose: What is found in a map of names after each operation on it.
-/
import Linkage.NameMap
import Mathlib.Data.List.Induction
import Mathlib.Data.List.Nodup

namespace Linkage.NameMap

open List

variable {α : Type} {entries : List (String × α)} {name : String} {value : α}

@[simp] theorem find?_empty (name : String) : (empty : NameMap α).find? name = none := rfl

theorem mem_entries_of_find? {m : NameMap α}
    (found : m.find? name = some value) : (name, value) ∈ m.entries := by
  obtain ⟨before, after, split, _⟩ := lookup_eq_some_iff.1 found
  rw [split]
  exact mem_append_right _ (mem_cons_self ..)

/-- The same names with other values. -/
def map {β : Type} (f : α → β) (m : NameMap α) : NameMap β :=
  ⟨m.entries.map fun entry => (entry.1, f entry.2)⟩

theorem find?_map {β : Type} (f : α → β) (m : NameMap α) (name : String) :
    (m.map f).find? name = (m.find? name).map f := by
  obtain ⟨entries⟩ := m
  show (entries.map _).lookup name = (entries.lookup name).map f
  induction entries with
  | nil => rfl
  | cons entry rest ih =>
    rw [map_cons, lookup_cons, lookup_cons, ih]
    split <;> simp

theorem map_insert {β : Type} (f : α → β) (m : NameMap α) (name : String) (value : α) :
    (m.insert name value).map f = (m.map f).insert name (f value) := by
  unfold insert contains
  rw [find?_map, Option.isSome_map]
  split
  · simp only [map, map_map]
    congr 2
    funext entry
    by_cases here : entry.1 = name
    · simp [here]
    · simp [here]
  · simp [map]

/-- Replacing the value of a name in a list of entries changes no other name. -/
theorem lookup_map_replace (entries : List (String × α)) (name other : String) (value : α → α) :
    (entries.map fun entry => if entry.1 = name then (name, value entry.2) else entry).lookup
        other =
      if other = name then (entries.lookup other).map value else entries.lookup other := by
  induction entries with
  | nil => simp
  | cons entry rest ih =>
    obtain ⟨key, held⟩ := entry
    by_cases same : key = name
    · subst same
      by_cases hit : other = key
      · subst hit
        simp
      · have missed : (other == key) = false := by simpa using hit
        simp [lookup_cons, missed, hit, ih]
    · by_cases hit : other = key
      · subst hit
        simp [same]
      · have missed : (other == key) = false := by simpa using hit
        simp [lookup_cons, missed, same, ih]

/-- The value last stored under a name is found there, and other names keep theirs. -/
theorem find?_insert (m : NameMap α) (name other : String) (value : α) :
    (m.insert name value).find? other = if other = name then some value else m.find? other := by
  unfold insert
  split
  · rename_i present
    show (m.entries.map _).lookup other = _
    rw [lookup_map_replace m.entries name other fun _ => value]
    by_cases hit : other = name
    · subst hit
      obtain ⟨held, found⟩ := Option.isSome_iff_exists.1 present
      unfold find? at found
      simp [found]
    · simp [hit, find?]
  · rename_i absent
    show (m.entries ++ [(name, value)]).lookup other = _
    rw [lookup_append]
    by_cases hit : other = name
    · subst hit
      have missing : m.entries.lookup other = none := Option.not_isSome_iff_eq_none.1 absent
      simp [missing]
    · have missed : (other == name) = false := by simpa using hit
      simp [hit, missed, lookup_cons, find?]

/-- Changing the value of a name leaves the other names alone. -/
theorem find?_modify (m : NameMap α) (name other : String) (f : α → α) :
    (m.modify name f).find? other =
      if other = name then (m.find? other).map f else m.find? other := by
  have entries : (m.modify name f).entries =
      m.entries.map fun entry => if entry.1 = name then (name, f entry.2) else entry := by
    apply map_congr_left
    intro entry _
    split
    · rename_i same
      rw [same]
    · rfl
  unfold find?
  rw [entries]
  exact lookup_map_replace m.entries name other f

/-! ### Maps from lists

Tables that are rebuilt from a surface store their names one after the other, so a name that
stands twice keeps the later value. -/

/-- The map that holds the entries of a list, stored in their order. -/
def ofList (entries : List (String × α)) : NameMap α :=
  entries.foldl (fun m entry => m.insert entry.1 entry.2) empty

theorem map_ofList {β : Type} (f : α → β) (entries : List (String × α)) :
    (ofList entries).map f = ofList (entries.map fun entry => (entry.1, f entry.2)) := by
  unfold ofList
  rw [foldl_map]
  suffices ∀ m : NameMap α, (entries.foldl (fun m entry => m.insert entry.1 entry.2) m).map f =
        entries.foldl (fun m entry => m.insert entry.1 (f entry.2)) (m.map f) from this empty
  induction entries with
  | nil => exact fun _ => rfl
  | cons entry rest ih =>
    intro m
    rw [foldl_cons, foldl_cons, ih, map_insert]

theorem ofList_append_singleton (entries : List (String × α)) (name : String) (value : α) :
    ofList (entries ++ [(name, value)]) = (ofList entries).insert name value := by
  simp [ofList, foldl_append]

theorem mem_of_find?_ofList
    (found : (ofList entries).find? name = some value) : (name, value) ∈ entries := by
  induction entries using List.reverseRecOn with
  | nil => simp [ofList] at found
  | append_singleton front last ih =>
    obtain ⟨key, held⟩ := last
    rw [ofList_append_singleton, find?_insert] at found
    split at found
    · rename_i hit
      obtain rfl : held = value := by simpa using found
      simp [hit]
    · exact mem_append_left _ (ih found)

/-- Of the names of the list each is found. -/
theorem find?_ofList_isSome
    (member : (name, value) ∈ entries) : ∃ held, (ofList entries).find? name = some held := by
  induction entries using List.reverseRecOn with
  | nil => simp at member
  | append_singleton front last ih =>
    obtain ⟨key, held⟩ := last
    rw [ofList_append_singleton, find?_insert]
    by_cases hit : name = key
    · exact ⟨held, if_pos hit⟩
    · rw [if_neg hit]
      refine ih ?_
      rcases mem_append.1 member with inFront | inLast
      · exact inFront
      · exact absurd (by simpa using congrArg Prod.fst (mem_singleton.1 inLast)) hit

theorem find?_ofList_iff (distinct : (entries.map (·.1)).Nodup) :
    (ofList entries).find? name = some value ↔ (name, value) ∈ entries := by
  constructor
  · exact mem_of_find?_ofList
  · intro member
    obtain ⟨held, found⟩ := find?_ofList_isSome member
    have same : (name, held) = (name, value) :=
      inj_on_of_nodup_map distinct (mem_of_find?_ofList found) member rfl
    rw [found, (Prod.mk.inj same).2]

/-! ### Names that stand once -/

/-- No name has two entries. -/
def Distinct (m : NameMap α) : Prop := (m.entries.map (·.1)).Nodup

namespace Distinct

variable {β : Type} {m : NameMap α} {m' : NameMap β}

theorem insert (distinct : m.Distinct) (name : String) (value : α) :
    (m.insert name value).Distinct := by
  unfold NameMap.insert
  split
  · have keys (entry : String × α) :
        (if entry.1 = name then (name, value) else entry).1 = entry.1 := by
      split
      · rename_i same
        exact same.symm
      · rfl
    simpa only [Distinct, map_map, Function.comp_def, keys] using distinct
  · rename_i absent
    have missing : ∀ entry ∈ m.entries, entry.1 ≠ name := by
      have unknown : m.entries.lookup name = none := Option.not_isSome_iff_eq_none.1 absent
      intro entry member same
      exact absurd same.symm (by simpa using lookup_eq_none_iff.1 unknown entry member)
    simp only [Distinct, map_append, map_singleton]
    refine nodup_append.2 ⟨distinct, nodup_singleton _, ?_⟩
    simpa using missing

theorem modify (distinct : m.Distinct) (name : String) (f : α → α) :
    (m.modify name f).Distinct := by
  have keys (entry : String × α) :
      (if entry.1 = name then (entry.1, f entry.2) else entry).1 = entry.1 := by
    split <;> rfl
  simpa only [Distinct, NameMap.modify, map_map, Function.comp_def, keys] using distinct

theorem find?_eq_some_iff (distinct : m.Distinct) {name : String} {value : α} :
    m.find? name = some value ↔ (name, value) ∈ m.entries := by
  refine ⟨mem_entries_of_find?, fun member => ?_⟩
  cases found : m.find? name with
  | none =>
    have missing := lookup_eq_none_iff.1 found (name, value) member
    simp at missing
  | some held =>
    have same : (name, held) = (name, value) :=
      inj_on_of_nodup_map distinct (mem_entries_of_find? found) member rfl
    rw [(Prod.mk.inj same).2]

/-- Maps in which corresponding values are found hold corresponding values. -/
theorem values_perm (distinct : m.Distinct) (distinct' : m'.Distinct) {f : α → β}
    (same : ∀ name, m'.find? name = (m.find? name).map f) : m'.values.Perm (m.values.map f) := by
  have entries : m'.entries.Perm (m.entries.map fun entry => (entry.1, f entry.2)) := by
    refine (perm_ext_iff_of_nodup distinct'.of_map (List.Nodup.of_map Prod.fst ?_)).2 ?_
    · rw [map_map]
      exact distinct
    · rintro ⟨name, value⟩
      rw [← distinct'.find?_eq_some_iff, same, Option.map_eq_some_iff, mem_map]
      constructor
      · rintro ⟨held, found, rfl⟩
        exact ⟨(name, held), distinct.find?_eq_some_iff.1 found, rfl⟩
      · rintro ⟨⟨name', held⟩, member, equal⟩
        cases equal
        exact ⟨held, distinct.find?_eq_some_iff.2 member, rfl⟩
  have values := entries.map Prod.snd
  rw [map_map] at values
  rw [NameMap.values, NameMap.values, map_map]
  exact values

end Distinct

end Linkage.NameMap
