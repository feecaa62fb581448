import Mathlib

/-!
# Bounded samples of the smallest keys

A bounded sample is fed items one at a time and keeps, one item per key and in ascending key
order, the items of the `bound` smallest distinct keys fed so far.  An item whose key is already
held replaces the holder when it is preferred; any other item is put in key order and the sample
is cut back to `bound` (`insertBounded`).

The specification is the batch computation: sort the distinct keys, keep the first `bound`, and
collapse each kept key's items, in arrival order, to the last preferred one or, with none
preferred, to the first (`smallestCollapsed`).  `Holds` ties the two: the sample's keys are the
smallest keys fed so far, and each held item is what its key's items fed so far collapse to.  A
key cut off by the bound is never needed again, since the `bound` smaller keys ahead of it stay
(`take_orderedInsert_take`).
-/

namespace VertexSwarm.SmallestKeys

open List

/-! ## Sorted insertion -/

section OrderedInsert

variable {α : Type*} (r : α → α → Prop) [DecidableRel r]

theorem orderedInsert_eq_insertIdx (a : α) (l : List α) :
    l.orderedInsert r a = l.insertIdx (l.findIdx fun b ↦ decide (r a b)) a := by
  induction l with
  | nil => rfl
  | cons b l ih =>
    by_cases h : r a b
    · simp [orderedInsert_cons_of_le r l h, findIdx_cons, h]
    · rw [orderedInsert_of_not_le r l h, findIdx_cons, ih]
      simp [h, insertIdx_succ_cons]

theorem orderedInsert_eq_append {a : α} {l : List α} (h : ∀ b ∈ l, ¬r a b) :
    l.orderedInsert r a = l ++ [a] := by
  rw [orderedInsert_eq_insertIdx, findIdx_eq_length.mpr (by simpa using h), insertIdx_length_self]

/-- The first `bound` places after a sorted insertion depend only on the first `bound` places
before it. -/
theorem take_orderedInsert_take (a : α) (bound : ℕ) (l : List α) :
    ((l.take bound).orderedInsert r a).take bound = (l.orderedInsert r a).take bound := by
  induction l generalizing bound with
  | nil => simp
  | cons b l ih =>
    cases bound with
    | zero => simp
    | succ bound =>
      by_cases h : r a b
      · cases bound <;> simp [orderedInsert_cons_of_le r _ h, take_take]
      · simp [orderedInsert_of_not_le r _ h, ih]

end OrderedInsert

/-! ## The smallest distinct keys -/

section Ascending

variable {κ : Type*} [LinearOrder κ]

/-- The distinct keys of `keys`, ascending. -/
def ascending (keys : List κ) : List κ := keys.toFinset.sort

/-- The `bound` smallest distinct keys of `keys`, ascending. -/
def smallest (bound : ℕ) (keys : List κ) : List κ := (ascending keys).take bound

@[simp]
theorem mem_ascending {keys : List κ} {k : κ} : k ∈ ascending keys ↔ k ∈ keys := by
  simp [ascending]

theorem pairwise_ascending (keys : List κ) : (ascending keys).Pairwise (· < ·) :=
  (Finset.sortedLT_sort _).pairwise

theorem length_ascending (keys : List κ) : (ascending keys).length = keys.toFinset.card :=
  Finset.length_sort _

theorem ascending_perm {keys keys' : List κ} (h : keys ~ keys') :
    ascending keys = ascending keys' := by
  rw [ascending, ascending, List.toFinset_eq_of_perm _ _ h]

theorem ascending_append_of_mem {keys : List κ} {k : κ} (h : k ∈ keys) :
    ascending (keys ++ [k]) = ascending keys := by
  simp [ascending, h]

theorem ascending_append_of_not_mem {keys : List κ} {k : κ} (h : k ∉ keys) :
    ascending (keys ++ [k]) = (ascending keys).orderedInsert (· ≤ ·) k := by
  have hsorted : ((ascending keys).orderedInsert (· ≤ ·) k).Pairwise (· ≤ ·) :=
    (Finset.pairwise_sort _ _).orderedInsert k _
  have hnodup : (k :: ascending keys).Nodup :=
    nodup_cons.mpr ⟨by simpa using h, Finset.sort_nodup _ _⟩
  have hperm : ascending (keys ++ [k]) ~ k :: ascending keys :=
    List.perm_of_nodup_nodup_toFinset_eq (Finset.sort_nodup _ _) hnodup (by simp [ascending])
  exact hperm.trans (perm_orderedInsert _ _ _).symm |>.eq_of_pairwise
    (fun _ _ _ _ hab hba ↦ le_antisymm hab hba) (Finset.pairwise_sort _ _) hsorted

theorem smallest_append_of_mem {keys : List κ} {k : κ} (bound : ℕ) (h : k ∈ keys) :
    smallest bound (keys ++ [k]) = smallest bound keys := by
  rw [smallest, smallest, ascending_append_of_mem h]

theorem pairwise_smallest (bound : ℕ) (keys : List κ) : (smallest bound keys).Pairwise (· < ·) :=
  (pairwise_ascending keys).take

theorem length_smallest (bound : ℕ) (keys : List κ) :
    (smallest bound keys).length = min bound keys.toFinset.card := by
  rw [smallest, length_take, length_ascending]

theorem mem_of_mem_smallest {bound : ℕ} {keys : List κ} {k : κ} (h : k ∈ smallest bound keys) :
    k ∈ keys :=
  mem_ascending.mp (mem_of_mem_take h)

/-- A key that is not among the smallest `bound` comes after all of them, and then there are
`bound` of them. -/
theorem lt_of_not_mem_smallest {bound : ℕ} {keys : List κ} {k : κ} (hk : k ∈ keys)
    (hnot : k ∉ smallest bound keys) :
    (∀ k' ∈ smallest bound keys, k' < k) ∧ (smallest bound keys).length = bound := by
  have hdrop : k ∈ (ascending keys).drop bound := by
    have hmem : k ∈ ascending keys := mem_ascending.mpr hk
    rw [← take_append_drop bound (ascending keys), mem_append] at hmem
    exact hmem.resolve_left hnot
  have hsplit := pairwise_ascending keys
  rw [← take_append_drop bound (ascending keys), pairwise_append] at hsplit
  refine ⟨fun k' hk' ↦ hsplit.2.2 k' hk' k hdrop, ?_⟩
  have hlong : bound < (ascending keys).length := by
    by_contra hshort
    rw [drop_eq_nil_of_le (not_lt.mp hshort)] at hdrop
    simp at hdrop
  rw [smallest, length_take, min_eq_left hlong.le]

theorem smallest_perm {keys keys' : List κ} (bound : ℕ) (h : keys ~ keys') :
    smallest bound keys = smallest bound keys' := by
  rw [smallest, smallest, ascending_perm h]

end Ascending

/-! ## Collapsing a key's items -/

section Collapse

variable {α κ : Type*} [LinearOrder κ] (key : α → κ) (prefer : α → Bool)

/-- The items of `items` with key `k`, in arrival order. -/
def group (items : List α) (k : κ) : List α := items.filter fun item ↦ key item = k

/-- A key's items collapse to the last preferred one or, with none preferred, to the first. -/
def collapse (group : List α) : Option α := (group.filter prefer).getLast? <|> group.head?

theorem group_append_self (items : List α) (item : α) :
    group key (items ++ [item]) (key item) = group key items (key item) ++ [item] := by
  simp [group, filter_append]

theorem group_append_of_ne {items : List α} {item : α} {k : κ} (h : key item ≠ k) :
    group key (items ++ [item]) k = group key items k := by
  simp [group, filter_append, h]

theorem group_eq_nil {items : List α} {k : κ} (h : k ∉ items.map key) : group key items k = [] := by
  simp only [group, filter_eq_nil_iff, decide_eq_true_eq]
  exact fun item hitem hkey ↦ h (mem_map.mpr ⟨item, hitem, hkey⟩)

@[simp]
theorem collapse_nil : collapse prefer ([] : List α) = none := rfl

theorem collapse_append_of_prefer (group : List α) {item : α} (h : prefer item) :
    collapse prefer (group ++ [item]) = some item := by
  simp [collapse, filter_append, h]

theorem collapse_append_of_not_prefer {group : List α} (hgroup : group ≠ []) {item : α}
    (h : prefer item = false) : collapse prefer (group ++ [item]) = collapse prefer group := by
  obtain ⟨first, rest, rfl⟩ := exists_cons_of_ne_nil hgroup
  simp [collapse, h]

theorem collapse_singleton (item : α) : collapse prefer [item] = some item := by
  cases h : prefer item <;> simp [collapse, h]

/-- What `collapse` picks: the last preferred item, or with none preferred the first item. -/
theorem collapse_eq_some_iff {group : List α} {item : α} :
    collapse prefer group = some item ↔
      (group.filter prefer).getLast? = some item ∨
        (∀ other ∈ group, prefer other = false) ∧ group.head? = some item := by
  cases hlast : (group.filter prefer).getLast? with
  | none =>
    have hnone : ∀ other ∈ group, prefer other = false := by
      simpa [getLast?_eq_none_iff, filter_eq_nil_iff] using hlast
    rw [collapse, hlast]
    simp only [Option.orElse_eq_orElse, Option.orElse_none, reduceCtorEq, false_or,
      and_iff_right hnone]
  | some last =>
    -- a preferred item exists, so the second alternative cannot hold
    have hpreferred := mem_filter.mp (mem_of_getLast? hlast)
    have hsome : ¬∀ other ∈ group, prefer other = false :=
      fun hall ↦ by simp [hall last hpreferred.1] at hpreferred
    rw [collapse, hlast]
    simp only [Option.orElse_eq_orElse, Option.orElse_some, hsome, false_and, or_false]

theorem mem_of_collapse_eq_some {group : List α} {item : α}
    (h : collapse prefer group = some item) : item ∈ group := by
  rcases (collapse_eq_some_iff prefer).mp h with hlast | ⟨-, hfirst⟩
  · exact mem_of_mem_filter (mem_of_getLast? hlast)
  · exact mem_of_mem_head? hfirst

end Collapse

/-! ## The bounded sample -/

section Sample

variable {α κ : Type*} [LinearOrder κ] (key : α → κ) (bound : ℕ) (prefer : α → Bool)

/-- Feed `item` to a sample held in ascending key order: a held key's holder is replaced when
`item` is preferred; any other item is put in key order and the sample cut back to `bound`. -/
def insertBounded (sample : List α) (item : α) : List α :=
  if key item ∈ sample.map key then
    sample.map fun held ↦ if key held = key item ∧ prefer item then item else held
  else (sample.orderedInsert (fun a b ↦ key a ≤ key b) item).take bound

/-- The batch specification: for each of the `bound` smallest distinct keys, in ascending order,
what that key's items collapse to. -/
def smallestCollapsed (items : List α) : List α :=
  (smallest bound (items.map key)).filterMap fun k ↦ collapse prefer (group key items k)

/-- The invariant of a sample fed `seen`: its keys are the `bound` smallest distinct keys seen,
and each held item is what its key's items seen collapse to. -/
structure Holds (seen sample : List α) : Prop where
  map_key : sample.map key = smallest bound (seen.map key)
  collapse_group : ∀ held ∈ sample, collapse prefer (group key seen (key held)) = some held

variable {key bound prefer}

theorem holds_nil : Holds key bound prefer [] [] :=
  ⟨by simp [smallest, ascending], by simp⟩

namespace Holds

variable {seen sample : List α}

theorem pairwise (hold : Holds key bound prefer seen sample) :
    (sample.map key).Pairwise (· < ·) := by
  rw [hold.map_key]
  exact pairwise_smallest _ _

theorem length_le (hold : Holds key bound prefer seen sample) : sample.length ≤ bound := by
  rw [← length_map key, hold.map_key, length_smallest]
  exact min_le_left _ _

theorem mem_seen (hold : Holds key bound prefer seen sample) {k : κ} (hk : k ∈ sample.map key) :
    k ∈ seen.map key := by
  rw [hold.map_key] at hk
  exact mem_of_mem_smallest hk

theorem mem (hold : Holds key bound prefer seen sample) {held : α} (hheld : held ∈ sample) :
    held ∈ seen :=
  mem_of_mem_filter (mem_of_collapse_eq_some prefer (hold.collapse_group held hheld))

/-- An item with a held key: the keys stay, and the holder gives way to a preferred item. -/
theorem replace (hold : Holds key bound prefer seen sample) {item : α}
    (hheld : key item ∈ sample.map key) :
    Holds key bound prefer (seen ++ [item])
      (sample.map fun held ↦ if key held = key item ∧ prefer item then item else held) := by
  constructor
  · have hkeys : ∀ held ∈ sample,
        key (if key held = key item ∧ prefer item then item else held) = key held := by
      intro held _
      split_ifs with h
      · exact h.1.symm
      · rfl
    have hkeys' : sample.map
        (key ∘ fun held ↦ if key held = key item ∧ prefer item then item else held) =
          sample.map key :=
      map_congr_left hkeys
    rw [map_map, hkeys', hold.map_key, map_append,
      map_singleton, smallest_append_of_mem bound (hold.mem_seen hheld)]
  · intro replaced hreplaced
    obtain ⟨held, hmem, rfl⟩ := mem_map.mp hreplaced
    have hcollapse := hold.collapse_group held hmem
    by_cases hkey : key held = key item
    · have hgroup : group key (seen ++ [item]) (key held) = group key seen (key held) ++ [item] := by
        rw [hkey, group_append_self]
      cases hprefer : prefer item
      · have hne : group key seen (key held) ≠ [] := by
          rintro hnil
          rw [hnil, collapse_nil] at hcollapse
          exact Option.some_ne_none held hcollapse.symm
        simpa [hprefer, hgroup, collapse_append_of_not_prefer prefer hne hprefer] using hcollapse
      · simp [hkey, group_append_self, collapse_append_of_prefer prefer _ hprefer]
    · simpa [hkey, group_append_of_ne key (Ne.symm hkey)] using hcollapse

/-- An item whose key was seen but cut off: `bound` smaller keys are held, so nothing changes. -/
theorem cutOff (hold : Holds key bound prefer seen sample) {item : α}
    (hheld : key item ∉ sample.map key) (hseen : key item ∈ seen.map key) :
    (sample.orderedInsert (fun a b ↦ key a ≤ key b) item).take bound = sample ∧
      Holds key bound prefer (seen ++ [item]) sample := by
  rw [hold.map_key] at hheld
  obtain ⟨hbelow, hlength⟩ := lt_of_not_mem_smallest hseen hheld
  rw [← hold.map_key] at hbelow hlength
  have hpassed : ∀ held ∈ sample, key held < key item :=
    fun held hmem ↦ hbelow (key held) (mem_map_of_mem hmem)
  rw [length_map] at hlength
  refine ⟨?_, ?_, ?_⟩
  · rw [orderedInsert_eq_append (fun a b ↦ key a ≤ key b)
        (fun held hmem ↦ not_le.mpr (hpassed held hmem)),
      take_append_of_le_length hlength.ge, take_of_length_le hlength.le]
  · rw [hold.map_key, map_append, map_singleton, smallest_append_of_mem bound hseen]
  · intro held hmem
    rw [group_append_of_ne key (hpassed held hmem).ne']
    exact hold.collapse_group held hmem

/-- An item with a key not seen before: it is put in key order and the sample cut back. -/
theorem insertNew (hold : Holds key bound prefer seen sample) {item : α}
    (hseen : key item ∉ seen.map key) :
    Holds key bound prefer (seen ++ [item])
      ((sample.orderedInsert (fun a b ↦ key a ≤ key b) item).take bound) := by
  constructor
  · rw [map_take, map_orderedInsert (fun a b ↦ key a ≤ key b) (· ≤ ·) key sample item
        (fun _ _ ↦ Iff.rfl) (fun _ _ ↦ Iff.rfl), hold.map_key, smallest,
      take_orderedInsert_take, map_append, map_singleton, smallest,
      ascending_append_of_not_mem hseen]
  · intro held hmem
    rcases (mem_orderedInsert _).mp (mem_of_mem_take hmem) with rfl | hold'
    · rw [group_append_self, group_eq_nil key hseen]
      exact collapse_singleton prefer held
    · have hne : key item ≠ key held :=
        fun h ↦ hseen (h ▸ hold.mem_seen (mem_map_of_mem hold'))
      rw [group_append_of_ne key hne]
      exact hold.collapse_group held hold'

theorem insertBounded (hold : Holds key bound prefer seen sample) (item : α) :
    Holds key bound prefer (seen ++ [item]) (SmallestKeys.insertBounded key bound prefer sample item) := by
  rw [SmallestKeys.insertBounded]
  split_ifs with hheld
  · exact hold.replace hheld
  · by_cases hseen : key item ∈ seen.map key
    · obtain ⟨heq, hold'⟩ := hold.cutOff hheld hseen
      rwa [heq]
    · exact hold.insertNew hseen

/-- A sample that holds for `items` is the batch specification of `items`. -/
theorem eq_smallestCollapsed (hold : Holds key bound prefer seen sample) :
    sample = smallestCollapsed key bound prefer seen := by
  rw [smallestCollapsed, ← hold.map_key, filterMap_map]
  calc sample = sample.filterMap some := filterMap_some.symm
    _ = _ := filterMap_congr fun held hmem ↦ (hold.collapse_group held hmem).symm

theorem length_eq (hold : Holds key bound prefer seen sample) :
    sample.length = min bound (seen.map key).toFinset.card := by
  rw [← length_map key, hold.map_key, length_smallest]

end Holds

end Sample

end VertexSwarm.SmallestKeys
