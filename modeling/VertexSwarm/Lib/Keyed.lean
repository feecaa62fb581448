import Mathlib.Algebra.BigOperators.Group.List.Basic
import Mathlib.Data.List.Nodup

/-!
# Keyed lists and their sums

A keyed list is a list of `(key, value)` entries whose keys are kept distinct; it stands for a
finite set of live handles, each under a name that is never reused.  Entries come in at the
end under a fresh key and leave by key.  A sum over the entries grows by the new entry's term
when one comes in (`List.sum_append`), and loses exactly the removed entry's term when the
entry under a present key leaves (`sum_map_eq_add_eraseKey`): these are the two deltas a
conservation invariant over such a list needs.  Counts go the same way
(`countP_insertBack`, `countP_eq_eraseKey_add`), and a lookup reads through both (`find_insertBack`,
`find_eraseKey`).
-/

namespace VertexSwarm.Keyed

variable {κ α M : Type*}

/-- The keys of a keyed list. -/
def keys (l : List (κ × α)) : List κ := l.map Prod.fst

section Lookup

variable [DecidableEq κ]

/-- Remove the entries under a key. -/
def eraseKey (l : List (κ × α)) (key : κ) : List (κ × α) := l.filter (fun entry ↦ entry.1 ≠ key)

/-- The value of the first entry under a key. -/
def find (l : List (κ × α)) (key : κ) : Option α := (l.find? (fun entry ↦ entry.1 = key)).map Prod.snd

/-- Insert under a key at the back, replacing an entry already there: an insertion-ordered map
(`LinkedHashMap::insert` moves a replaced entry to the back), or a hash map, whose order no
reader sees. -/
def insertBack (l : List (κ × α)) (key : κ) (value : α) : List (κ × α) :=
  eraseKey l key ++ [(key, value)]

end Lookup

variable {l : List (κ × α)} {key : κ} {value : α}

@[simp]
theorem keys_append (l l' : List (κ × α)) : keys (l ++ l') = keys l ++ keys l' := List.map_append

@[simp]
theorem keys_singleton (entry : κ × α) : keys [entry] = [entry.1] := rfl

theorem mem_keys_of_mem (h : (key, value) ∈ l) : key ∈ keys l :=
  List.mem_map.mpr ⟨(key, value), h, rfl⟩

theorem nodup_append_singleton (h : (keys l).Nodup) (hkey : key ∉ keys l) (value : α) :
    (keys (l ++ [(key, value)])).Nodup := by
  simp only [keys_append, keys_singleton, List.nodup_append]
  refine ⟨h, List.nodup_singleton key, ?_⟩
  rintro k hk k' hk' rfl
  rw [List.mem_singleton] at hk'
  exact hkey (hk' ▸ hk)

variable [DecidableEq κ]

@[simp]
theorem eraseKey_nil (key : κ) : eraseKey ([] : List (κ × α)) key = [] := rfl

@[simp]
theorem find_nil (key : κ) : find ([] : List (κ × α)) key = none := rfl

@[simp]
theorem find_cons (entry : κ × α) (l : List (κ × α)) (key : κ) :
    find (entry :: l) key = if entry.1 = key then some entry.2 else find l key := by
  by_cases hkey : entry.1 = key <;> simp [find, hkey]

theorem mem_of_find (h : find l key = some value) : (key, value) ∈ l := by
  unfold find at h
  obtain ⟨entry, hfind, rfl⟩ := Option.map_eq_some_iff.mp h
  have hkey : entry.1 = key := by simpa using List.find?_some hfind
  rw [← hkey]
  exact List.mem_of_find?_eq_some hfind

theorem keys_eraseKey_sublist (l : List (κ × α)) (key : κ) : (keys (eraseKey l key)).Sublist (keys l) :=
  List.filter_sublist.map Prod.fst

theorem mem_keys_eraseKey {k : κ} : k ∈ keys (eraseKey l key) ↔ k ∈ keys l ∧ k ≠ key := by
  simp only [keys, eraseKey, List.mem_map, List.mem_filter, decide_eq_true_eq]
  constructor
  · rintro ⟨entry, ⟨hmem, hne⟩, rfl⟩
    exact ⟨⟨entry, hmem, rfl⟩, hne⟩
  · rintro ⟨⟨entry, hmem, rfl⟩, hne⟩
    exact ⟨entry, ⟨hmem, hne⟩, rfl⟩

theorem Nodup.eraseKey (h : (keys l).Nodup) (key : κ) : (keys (Keyed.eraseKey l key)).Nodup :=
  h.sublist (keys_eraseKey_sublist l key)

theorem eraseKey_of_not_mem (h : key ∉ keys l) : eraseKey l key = l := by
  unfold eraseKey
  rw [List.filter_eq_self]
  intro entry hentry
  have hne : entry.1 ≠ key := fun heq ↦ h (heq ▸ List.mem_map.mpr ⟨entry, hentry, rfl⟩)
  simpa using hne

@[simp]
theorem mem_eraseKey {entry : κ × α} : entry ∈ eraseKey l key ↔ entry ∈ l ∧ entry.1 ≠ key := by
  simp [eraseKey]

theorem length_eraseKey_le (l : List (κ × α)) (key : κ) : (eraseKey l key).length ≤ l.length :=
  List.length_filter_le _ _

theorem insertBack_of_not_mem (h : key ∉ keys l) (value : α) :
    insertBack l key value = l ++ [(key, value)] := by
  rw [insertBack, eraseKey_of_not_mem h]

theorem find_eq_none_iff : find l key = none ↔ key ∉ keys l := by
  simp only [find, Option.map_eq_none_iff, List.find?_eq_none, decide_eq_true_eq, keys,
    List.mem_map, not_exists, not_and]

/-- Under duplicate-free keys the entry under a key is the one `find` returns. -/
theorem find_eq_some_of_mem (hnodup : (keys l).Nodup) (hmem : (key, value) ∈ l) :
    find l key = some value := by
  obtain ⟨value', hfind⟩ : ∃ value', find l key = some value' := by
    cases hfind : find l key with
    | none => exact absurd (mem_keys_of_mem hmem) (find_eq_none_iff.mp hfind)
    | some value' => exact ⟨value', rfl⟩
  have hmem' := mem_of_find hfind
  have hsame : ((key, value') : κ × α) = (key, value) :=
    List.inj_on_of_nodup_map hnodup hmem' hmem rfl
  rw [hfind, (Prod.mk.inj hsame).2]

theorem eraseKey_cons_self (entry : κ × α) (l : List (κ × α)) (h : (keys (entry :: l)).Nodup) :
    eraseKey (entry :: l) entry.1 = l := by
  rw [keys, List.map_cons, List.nodup_cons] at h
  rw [eraseKey, List.filter_cons_of_neg (by simp), ← eraseKey, eraseKey_of_not_mem h.1]

theorem perm_cons_eraseKey (hnodup : (keys l).Nodup) (hmem : (key, value) ∈ l) :
    l.Perm ((key, value) :: eraseKey l key) := by
  induction l with
  | nil => exact absurd hmem List.not_mem_nil
  | cons entry rest ih =>
    rw [keys, List.map_cons, List.nodup_cons] at hnodup
    rcases List.mem_cons.mp hmem with heq | hrest
    · -- the entry is the head: the rest has no entry under its key
      subst heq
      rw [eraseKey, List.filter_cons_of_neg (by simp)]
      rw [← eraseKey, eraseKey_of_not_mem hnodup.1]
    · have hne : entry.1 ≠ key := by
        rintro rfl
        exact hnodup.1 (mem_keys_of_mem hrest)
      rw [eraseKey, List.filter_cons_of_pos (by simpa using hne), ← eraseKey]
      exact ((ih hnodup.2 hrest).cons entry).trans (List.Perm.swap _ _ _)

theorem find_eraseKey_self (l : List (κ × α)) (key : κ) : find (eraseKey l key) key = none :=
  find_eq_none_iff.mpr fun hmem ↦ (mem_keys_eraseKey.mp hmem).2 rfl

@[simp]
theorem find_eraseKey (l : List (κ × α)) (key k : κ) :
    find (eraseKey l key) k = if k = key then none else find l k := by
  split_ifs with hk
  · rw [hk, find_eraseKey_self]
  · -- the entries before the first one under `k` are kept or dropped alike
    simp only [find, eraseKey, List.find?_filter]
    congr 2
    funext entry
    by_cases hentry : entry.1 = k
    · simp [hentry, hk]
    · simp [hentry]

@[simp]
theorem find_insertBack (l : List (κ × α)) (key : κ) (value : α) (k : κ) :
    find (insertBack l key value) k = if k = key then some value else find l k := by
  rw [insertBack]
  split_ifs with hk
  · subst hk
    have hnone : (eraseKey l k).find? (fun entry ↦ decide (entry.1 = k)) = none := by
      simp
    simp [find, List.find?_append, hnone]
  · have hfind := find_eraseKey l key k
    rw [if_neg hk] at hfind
    simp only [find, List.find?_append] at hfind ⊢
    rw [← hfind]
    cases List.find? (fun entry ↦ decide (entry.1 = k)) (eraseKey l key) <;> simp [Ne.symm hk]

theorem find_eq_of_perm {l' : List (κ × α)} (hperm : l.Perm l') (hnodup : (keys l).Nodup)
    (key : κ) : find l key = find l' key := by
  have hkeys : (keys l).Perm (keys l') := hperm.map Prod.fst
  cases hfind : find l key with
  | none =>
    have hnot : key ∉ keys l' := fun hmem ↦ find_eq_none_iff.mp hfind (hkeys.mem_iff.mpr hmem)
    exact (find_eq_none_iff.mpr hnot).symm
  | some value =>
    exact (find_eq_some_of_mem (hkeys.nodup_iff.mp hnodup) (hperm.subset (mem_of_find hfind))).symm

section MapValues

variable {β : Type*} (g : α → β)

omit [DecidableEq κ] in
/-- Mapping the values keeps the keys, so it commutes with the keyed operations. -/
@[simp]
theorem keys_map_values (l : List (κ × α)) : keys (l.map (Prod.map id g)) = keys l := by
  simp [keys, Function.comp_def]

theorem eraseKey_map_values (l : List (κ × α)) (key : κ) :
    eraseKey (l.map (Prod.map id g)) key = (eraseKey l key).map (Prod.map id g) := by
  simp [eraseKey, List.filter_map, Function.comp_def]

theorem find_map_values (l : List (κ × α)) (key : κ) :
    find (l.map (Prod.map id g)) key = (find l key).map g := by
  simp [find, List.find?_map, Function.comp_def]

end MapValues

theorem insertBack_eraseKey (l : List (κ × α)) (key : κ) (value : α) :
    insertBack (eraseKey l key) key value = insertBack l key value := by
  rw [insertBack, insertBack, eraseKey, eraseKey, List.filter_filter]
  simp only [Bool.and_self]

theorem countP_eq_eraseKey_add (hnodup : (keys l).Nodup) (hmem : (key, value) ∈ l)
    (p : κ × α → Bool) :
    l.countP p = (eraseKey l key).countP p + if p (key, value) then 1 else 0 := by
  rw [(perm_cons_eraseKey hnodup hmem).countP_eq p, List.countP_cons]

theorem countP_insertBack (l : List (κ × α)) (key : κ) (value : α) (p : κ × α → Bool) :
    (insertBack l key value).countP p = (eraseKey l key).countP p + if p (key, value) then 1 else 0 := by
  rw [insertBack, List.countP_append, List.countP_singleton]

theorem Nodup.insertBack (h : (keys l).Nodup) (key : κ) (value : α) :
    (keys (Keyed.insertBack l key value)).Nodup := by
  rw [Keyed.insertBack, keys_append, keys_singleton, List.nodup_append]
  refine ⟨Nodup.eraseKey h key, List.nodup_singleton key, ?_⟩
  intro k hk k' hk'
  rw [List.mem_singleton] at hk'
  subst hk'
  exact (mem_keys_eraseKey.mp hk).2

variable [AddCommMonoid M]

theorem sum_map_eq_add_eraseKey (hnodup : (keys l).Nodup) (hmem : (key, value) ∈ l)
    (f : κ × α → M) : (l.map f).sum = f (key, value) + ((eraseKey l key).map f).sum := by
  rw [((perm_cons_eraseKey hnodup hmem).map f).sum_eq, List.map_cons, List.sum_cons]

end VertexSwarm.Keyed
