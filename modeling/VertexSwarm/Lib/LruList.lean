import Mathlib
import VertexSwarm.Lib.Keyed

/-!
# Byte-budgeted least-recently-used lists

An LRU list under a byte budget keeps `(key, value)` entries from the least to the most recently
used, a value weighing `size value` bytes.  A read moves a resident entry to the newest end; a
write takes the key's old entry out, evicts from the oldest end until the new value fits under
the budget, and appends the new entry.  A value heavier than the whole budget is never kept, and
evicting for it empties the list.

Eviction drops the shortest prefix whose removal brings the rest under its target
(`evictFront_eq_drop`), so the list never weighs more than its budget and keeps its keys
distinct (`Bounded`, kept by every operation).
-/

namespace VertexSwarm.LruList

open Keyed

variable {κ α β : Type*} (size : α → ℕ)

/-- The bytes of the values in a list. -/
def total (l : List (κ × α)) : ℕ := (l.map fun entry ↦ size entry.2).sum

/-- Evict from the oldest end while the list weighs more than `target`. -/
def evictFront (target : ℕ) : List (κ × α) → List (κ × α)
  | [] => []
  | entry :: rest =>
    if target < total size (entry :: rest) then evictFront target rest else entry :: rest

section Operations

variable [DecidableEq κ]

/-- A read: a resident entry becomes the most recently used. -/
def get (l : List (κ × α)) (key : κ) : Option α × List (κ × α) :=
  match find l key with
  | some value => (some value, insertBack l key value)
  | none => (none, l)

/-- A write under `budget`: the key's old entry leaves, then the oldest entries until the value
fits, and the value comes in as the newest; a value over the whole budget empties the list and
is not kept. -/
def insert (budget : ℕ) (l : List (κ × α)) (key : κ) (value : α) : List (κ × α) :=
  if budget < size value then []
  else evictFront size (budget - size value) (eraseKey l key) ++ [(key, value)]

end Operations

@[simp]
theorem get_fst [DecidableEq κ] (l : List (κ × α)) (key : κ) : (get l key).1 = find l key := by
  unfold get
  split <;> simp_all

/-- What the list keeps between calls: distinct keys, and at most `budget` bytes. -/
structure Bounded (budget : ℕ) (l : List (κ × α)) : Prop where
  nodup : (keys l).Nodup
  total_le : total size l ≤ budget

section Total

variable {l : List (κ × α)}

@[simp]
theorem total_nil : total size ([] : List (κ × α)) = 0 := rfl

@[simp]
theorem total_cons (entry : κ × α) (l : List (κ × α)) :
    total size (entry :: l) = size entry.2 + total size l := by
  simp [total]

@[simp]
theorem total_append (l l' : List (κ × α)) :
    total size (l ++ l') = total size l + total size l' := by
  simp [total]

theorem total_le_of_sublist {l' : List (κ × α)} (h : l.Sublist l') : total size l ≤ total size l' :=
  (h.map _).sum_le_sum fun _ _ ↦ Nat.zero_le _

theorem total_map (size' : β → ℕ) (g : κ × β → κ × α) {l : List (κ × β)}
    (hg : ∀ entry ∈ l, size (g entry).2 = size' entry.2) :
    total size (l.map g) = total size' l := by
  simp only [total, List.map_map]
  exact congrArg List.sum (List.map_congr_left hg)

theorem total_eq_add_eraseKey [DecidableEq κ] {key : κ} {value : α} (hnodup : (keys l).Nodup)
    (hmem : (key, value) ∈ l) : total size l = size value + total size (eraseKey l key) :=
  sum_map_eq_add_eraseKey hnodup hmem _

end Total

section Evict

variable {target : ℕ}

@[simp]
theorem evictFront_nil (target : ℕ) : evictFront size target ([] : List (κ × α)) = [] := rfl

theorem evictFront_cons_of_lt {entry : κ × α} {rest : List (κ × α)}
    (h : target < total size (entry :: rest)) :
    evictFront size target (entry :: rest) = evictFront size target rest := by
  rw [evictFront, if_pos h]

theorem evictFront_of_total_le {l : List (κ × α)} (h : total size l ≤ target) :
    evictFront size target l = l := by
  cases l with
  | nil => rfl
  | cons entry rest => rw [evictFront, if_neg (Nat.not_lt.mpr h)]

theorem evictFront_eq_drop (target : ℕ) (l : List (κ × α)) :
    ∃ n, evictFront size target l = l.drop n ∧ total size (l.drop n) ≤ target ∧
      ∀ m < n, target < total size (l.drop m) := by
  induction l with
  | nil => exact ⟨0, rfl, Nat.zero_le _, fun m hm ↦ absurd hm (Nat.not_lt_zero m)⟩
  | cons entry rest ih =>
    by_cases hover : target < total size (entry :: rest)
    · -- the oldest entry goes, and eviction goes on in the rest
      obtain ⟨n, heq, hle, hmin⟩ := ih
      refine ⟨n + 1, by rw [evictFront_cons_of_lt size hover, heq, List.drop_succ_cons], hle, ?_⟩
      intro m hm
      cases m with
      | zero => exact hover
      | succ m => exact hmin m (by omega)
    · exact ⟨0, evictFront_of_total_le size (Nat.not_lt.mp hover), Nat.not_lt.mp hover,
        fun m hm ↦ absurd hm (Nat.not_lt_zero m)⟩

theorem total_evictFront_le (target : ℕ) (l : List (κ × α)) :
    total size (evictFront size target l) ≤ target := by
  obtain ⟨n, heq, hle, -⟩ := evictFront_eq_drop size target l
  rwa [heq]

theorem evictFront_sublist (target : ℕ) (l : List (κ × α)) : (evictFront size target l).Sublist l := by
  obtain ⟨n, heq, -, -⟩ := evictFront_eq_drop size target l
  rw [heq]
  exact List.drop_sublist n l

theorem evictFront_zero {l : List (κ × α)} (hpos : ∀ entry ∈ l, 0 < size entry.2) :
    evictFront size 0 l = [] := by
  induction l with
  | nil => rfl
  | cons entry rest ih =>
    have hentry := hpos entry List.mem_cons_self
    rw [evictFront_cons_of_lt size (by rw [total_cons]; omega)]
    exact ih fun e he ↦ hpos e (List.mem_cons_of_mem _ he)

theorem evictFront_map (size' : β → ℕ) (g : κ × β → κ × α) {l : List (κ × β)}
    (hg : ∀ entry ∈ l, size (g entry).2 = size' entry.2) (target : ℕ) :
    evictFront size target (l.map g) = (evictFront size' target l).map g := by
  induction l with
  | nil => rfl
  | cons entry rest ih =>
    have htotal := total_map size size' g hg
    rw [List.map_cons] at htotal ⊢
    rw [evictFront, evictFront, htotal]
    split_ifs
    · exact ih fun e he ↦ hg e (List.mem_cons_of_mem _ he)
    · rfl

theorem not_mem_keys_evictFront_eraseKey [DecidableEq κ] (target : ℕ) (l : List (κ × α)) (key : κ) :
    key ∉ keys (evictFront size target (Keyed.eraseKey l key)) := fun hmem ↦
  (mem_keys_eraseKey.mp (((evictFront_sublist size target _).map Prod.fst).subset hmem)).2 rfl

end Evict

section Invariant

variable {size} [DecidableEq κ] {budget : ℕ} {l : List (κ × α)}

omit [DecidableEq κ] in
theorem Bounded.nil : Bounded size budget ([] : List (κ × α)) :=
  ⟨List.nodup_nil, Nat.zero_le _⟩

theorem Bounded.eraseKey (h : Bounded size budget l) (key : κ) :
    Bounded size budget (Keyed.eraseKey l key) :=
  ⟨Keyed.Nodup.eraseKey h.nodup key, (total_le_of_sublist size List.filter_sublist).trans h.total_le⟩

theorem Bounded.get (h : Bounded size budget l) (key : κ) : Bounded size budget (get l key).2 := by
  unfold LruList.get
  cases hfind : find l key with
  | none => exact h
  | some value =>
    have htotal : total size (insertBack l key value) = total size l := by
      rw [insertBack, total_append, total_eq_add_eraseKey size h.nodup (mem_of_find hfind)]
      simp only [total_cons, total_nil]
      omega
    exact ⟨Keyed.Nodup.insertBack h.nodup key value, htotal ▸ h.total_le⟩

theorem mem_of_mem_get {key : κ} {entry : κ × α} (h : entry ∈ (get l key).2) : entry ∈ l := by
  unfold LruList.get at h
  cases hfind : find l key with
  | none => rwa [hfind] at h
  | some value =>
    rw [hfind] at h
    rcases List.mem_append.mp h with hold | hnew
    · exact (mem_eraseKey.mp hold).1
    · exact (List.mem_singleton.mp hnew) ▸ mem_of_find hfind

theorem mem_insert {key : κ} {value : α} {entry : κ × α} (h : entry ∈ insert size budget l key value) :
    entry ∈ l ∨ entry = (key, value) := by
  unfold LruList.insert at h
  split_ifs at h
  · exact absurd h List.not_mem_nil
  · rcases List.mem_append.mp h with hold | hnew
    · exact .inl (mem_eraseKey.mp ((evictFront_sublist size _ _).subset hold)).1
    · exact .inr (List.mem_singleton.mp hnew)

theorem Bounded.insert (h : Bounded size budget l) (key : κ) (value : α) :
    Bounded size budget (insert size budget l key value) := by
  unfold LruList.insert
  split_ifs with hover
  · exact Bounded.nil
  · have hkept := evictFront_sublist size (budget - size value) (Keyed.eraseKey l key)
    have hle := total_evictFront_le size (budget - size value) (Keyed.eraseKey l key)
    refine ⟨nodup_append_singleton ((Keyed.Nodup.eraseKey h.nodup key).sublist (hkept.map Prod.fst))
      (not_mem_keys_evictFront_eraseKey size _ l key) value, ?_⟩
    simp only [total_append, total_cons, total_nil]
    omega

end Invariant

end VertexSwarm.LruList
