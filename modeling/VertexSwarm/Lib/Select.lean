import Mathlib

/-!
# Selecting the element of a given rank

`core::slice::select`, behind `select_nth_unstable_by`, over lists.  The call reorders a slice
so that the element at `index` sits in its sorted place under the caller's `is_less`, with no
greater element before it and no smaller one after; which of several equal elements lands where
is left unspecified.

The two end ranks are found by one scan: a maximal element is swapped into the last place, a
minimal one into the first.  The scans (`max_index`, `min_index`) are `reduce`s that replace the
candidate only by a strictly better element, so of several equal candidates they keep the first.
Every other rank goes through the introselect loop `partition_at_index_loop`, taken here as a
parameter that reorders its slice.

The results here are what a caller can rely on: every branch only reorders (`perm_select`), and
on a slice of equal elements the last rank swaps the first element into the last place
(`select_last_of_tied`).  `Vec::swap_remove` takes out one element and reorders the rest
(`perm_swapRemove`).
-/

namespace VertexSwarm.Select

variable {β : Type*}

/-- `<[T]>::swap`, a no-op off the end of the list. -/
def swap (v : List β) (i j : ℕ) : List β :=
  match v[i]?, v[j]? with
  | some a, some b => (v.set i b).set j a
  | _, _ => v

/-- The `reduce` step of `max_index`: move to the next element only if it is greater. -/
def maxStep (isLess : β → β → Bool) (acc t : β × ℕ) : β × ℕ :=
  if isLess acc.1 t.1 then t else acc

/-- The `reduce` step of `min_index`: move to the next element only if it is smaller. -/
def minStep (isLess : β → β → Bool) (acc t : β × ℕ) : β × ℕ :=
  if isLess t.1 acc.1 then t else acc

/-- `max_index`: the position of the first element no later element is greater than. -/
def maxIndex (isLess : β → β → Bool) : List β → ℕ
  | [] => 0
  | a :: rest => ((rest.zipIdx 1).foldl (maxStep isLess) (a, 0)).2

/-- `min_index`: the position of the first element no later element is smaller than. -/
def minIndex (isLess : β → β → Bool) : List β → ℕ
  | [] => 0
  | a :: rest => ((rest.zipIdx 1).foldl (minStep isLess) (a, 0)).2

/-- `partition_at_index` for `index < v.len()`: the last and the first rank by a scan and a
swap, every other rank by `partitionLoop`. -/
def selectNthUnstableBy (isLess : β → β → Bool) (partitionLoop : List β → ℕ → List β)
    (v : List β) (index : ℕ) : List β :=
  if index = v.length - 1 then swap v (maxIndex isLess v) index
  else if index = 0 then swap v (minIndex isLess v) index
  else partitionLoop v index

/-- `Vec::swap_remove`: the last element takes the removed one's place. -/
def swapRemove (v : List β) (i : ℕ) : List β := (swap v i (v.length - 1)).dropLast

/-! ## Reordering -/

theorem perm_swap (v : List β) (i j : ℕ) : (swap v i j).Perm v := by
  unfold swap
  cases hi : v[i]? with
  | none => exact List.Perm.refl v
  | some a =>
    cases hj : v[j]? with
    | none => exact List.Perm.refl v
    | some b =>
      obtain ⟨hi', rfl⟩ := List.getElem?_eq_some_iff.mp hi
      obtain ⟨hj', rfl⟩ := List.getElem?_eq_some_iff.mp hj
      exact List.set_set_perm hi' hj'

theorem perm_select {isLess : β → β → Bool} {partitionLoop : List β → ℕ → List β}
    (hloop : ∀ v index, (partitionLoop v index).Perm v) (v : List β) (index : ℕ) :
    (selectNthUnstableBy isLess partitionLoop v index).Perm v := by
  unfold selectNthUnstableBy
  split_ifs
  · exact perm_swap v _ _
  · exact perm_swap v _ _
  · exact hloop v index

/-! ## Equal elements -/

theorem foldl_maxStep_of_not_isLess {isLess : β → β → Bool} {acc : β × ℕ} {l : List (β × ℕ)}
    (h : ∀ t ∈ l, isLess acc.1 t.1 = false) : l.foldl (maxStep isLess) acc = acc := by
  induction l with
  | nil => rfl
  | cons t l ih =>
    rw [List.foldl_cons, maxStep, if_neg (by simp [h t List.mem_cons_self])]
    exact ih fun t' ht' ↦ h t' (List.mem_cons_of_mem t ht')

/-- Among equal elements `max_index` is the first position. -/
theorem maxIndex_of_tied {isLess : β → β → Bool} {a : β} {rest : List β}
    (h : ∀ t ∈ rest, isLess a t = false) : maxIndex isLess (a :: rest) = 0 := by
  rw [maxIndex, foldl_maxStep_of_not_isLess]
  intro t ht
  exact h t.1 (List.fst_mem_of_mem_zipIdx ht)

theorem select_last_of_tied {isLess : β → β → Bool} {partitionLoop : List β → ℕ → List β}
    {a : β} {rest : List β} (h : ∀ t ∈ rest, isLess a t = false) :
    selectNthUnstableBy isLess partitionLoop (a :: rest) rest.length =
      swap (a :: rest) 0 rest.length := by
  rw [selectNthUnstableBy, if_pos (by simp), maxIndex_of_tied h]

/-! ## Removal and the smallest element

`Iterator::min_by` over an enumeration is the scan of `min_index`: a `reduce` that keeps the
candidate unless the comparator puts it after the next element.  Under a comparator that orders
by a key, the scan ends on an element whose key no element's key is below (`minIndex_le`). -/

theorem length_swap (v : List β) (i j : ℕ) : (swap v i j).length = v.length :=
  (perm_swap v i j).length_eq

/-- After the swap the removed element is last, so dropping the last element removes it. -/
theorem swap_eq_swapRemove_append {v : List β} {i : ℕ} (hi : i < v.length) :
    swap v i (v.length - 1) = swapRemove v i ++ [v[i]] := by
  have hne : swap v i (v.length - 1) ≠ [] := by
    rw [← List.length_pos_iff, length_swap]
    omega
  have hlast : (swap v i (v.length - 1)).getLast hne = v[i] := by
    rw [List.getLast_eq_getElem]
    simp only [swap, List.getElem?_eq_getElem hi, List.getElem?_eq_getElem (show v.length - 1 < v.length by omega)]
    simp
  rw [swapRemove, ← hlast, List.dropLast_append_getLast]

theorem perm_swapRemove {v : List β} {i : ℕ} (hi : i < v.length) :
    v.Perm (v[i] :: swapRemove v i) := by
  have hperm : (swapRemove v i ++ [v[i]]).Perm (v[i] :: swapRemove v i) :=
    List.perm_append_singleton _ _
  rw [← swap_eq_swapRemove_append hi] at hperm
  exact (perm_swap v _ _).symm.trans hperm

/-- A `min_index` scan ends on its start or on one of the elements it scanned. -/
theorem foldl_minStep_induction {isLess : β → β → Bool} {P : β × ℕ → Prop} {acc : β × ℕ}
    {l : List (β × ℕ)} (hacc : P acc) (hl : ∀ t ∈ l, P t) : P (l.foldl (minStep isLess) acc) := by
  induction l generalizing acc with
  | nil => exact hacc
  | cons t l ih =>
    rw [List.foldl_cons]
    apply ih _ fun t' ht' ↦ hl t' (List.mem_cons_of_mem t ht')
    unfold minStep
    split
    · exact hl t List.mem_cons_self
    · exact hacc

/-- The elements a `min_index` scan meets sit at their positions. -/
theorem getElem?_of_mem_zipIdx {a : β} {rest : List β} {t : β × ℕ} (ht : t ∈ rest.zipIdx 1) :
    (a :: rest)[t.2]? = some t.1 := by
  obtain ⟨hlo, hhi, heq⟩ := List.mem_zipIdx ht
  obtain ⟨k, hk⟩ : ∃ k, t.2 = k + 1 := ⟨t.2 - 1, by omega⟩
  rw [hk, List.getElem?_cons_succ, heq]
  simp [hk]

/-- `min_index` names a position of the list, and what sits there. -/
theorem exists_getElem?_minIndex (isLess : β → β → Bool) {l : List β} (hl : l ≠ []) :
    ∃ x, l[minIndex isLess l]? = some x := by
  obtain ⟨a, rest, rfl⟩ := List.exists_cons_of_ne_nil hl
  refine ⟨_, foldl_minStep_induction (P := fun t ↦ (a :: rest)[t.2]? = some t.1) rfl
    fun t ht ↦ getElem?_of_mem_zipIdx ht⟩

variable {γ : Type*} [LinearOrder γ]

theorem foldl_minStep_le (key : β → γ) {isLess : β → β → Bool}
    (hless : ∀ x y, isLess x y = decide (key x < key y)) (acc : β × ℕ) (l : List (β × ℕ)) :
    key (l.foldl (minStep isLess) acc).1 ≤ key acc.1 ∧
      ∀ t ∈ l, key (l.foldl (minStep isLess) acc).1 ≤ key t.1 := by
  induction l generalizing acc with
  | nil => exact ⟨le_rfl, fun _ ht ↦ absurd ht List.not_mem_nil⟩
  | cons t l ih =>
    rw [List.foldl_cons]
    obtain ⟨hstart, hrest⟩ := ih (minStep isLess acc t)
    -- the candidate after `t` is the smaller of the two keys
    have hstep : key (minStep isLess acc t).1 ≤ key acc.1 ∧ key (minStep isLess acc t).1 ≤ key t.1 := by
      unfold minStep
      split
      · next hlt =>
        rw [hless, decide_eq_true_eq] at hlt
        exact ⟨hlt.le, le_rfl⟩
      · next hnlt =>
        rw [hless, decide_eq_true_eq, not_lt] at hnlt
        exact ⟨le_rfl, hnlt⟩
    refine ⟨hstart.trans hstep.1, fun t' ht' ↦ ?_⟩
    rcases List.mem_cons.mp ht' with rfl | ht'
    · exact hstart.trans hstep.2
    · exact hrest t' ht'

/-- `min_index` (and `Iterator::min_by` over an enumeration, the same scan) finds an element no
element's key is below. -/
theorem minIndex_le (key : β → γ) {isLess : β → β → Bool}
    (hless : ∀ x y, isLess x y = decide (key x < key y)) {l : List β} {x : β}
    (hx : l[minIndex isLess l]? = some x) : ∀ y ∈ l, key x ≤ key y := by
  cases l with
  | nil => simp at hx
  | cons a rest =>
    have hpos := @foldl_minStep_induction β isLess (fun t ↦ (a :: rest)[t.2]? = some t.1) (a, 0)
      (rest.zipIdx 1) rfl fun t ht ↦ getElem?_of_mem_zipIdx ht
    rw [minIndex, hpos] at hx
    cases hx
    obtain ⟨hstart, hrest⟩ := foldl_minStep_le key hless (a, 0) (rest.zipIdx 1)
    intro y hy
    rcases List.mem_cons.mp hy with rfl | hy
    · exact hstart
    · rw [← List.zipIdx_map_fst 1 rest] at hy
      obtain ⟨t, ht, rfl⟩ := List.mem_map.mp hy
      exact hrest t ht

theorem max?_eq_of_perm {α : Type*} [LinearOrder α] {l l' : List α} (h : l.Perm l') :
    l.max? = l'.max? := by
  cases hmax : l'.max? with
  | none =>
    rw [List.max?_eq_none_iff] at hmax ⊢
    subst hmax
    exact List.Perm.eq_nil h
  | some a =>
    rw [List.max?_eq_some_iff] at hmax ⊢
    exact ⟨h.mem_iff.mpr hmax.1, fun b hb ↦ hmax.2 b (h.mem_iff.mp hb)⟩

end VertexSwarm.Select
