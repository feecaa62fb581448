import Mathlib

/-!
# Cumulative counters

A cumulative counter is advanced by increments, and each value it hands out is the running total
so far, in a word of `m` values.  While the total fits in the word and every increment is
positive, the values handed out strictly increase and the last one is the total.  Whoever reads
such values back, in any order, recovers the total as their largest: a fold by `max` over them
reaches the top whatever the order.
-/

namespace VertexSwarm.Cumulative

section RunningTotals

variable {α : Type*} (inc val : α → ℕ) (m : ℕ)

/-- Each entry's value is the running total of the increments up to and including it, counted
from `base`, modulo `m`. -/
def RunningTotals : ℕ → List α → Prop
  | _, [] => True
  | base, x :: rest => val x = (base + inc x) % m ∧ RunningTotals (base + inc x) rest

variable {inc val m}

@[simp] theorem runningTotals_nil (base : ℕ) : RunningTotals inc val m base [] := trivial

theorem runningTotals_append_singleton (base : ℕ) (l : List α) (x : α) :
    RunningTotals inc val m base (l ++ [x]) ↔
      RunningTotals inc val m base l ∧ val x = (base + (l.map inc).sum + inc x) % m := by
  induction l generalizing base with
  | nil => simp [RunningTotals]
  | cons y l ih =>
    simp only [List.cons_append, RunningTotals, ih, List.map_cons, List.sum_cons, Nat.add_assoc,
      and_assoc]

theorem RunningTotals.getLast {base : ℕ} {l : List α} (h : RunningTotals inc val m base l)
    {x : α} (hlast : l.getLast? = some x) : val x = (base + (l.map inc).sum) % m := by
  obtain ⟨init, rfl⟩ := List.getLast?_eq_some_iff.mp hlast
  rw [runningTotals_append_singleton] at h
  rw [h.2, List.map_append, List.sum_append, List.map_singleton, List.sum_singleton,
    Nat.add_assoc]

theorem RunningTotals.pairwise_lt {base : ℕ} {l : List α} (h : RunningTotals inc val m base l)
    (hpos : ∀ x ∈ l, 0 < inc x) (hfit : base + (l.map inc).sum < m) :
    (l.map val).Pairwise (· < ·) ∧ ∀ x ∈ l, base < val x := by
  induction l generalizing base with
  | nil => simp
  | cons x rest ih =>
    rw [List.map_cons, List.sum_cons] at hfit
    have hx : val x = base + inc x := by
      rw [h.1, Nat.mod_eq_of_lt (by omega)]
    have hx_pos : 0 < inc x := hpos x List.mem_cons_self
    -- the rest runs from the advanced base, which the first value equals
    obtain ⟨hrest, habove⟩ := ih h.2 (fun y hy ↦ hpos y (List.mem_cons_of_mem _ hy)) (by omega)
    refine ⟨List.pairwise_cons.mpr ⟨?_, hrest⟩, ?_⟩
    · intro v hv
      obtain ⟨y, hy, rfl⟩ := List.mem_map.mp hv
      exact hx ▸ habove y hy
    · intro y hy
      rcases List.mem_cons.mp hy with rfl | hy
      · omega
      · have := habove y hy
        omega

theorem RunningTotals.le_of_mem {base : ℕ} {l : List α} (h : RunningTotals inc val m base l)
    (hfit : base + (l.map inc).sum < m) : ∀ x ∈ l, val x ≤ base + (l.map inc).sum := by
  induction l generalizing base with
  | nil => simp
  | cons x rest ih =>
    rw [List.map_cons, List.sum_cons] at hfit ⊢
    have hx : val x = base + inc x := by
      rw [h.1, Nat.mod_eq_of_lt (by omega)]
    have hrest := ih h.2 (by omega)
    intro y hy
    rcases List.mem_cons.mp hy with rfl | hy
    · omega
    · have := hrest y hy
      omega

end RunningTotals

section Top

variable {α : Type*} [LinearOrder α]

theorem le_foldl_max (b : α) (l : List α) : b ≤ l.foldl max b := by
  induction l generalizing b with
  | nil => exact le_refl b
  | cons x l ih => exact le_trans (le_max_left b x) (ih (max b x))

theorem le_foldl_max_of_mem {x : α} {l : List α} (hx : x ∈ l) (b : α) : x ≤ l.foldl max b := by
  induction l generalizing b with
  | nil => exact absurd hx List.not_mem_nil
  | cons y l ih =>
    rcases List.mem_cons.mp hx with rfl | hx
    · exact le_trans (le_max_right b x) (le_foldl_max (max b x) l)
    · exact ih hx (max b y)

theorem foldl_max_le {b c : α} {l : List α} (hb : b ≤ c) (hl : ∀ x ∈ l, x ≤ c) :
    l.foldl max b ≤ c := by
  induction l generalizing b with
  | nil => exact hb
  | cons x l ih =>
    exact ih (max_le hb (hl x List.mem_cons_self)) (fun y hy ↦ hl y (List.mem_cons_of_mem _ hy))

/-- A fold by `max` reaches a bound of every value that is the start or one of the values,
whatever their order. -/
theorem foldl_max_eq {b c : α} {l : List α} (hb : b ≤ c) (hl : ∀ x ∈ l, x ≤ c)
    (hc : c = b ∨ c ∈ l) : l.foldl max b = c := by
  apply le_antisymm (foldl_max_le hb hl)
  rcases hc with rfl | hc
  · exact le_foldl_max c l
  · exact le_foldl_max_of_mem hc b

end Top

end VertexSwarm.Cumulative
