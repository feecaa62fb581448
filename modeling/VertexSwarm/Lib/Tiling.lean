import Mathlib.Data.List.Basic

/-!
# Tilings of a range by consecutive closed pages

`Tiles a pages b` says that the closed ranges in `pages` follow each other from `a` up to `b`:
each is nonempty, the first starts at `a`, each next one starts on the point after the one before
ends, and the last ends at `b - 1`.  A loop that consumes a range page by page builds such a list
one page at a time (`Tiles.snoc`), two such loops run one after the other build one
(`Tiles.append`), and the points of the pages, in order, are the points of `[a, b)`
(`Tiles.flatMap_points`): every point once, none outside.
-/

namespace VertexSwarm

/-- The points of the closed range `[page.1, page.2]`, in order. -/
def points (page : ℕ × ℕ) : List ℕ := List.range' page.1 (page.2 + 1 - page.1)

theorem mem_points {page : ℕ × ℕ} {n : ℕ} : n ∈ points page ↔ page.1 ≤ n ∧ n ≤ page.2 := by
  simp only [points, List.mem_range'_1]
  omega

/-- The closed ranges `pages` tile `[a, b)`: each starts on the point after the one before. -/
inductive Tiles : ℕ → List (ℕ × ℕ) → ℕ → Prop
  | nil (a : ℕ) : Tiles a [] a
  | cons {a hi b : ℕ} {rest : List (ℕ × ℕ)} (hle : a ≤ hi) (hrest : Tiles (hi + 1) rest b) :
      Tiles a ((a, hi) :: rest) b

namespace Tiles

variable {a b c : ℕ} {p q : List (ℕ × ℕ)}

theorem le (h : Tiles a p b) : a ≤ b := by
  induction h with
  | nil => exact Nat.le_refl _
  | cons hle _ ih => omega

theorem eq_of_nil (h : Tiles a [] b) : a = b := by
  cases h
  rfl

/-- The last page ends on the point before `b`. -/
theorem getLast_snd {page : ℕ × ℕ} (h : Tiles a p b) (hlast : p.getLast? = some page) :
    page.2 + 1 = b := by
  induction h with
  | nil => cases hlast
  | @cons lo hi b rest hle hrest ih =>
    cases rest with
    | nil =>
      rw [List.getLast?_singleton, Option.some.injEq] at hlast
      rw [← hlast]
      exact hrest.eq_of_nil
    | cons next rest =>
      rw [List.getLast?_cons_cons] at hlast
      exact ih hlast

theorem append (h : Tiles a p b) (h' : Tiles b q c) : Tiles a (p ++ q) c := by
  induction h with
  | nil => exact h'
  | cons hle _ ih => exact .cons hle (ih h')

/-- Each page holds a point, so there are at most as many pages as points. -/
theorem length_le (h : Tiles a p b) : p.length ≤ b - a := by
  induction h with
  | nil => exact Nat.zero_le _
  | cons hle hrest ih =>
    have := hrest.le
    rw [List.length_cons]
    omega

/-- A loop that has tiled `[a, lo)` and consumes `[lo, hi]` next has tiled `[a, hi + 1)`. -/
theorem snoc {lo hi : ℕ} (h : Tiles a p lo) (hle : lo ≤ hi) :
    Tiles a (p ++ [(lo, hi)]) (hi + 1) :=
  h.append (.cons hle (.nil _))

theorem bounds (h : Tiles a p b) : ∀ page ∈ p, a ≤ page.1 ∧ page.1 ≤ page.2 ∧ page.2 < b := by
  induction h with
  | nil => simp
  | cons hle hrest ih =>
    have hb := hrest.le
    intro page hpage
    rcases List.mem_cons.mp hpage with rfl | hmem
    · exact ⟨Nat.le_refl _, hle, by omega⟩
    · obtain ⟨h1, h2, h3⟩ := ih page hmem
      exact ⟨by omega, h2, h3⟩

theorem pairwise_lt (h : Tiles a p b) : p.Pairwise fun page page' ↦ page.2 < page'.1 := by
  induction h with
  | nil => exact List.Pairwise.nil
  | cons _ hrest ih =>
    refine List.pairwise_cons.mpr ⟨fun page hpage ↦ ?_, ih⟩
    have := (hrest.bounds page hpage).1
    omega

theorem pairwise_snd_lt (h : Tiles a p b) : (p.map Prod.snd).Pairwise (· < ·) := by
  rw [List.pairwise_map]
  refine h.pairwise_lt.imp_of_mem fun {page page'} _ hpage' hlt ↦ ?_
  have := (h.bounds page' hpage').2.1
  omega

/-- The points of the pages, in order, are the points of `[a, b)`. -/
theorem flatMap_points (h : Tiles a p b) : p.flatMap points = List.range' a (b - a) := by
  induction h with
  | nil => simp
  | @cons lo hi b rest hle hrest ih =>
    have hb := hrest.le
    have hsplit : b - lo = (hi + 1 - lo) + (b - (hi + 1)) := by omega
    rw [List.flatMap_cons, ih, hsplit, ← List.range'_append, points]
    congr 2
    omega

end Tiles

end VertexSwarm
