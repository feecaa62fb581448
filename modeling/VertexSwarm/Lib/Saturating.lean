import Mathlib.Order.Lattice
import Mathlib.Algebra.Order.Ring.Int
import Mathlib.Tactic.Linarith

/-!
# Saturating machine arithmetic

A saturating operation on a fixed-width integer computes the exact result and clamps it into
the type's range.  `clamp lo hi` is that clamp on integers; the lemmas say when it is the
identity (the exact result fits), that it stays in range, and that it is monotone, which is
what a bound proved over exact integers needs to survive saturation.
-/

namespace VertexSwarm.Saturating

/-- The least `i64`. -/
def i64Min : ℤ := -2 ^ 63

/-- The greatest `i64`. -/
def i64Max : ℤ := 2 ^ 63 - 1

theorem i64Min_lt_zero : i64Min < 0 := by norm_num [i64Min]

theorem zero_lt_i64Max : 0 < i64Max := by norm_num [i64Max]

/-- Clamp `x` into `[lo, hi]`. -/
def clamp (lo hi x : ℤ) : ℤ := max lo (min x hi)

variable {lo hi x y : ℤ}

theorem clamp_of_mem (hlo : lo ≤ x) (hhi : x ≤ hi) : clamp lo hi x = x := by
  rw [clamp, min_eq_left hhi, max_eq_right hlo]

theorem le_clamp : lo ≤ clamp lo hi x := le_max_left _ _

theorem clamp_le (h : lo ≤ hi) : clamp lo hi x ≤ hi := max_le h (min_le_right _ _)

theorem clamp_mono (hxy : x ≤ y) : clamp lo hi x ≤ clamp lo hi y :=
  max_le_max le_rfl (min_le_min_right _ hxy)

theorem clamp_of_hi_le (h : lo ≤ hi) (hx : hi ≤ x) : clamp lo hi x = hi := by
  rw [clamp, min_eq_right hx, max_eq_right h]

theorem clamp_of_lo_le (h : lo ≤ hi) (hx : lo ≤ x) : clamp lo hi x = min x hi := by
  rw [clamp, max_eq_right (le_min hx h)]

/-- The clamp is below `c` iff the exact value is, for a `c` in range. -/
theorem clamp_le_iff (hlo : lo ≤ y) (hhi : y < hi) : clamp lo hi x ≤ y ↔ x ≤ y := by
  unfold clamp
  constructor
  · intro h
    by_contra hxy
    have : y < min x hi := lt_min (lt_of_not_ge hxy) hhi
    exact absurd (le_trans (le_max_right _ _) h) (not_le.mpr this)
  · intro h
    exact max_le hlo (le_trans (min_le_left _ _) h)

/-- The `i64` clamp. -/
def clampI64 (x : ℤ) : ℤ := clamp i64Min i64Max x

theorem i64Min_le_i64Max : i64Min ≤ i64Max := by norm_num [i64Min, i64Max]

theorem i64Min_le_clampI64 (x : ℤ) : i64Min ≤ clampI64 x := le_clamp

theorem clampI64_le_i64Max (x : ℤ) : clampI64 x ≤ i64Max := clamp_le i64Min_le_i64Max

theorem clampI64_of_mem (hlo : i64Min ≤ x) (hhi : x ≤ i64Max) : clampI64 x = x :=
  clamp_of_mem hlo hhi

theorem clampI64_mono (hxy : x ≤ y) : clampI64 x ≤ clampI64 y := clamp_mono hxy

/-- Adding a non-negative amount after a clamp is adding it before: the clamp can only have
cut at the top, where the sum stays cut. -/
theorem clamp_clamp_add (h : lo ≤ hi) (hx : lo ≤ x) (hy : 0 ≤ y) :
    clamp lo hi (clamp lo hi x + y) = clamp lo hi (x + y) := by
  by_cases hxhi : x ≤ hi
  · rw [clamp_of_mem hx hxhi]
  · have hhi : hi ≤ x := le_of_lt (lt_of_not_ge hxhi)
    rw [clamp_of_hi_le h hhi, clamp_of_hi_le h (by linarith), clamp_of_hi_le h (by linarith)]

theorem clampI64_clampI64_add (hx : i64Min ≤ x) (hy : 0 ≤ y) :
    clampI64 (clampI64 x + y) = clampI64 (x + y) :=
  clamp_clamp_add i64Min_le_i64Max hx hy

/-- `u64::saturating_add`. -/
def saturatingAddU64 (a b : UInt64) : UInt64 :=
  if a.toNat + b.toNat < 2 ^ 64 then a + b else UInt64.ofNat (2 ^ 64 - 1)

/-- `u64::saturating_mul`. -/
def saturatingMulU64 (a b : UInt64) : UInt64 :=
  if a.toNat * b.toNat < 2 ^ 64 then a * b else UInt64.ofNat (2 ^ 64 - 1)

/-- `u64::saturating_add` on counts read as naturals. -/
def saturatingAddNat (a b : ℕ) : ℕ := min (a + b) (2 ^ 64 - 1)

/-- `u64::saturating_sub`. -/
def saturatingSubU64 (a b : UInt64) : UInt64 := if b ≤ a then a - b else 0

theorem toNat_saturatingSubU64 (a b : UInt64) :
    (saturatingSubU64 a b).toNat = a.toNat - b.toNat := by
  unfold saturatingSubU64
  split
  · next h =>
    rw [UInt64.toNat_sub_of_le _ _ h]
  · next h =>
    rw [UInt64.le_iff_toNat_le] at h
    simp only [UInt64.toNat_zero]
    omega

theorem toNat_saturatingAddU64 (a b : UInt64) :
    (saturatingAddU64 a b).toNat = min (a.toNat + b.toNat) (2 ^ 64 - 1) := by
  unfold saturatingAddU64
  split
  · next h =>
    rw [UInt64.toNat_add, Nat.mod_eq_of_lt h]
    omega
  · next h =>
    rw [UInt64.toNat_ofNat_of_lt' (by norm_num)]
    omega

theorem toNat_saturatingAddU64_of_lt {a b : UInt64} (h : a.toNat + b.toNat < 2 ^ 64) :
    (saturatingAddU64 a b).toNat = a.toNat + b.toNat := by
  rw [saturatingAddU64, if_pos h, UInt64.toNat_add, Nat.mod_eq_of_lt h]

theorem toNat_saturatingMulU64 (a b : UInt64) :
    (saturatingMulU64 a b).toNat = min (a.toNat * b.toNat) (2 ^ 64 - 1) := by
  unfold saturatingMulU64
  split
  · next h =>
    rw [UInt64.toNat_mul, Nat.mod_eq_of_lt h]
    omega
  · next h =>
    rw [UInt64.toNat_ofNat_of_lt' (by norm_num)]
    omega

theorem le_toNat_saturatingAddU64 (a b : UInt64) : a.toNat ≤ (saturatingAddU64 a b).toNat := by
  by_cases h : a.toNat + b.toNat < 2 ^ 64
  · rw [toNat_saturatingAddU64_of_lt h]
    exact Nat.le_add_right _ _
  · rw [saturatingAddU64, if_neg h]
    have := a.toNat_lt
    rw [UInt64.toNat_ofNat_of_lt' (by norm_num)]
    omega

/-- `u64::div_ceil`: the quotient, one more when the division leaves a remainder. -/
def divCeilU64 (a b : UInt64) : UInt64 := if 0 < a % b then a / b + 1 else a / b

theorem toNat_divCeilU64_two (a : UInt64) : (divCeilU64 a 2).toNat = (a.toNat + 1) / 2 := by
  have ha := a.toNat_lt
  unfold divCeilU64
  split
  · next h =>
    rw [UInt64.lt_iff_toNat_lt, UInt64.toNat_mod] at h
    rw [UInt64.toNat_add, UInt64.toNat_div]
    simp only [UInt64.reduceToNat, UInt64.toNat_one] at h ⊢
    omega
  · next h =>
    rw [UInt64.lt_iff_toNat_lt, UInt64.toNat_mod] at h
    rw [UInt64.toNat_div]
    simp only [UInt64.reduceToNat] at h ⊢
    omega

end VertexSwarm.Saturating
