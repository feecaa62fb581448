import Mathlib

/-!
# Checked machine arithmetic

Rust's checked operations on fixed-width unsigned integers: the result when it fits, `none`
when the exact result leaves the type.
-/

namespace VertexSwarm.Checked

/-- `u64::checked_add`. -/
def checkedAdd (a b : UInt64) : Option UInt64 :=
  if a.toNat + b.toNat < 2 ^ 64 then some (a + b) else none

theorem checkedAdd_eq_some_iff {a b c : UInt64} :
    checkedAdd a b = some c ↔ a.toNat + b.toNat < 2 ^ 64 ∧ c.toNat = a.toNat + b.toNat := by
  unfold checkedAdd
  split
  · next hfit =>
    constructor
    · rintro ⟨⟩
      exact ⟨hfit, by rw [UInt64.toNat_add, Nat.mod_eq_of_lt hfit]⟩
    · rintro ⟨-, hc⟩
      have hsum : (a + b).toNat = c.toNat := by rw [UInt64.toNat_add, Nat.mod_eq_of_lt hfit, hc]
      rw [UInt64.toNat_inj.mp hsum]
  · next hfit =>
    constructor
    · intro h
      cases h
    · rintro ⟨h, -⟩
      exact absurd h hfit

theorem toNat_of_checkedAdd {a b c : UInt64} (h : checkedAdd a b = some c) :
    c.toNat = a.toNat + b.toNat :=
  (checkedAdd_eq_some_iff.mp h).2

/-- `checked_rem` on a `w`-bit unsigned integer: the remainder, `none` on a zero divisor, where
the plain `%` panics. -/
def checkedRem {w : ℕ} (a b : BitVec w) : Option (BitVec w) := if b = 0 then none else some (a % b)

theorem checkedRem_of_ne_zero {w : ℕ} (a : BitVec w) {b : BitVec w} (hb : b ≠ 0) :
    checkedRem a b = some (a % b) :=
  if_neg hb

end VertexSwarm.Checked
