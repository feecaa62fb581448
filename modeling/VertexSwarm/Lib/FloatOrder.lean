import Mathlib

/-!
# The IEEE order on `Float`

Lean's `Float` compares through its logical model (`Float.Model`): `a < b` when the unpacked
values compare `lt`, `a ≤ b` when they compare `lt` or `eq`, and a `NaN` compares with nothing.
So `¬b < a` does not give `a ≤ b`, and a `NaN` is neither below nor at most anything; but `<` is
still a strict order, irreflexive and transitive for every float, and `a ≤ b` does rule out
`b < a`.
-/

namespace VertexSwarm.FloatOrder

open Float.Model

/-- Finite floats of one sign compare exponents first, then mantissas.  That comparison is
transitive at `lt`, and at `gt`, which is the order of the negative floats. -/
theorem then_eq_lt_trans {e₁ e₂ e₃ : Int} {m₁ m₂ m₃ : Nat}
    (h₁ : (compare e₁ e₂).then (compare m₁ m₂) = .lt)
    (h₂ : (compare e₂ e₃).then (compare m₂ m₃) = .lt) :
    (compare e₁ e₃).then (compare m₁ m₃) = .lt := by
  simp only [Ordering.then_eq_lt, Int.compare_eq_lt, Int.compare_eq_eq, Nat.compare_eq_lt] at *
  omega

theorem then_eq_gt_trans {e₁ e₂ e₃ : Int} {m₁ m₂ m₃ : Nat}
    (h₁ : (compare e₁ e₂).then (compare m₁ m₂) = .gt)
    (h₂ : (compare e₂ e₃).then (compare m₂ m₃) = .gt) :
    (compare e₁ e₃).then (compare m₁ m₃) = .gt := by
  simp only [Ordering.then_eq_gt, Int.compare_eq_gt, Int.compare_eq_eq, Nat.compare_eq_gt] at *
  omega

namespace Unpacked

theorem compare_self_ne_lt (a : UnpackedFloat) : a.compare a ≠ some .lt := by
  rcases a with ⟨_ | _⟩ | _ | ⟨_ | _⟩ | ⟨_ | _, m, e, h⟩ <;> simp [UnpackedFloat.compare]

theorem compare_swap (a b : UnpackedFloat) : b.compare a = (a.compare b).map Ordering.swap := by
  rcases a with ⟨_ | _⟩ | _ | ⟨_ | _⟩ | ⟨_ | _, m₁, e₁, h₁⟩ <;>
  rcases b with ⟨_ | _⟩ | _ | ⟨_ | _⟩ | ⟨_ | _, m₂, e₂, h₂⟩ <;>
  simp [UnpackedFloat.compare, Ordering.swap_then, ← Std.OrientedCmp.eq_swap] <;> rfl

/-- Over the seven shapes of a non-`NaN` float (two infinities, two zeros, finite of each sign),
`lt` chains; only the finite floats of one sign need the lexicographic argument. -/
theorem compare_lt_trans {a b c : UnpackedFloat} (hab : a.compare b = some .lt)
    (hbc : b.compare c = some .lt) : a.compare c = some .lt := by
  rcases a with ⟨_ | _⟩ | _ | ⟨_ | _⟩ | ⟨_ | _, m₁, e₁, h₁⟩ <;>
  rcases b with ⟨_ | _⟩ | _ | ⟨_ | _⟩ | ⟨_ | _, m₂, e₂, h₂⟩ <;>
  rcases c with ⟨_ | _⟩ | _ | ⟨_ | _⟩ | ⟨_ | _, m₃, e₃, h₃⟩ <;>
  simp only [UnpackedFloat.compare, Option.some.injEq, reduceCtorEq, Ordering.swap_eq_lt]
    at hab hbc ⊢
  all_goals first
    | exact then_eq_lt_trans hab hbc
    | exact then_eq_gt_trans hab hbc
    | rfl

end Unpacked

theorem lt_iff_compare {a b : Float} :
    a < b ↔ a.toModel.unpack.compare b.toModel.unpack = some .lt :=
  decide_eq_true_iff.trans beq_iff_eq

theorem le_iff_compare {a b : Float} :
    a ≤ b ↔ (a.toModel.unpack.compare b.toModel.unpack).any (·.isLE) = true :=
  decide_eq_true_iff

theorem lt_irrefl (a : Float) : ¬a < a := fun h ↦
  Unpacked.compare_self_ne_lt _ (lt_iff_compare.mp h)

theorem lt_trans {a b c : Float} (hab : a < b) (hbc : b < c) : a < c :=
  lt_iff_compare.mpr (Unpacked.compare_lt_trans (lt_iff_compare.mp hab) (lt_iff_compare.mp hbc))

theorem unpack_eq_of_isNaN {a : Float} (h : a.isNaN = true) : a.toModel.unpack = .notANumber := by
  revert h
  change a.toModel.unpack.isNaN = true → _
  cases a.toModel.unpack <;> simp [UnpackedFloat.isNaN]

/-- A `NaN` is neither below nor at most anything. -/
theorem not_lt_of_isNaN {a : Float} (h : a.isNaN = true) (b : Float) : ¬a < b := by
  rw [lt_iff_compare, unpack_eq_of_isNaN h]
  simp [UnpackedFloat.compare]

theorem not_le_of_isNaN {a : Float} (h : a.isNaN = true) (b : Float) : ¬a ≤ b := by
  rw [le_iff_compare, unpack_eq_of_isNaN h]
  simp [UnpackedFloat.compare]

theorem not_lt_of_le {a b : Float} (h : a ≤ b) : ¬b < a := by
  intro hlt
  have hle := le_iff_compare.mp h
  rw [lt_iff_compare, Unpacked.compare_swap] at hlt
  -- `b < a` swaps to `a` comparing `gt` with `b`, which `a ≤ b` excludes
  cases hc : a.toModel.unpack.compare b.toModel.unpack with
  | none => simp [hc] at hle
  | some o => cases o <;> simp_all

end VertexSwarm.FloatOrder
