import VertexSwarm.Lib.Saturating

/-!
# Accounting units

`swarm/api/src/accounting.rs` and the admission band of `swarm/api/src/reporting.rs`.  An `Au`
is a signed 64-bit amount, held here as the integer it denotes with its `i64` bounds as fields.
Its `+`, `-` and negation saturate at the bounds; scaling is checked.  `Debt` is the non-negative
`u64` debt that admission and settlement compare against thresholds.

`SwarmAccountingConfig` is the trait of accounting settings, with its two default methods
`disconnect_threshold` and `early_payment_trigger`; `BandwidthConfig` is its implementation over
raw `u64` settings.
-/

namespace VertexSwarm.Api

open Saturating

/-- An amount in accounting units: positive means the peer owes us, negative we owe the peer. -/
structure Au where
  val : ℤ
  min_le : i64Min ≤ val
  le_max : val ≤ i64Max
deriving DecidableEq

namespace Au

theorem ext {a b : Au} (h : a.val = b.val) : a = b := by
  cases a
  cases b
  cases h
  rfl

/-- The saturating result of an exact computation. -/
def ofClamp (x : ℤ) : Au := ⟨clampI64 x, i64Min_le_clampI64 x, clampI64_le_i64Max x⟩

/-- `Au::ZERO`. -/
def zero : Au := ⟨0, le_of_lt i64Min_lt_zero, le_of_lt zero_lt_i64Max⟩

/-- `Au(i64::MAX)`. -/
def max' : Au := ⟨i64Max, i64Min_le_i64Max, le_rfl⟩

instance : LE Au := ⟨fun a b ↦ a.val ≤ b.val⟩
instance : LT Au := ⟨fun a b ↦ a.val < b.val⟩
instance (a b : Au) : Decidable (a ≤ b) := inferInstanceAs (Decidable (a.val ≤ b.val))
instance (a b : Au) : Decidable (a < b) := inferInstanceAs (Decidable (a.val < b.val))

theorem le_iff_val_le {a b : Au} : a ≤ b ↔ a.val ≤ b.val := Iff.rfl

/-- `Au::from_amount`: a non-negative amount from a `u64`, saturating at `i64::MAX`. -/
def fromAmount (amount : UInt64) : Au :=
  if h : i64Max < amount.toNat then max'
  else ⟨amount.toNat, le_trans (le_of_lt i64Min_lt_zero) (Int.natCast_nonneg _), not_lt.mp h⟩

/-- `Au::as_amount`: the amount as a `u64`, clamping negatives to zero. -/
def asAmount (a : Au) : UInt64 := if a.val < 0 then 0 else UInt64.ofNat a.val.toNat

/-- `Au::saturating_add`, the `+` of `Au`. -/
def saturatingAdd (a b : Au) : Au := ofClamp (a.val + b.val)

/-- `Au::saturating_sub`, the `-` of `Au`. -/
def saturatingSub (a b : Au) : Au := ofClamp (a.val - b.val)

/-- `Au::saturating_neg`, the unary `-` of `Au`. -/
def saturatingNeg (a : Au) : Au := ofClamp (-a.val)

/-- `Au::checked_add`. -/
def checkedAdd (a b : Au) : Option Au :=
  if h : i64Min ≤ a.val + b.val ∧ a.val + b.val ≤ i64Max then some ⟨_, h.1, h.2⟩ else none

/-- `Au::checked_sub`. -/
def checkedSub (a b : Au) : Option Au :=
  if h : i64Min ≤ a.val - b.val ∧ a.val - b.val ≤ i64Max then some ⟨_, h.1, h.2⟩ else none

/-- `Au::checked_scale`: a non-negative amount times an unsigned factor, `None` for a negative
amount, a factor past `i64::MAX` or an overflowing product. -/
def checkedScale (a : Au) (factor : UInt64) : Option Au :=
  if ha : a.val < 0 then none
  else if i64Max < factor.toNat then none
  else if h : a.val * factor.toNat ≤ i64Max then
    some ⟨a.val * factor.toNat,
      le_trans (le_of_lt i64Min_lt_zero) (Int.mul_nonneg (by omega) (Int.natCast_nonneg _)), h⟩
  else none

/-- `Au::scale_percent`: scale by `percent / 100`, zero for a negative amount and
`i64::MAX / 100` when the product overflows. -/
def scalePercent (a : Au) (percent : UInt64) : Au :=
  if a.val < 0 then zero
  else
    match checkedScale a percent with
    | some v => ofClamp (v.val / 100)
    | none => ofClamp (i64Max / 100)

/-- `Au::min`. -/
def min (a b : Au) : Au := if a.val ≤ b.val then a else b

/-- `Au::max`. -/
def max (a b : Au) : Au := if a.val ≤ b.val then b else a

/-- `Au::unsigned_abs`: `|a|`, saturating at `i64::MAX`. -/
def unsignedAbs (a : Au) : Au := fromAmount (UInt64.ofNat a.val.natAbs)

/-! ### How the operations compute -/

theorem val_ofClamp (x : ℤ) : (ofClamp x).val = clampI64 x := rfl

@[simp]
theorem val_zero : zero.val = 0 := rfl

theorem val_fromAmount (amount : UInt64) :
    (fromAmount amount).val = Min.min (amount.toNat : ℤ) i64Max := by
  unfold fromAmount
  split
  · next h => exact (min_eq_right (le_of_lt h)).symm
  · next h => exact (min_eq_left (not_lt.mp h)).symm

/-- An amount within `i64` reads back exactly. -/
theorem val_fromAmount_of_le {amount : UInt64} (h : (amount.toNat : ℤ) ≤ i64Max) :
    (fromAmount amount).val = amount.toNat := by
  rw [val_fromAmount, min_eq_left h]

theorem fromAmount_nonneg (amount : UInt64) : 0 ≤ (fromAmount amount).val := by
  rw [val_fromAmount]
  exact le_min (Int.natCast_nonneg _) (le_of_lt zero_lt_i64Max)

theorem toNat_asAmount (a : Au) : (asAmount a).toNat = a.val.toNat := by
  unfold asAmount
  split
  · next h =>
    rw [UInt64.toNat_zero]
    omega
  · next h =>
    have hlt : a.val.toNat < 2 ^ 64 := by
      have := a.le_max
      unfold i64Max at this
      omega
    exact UInt64.toNat_ofNat_of_lt' hlt

/-- A non-negative amount converts to `u64` exactly. -/
theorem toNat_asAmount_of_nonneg {a : Au} (h : 0 ≤ a.val) : ((asAmount a).toNat : ℤ) = a.val := by
  rw [toNat_asAmount, Int.toNat_of_nonneg h]

theorem val_saturatingAdd (a b : Au) : (saturatingAdd a b).val = clampI64 (a.val + b.val) := rfl

theorem val_saturatingSub (a b : Au) : (saturatingSub a b).val = clampI64 (a.val - b.val) := rfl

theorem val_saturatingNeg (a : Au) : (saturatingNeg a).val = clampI64 (-a.val) := rfl

theorem val_saturatingAdd_of_mem {a b : Au} (hlo : i64Min ≤ a.val + b.val)
    (hhi : a.val + b.val ≤ i64Max) : (saturatingAdd a b).val = a.val + b.val :=
  clampI64_of_mem hlo hhi

theorem val_saturatingNeg_of_nonneg {a : Au} (ha : 0 ≤ a.val) : (saturatingNeg a).val = -a.val := by
  have := a.le_max
  exact clampI64_of_mem (by unfold i64Min i64Max at *; omega) (by unfold i64Max at *; omega)

theorem val_min (a b : Au) : (a.min b).val = Min.min a.val b.val := by
  unfold Au.min
  split
  · next h => exact (min_eq_left h).symm
  · next h => exact (min_eq_right (le_of_lt (not_le.mp h))).symm

theorem val_of_checkedScale_eq_some {a v : Au} {factor : UInt64} (h : checkedScale a factor = some v) :
    v.val = a.val * factor.toNat := by
  unfold checkedScale at h
  split at h
  · cases h
  split at h
  · cases h
  split at h
  · cases h
    rfl
  · cases h

/-- A positive amount's checked scale fails only past `i64::MAX`. -/
theorem lt_of_checkedScale_eq_none {a : Au} {factor : UInt64} (ha : 0 < a.val)
    (h : checkedScale a factor = none) : i64Max < a.val * factor.toNat := by
  unfold checkedScale at h
  split at h
  · omega
  split at h
  · -- the factor alone is past the bound, and a positive amount only enlarges it
    next hfactor =>
    calc i64Max < factor.toNat := hfactor
      _ ≤ a.val * factor.toNat := le_mul_of_one_le_left (Int.natCast_nonneg _) (by omega)
  split at h
  · cases h
  · next hmul => exact not_le.mp hmul

/-- A product past `i64::MAX` fails to scale. -/
theorem checkedScale_eq_none_of_lt {a : Au} {factor : UInt64} (h : i64Max < a.val * factor.toNat) :
    checkedScale a factor = none := by
  unfold checkedScale
  split
  · rfl
  split
  · rfl
  rw [dif_neg (not_le.mpr h)]

/-- A non-negative amount whose product with the factor fits in `i64` scales exactly. -/
theorem checkedScale_of_le {a : Au} {factor : UInt64} (ha : 0 ≤ a.val)
    (hfactor : (factor.toNat : ℤ) ≤ i64Max) (h : a.val * factor.toNat ≤ i64Max) :
    ∃ v, checkedScale a factor = some v ∧ v.val = a.val * factor.toNat := by
  unfold checkedScale
  rw [dif_neg (not_lt.mpr ha), if_neg (not_lt.mpr hfactor), dif_pos h]
  exact ⟨_, rfl, rfl⟩

theorem scalePercent_nonneg (a : Au) (percent : UInt64) : 0 ≤ (scalePercent a percent).val := by
  unfold scalePercent
  split
  · exact le_rfl
  · split
    · next v hv =>
      -- a checked scale of a non-negative amount is non-negative
      unfold checkedScale at hv
      split at hv
      · cases hv
      · split at hv
        · cases hv
        · split at hv
          · next hneg hfit hmul =>
            cases hv
            have hprod : 0 ≤ a.val * (percent.toNat : ℤ) :=
              Int.mul_nonneg (by omega) (Int.natCast_nonneg _)
            have hq : 0 ≤ a.val * (percent.toNat : ℤ) / 100 := Int.ediv_nonneg hprod (by norm_num)
            rw [val_ofClamp, clampI64_of_mem (by unfold i64Min; omega)
              (le_trans (Int.ediv_le_self _ hprod) hmul)]
            exact hq
          · cases hv
    · rw [val_ofClamp, clampI64_of_mem (by norm_num [i64Min, i64Max]) (by norm_num [i64Max])]
      norm_num [i64Max]

end Au

/-! ## Crossings to the `U256` wire amount -/

/-- A `U256` wire amount. -/
abbrev U256 := Fin (2 ^ 256)

/-- The numerals of `U256` (`Fin.instOfNat`) all rest on this one fact. -/
instance u256_neZero : NeZero (2 ^ 256 : ℕ) := ⟨by decide⟩

/-- `AuConversionError`. -/
inductive AuConversionError where
  /-- "value {0} overflows accounting unit". -/
  | u256TooLarge (value : U256)
  /-- "negative accounting unit {0} has no U256 representation". -/
  | negative (value : Au)

namespace Au

/-- `impl TryFrom<U256> for Au`: through `u64`, then refusing what is past `i64::MAX`. -/
def tryFromU256 (value : U256) : Except AuConversionError Au :=
  if value.val < 2 ^ 64 then
    if h : i64Max < value.val then .error (.u256TooLarge value)
    else .ok ⟨value.val, le_trans (le_of_lt i64Min_lt_zero) (Int.natCast_nonneg _), not_lt.mp h⟩
  else .error (.u256TooLarge value)

/-- `impl TryFrom<Au> for U256`: a negative amount has no wire amount. -/
def toU256 (value : Au) : Except AuConversionError U256 :=
  if value.val < 0 then .error (.negative value)
  else .ok ⟨value.val.toNat, by have := value.le_max; unfold i64Max at this; omega⟩

/-- `Au::saturating_from_u256`: a wire amount past `u64` reads as `u64::MAX`, then saturates. -/
def saturatingFromU256 (value : U256) : Au :=
  if value.val < 2 ^ 64 then fromAmount (UInt64.ofNat value.val)
  else fromAmount (UInt64.ofNat (2 ^ 64 - 1))

/-- A wire amount converts exactly when it is within `i64`. -/
theorem tryFromU256_eq_ok_iff {value : U256} {a : Au} :
    tryFromU256 value = .ok a ↔ (value.val : ℤ) ≤ i64Max ∧ a.val = value.val := by
  unfold tryFromU256
  split
  · split
    · next h =>
      constructor
      · intro h'
        cases h'
      · rintro ⟨hle, -⟩
        exact absurd hle (not_le.mpr h)
    · next h =>
      constructor
      · intro h'
        cases h'
        exact ⟨not_lt.mp h, rfl⟩
      · rintro ⟨-, hval⟩
        exact congrArg Except.ok (ext hval.symm)
  · next h =>
    constructor
    · intro h'
      cases h'
    · rintro ⟨hle, -⟩
      unfold i64Max at hle
      omega

/-- A wire amount within `i64` converts. -/
theorem tryFromU256_of_le {value : U256} (h : (value.val : ℤ) ≤ i64Max) :
    ∃ a, tryFromU256 value = .ok a ∧ a.val = value.val :=
  ⟨⟨value.val, le_trans (le_of_lt i64Min_lt_zero) (Int.natCast_nonneg _), h⟩,
    tryFromU256_eq_ok_iff.mpr ⟨h, rfl⟩, rfl⟩

theorem toU256_eq_ok_iff {value : Au} {wire : U256} :
    toU256 value = .ok wire ↔ 0 ≤ value.val ∧ (wire.val : ℤ) = value.val := by
  unfold toU256
  split
  · next h =>
    constructor
    · intro h'
      cases h'
    · rintro ⟨hle, -⟩
      exact absurd hle (not_le.mpr h)
  · next h =>
    constructor
    · intro h'
      cases h'
      exact ⟨not_lt.mp h, Int.toNat_of_nonneg (not_lt.mp h)⟩
    · rintro ⟨-, hval⟩
      refine congrArg Except.ok (Fin.ext ?_)
      show value.val.toNat = wire.val
      omega

end Au

/-! ## Debt and the admission band -/

/-- A non-negative debt in accounting units. -/
structure Debt where
  amount : UInt64
deriving DecidableEq

namespace Debt

/-- `Debt::committed`: `max(0, -balance)`. -/
def committed (balance : Au) : Debt := ⟨balance.saturatingNeg.asAmount⟩

/-- `Debt::project`: `max(0, reserved + price - balance)`, in saturating arithmetic. -/
def project (balance reserved price : Au) : Debt :=
  ⟨((reserved.saturatingAdd price).saturatingSub balance).asAmount⟩

/-- `Debt::saturating_sub`. -/
def saturatingSub (debt : Debt) (settled : Au) : Debt :=
  ⟨saturatingSubU64 debt.amount settled.asAmount⟩

/-- `Debt::exceeds`: strictly greater than the threshold. -/
def exceeds (debt : Debt) (threshold : Au) : Bool := decide (threshold.asAmount < debt.amount)

theorem exceeds_iff (debt : Debt) (threshold : Au) :
    debt.exceeds threshold = true ↔ threshold.val.toNat < debt.amount.toNat := by
  rw [exceeds, decide_eq_true_iff, UInt64.lt_iff_toNat_lt, Au.toNat_asAmount]

/-- The projected debt is the saturating `reserved + price - balance`, floored at zero. -/
theorem toNat_project_amount (balance reserved price : Au) :
    (project balance reserved price).amount.toNat =
      (clampI64 (clampI64 (reserved.val + price.val) - balance.val)).toNat :=
  Au.toNat_asAmount _

/-- Against a non-negative line, a projected debt stays within it iff the saturating
`reserved + price - balance` does. -/
theorem project_exceeds_eq_false_iff {threshold : Au} (h : 0 ≤ threshold.val)
    (balance reserved price : Au) :
    (project balance reserved price).exceeds threshold = false ↔
      clampI64 (clampI64 (reserved.val + price.val) - balance.val) ≤ threshold.val := by
  rw [← Bool.not_eq_true, exceeds_iff, toNat_project_amount]
  omega

end Debt

/-- The admission band decision for a priced request. -/
inductive Admission where
  /-- `Admission::Admit`: admit without asking for a settlement. -/
  | admitOnly
  /-- `Admission::SettleAndAdmit`. -/
  | settleAndAdmit
  /-- `Admission::Refuse`. -/
  | refuse
deriving DecidableEq

/-- `Admission::admits`: anything but a refusal. -/
def Admission.admits : Admission → Bool
  | .refuse => false
  | _ => true

/-- `Admission::settles`. -/
def Admission.settles : Admission → Bool
  | .settleAndAdmit => true
  | _ => false

/-- The per-peer ledger reads admission bands over. -/
structure LedgerSnapshot where
  balance : Au
  reserved : Au
  disconnectLine : Au
  settleTrigger : Au

/-- `LedgerSnapshot::admit`: refuse when the projected debt would cross the disconnect line,
ask for a settlement past the settle trigger, admit otherwise. -/
def LedgerSnapshot.admit (snapshot : LedgerSnapshot) (price : Au) : Admission :=
  let projected := Debt.project snapshot.balance snapshot.reserved price
  if projected.exceeds snapshot.disconnectLine then .refuse
  else if projected.exceeds snapshot.settleTrigger then .settleAndAdmit
  else .admitOnly

theorem LedgerSnapshot.admits_iff (snapshot : LedgerSnapshot) (price : Au) :
    Admission.admits ( LedgerSnapshot.admit snapshot price) = true ↔
      (Debt.project snapshot.balance snapshot.reserved price).exceeds snapshot.disconnectLine = false := by
  unfold LedgerSnapshot.admit
  dsimp only
  split
  · next h => simp [h, Admission.admits]
  · next h =>
    simp only [Bool.not_eq_true] at h
    split <;> simp [h, Admission.admits]

/-! ## Configuration -/

/-- `SwarmAccountingConfig`: the settings accounting reads. -/
structure SwarmAccountingConfig where
  paymentThreshold : Au
  paymentTolerancePercent : UInt64
  refreshRate : Au
  earlyPaymentPercent : UInt64

namespace SwarmAccountingConfig

/-- `disconnect_threshold`: the payment threshold marked up by the tolerance. -/
def disconnectThreshold (config : SwarmAccountingConfig) : Au :=
  let percent := saturatingAddU64 100 config.paymentTolerancePercent
  config.paymentThreshold.scalePercent percent

/-- `early_payment_trigger`: the payment threshold marked down by the early-payment percent. -/
def earlyPaymentTrigger (config : SwarmAccountingConfig) : Au :=
  let early := Min.min config.earlyPaymentPercent 100
  match config.paymentThreshold.checkedScale (100 - early) with
  | some scaled => Au.fromAmount (scaled.asAmount / 100)
  | none => Au.fromAmount (UInt64.ofNat (2 ^ 64 - 1))

/-- The settle trigger `Ledger::snapshot` reports: the early-payment trigger floored at one
refresh-rate unit. -/
def settleTrigger (config : SwarmAccountingConfig) : Au :=
  config.earlyPaymentTrigger.max config.refreshRate

theorem disconnectThreshold_nonneg (config : SwarmAccountingConfig) :
    0 ≤ config.disconnectThreshold.val :=
  Au.scalePercent_nonneg _ _

end SwarmAccountingConfig

/-- `BandwidthConfig`: the raw `u64` settings. -/
structure BandwidthConfig where
  paymentThreshold : UInt64
  paymentTolerancePercent : UInt64
  refreshRate : UInt64
  earlyPaymentPercent : UInt64
  clientOnlyFactor : UInt64

/-- `impl SwarmAccountingConfig for BandwidthConfig`. -/
def BandwidthConfig.accountingConfig (config : BandwidthConfig) : SwarmAccountingConfig :=
  ⟨Au.fromAmount config.paymentThreshold, config.paymentTolerancePercent,
    Au.fromAmount config.refreshRate, config.earlyPaymentPercent⟩

/-- `BandwidthConfig::default`. -/
def BandwidthConfig.default : BandwidthConfig := ⟨13500000, 25, 4500000, 50, 10⟩

end VertexSwarm.Api
