import VertexSwarm.Api.Au

/-!
# The settlement bands

`api/src/components/bandwidth.rs`, `accounting/core/src/config.rs`, `api/src/reporting.rs`.
A peer's debt is banded by two lines derived from the payment threshold: the early-payment
trigger below it, past which we settle, and the disconnect line above it, past which we refuse.
Both are computed in checked `i64` arithmetic with a fallback of their own on overflow: the
disconnect line saturates to `i64::MAX / 100`, the early-payment trigger to `i64::MAX`.  The
lines are ordered whenever the threshold marked up by the tolerance fits in `i64`
(`thresholds_ordered_of_fit`); past that both fallbacks turn the order round.

Whatever the lines, the band of a request only rises with its price and with the reserved
amount, and only falls with the balance: the projected debt is monotone in each, in saturating
arithmetic, and the band is read off it against fixed lines.
-/

namespace VertexSwarm.Api

open Saturating

/-- `BandwidthConfig::for_client`: the payment threshold and the refresh rate divided by the
client-only factor (taken as at least one), each floored at one. -/
def BandwidthConfig.forClient (config : BandwidthConfig) : BandwidthConfig :=
  let factor := max config.clientOnlyFactor 1
  { config with
    paymentThreshold := max (config.paymentThreshold / factor) 1
    refreshRate := max (config.refreshRate / factor) 1 }

/-- The order of the bands: admit, then settle and admit, then refuse. -/
def Admission.rank : Admission → ℕ
  | .admitOnly => 0
  | .settleAndAdmit => 1
  | .refuse => 2

/-! ## The lines -/

namespace SwarmAccountingConfig

variable {config : SwarmAccountingConfig}

theorem paymentThreshold_le_disconnectThreshold (hnonneg : 0 ≤ config.paymentThreshold.val)
    (hfit : config.paymentThreshold.val * (100 + config.paymentTolerancePercent.toNat) ≤ i64Max) :
    config.paymentThreshold ≤ config.disconnectThreshold := by
  have hpercent := le_toNat_saturatingAddU64 100 config.paymentTolerancePercent
  rw [Au.le_iff_val_le, disconnectThreshold, Au.scalePercent, if_neg (not_lt.mpr hnonneg)]
  cases hscale : config.paymentThreshold.checkedScale
      (saturatingAddU64 100 config.paymentTolerancePercent) with
  | some v =>
    -- the exact markup, by a percent of at least 100
    have hv := Au.val_of_checkedScale_eq_some hscale
    have hlarger : config.paymentThreshold.val * 100 ≤ v.val := by
      rw [hv]
      exact mul_le_mul_of_nonneg_left (by exact_mod_cast hpercent) hnonneg
    have hbelow := v.le_max
    have hmin := i64Min_lt_zero
    rw [Au.val_ofClamp, clampI64_of_mem (by omega) (by omega)]
    omega
  | none =>
    -- a threshold that fits never overflows, unless it is zero
    rcases eq_or_lt_of_le hnonneg with hzero | hpos
    · rw [Au.val_ofClamp, ← hzero]
      exact le_trans (by norm_num [i64Max]) (le_of_eq (clampI64_of_mem (by norm_num [i64Min, i64Max])
        (by norm_num [i64Max])).symm)
    · have hover := Au.lt_of_checkedScale_eq_none hpos hscale
      have hsum : 100 + config.paymentTolerancePercent.toNat < 2 ^ 64 := by
        have : (100 + config.paymentTolerancePercent.toNat : ℤ) ≤ i64Max :=
          le_trans (le_mul_of_one_le_left (by positivity) (by omega)) hfit
        unfold i64Max at this
        omega
      rw [toNat_saturatingAddU64_of_lt (by simpa using hsum)] at hover
      push_cast at hover hfit
      omega

theorem earlyPaymentTrigger_le_paymentThreshold (hnonneg : 0 ≤ config.paymentThreshold.val)
    (hfit : config.paymentThreshold.val * 100 ≤ i64Max) :
    config.earlyPaymentTrigger ≤ config.paymentThreshold := by
  -- the threshold is scaled by `100 - min(early, 100)`, at most 100
  have hfactor : ((100 - Min.min config.earlyPaymentPercent 100).toNat : ℤ) ≤ 100 := by
    have hmin : (Min.min config.earlyPaymentPercent 100).toNat ≤ 100 := by
      rw [UInt64.toNat_min]
      exact min_le_right _ _
    have h100 : (100 : UInt64).toNat = 100 := rfl
    rw [UInt64.toNat_sub_of_le _ _ (UInt64.le_iff_toNat_le.mpr (h100 ▸ hmin))]
    omega
  have hscaled : config.paymentThreshold.val *
      (100 - Min.min config.earlyPaymentPercent 100).toNat ≤ config.paymentThreshold.val * 100 :=
    mul_le_mul_of_nonneg_left hfactor hnonneg
  obtain ⟨v, hscale, hv⟩ := Au.checkedScale_of_le hnonneg
    (le_trans hfactor (by norm_num [i64Max])) (le_trans hscaled hfit)
  rw [Au.le_iff_val_le, earlyPaymentTrigger]
  simp only [hscale]
  have hamount := Au.toNat_asAmount_of_nonneg (hv ▸ mul_nonneg hnonneg (Int.natCast_nonneg _))
  have h100 : (100 : UInt64).toNat = 100 := rfl
  rw [Au.val_fromAmount, UInt64.toNat_div, h100]
  -- a hundredth of the scaled threshold is at most the threshold
  have hdiv : ((v.asAmount.toNat / 100 : ℕ) : ℤ) ≤ config.paymentThreshold.val :=
    calc ((v.asAmount.toNat / 100 : ℕ) : ℤ)
        = config.paymentThreshold.val * (100 - Min.min config.earlyPaymentPercent 100).toNat / 100 := by
          rw [Int.natCast_div, hamount, hv]
          rfl
      _ ≤ config.paymentThreshold.val * 100 / 100 := Int.ediv_le_ediv (by norm_num) hscaled
      _ = config.paymentThreshold.val := Int.mul_ediv_cancel _ (by norm_num)
  exact le_trans (min_le_left _ _) hdiv

/-- Past `i64`, the disconnect line falls back to `i64::MAX / 100`. -/
theorem val_disconnectThreshold_of_overflow (hnonneg : 0 ≤ config.paymentThreshold.val)
    (hover : i64Max < config.paymentThreshold.val *
      (saturatingAddU64 100 config.paymentTolerancePercent).toNat) :
    config.disconnectThreshold.val = i64Max / 100 := by
  rw [disconnectThreshold, Au.scalePercent, if_neg (not_lt.mpr hnonneg)]
  simp only [Au.checkedScale_eq_none_of_lt hover]
  exact clampI64_of_mem (by norm_num [i64Min, i64Max]) (by norm_num [i64Max])

/-- Past `i64`, the early-payment trigger falls back to `i64::MAX`. -/
theorem val_earlyPaymentTrigger_of_overflow
    (hover : i64Max < config.paymentThreshold.val *
      (100 - Min.min config.earlyPaymentPercent 100).toNat) :
    config.earlyPaymentTrigger.val = i64Max := by
  rw [earlyPaymentTrigger]
  simp only [Au.checkedScale_eq_none_of_lt hover]
  rw [Au.val_fromAmount, UInt64.toNat_ofNat_of_lt' (by norm_num)]
  exact min_eq_right (by norm_num [i64Max])

theorem ordered_of_fit (hnonneg : 0 ≤ config.paymentThreshold.val)
    (hfit : config.paymentThreshold.val * (100 + config.paymentTolerancePercent.toNat) ≤ i64Max) :
    config.earlyPaymentTrigger ≤ config.paymentThreshold ∧
      config.paymentThreshold ≤ config.disconnectThreshold := by
  have hhundred : config.paymentThreshold.val * 100 ≤ config.paymentThreshold.val *
      (100 + config.paymentTolerancePercent.toNat) :=
    mul_le_mul_of_nonneg_left (by omega) hnonneg
  exact ⟨earlyPaymentTrigger_le_paymentThreshold hnonneg (le_trans hhundred hfit),
    paymentThreshold_le_disconnectThreshold hnonneg hfit⟩

end SwarmAccountingConfig

namespace BandwidthConfig

theorem ordered_of_fit {config : BandwidthConfig}
    (hfit : ((config.paymentThreshold.toNat * (100 + config.paymentTolerancePercent.toNat) : ℕ) : ℤ)
      ≤ i64Max) :
    config.accountingConfig.earlyPaymentTrigger ≤ config.accountingConfig.paymentThreshold ∧
      config.accountingConfig.paymentThreshold ≤ config.accountingConfig.disconnectThreshold := by
  -- the threshold is within `i64`, so it reads back exactly
  have hle : (config.paymentThreshold.toNat : ℤ) ≤ i64Max :=
    le_trans (by exact_mod_cast Nat.le_mul_of_pos_right _ (by omega)) hfit
  have hval : config.accountingConfig.paymentThreshold.val = config.paymentThreshold.toNat :=
    Au.val_fromAmount_of_le hle
  apply SwarmAccountingConfig.ordered_of_fit (hval ▸ Int.natCast_nonneg _)
  rw [hval]
  exact_mod_cast hfit

theorem toNat_forClient_paymentThreshold_le (config : BandwidthConfig) :
    config.forClient.paymentThreshold.toNat ≤ max config.paymentThreshold.toNat 1 := by
  have hone : (1 : UInt64).toNat = 1 := rfl
  simp only [forClient, UInt64.toNat_max, UInt64.toNat_div, hone]
  have hdiv := Nat.div_le_self config.paymentThreshold.toNat (max config.clientOnlyFactor.toNat 1)
  omega

end BandwidthConfig

/-! ## The bands -/

namespace Debt

theorem project_mono {balance balance' reserved reserved' price price' : Au}
    (hbalance : balance'.val ≤ balance.val) (hreserved : reserved.val ≤ reserved'.val)
    (hprice : price.val ≤ price'.val) :
    (project balance reserved price).amount.toNat ≤ (project balance' reserved' price').amount.toNat := by
  rw [toNat_project_amount, toNat_project_amount]
  have hsum := clampI64_mono (add_le_add hreserved hprice)
  exact Int.toNat_le_toNat (clampI64_mono (by omega))

theorem exceeds_of_le {debt debt' : Debt} {threshold : Au}
    (h : debt.amount.toNat ≤ debt'.amount.toNat) (hexceeds : debt.exceeds threshold = true) :
    debt'.exceeds threshold = true := by
  rw [exceeds_iff] at hexceeds ⊢
  omega

end Debt

theorem LedgerSnapshot.rank_admit_le {snapshot snapshot' : LedgerSnapshot} {price price' : Au}
    (hdisconnect : snapshot'.disconnectLine = snapshot.disconnectLine)
    (hsettle : snapshot'.settleTrigger = snapshot.settleTrigger)
    (hdebt : (Debt.project snapshot.balance snapshot.reserved price).amount.toNat ≤
      (Debt.project snapshot'.balance snapshot'.reserved price').amount.toNat) :
    Admission.rank ( LedgerSnapshot.admit snapshot price) ≤
      Admission.rank ( LedgerSnapshot.admit snapshot' price') := by
  unfold LedgerSnapshot.admit
  dsimp only
  rw [hdisconnect, hsettle]
  by_cases hrefuse :
      (Debt.project snapshot.balance snapshot.reserved price).exceeds snapshot.disconnectLine = true
  · -- refused at the smaller debt, so refused at the larger
    rw [if_pos hrefuse, if_pos (Debt.exceeds_of_le hdebt hrefuse)]
  · rw [if_neg hrefuse]
    by_cases hsettles :
        (Debt.project snapshot.balance snapshot.reserved price).exceeds snapshot.settleTrigger = true
    · -- asked to settle at the smaller debt: past the same trigger at the larger
      rw [if_pos hsettles]
      split
      · exact Nat.le_succ 1
      · rw [if_pos (Debt.exceeds_of_le hdebt hsettles)]
    · rw [if_neg hsettles]
      exact Nat.zero_le _

/-- The settlement lines of a node and of the client scaling of its configuration are ordered
while its threshold, floored at one and marked up by the tolerance, fits in `i64`; and every
ledger snapshot bands a request no lower for a larger price or reserved amount or a smaller
balance. -/
theorem thresholds_ordered_of_fit (config : BandwidthConfig)
    (hfit : ((max config.paymentThreshold.toNat 1 * (100 + config.paymentTolerancePercent.toNat) : ℕ) : ℤ)
      ≤ i64Max) :
    (∀ c ∈ [config.accountingConfig, config.forClient.accountingConfig],
      c.earlyPaymentTrigger ≤ c.paymentThreshold ∧ c.paymentThreshold ≤ c.disconnectThreshold) ∧
    ∀ (snapshot : LedgerSnapshot) (price price' reserved' balance' : Au),
      price ≤ price' → snapshot.reserved ≤ reserved' → balance' ≤ snapshot.balance →
      Admission.rank ( LedgerSnapshot.admit snapshot price) ≤
        Admission.rank ( LedgerSnapshot.admit { snapshot with reserved := reserved', balance := balance' }
          price') := by
  -- both thresholds are at most the floored one, with the same tolerance
  have hscaled : ∀ threshold : ℕ, threshold ≤ max config.paymentThreshold.toNat 1 →
      ((threshold * (100 + config.paymentTolerancePercent.toNat) : ℕ) : ℤ) ≤ i64Max :=
    fun threshold hle ↦ le_trans (by exact_mod_cast Nat.mul_le_mul_right _ hle) hfit
  refine ⟨fun c hc ↦ ?_, fun snapshot price price' reserved' balance' hprice hreserved hbalance ↦ ?_⟩
  · simp only [List.mem_cons, List.not_mem_nil, or_false] at hc
    rcases hc with rfl | rfl
    · exact BandwidthConfig.ordered_of_fit (hscaled _ (le_max_left _ _))
    · exact BandwidthConfig.ordered_of_fit
        (hscaled _ (BandwidthConfig.toNat_forClient_paymentThreshold_le config))
  · exact LedgerSnapshot.rank_admit_le rfl rfl (Debt.project_mono hbalance hreserved hprice)

/-- A payment threshold of `2^62` with the default tolerance and early-payment percent. -/
def largeThresholdConfig : BandwidthConfig := ⟨4611686018427387904, 25, 4500000, 50, 10⟩

theorem thresholds_ordered_of_default :
    ((max BandwidthConfig.default.paymentThreshold.toNat 1 *
        (100 + BandwidthConfig.default.paymentTolerancePercent.toNat) : ℕ) : ℤ) ≤ i64Max ∧
      BandwidthConfig.default.accountingConfig.earlyPaymentTrigger ≤
        BandwidthConfig.default.accountingConfig.paymentThreshold :=
  ⟨by decide, ((thresholds_ordered_of_fit BandwidthConfig.default (by decide)).1 _
    List.mem_cons_self).1⟩

/-- At a threshold of `2^62` the markup overflows: the disconnect line falls back to
`i64::MAX / 100`, below the threshold, and the early-payment trigger to `i64::MAX`, above it. -/
theorem thresholds_reversed_of_largeThreshold :
    largeThresholdConfig.accountingConfig.disconnectThreshold <
        largeThresholdConfig.accountingConfig.paymentThreshold ∧
      largeThresholdConfig.accountingConfig.paymentThreshold <
        largeThresholdConfig.accountingConfig.earlyPaymentTrigger := by
  have hthreshold : largeThresholdConfig.accountingConfig.paymentThreshold.val = 2 ^ 62 :=
    Au.val_fromAmount_of_le (by decide)
  have hpercent : (saturatingAddU64 100
      largeThresholdConfig.accountingConfig.paymentTolerancePercent).toNat = 125 :=
    toNat_saturatingAddU64_of_lt (by decide)
  have hearly : (100 - Min.min largeThresholdConfig.accountingConfig.earlyPaymentPercent 100).toNat
      = 50 := by decide
  -- both markups overflow, so both lines take their fallbacks
  have hdisconnect : largeThresholdConfig.accountingConfig.disconnectThreshold.val = i64Max / 100 :=
    SwarmAccountingConfig.val_disconnectThreshold_of_overflow (by rw [hthreshold]; norm_num)
      (by rw [hthreshold, hpercent]; norm_num [i64Max])
  have htrigger : largeThresholdConfig.accountingConfig.earlyPaymentTrigger.val = i64Max :=
    SwarmAccountingConfig.val_earlyPaymentTrigger_of_overflow
      (by rw [hthreshold, hearly]; norm_num [i64Max])
  constructor
  · show (_ : ℤ) < _
    rw [hdisconnect, hthreshold]
    norm_num [i64Max]
  · show (_ : ℤ) < _
    rw [hthreshold, htrigger]
    norm_num [i64Max]

end VertexSwarm.Api
