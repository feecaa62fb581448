import VertexSwarm.Accounting.Conservation

/-!
# Threshold safety

`prepare_receive` refuses a request whose projected debt would pass the disconnect line, and
`prepare_provide` one whose projected exposure would pass the payment threshold.  Each gate
looks at its own projection when a reservation is made; the lines hold over a whole run because
every later consumption moves the books the right way: an apply moves a receive reserve into
the balance at the same debt, a forfeit moves a provide reserve into the ghost balance at the
same exposure, and everything else only lowers them.

Over the books, where sums are exact, the two lines are `LedgerRun.WithinLines`; with the
books balanced and within `i64` they are the lines the code reads (`PeerState.WithinThresholds`).
Past `i64` the counters saturate and the lines can be crossed: `disconnectLineCrossed` is a run
from a fresh peer whose reserve read saturates at `i64::MAX` while the `u64` counter does not,
so that admission misses one unit of debt.
-/

namespace VertexSwarm.Accounting

open Saturating Api Keyed

/-! ## The lines a peer state keeps -/

/-- What the provide gate bounds: the balance, the outstanding provides and the ghost debt, in
the saturating sum `prepare_provide` computes before it adds the price. -/
def PeerState.exposure (state : PeerState) : Au :=
  (state.balance.saturatingAdd state.shadowReservedBalanceAu).saturatingAdd state.ghostBalanceAu

theorem projectedProvide_eq (state : PeerState) (price : Au) :
    projectedProvide state price = state.exposure.saturatingAdd price := rfl

/-- The receive debt committed or reserved is not past the disconnect line, and the exposure is
not past the payment threshold. -/
structure PeerState.WithinThresholds (state : PeerState) : Prop where
  disconnect :
    (Debt.project state.balance state.reservedBalanceAu Au.zero).exceeds state.disconnectThreshold = false
  payment : state.exposure ≤ state.paymentThreshold

/-- The thresholds of a peer state. -/
def PeerState.thresholds (state : PeerState) : Au × Au :=
  (state.paymentThreshold, state.disconnectThreshold)

/-! ## The gates -/

theorem prepareReceive_within {config : SwarmAccountingConfig} {state : PeerState} {price : Au}
    {result : Reservation × PeerState} (h : prepareReceive config state price = .ok result) :
    (Debt.project state.balance state.reservedBalanceAu price).exceeds state.disconnectThreshold =
      false := by
  unfold prepareReceive at h
  cases hadmits : Admission.admits ( LedgerSnapshot.admit (state.snapshot config) price)
  · simp [hadmits] at h
  · exact (LedgerSnapshot.admits_iff (state.snapshot config) price).mp hadmits

theorem prepareProvide_within {state : PeerState} {price : Au} {result : Reservation × PeerState}
    (h : prepareProvide state price = .ok result) :
    state.exposure.saturatingAdd price ≤ state.paymentThreshold := by
  unfold prepareProvide at h
  dsimp only at h
  split at h
  · cases h
  · next hle => exact Int.not_lt.mp hle

/-! ## The thresholds never change -/

theorem Leg.thresholds_release (leg : Leg) (state : PeerState) (price : Au) :
    (leg.release state price).thresholds = state.thresholds := by
  cases leg <;> rfl

theorem Leg.thresholds_apply (leg : Leg) (state : PeerState) (price : Au) :
    (leg.apply state price).thresholds = state.thresholds := by
  cases leg <;> rfl

theorem Reservation.thresholds_drop (reservation : Reservation) (state : PeerState) :
    (reservation.drop state).thresholds = state.thresholds := by
  unfold Reservation.drop
  split
  · exact Leg.thresholds_release _ _ _
  · rfl

namespace LedgerRun

theorem thresholds_step (config : SwarmAccountingConfig) (run : LedgerRun) (op : LedgerOp) :
    (run.step config op).state.thresholds = run.state.thresholds := by
  cases op with
  | prepareReceive price =>
    dsimp only [step]
    cases h : prepareReceive config run.state price with
    | error _ => rfl
    | ok result =>
      obtain ⟨reservation, state⟩ := result
      obtain ⟨_, rfl⟩ := prepareReceive_ok h
      rfl
  | prepareProvide price =>
    dsimp only [step]
    cases h : prepareProvide run.state price with
    | error _ => rfl
    | ok result =>
      obtain ⟨reservation, state⟩ := result
      obtain ⟨_, rfl⟩ := prepareProvide_ok h
      rfl
  | apply id =>
    dsimp only [step]
    cases find run.held id with
    | none => rfl
    | some reservation =>
      show (reservation.apply run.state).thresholds = _
      rw [Reservation.apply_eq]
      exact Leg.thresholds_apply _ _ _
  | forfeit id =>
    dsimp only [step]
    cases find run.held id with
    | none => rfl
    | some reservation =>
      dsimp only
      split
      · exact Reservation.thresholds_drop _ _
      · rfl
  | drop id =>
    dsimp only [step]
    cases find run.held id with
    | none => rfl
    | some reservation => exact Reservation.thresholds_drop _ _
  | record amount direction => cases direction <;> rfl

/-! ## The lines over the books -/

/-- The two lines over the books: the receive debt, outstanding receives less the committed
balance, is within the disconnect line, and the exposure, committed balance plus outstanding
provides plus forfeited provides, within the payment threshold; both in saturating `i64`. -/
structure WithinLines (run : LedgerRun) (disconnectLine paymentLine : ℤ) : Prop where
  disconnect : clampI64 (run.outstanding .receive - run.committed) ≤ disconnectLine
  payment :
    clampI64 (run.committed + run.outstanding .provide + run.consumed .provide .forfeited) ≤ paymentLine

variable {run : LedgerRun} {disconnectLine paymentLine : ℤ}

/-- Consuming a held reservation, whatever its fate, lowers neither line's sum above where it
was: an apply trades a reserve for balance, a forfeit a reserve for ghost debt, and a drop
only releases. -/
theorem WithinLines.close (hw : run.WithinLines disconnectLine paymentLine) (hb : run.Balanced)
    {id : ℕ} {reservation : Reservation} (hfind : find run.held id = some reservation) (fate : Fate)
    (state : PeerState) : (run.close id reservation fate state).WithinLines disconnectLine paymentLine := by
  have hmem := mem_of_find hfind
  have hnodup : (keys run.held).Nodup := hb.keys_nodup.of_append_left
  have hreceive : 0 ≤ priceOn reservation .receive := priceOn_nonneg (hb.held_nonneg _ hmem) _
  have hprovide : 0 ≤ priceOn reservation .provide := priceOn_nonneg (hb.held_nonneg _ hmem) _
  constructor
  · refine le_trans (clampI64_mono ?_) hw.disconnect
    rw [outstanding_close hnodup hmem, committed_close]
    split_ifs <;> omega
  · refine le_trans (clampI64_mono ?_) hw.payment
    rw [outstanding_close hnodup hmem, committed_close, consumed_close]
    cases fate <;> simp only [reduceCtorEq, if_true, if_false] <;> omega

/-- Read through balanced books within `i64`, the admission projection of a receive is the
books' debt plus its price. -/
theorem Balanced.project_exceeds_eq_false_iff (hb : run.Balanced) (hrange : run.InRange)
    (hline : 0 ≤ run.state.disconnectThreshold.val) (price : Au) :
    (Debt.project run.state.balance run.state.reservedBalanceAu price).exceeds
        run.state.disconnectThreshold = false ↔
      clampI64 (clampI64 (run.outstanding .receive + price.val) - run.committed) ≤
        run.state.disconnectThreshold.val := by
  rw [Debt.project_exceeds_eq_false_iff hline, (hb.conserved hrange).reserved, hb.balance]

/-- Read through balanced books within `i64`, the exposure is the books' exposure. -/
theorem Balanced.val_exposure (hb : run.Balanced) (hrange : run.InRange) :
    run.state.exposure.val =
      clampI64 (run.committed + run.outstanding .provide + run.consumed .provide .forfeited) := by
  have hconserved := hb.conserved hrange
  have hshadow := hb.outstanding_nonneg .provide
  have hghost : 0 ≤ run.consumed .provide .forfeited := hb.ghost ▸ Int.natCast_nonneg _
  have hmin : i64Min ≤ run.committed + run.outstanding .provide := by
    have := run.state.balance.min_le
    rw [hb.balance] at this
    omega
  calc run.state.exposure.val
      = clampI64 (clampI64 (run.committed + run.outstanding .provide) +
          run.consumed .provide .forfeited) := by
        rw [PeerState.exposure, Au.val_saturatingAdd, Au.val_saturatingAdd, hb.balance,
          hconserved.shadowReserved, hconserved.ghost]
    _ = clampI64 (run.committed + run.outstanding .provide + run.consumed .provide .forfeited) :=
        clampI64_clampI64_add hmin hghost

/-- The lines over balanced books within `i64` are the lines the code reads. -/
theorem WithinLines.withinThresholds (hb : run.Balanced) (hrange : run.InRange)
    (hw : run.WithinLines run.state.disconnectThreshold.val run.state.paymentThreshold.val)
    (hline : 0 ≤ run.state.disconnectThreshold.val) : run.state.WithinThresholds where
  disconnect := by
    rw [hb.project_exceeds_eq_false_iff hrange hline, Au.val_zero, add_zero,
      clampI64_of_mem (by have := (hb.conserved hrange).reserved ▸ Au.min_le _; exact this)
        hrange.receive_le]
    exact hw.disconnect
  payment := by
    rw [Au.le_iff_val_le, hb.val_exposure hrange]
    exact hw.payment

theorem disconnectThreshold_step (config : SwarmAccountingConfig) (run : LedgerRun) (op : LedgerOp) :
    (run.step config op).state.disconnectThreshold = run.state.disconnectThreshold :=
  congrArg Prod.snd (thresholds_step config run op)

theorem paymentThreshold_step (config : SwarmAccountingConfig) (run : LedgerRun) (op : LedgerOp) :
    (run.step config op).state.paymentThreshold = run.state.paymentThreshold :=
  congrArg Prod.fst (thresholds_step config run op)

/-! ## Every reservation call keeps the lines -/

section Step

variable (config : SwarmAccountingConfig)

theorem WithinLines.step_prepareReceive (hw : run.WithinLines disconnectLine paymentLine)
    (hb : run.Balanced) (hrange : run.InRange) (hline : 0 ≤ run.state.disconnectThreshold.val)
    (hdisconnect : run.state.disconnectThreshold.val = disconnectLine) {price : Au}
    (hprice : 0 ≤ price.val) (hrange' : (run.step config (.prepareReceive price)).InRange) :
    (run.step config (.prepareReceive price)).WithinLines disconnectLine paymentLine := by
  dsimp only [step] at hrange' ⊢
  cases hresult : prepareReceive config run.state price with
  | error _ => exact hw
  | ok result =>
    obtain ⟨reservation, state⟩ := result
    have hgate := prepareReceive_within hresult
    obtain ⟨rfl, rfl⟩ := prepareReceive_ok hresult
    rw [hresult] at hrange'
    have hon : priceOn ⟨.receive, price, false⟩ .receive = price.val := rfl
    have hoff : priceOn ⟨.receive, price, false⟩ .provide = 0 := rfl
    have hfit := hrange'.receive_le
    rw [prepared, outstanding_hold, hon] at hfit
    rw [hb.project_exceeds_eq_false_iff hrange hline, hdisconnect] at hgate
    have hreserve := hb.outstanding_nonneg .receive
    -- the reserve plus the price is within `i64`, so the gate's inner clamp is exact
    rw [clampI64_of_mem (by unfold i64Min; omega) hfit] at hgate
    constructor
    · rw [prepared, outstanding_hold, committed_hold, hon]
      exact hgate
    · rw [prepared, outstanding_hold, committed_hold, consumed_hold, hoff, add_zero]
      exact hw.payment

theorem WithinLines.step_prepareProvide (hw : run.WithinLines disconnectLine paymentLine)
    (hb : run.Balanced) (hrange : run.InRange)
    (hpayment : run.state.paymentThreshold.val = paymentLine) {price : Au}
    (hprice : 0 ≤ price.val) : (run.step config (.prepareProvide price)).WithinLines disconnectLine paymentLine := by
  dsimp only [step]
  cases hresult : prepareProvide run.state price with
  | error _ => exact hw
  | ok result =>
    obtain ⟨reservation, state⟩ := result
    have hgate := prepareProvide_within hresult
    obtain ⟨rfl, rfl⟩ := prepareProvide_ok hresult
    have hmin : i64Min ≤ run.committed + run.outstanding .provide + run.consumed .provide .forfeited := by
      have hcommitted := run.state.balance.min_le
      rw [hb.balance] at hcommitted
      have := hb.outstanding_nonneg .provide
      have := hb.ghost ▸ Int.natCast_nonneg run.state.ghostBalance.toNat
      omega
    rw [Au.le_iff_val_le, Au.val_saturatingAdd, hb.val_exposure hrange, clampI64_clampI64_add hmin hprice,
      hpayment] at hgate
    have hon : priceOn ⟨.provide, price, false⟩ .provide = price.val := rfl
    have hoff : priceOn ⟨.provide, price, false⟩ .receive = 0 := rfl
    constructor
    · rw [prepared, outstanding_hold, committed_hold, hoff, add_zero]
      exact hw.disconnect
    · rw [prepared, outstanding_hold, committed_hold, consumed_hold, hon]
      calc clampI64 (run.committed + (run.outstanding .provide + price.val) +
            run.consumed .provide .forfeited)
          = clampI64 (run.committed + run.outstanding .provide + run.consumed .provide .forfeited +
            price.val) := congrArg clampI64 (by omega)
        _ ≤ paymentLine := hgate

theorem WithinLines.step (hw : run.WithinLines run.state.disconnectThreshold.val run.state.paymentThreshold.val)
    (hb : run.Balanced) (hrange : run.InRange) (hline : 0 ≤ run.state.disconnectThreshold.val)
    {op : LedgerOp} (hamount : 0 ≤ op.amount.val) (hrecord : op.isRecord = false)
    (hrange' : (run.step config op).InRange) :
    (run.step config op).WithinLines run.state.disconnectThreshold.val run.state.paymentThreshold.val := by
  cases op with
  | prepareReceive price => exact hw.step_prepareReceive config hb hrange hline rfl hamount hrange'
  | prepareProvide price => exact hw.step_prepareProvide config hb hrange rfl hamount
  | apply id =>
    dsimp only [LedgerRun.step]
    cases hfind : find run.held id with
    | none => exact hw
    | some reservation => exact hw.close hb hfind _ _
  | forfeit id =>
    dsimp only [LedgerRun.step]
    cases hfind : find run.held id with
    | none => exact hw
    | some reservation =>
      dsimp only
      split
      · exact hw.close hb hfind _ _
      · exact hw
  | drop id =>
    dsimp only [LedgerRun.step]
    cases hfind : find run.held id with
    | none => exact hw
    | some reservation => exact hw.close hb hfind _ _
  | record amount direction => cases hrecord

/-- The invariant of a run of reservation calls: balanced books within `i64`, within both lines
of the thresholds the peer was created with, the disconnect line non-negative. -/
structure Safe (run : LedgerRun) : Prop where
  balanced : run.Balanced
  inRange : run.InRange
  within : run.WithinLines run.state.disconnectThreshold.val run.state.paymentThreshold.val
  line_nonneg : 0 ≤ run.state.disconnectThreshold.val

theorem Safe.step (hs : run.Safe) {op : LedgerOp} (hop : 0 ≤ op.amount.val ∧ op.isRecord = false)
    (hrange' : (run.step config op).InRange) : (run.step config op).Safe where
  balanced := hs.balanced.step config hop.1 hrange'
  inRange := hrange'
  within := by
    rw [disconnectThreshold_step, paymentThreshold_step]
    exact hs.within.step config hs.balanced hs.inRange hs.line_nonneg hop.1 hop.2 hrange'
  line_nonneg := (disconnectThreshold_step config run op).symm ▸ hs.line_nonneg

end Step

theorem safe_start (config : SwarmAccountingConfig) (hpayment : 0 ≤ config.paymentThreshold.val) :
    (start (freshPeer config)).Safe where
  balanced := balanced_start _ _
  inRange := inRange_start _
  within := by
    have hzero : clampI64 0 = 0 := clampI64_of_mem (le_of_lt i64Min_lt_zero) (le_of_lt zero_lt_i64Max)
    constructor
    · rw [outstanding_start, committed_start, sub_zero, hzero]
      exact config.disconnectThreshold_nonneg
    · rw [committed_start, outstanding_start, consumed_start, add_zero, add_zero, hzero]
      exact hpayment
  line_nonneg := config.disconnectThreshold_nonneg

end LedgerRun

/-- Along a run of reservation calls from a fresh peer, with non-negative prices, a
non-negative payment threshold and books that stay within `i64`, every state is within both
thresholds. -/
theorem within_thresholds_of_run (config : SwarmAccountingConfig)
    (hpayment : 0 ≤ config.paymentThreshold.val) (ops : List LedgerOp)
    (hops : ∀ op ∈ ops, 0 ≤ op.amount.val ∧ op.isRecord = false)
    (hrange : ∀ run ∈ List.scanl (LedgerRun.step config) (LedgerRun.start (freshPeer config)) ops,
      run.InRange) :
    ∀ run ∈ List.scanl (LedgerRun.step config) (LedgerRun.start (freshPeer config)) ops,
      run.state.WithinThresholds := by
  intro run hrun
  have hsafe : run.Safe :=
    Run.scanl_induction (fun _ _ hs hop hq ↦ hs.step config hop hq)
      (LedgerRun.safe_start config hpayment) hops hrange run hrun
  exact hsafe.within.withinThresholds hsafe.balanced hsafe.inRange hsafe.line_nonneg

/-- Reservation calls under the default bandwidth settings: a receive and two provides are
reserved, the receive applied, one provide forfeited and the other applied. -/
def sampleReservationOps : List LedgerOp :=
  [.prepareReceive (Au.fromAmount 300), .prepareProvide (Au.fromAmount 200),
    .prepareProvide (Au.fromAmount 50), .apply 0, .forfeit 1, .apply 2]

theorem within_thresholds_of_sampleReservationOps :
    0 ≤ BandwidthConfig.default.accountingConfig.paymentThreshold.val ∧
      (∀ op ∈ sampleReservationOps, 0 ≤ op.amount.val ∧ op.isRecord = false) ∧
      (∀ run ∈ List.scanl (LedgerRun.step BandwidthConfig.default.accountingConfig)
        (LedgerRun.start (freshPeer BandwidthConfig.default.accountingConfig)) sampleReservationOps,
        run.InRange) ∧
      ∀ run ∈ List.scanl (LedgerRun.step BandwidthConfig.default.accountingConfig)
        (LedgerRun.start (freshPeer BandwidthConfig.default.accountingConfig)) sampleReservationOps,
        run.state.WithinThresholds :=
  ⟨by decide, by decide, by decide,
    within_thresholds_of_run _ (by decide) _ (by decide) (by decide)⟩

/-! ## Past `i64` -/

/-- Settings at the top of the `u64` range with no tolerance: the payment threshold reads back
as `i64::MAX`, and the disconnect line, whose percent scaling overflows, is `i64::MAX / 100`. -/
def saturatedConfig : SwarmAccountingConfig :=
  BandwidthConfig.accountingConfig ⟨0x7FFFFFFFFFFFFFFF, 0, 4500000, 50, 10⟩

/-- A provide of `i64::MAX` less the disconnect line is applied; a receive of `i64::MAX` is
admitted at exactly the line; a receive of one unit more is admitted too, because the receive
reserve, now `2^63` in the `u64` counter, reads back as `i64::MAX`; and that receive is
applied. -/
def saturatingOps : List LedgerOp :=
  [.prepareProvide (Au.fromAmount 9131138316486228049), .apply 0,
    .prepareReceive Au.max', .prepareReceive (Au.fromAmount 1), .apply 2]

/-- The run ends one unit of receive debt past the disconnect line. -/
theorem disconnect_line_crossed_of_saturatingOps :
    (Debt.project ((LedgerRun.start (freshPeer saturatedConfig)).exec saturatedConfig
        saturatingOps).state.balance
      ((LedgerRun.start (freshPeer saturatedConfig)).exec saturatedConfig
        saturatingOps).state.reservedBalanceAu Au.zero).exceeds
      ((LedgerRun.start (freshPeer saturatedConfig)).exec saturatedConfig
        saturatingOps).state.disconnectThreshold = true := by
  decide

end VertexSwarm.Accounting
