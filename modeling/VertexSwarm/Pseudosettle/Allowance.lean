import VertexSwarm.Pseudosettle.Service
import VertexSwarm.Lib.Cumulative
import VertexSwarm.Lib.Run

/-!
# The creditor's time-based allowance

A creditor accepts from a peer at most what the peer owes, and at most the refresh rate times
the seconds since its last credit to the peer, or since first contact before any.  The anchor
moves to the handler's clock reading on each positive credit, so the allowances telescope.  Over
a run the total credited is at most the refresh rate times the seconds from first contact to the
latest clock reading.

That bound has one gap.  The elapsed time is read against a second clock reading, taken in
`calculate_acceptable`, while the anchor is set to the handler's first reading.  So every second
the clock advances between a handler's two readings is counted twice.  `WithinAllowance` carries
the bound with those seconds added (`clockTicks`); when each handler sees a single reading they
are zero.
-/

namespace VertexSwarm.Pseudosettle

open Saturating Api Accounting Cumulative

/-! ## What a run credits, and over which clock readings -/

/-- The clock readings of the `Received` handlers among the inputs: the handler's own, and
`calculate_acceptable`'s. -/
def receivedReadings (inputs : List PseudoInput) : List (UInt64 × UInt64) :=
  inputs.filterMap fun
    | .received _ now later _ => some (now, later)
    | _ => none

/-- The latest of the readings. -/
def latestReading (readings : List (UInt64 × UInt64)) : ℕ :=
  (readings.map fun reading ↦ max reading.1.toNat reading.2.toNat).foldl max 0

/-- The seconds from the first handler's reading to the latest reading, zero with none. -/
def clockSpan (readings : List (UInt64 × UInt64)) : ℕ :=
  match readings with
  | [] => 0
  | (first, _) :: _ => latestReading readings - first.toNat

/-- The seconds the clock advanced between a handler's reading and `calculate_acceptable`'s. -/
def clockTicks (readings : List (UInt64 × UInt64)) : ℕ :=
  (readings.map fun reading ↦ reading.2.toNat - reading.1.toNat).sum

/-- The total a run credited the peer for its settlements. -/
def PseudoRun.credited (run : PseudoRun) : ℤ :=
  ((run.log.flatMap fun entry ↦ recorded .download entry.2).map (·.val)).sum

theorem receivedReadings_append_received (inputs : List PseudoInput) (amount : U256)
    (now later ackAt : UInt64) :
    receivedReadings (inputs ++ [.received amount now later ackAt]) =
      receivedReadings inputs ++ [(now, later)] := by
  simp [receivedReadings]

theorem receivedReadings_append_of_ne (inputs : List PseudoInput) {input : PseudoInput}
    (hother : ∀ amount now later ackAt, input ≠ .received amount now later ackAt) :
    receivedReadings (inputs ++ [input]) = receivedReadings inputs := by
  cases input with
  | received amount now later ackAt => exact absurd rfl (hother amount now later ackAt)
  | _ => simp [receivedReadings]

theorem clockTicks_append (readings : List (UInt64 × UInt64)) (now later : UInt64) :
    clockTicks (readings ++ [(now, later)]) = clockTicks readings + (later.toNat - now.toNat) := by
  simp [clockTicks]

theorem le_latestReading {readings : List (UInt64 × UInt64)} {now later : UInt64}
    (hmem : (now, later) ∈ readings) : now.toNat ≤ latestReading readings := by
  have hmem' : max now.toNat later.toNat ∈
      readings.map fun reading ↦ max reading.1.toNat reading.2.toNat :=
    List.mem_map_of_mem hmem
  have hmax := le_foldl_max_of_mem hmem' 0
  unfold latestReading
  omega

theorem head?_fst_append (readings : List (UInt64 × UInt64)) (reading : UInt64 × UInt64) :
    (readings ++ [reading]).head?.map Prod.fst = some ((readings.head?.map Prod.fst).getD reading.1) := by
  cases readings <;> rfl

/-! ## One handler -/

section Handler

variable {refreshRate : Au}

theorem calculateAcceptable_of_pos {peer : PseudoPeer} (requested : Au) (now : UInt64)
    (hbalance : 0 < peer.account.balance.val) :
    calculateAcceptable refreshRate peer requested now =
      (requested.min peer.account.balance).min
        ((refreshRate.checkedScale
          (saturatingSubU64 now ((peer.lastSettlement.or peer.firstSeen).getD now))).getD
            (Au.fromAmount 0xFFFFFFFFFFFFFFFF)) := by
  unfold calculateAcceptable
  rw [if_neg (not_not.mpr hbalance)]

theorem calculateAcceptable_of_nonpos {peer : PseudoPeer} (requested : Au) (now : UInt64)
    (hbalance : ¬ 0 < peer.account.balance.val) :
    calculateAcceptable refreshRate peer requested now = Au.zero := by
  unfold calculateAcceptable
  rw [if_pos hbalance]

theorem calculateAcceptable_spec (hrate : 0 < refreshRate.val) {peer : PseudoPeer}
    {requested : Au} {now : UInt64}
    (hpos : 0 < (calculateAcceptable refreshRate peer requested now).val) :
    (calculateAcceptable refreshRate peer requested now).val ≤ requested.val ∧
      (calculateAcceptable refreshRate peer requested now).val ≤ peer.account.balance.val ∧
      (calculateAcceptable refreshRate peer requested now).val ≤ refreshRate.val *
        (saturatingSubU64 now ((peer.lastSettlement.or peer.firstSeen).getD now)).toNat := by
  by_cases hbalance : 0 < peer.account.balance.val
  swap
  · -- a peer that owes nothing is granted nothing
    rw [calculateAcceptable_of_nonpos requested now hbalance, Au.val_zero] at hpos
    exact absurd hpos (lt_irrefl 0)
  rw [calculateAcceptable_of_pos requested now hbalance] at hpos ⊢
  set elapsed := saturatingSubU64 now ((peer.lastSettlement.or peer.firstSeen).getD now)
  rw [Au.val_min, Au.val_min] at hpos ⊢
  refine ⟨by omega, by omega, ?_⟩
  cases hscale : refreshRate.checkedScale elapsed with
  | some allowance =>
    rw [Option.getD_some, Au.val_of_checkedScale_eq_some hscale]
    exact min_le_right _ _
  | none =>
    -- an overflowing allowance saturates, below the product it stands for
    have hover := Au.lt_of_checkedScale_eq_none hrate hscale
    have hbound := peer.account.balance.le_max
    omega

/-- The acceptable amount of a received settlement that passed the gate. -/
abbrev acceptableFor (refreshRate : Au) (peer : PseudoPeer) (amount : U256) (now later : UInt64) : Au :=
  calculateAcceptable refreshRate (anchorFirstSeen peer now) (Au.saturatingFromU256 amount) later

variable (refreshRate) {peer : PseudoPeer} {amount : U256} {now later ackAt : UInt64}

theorem received_of_tooSoon (hgate : isTooSoon peer.lastSettlement now = true) :
    received refreshRate peer amount now later ackAt = (peer, [.ack ⟨Au.zero, ackTimestamp ackAt⟩]) := by
  unfold received
  rw [if_pos hgate]

theorem received_of_pos (hgate : isTooSoon peer.lastSettlement now = false)
    (hpos : 0 < (acceptableFor refreshRate peer amount now later).val) :
    received refreshRate peer amount now later ackAt =
      ({ anchorFirstSeen peer now with
          account := peer.account.record (acceptableFor refreshRate peer amount now later) .download,
          lastSettlement := some now },
        [.record (acceptableFor refreshRate peer amount now later) .download,
          .ack ⟨acceptableFor refreshRate peer amount now later, ackTimestamp ackAt⟩]) := by
  unfold received
  rw [if_neg (by rw [hgate]; decide)]
  exact if_pos hpos

theorem received_of_nonpos (hgate : isTooSoon peer.lastSettlement now = false)
    (hpos : ¬ 0 < (acceptableFor refreshRate peer amount now later).val) :
    received refreshRate peer amount now later ackAt =
      (anchorFirstSeen peer now, [.ack ⟨acceptableFor refreshRate peer amount now later, ackTimestamp ackAt⟩]) := by
  unfold received
  rw [if_neg (by rw [hgate]; decide)]
  exact if_neg hpos

variable {refreshRate}

theorem received_credit (peer : PseudoPeer) (amount : U256) (now later ackAt : UInt64) :
    ∀ credit ∈ recorded .download (received refreshRate peer amount now later ackAt).2,
      0 < credit.val ∧ credit.val ≤ (Au.saturatingFromU256 amount).val ∧
        credit.val ≤ peer.account.balance.val ∧
        0 ≤ (received refreshRate peer amount now later ackAt).1.account.balance.val := by
  intro credit hcredit
  cases hgate : isTooSoon peer.lastSettlement now
  case true =>
    rw [received_of_tooSoon refreshRate hgate] at hcredit
    simp [recorded] at hcredit
  by_cases hpos : 0 < (acceptableFor refreshRate peer amount now later).val
  swap
  · rw [received_of_nonpos refreshRate hgate hpos] at hcredit
    simp [recorded] at hcredit
  rw [received_of_pos refreshRate hgate hpos] at hcredit ⊢
  set acceptable := acceptableFor refreshRate peer amount now later
  obtain rfl : credit = acceptable := by simpa [recorded] using hcredit
  -- the balance `calculate_acceptable` read is the peer's, and it owes at least the credit
  have hbalance : 0 < peer.account.balance.val := by
    by_contra hnot
    have hzero : acceptable = Au.zero := calculateAcceptable_of_nonpos _ _ hnot
    rw [hzero, Au.val_zero] at hpos
    exact lt_irrefl 0 hpos
  have hmin : acceptable.val ≤ (Au.saturatingFromU256 amount).val ∧
      acceptable.val ≤ peer.account.balance.val := by
    have hcalc : acceptable = ((Au.saturatingFromU256 amount).min peer.account.balance).min _ :=
      calculateAcceptable_of_pos _ _ hbalance
    rw [hcalc, Au.val_min, Au.val_min]
    omega
  refine ⟨hpos, hmin.1, hmin.2, ?_⟩
  have hneg : acceptable.saturatingNeg.val = -acceptable.val :=
    Au.val_saturatingNeg_of_nonneg (le_of_lt hpos)
  have hlo := peer.account.balance.min_le
  have hhi := peer.account.balance.le_max
  have hmin_neg := i64Min_lt_zero
  show 0 ≤ (peer.account.balance.saturatingAdd acceptable.saturatingNeg).val
  rw [Au.val_saturatingAdd_of_mem (by rw [hneg]; omega) (by rw [hneg]; omega), hneg]
  omega

theorem isTooSoon_eq_true {reference : Option UInt64} {now : UInt64}
    (h : isTooSoon reference now = true) : ∃ last, reference = some last ∧ now ≤ last := by
  cases reference with
  | none => cases h
  | some last => exact ⟨last, rfl, of_decide_eq_true h⟩

variable (refreshRate) in
theorem handle_of_ne_received (peer : PseudoPeer) {input : PseudoInput}
    (hother : ∀ amount now later ackAt, input ≠ .received amount now later ackAt) :
    (handle refreshRate peer input).1.firstSeen = peer.firstSeen ∧
      (handle refreshRate peer input).1.lastSettlement = peer.lastSettlement ∧
      recorded .download (handle refreshRate peer input).2 = [] := by
  cases input with
  | settle amount now sends =>
    simp only [handle, settle]
    split_ifs <;> exact ⟨rfl, rfl, rfl⟩
  | sent ack now =>
    simp only [handle, sent]
    cases peer.pending with
    | none => exact ⟨rfl, rfl, rfl⟩
    | some offered =>
      -- the completed settle records an upload, not a credit
      refine ⟨rfl, rfl, ?_⟩
      by_cases hover : offered < ack.accepted <;> simp [hover, recorded]
  | received amount now later ackAt => exact absurd rfl (hother amount now later ackAt)
  | failed =>
    simp only [handle]
    cases peer.pending <;> exact ⟨rfl, rfl, rfl⟩
  | rebalanced balance => exact ⟨rfl, rfl, rfl⟩

end Handler

/-! ## The allowance over a run -/

variable (refreshRate : Au) in
/-- The creditor side after the `Received` handlers with clock readings `readings` have credited
`total`: first contact is the first handler's reading, the last credit's anchor is a handler's
reading, and the total is within the refresh rate times the seconds from first contact to that
anchor, plus the seconds that passed inside the handlers. -/
structure WithinAllowance (readings : List (UInt64 × UInt64)) (total : ℤ) (peer : PseudoPeer) :
    Prop where
  first : peer.firstSeen = readings.head?.map Prod.fst
  settled : ∀ anchor, peer.lastSettlement = some anchor → ∃ later, (anchor, later) ∈ readings
  empty : readings = [] → total = 0
  bound : ∀ first, peer.firstSeen = some first →
    total ≤ refreshRate.val *
      ((peer.lastSettlement.getD first).toNat - first.toNat + clockTicks readings : ℤ)

section Run

variable {refreshRate : Au} {readings : List (UInt64 × UInt64)} {total : ℤ} {peer : PseudoPeer}

theorem withinAllowance_start (account : PeerState) :
    WithinAllowance refreshRate [] 0 (PseudoRun.start account).peer where
  first := rfl
  settled := fun _ h ↦ by cases h
  empty := fun _ ↦ rfl
  bound := fun _ h ↦ by cases h

/-- The bound read from the anchor a handler at `now` would take: before first contact both the
total and the anchor's span are zero. -/
theorem WithinAllowance.prior (hinv : WithinAllowance refreshRate readings total peer)
    (now : UInt64) :
    total ≤ refreshRate.val * (((peer.lastSettlement.getD (peer.firstSeen.getD now)).toNat -
      (peer.firstSeen.getD now).toNat + clockTicks readings : ℤ)) := by
  cases hfirst : peer.firstSeen with
  | some first => exact hinv.bound first hfirst
  | none =>
    -- no handler has run, so nothing is credited and nothing anchored
    have hempty : readings = [] := by
      have := hinv.first
      rw [hfirst] at this
      exact List.head?_eq_none_iff.mp (Option.map_eq_none_iff.mp this.symm)
    have hsettled : peer.lastSettlement = none := by
      cases hlast : peer.lastSettlement with
      | none => rfl
      | some anchor =>
        obtain ⟨_, hmem⟩ := hinv.settled anchor hlast
        rw [hempty] at hmem
        exact absurd hmem List.not_mem_nil
    rw [hinv.empty hempty, hsettled, hempty]
    simp [clockTicks]

theorem WithinAllowance.other (hinv : WithinAllowance refreshRate readings total peer)
    {input : PseudoInput} (hother : ∀ amount now later ackAt, input ≠ .received amount now later ackAt) :
    WithinAllowance refreshRate readings
      (total + ((recorded .download (handle refreshRate peer input).2).map (·.val)).sum)
      (handle refreshRate peer input).1 := by
  obtain ⟨hfirst, hlast, hnone⟩ := handle_of_ne_received refreshRate peer hother
  rw [hnone, List.map_nil, List.sum_nil, add_zero]
  refine ⟨hfirst ▸ hinv.first, hlast ▸ hinv.settled, hinv.empty, ?_⟩
  intro first h
  rw [hlast]
  exact hinv.bound first (hfirst ▸ h)

theorem WithinAllowance.first_anchor (hinv : WithinAllowance refreshRate readings total peer)
    (now later : UInt64) :
    (anchorFirstSeen peer now).firstSeen = (readings ++ [(now, later)]).head?.map Prod.fst := by
  rw [anchorFirstSeen_firstSeen, head?_fst_append, hinv.first]

/-- A positive credit moves the anchor to the handler's reading and adds at most the allowance
for the seconds since the old anchor, read at `calculate_acceptable`'s clock. -/
theorem WithinAllowance.credit (hinv : WithinAllowance refreshRate readings total peer)
    (hrate : 0 < refreshRate.val) {amount : U256} {now later : UInt64}
    (hpos : 0 < (acceptableFor refreshRate peer amount now later).val) :
    total + (acceptableFor refreshRate peer amount now later).val ≤ refreshRate.val *
      (now.toNat - (peer.firstSeen.getD now).toNat + clockTicks (readings ++ [(now, later)]) : ℤ) := by
  -- the allowance was read from the old anchor, against the later reading
  have hsince : ((anchorFirstSeen peer now).lastSettlement.or
      (anchorFirstSeen peer now).firstSeen).getD later =
        peer.lastSettlement.getD (peer.firstSeen.getD now) := by
    rw [anchorFirstSeen_lastSettlement, anchorFirstSeen_firstSeen]
    cases peer.lastSettlement <;> rfl
  have hallow : (acceptableFor refreshRate peer amount now later).val ≤ refreshRate.val *
      (saturatingSubU64 later (((anchorFirstSeen peer now).lastSettlement.or
        (anchorFirstSeen peer now).firstSeen).getD later)).toNat :=
    (calculateAcceptable_spec hrate hpos).2.2
  have hprior := hinv.prior now
  set first := peer.firstSeen.getD now
  set anchor := peer.lastSettlement.getD first
  rw [hsince, toNat_saturatingSubU64] at hallow
  have hahead : anchor.toNat < later.toNat := by
    by_contra hnot
    rw [Nat.sub_eq_zero_of_le (not_lt.mp hnot), Nat.cast_zero, mul_zero] at hallow
    omega
  have hticks : (later.toNat : ℤ) ≤ now.toNat + (later.toNat - now.toNat : ℕ) := by omega
  rw [clockTicks_append]
  calc total + (acceptableFor refreshRate peer amount now later).val
      ≤ refreshRate.val * ((anchor.toNat - first.toNat + clockTicks readings : ℤ)) +
          refreshRate.val * ((later.toNat - anchor.toNat : ℕ) : ℤ) := add_le_add hprior hallow
    _ = refreshRate.val * ((later.toNat - first.toNat + clockTicks readings : ℤ)) := by
      rw [← mul_add]
      congr 1
      omega
    _ ≤ refreshRate.val * ((now.toNat - first.toNat +
          (clockTicks readings + (later.toNat - now.toNat) : ℕ) : ℤ)) := by
      apply mul_le_mul_of_nonneg_left _ (le_of_lt hrate)
      push_cast
      omega

/-- A received settlement keeps the allowance: refused too soon, anchoring first contact, or
crediting within the allowance. -/
theorem WithinAllowance.received (hinv : WithinAllowance refreshRate readings total peer)
    (hrate : 0 < refreshRate.val) (amount : U256) (now later ackAt : UInt64) :
    WithinAllowance refreshRate (readings ++ [(now, later)])
      (total + ((recorded .download (received refreshRate peer amount now later ackAt).2).map
        (·.val)).sum)
      (received refreshRate peer amount now later ackAt).1 := by
  have hmono : clockTicks readings ≤ clockTicks (readings ++ [(now, later)]) := by
    rw [clockTicks_append]
    exact Nat.le_add_right _ _
  have hwiden : ∀ first, peer.firstSeen = some first →
      total ≤ refreshRate.val * ((peer.lastSettlement.getD first).toNat - first.toNat +
        clockTicks (readings ++ [(now, later)]) : ℤ) := by
    intro first hfirst
    apply le_trans (hinv.bound first hfirst)
    apply mul_le_mul_of_nonneg_left _ (le_of_lt hrate)
    omega
  cases hgate : isTooSoon peer.lastSettlement now
  case true =>
    -- too soon: the peer's entries stay, and first contact was already anchored
    rw [received_of_tooSoon refreshRate hgate]
    obtain ⟨last, hlast, -⟩ := isTooSoon_eq_true hgate
    obtain ⟨later', hmem⟩ := hinv.settled last hlast
    have hne : readings ≠ [] := List.ne_nil_of_mem hmem
    refine ⟨?_, fun anchor h ↦ ?_, fun h ↦ absurd h (List.append_ne_nil_of_left_ne_nil hne _), ?_⟩
    · rw [hinv.first, List.head?_append_of_ne_nil _ hne]
    · obtain ⟨later'', hmem'⟩ := hinv.settled anchor h
      exact ⟨later'', List.mem_append_left _ hmem'⟩
    · simpa [recorded] using hwiden
  by_cases hpos : 0 < (acceptableFor refreshRate peer amount now later).val
  · -- a credit: the anchor moves to this handler's reading
    rw [received_of_pos refreshRate hgate hpos]
    refine ⟨hinv.first_anchor now later, fun anchor h ↦ ?_, fun h ↦ absurd h (by simp), ?_⟩
    · cases h
      exact ⟨later, List.mem_append_right _ (List.mem_singleton_self _)⟩
    · intro first hfirst
      rw [anchorFirstSeen_firstSeen, Option.some.injEq] at hfirst
      subst hfirst
      simpa [recorded] using hinv.credit hrate hpos
  · -- no credit: only first contact is anchored
    rw [received_of_nonpos refreshRate hgate hpos]
    refine ⟨hinv.first_anchor now later, fun anchor h ↦ ?_, fun h ↦ absurd h (by simp), ?_⟩
    · obtain ⟨later', hmem⟩ := hinv.settled anchor h
      exact ⟨later', List.mem_append_left _ hmem⟩
    · intro first hfirst
      rw [anchorFirstSeen_firstSeen, Option.some.injEq] at hfirst
      subst hfirst
      have hprior := hinv.prior now
      simp only [recorded, List.filterMap_cons, List.filterMap_nil, List.map_nil, List.sum_nil,
        add_zero, anchorFirstSeen_lastSettlement]
      apply le_trans hprior
      apply mul_le_mul_of_nonneg_left _ (le_of_lt hrate)
      omega

theorem PseudoRun.credited_step (run : PseudoRun) (input : PseudoInput) :
    (run.step refreshRate input).credited =
      run.credited + ((recorded .download (handle refreshRate run.peer input).2).map (·.val)).sum := by
  simp [PseudoRun.credited]

theorem WithinAllowance.step (hrate : 0 < refreshRate.val) {run : PseudoRun}
    (hinv : WithinAllowance refreshRate (receivedReadings run.inputs) run.credited run.peer)
    (input : PseudoInput) :
    WithinAllowance refreshRate (receivedReadings (run.step refreshRate input).inputs)
      (run.step refreshRate input).credited (run.step refreshRate input).peer := by
  rw [PseudoRun.inputs_step, PseudoRun.credited_step, PseudoRun.step_peer]
  cases input with
  | received amount now later ackAt =>
    rw [receivedReadings_append_received]
    exact hinv.received hrate amount now later ackAt
  | _ =>
    rw [receivedReadings_append_of_ne _ (fun _ _ _ _ h ↦ PseudoInput.noConfusion h)]
    exact hinv.other (fun _ _ _ _ h ↦ PseudoInput.noConfusion h)

/-- The allowance bound read at the end: the anchor is a handler's reading, so at most the latest
one. -/
theorem WithinAllowance.credited_le (hinv : WithinAllowance refreshRate readings total peer)
    (hrate : 0 ≤ refreshRate.val) :
    total ≤ refreshRate.val * (clockSpan readings + clockTicks readings : ℕ) := by
  cases readings with
  | nil => simp [hinv.empty rfl, clockSpan, clockTicks]
  | cons reading rest =>
    have hfirst : peer.firstSeen = some reading.1 := hinv.first
    -- the anchor is the first reading or a later credit's, both at most the latest reading
    have hanchor : (peer.lastSettlement.getD reading.1).toNat ≤
        latestReading (reading :: rest) := by
      cases hlast : peer.lastSettlement with
      | none => exact le_latestReading (List.mem_cons_self)
      | some anchor =>
        obtain ⟨later, hmem⟩ := hinv.settled anchor hlast
        exact le_latestReading hmem
    apply le_trans (hinv.bound reading.1 hfirst)
    apply mul_le_mul_of_nonneg_left _ hrate
    simp only [clockSpan]
    push_cast
    omega

variable (refreshRate) in
theorem withinAllowance_of_run (hrate : 0 < refreshRate.val) (account : PeerState)
    (inputs : List PseudoInput) :
    ∀ run ∈ List.scanl (PseudoRun.step refreshRate) (PseudoRun.start account) inputs,
      WithinAllowance refreshRate (receivedReadings run.inputs) run.credited run.peer :=
  Run.scanl_induction
    (P := fun (run : PseudoRun) ↦ WithinAllowance refreshRate (receivedReadings run.inputs) run.credited run.peer)
    (R := fun _ ↦ True) (Q := fun _ ↦ True)
    (fun _ input hinv _ _ ↦ hinv.step hrate input) (withinAllowance_start account)
    (fun _ _ ↦ trivial) (fun _ _ ↦ trivial)

end Run

/-- For a positive refresh rate, over any run of the service for a peer from no entries: every
amount credited for a received settlement is positive, within the request and within the peer's
positive balance, which it leaves non-negative; the total credited is at most the refresh rate
times the seconds from the first `Received` handler's reading to the latest reading, plus the
seconds the clock advanced between a handler's reading and `calculate_acceptable`'s; so when each
handler sees a single reading, at most the refresh rate times that span. -/
theorem credited_within_allowance (refreshRate : Au) (hrate : 0 < refreshRate.val)
    (account : PeerState) (inputs : List PseudoInput) :
    (∀ (peer : PseudoPeer) (amount : U256) (now later ackAt : UInt64),
      ∀ credit ∈ recorded .download (received refreshRate peer amount now later ackAt).2,
        0 < credit.val ∧ credit.val ≤ (Au.saturatingFromU256 amount).val ∧
          credit.val ≤ peer.account.balance.val ∧
          0 ≤ (received refreshRate peer amount now later ackAt).1.account.balance.val) ∧
      ((PseudoRun.start account).exec refreshRate inputs).credited ≤
        refreshRate.val *
          (clockSpan (receivedReadings inputs) + clockTicks (receivedReadings inputs) : ℕ) ∧
      ((∀ reading ∈ receivedReadings inputs, reading.1 = reading.2) →
        ((PseudoRun.start account).exec refreshRate inputs).credited ≤
          refreshRate.val * clockSpan (receivedReadings inputs)) := by
  have hinv : WithinAllowance refreshRate
      (receivedReadings ((PseudoRun.start account).exec refreshRate inputs).inputs)
      ((PseudoRun.start account).exec refreshRate inputs).credited
      ((PseudoRun.start account).exec refreshRate inputs).peer :=
    withinAllowance_of_run refreshRate hrate account inputs _ (Run.foldl_mem_scanl _ _ _)
  have hinputs : ((PseudoRun.start account).exec refreshRate inputs).inputs = inputs :=
    PseudoRun.inputs_exec refreshRate _ inputs
  rw [hinputs] at hinv
  have hbound := hinv.credited_le (le_of_lt hrate)
  refine ⟨received_credit, hbound, fun hsingle ↦ ?_⟩
  -- with one reading per handler no second passes inside a handler
  have hzero : clockTicks (receivedReadings inputs) = 0 := by
    apply List.sum_eq_zero
    intro n hn
    obtain ⟨reading, hreading, rfl⟩ := List.mem_map.mp hn
    rw [hsingle reading hreading, Nat.sub_self]
  rw [hzero, Nat.add_zero] at hbound
  exact hbound

/-- A creditor at refresh rate 10, owed 1000, receives three requests of 50: at clock 100, then
with the clock passing from 101 to 102 inside the handler, then at 102. -/
def tickingClockInputs : List PseudoInput :=
  [.rebalanced (Au.fromAmount 1000), .received 50 100 100 100, .received 50 101 102 102,
    .received 50 102 102 102]

theorem credited_within_allowance_of_tickingClock :
    0 < (Au.fromAmount 10).val ∧
      ((PseudoRun.start (PeerState.new Au.zero Au.zero)).exec (Au.fromAmount 10)
          tickingClockInputs).credited ≤
        (Au.fromAmount 10).val * (clockSpan (receivedReadings tickingClockInputs) +
          clockTicks (receivedReadings tickingClockInputs) : ℕ) :=
  ⟨by decide, (credited_within_allowance (Au.fromAmount 10) (by decide)
    (PeerState.new Au.zero Au.zero) tickingClockInputs).2.1⟩

/-- The second handler is granted 20 for the two seconds from first contact to its second
reading, and anchors at its first reading, so the third is granted 10 for the second second once
more: 30 credited over a span of two seconds at rate 10. -/
theorem allowance_exceeded_of_tickingClock :
    ((PseudoRun.start (PeerState.new Au.zero Au.zero)).exec (Au.fromAmount 10)
        tickingClockInputs).credited = 30 ∧
      (Au.fromAmount 10).val * clockSpan (receivedReadings tickingClockInputs) = 20 := by
  decide

end VertexSwarm.Pseudosettle
