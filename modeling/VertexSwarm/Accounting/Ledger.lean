import VertexSwarm.Accounting.Peer
import VertexSwarm.Lib.Keyed

/-!
# Sequential runs on one peer and their books

A run on one peer interleaves `prepare_receive` and `prepare_provide` with the consumption of
the reservations they hand out: `apply`, `forfeit` (provide only) and dropping an un-applied
one.  The Rust handles are affine values; here each prepared reservation is held under the
index at which it was prepared, and a consumption names a held one, which then leaves the held
list for the closed one.  `AccountingPeerHandle::record` amounts are recorded alongside.

The books of a run are sums over those lists: the prices still outstanding on each leg, the
prices consumed with each fate, and the recorded amounts.  `Balanced` says the peer's counters
are exactly those sums; it holds at the start and every step keeps it (`Balanced.step`), as
long as every amount is non-negative and the books stay within `i64`, where the saturating
arithmetic of the counters is exact.
-/

namespace VertexSwarm.Accounting

open Saturating Api Keyed

/-! ## Runs -/

/-- One call of a sequential run on a peer; a held reservation is named by its index. -/
inductive LedgerOp where
  | prepareReceive (price : Au)
  | prepareProvide (price : Au)
  | apply (id : ℕ)
  | forfeit (id : ℕ)
  | drop (id : ℕ)
  | record (amount : Au) (direction : Direction)

/-- Whether a call is a direct record rather than a reservation call. -/
def LedgerOp.isRecord : LedgerOp → Bool
  | .record _ _ => true
  | _ => false

/-- The amount a call brings into the books (nothing for consuming a held reservation). -/
def LedgerOp.amount : LedgerOp → Au
  | .prepareReceive price | .prepareProvide price => price
  | .record amount _ => amount
  | .apply _ | .forfeit _ | .drop _ => Au.zero

/-- How a reservation was consumed. -/
inductive Fate where
  | applied
  | forfeited
  | dropped
deriving DecidableEq

/-- A run on one peer: the peer's state, with the reservations still held, those consumed and
the records so far, which the books sum over. -/
structure LedgerRun where
  state : PeerState
  held : List (ℕ × Reservation)
  nextId : ℕ
  closed : List (ℕ × (Reservation × Fate))
  recorded : List (Au × Direction)

/-- `get_or_create_peer` for a peer not yet in the map: a fresh state at the configured
thresholds. -/
def freshPeer (config : SwarmAccountingConfig) : PeerState :=
  PeerState.new config.paymentThreshold config.disconnectThreshold

namespace LedgerRun

/-- A run that has not called anything yet. -/
def start (state : PeerState) : LedgerRun := ⟨state, [], 0, [], []⟩

/-- Hold a prepared reservation under the next index. -/
def hold (run : LedgerRun) (reservation : Reservation) (state : PeerState) : LedgerRun :=
  { run with state, held := run.held ++ [(run.nextId, reservation)], nextId := run.nextId + 1 }

/-- Consume the held reservation `id` with a fate. -/
def close (run : LedgerRun) (id : ℕ) (reservation : Reservation) (fate : Fate)
    (state : PeerState) : LedgerRun :=
  { run with state, held := eraseKey run.held id, closed := run.closed ++ [(id, (reservation, fate))] }

@[simp] theorem hold_state (run : LedgerRun) (reservation : Reservation) (state : PeerState) :
    (run.hold reservation state).state = state := rfl

@[simp] theorem hold_held (run : LedgerRun) (reservation : Reservation) (state : PeerState) :
    (run.hold reservation state).held = run.held ++ [(run.nextId, reservation)] := rfl

@[simp] theorem hold_closed (run : LedgerRun) (reservation : Reservation) (state : PeerState) :
    (run.hold reservation state).closed = run.closed := rfl

@[simp] theorem hold_nextId (run : LedgerRun) (reservation : Reservation) (state : PeerState) :
    (run.hold reservation state).nextId = run.nextId + 1 := rfl

@[simp] theorem close_state (run : LedgerRun) (id : ℕ) (reservation : Reservation) (fate : Fate)
    (state : PeerState) : (run.close id reservation fate state).state = state := rfl

@[simp] theorem close_held (run : LedgerRun) (id : ℕ) (reservation : Reservation) (fate : Fate)
    (state : PeerState) : (run.close id reservation fate state).held = eraseKey run.held id := rfl

@[simp] theorem close_closed (run : LedgerRun) (id : ℕ) (reservation : Reservation) (fate : Fate)
    (state : PeerState) :
    (run.close id reservation fate state).closed = run.closed ++ [(id, (reservation, fate))] := rfl

@[simp] theorem close_nextId (run : LedgerRun) (id : ℕ) (reservation : Reservation) (fate : Fate)
    (state : PeerState) : (run.close id reservation fate state).nextId = run.nextId := rfl

/-- Take the result of a prepare: hold its reservation, or go on unchanged after a refusal. -/
def prepared (run : LedgerRun) : Except AccountingError (Reservation × PeerState) → LedgerRun
  | .ok (reservation, state) => run.hold reservation state
  | .error _ => run

/-- One call.  Naming an index that is not held is not a call the Rust types allow, and
leaves the run as it is; so does forfeiting a receive reservation, which has no `forfeit`. -/
def step (config : SwarmAccountingConfig) (run : LedgerRun) : LedgerOp → LedgerRun
  | .prepareReceive price => run.prepared (prepareReceive config run.state price)
  | .prepareProvide price => run.prepared (prepareProvide run.state price)
  | .apply id =>
    match find run.held id with
    | some reservation => run.close id reservation .applied (reservation.apply run.state)
    | none => run
  | .forfeit id =>
    match find run.held id with
    | some reservation =>
      if reservation.leg = .provide then
        run.close id reservation .forfeited (reservation.forfeit run.state)
      else run
    | none => run
  | .drop id =>
    match find run.held id with
    | some reservation => run.close id reservation .dropped (reservation.drop run.state)
    | none => run
  | .record amount direction =>
    { run with state := run.state.record amount direction,
               recorded := run.recorded ++ [(amount, direction)] }

/-- A run of calls. -/
def exec (config : SwarmAccountingConfig) (run : LedgerRun) (ops : List LedgerOp) : LedgerRun :=
  ops.foldl (step config) run

@[simp]
theorem exec_nil (config : SwarmAccountingConfig) (run : LedgerRun) : run.exec config [] = run := rfl

@[simp]
theorem exec_cons (config : SwarmAccountingConfig) (run : LedgerRun) (op : LedgerOp)
    (ops : List LedgerOp) : run.exec config (op :: ops) = (run.step config op).exec config ops := rfl

/-! ## The books -/

/-- The price a reservation holds on a leg. -/
def priceOn (reservation : Reservation) (leg : Leg) : ℤ :=
  if reservation.leg = leg then reservation.price.val else 0

/-- The prices of the reservations still held on a leg. -/
def outstanding (run : LedgerRun) (leg : Leg) : ℤ :=
  (run.held.map fun entry ↦ priceOn entry.2 leg).sum

/-- The prices of the reservations of a leg consumed with a fate. -/
def consumed (run : LedgerRun) (leg : Leg) (fate : Fate) : ℤ :=
  (run.closed.map fun entry ↦ if entry.2.2 = fate then priceOn entry.2.1 leg else 0).sum

/-- The signed value of a record: an upload is owed to us, a download by us. -/
def recordedValue : Au × Direction → ℤ
  | (amount, .upload) => amount.val
  | (amount, .download) => -amount.val

/-- What the balance should hold: applied provides, less applied receives, plus the records. -/
def committed (run : LedgerRun) : ℤ :=
  run.consumed .provide .applied - run.consumed .receive .applied +
    (run.recorded.map recordedValue).sum

/-- The books stay within `i64`, the range the counters read back in. -/
structure InRange (run : LedgerRun) : Prop where
  receive_le : run.outstanding .receive ≤ i64Max
  provide_le : run.outstanding .provide ≤ i64Max
  forfeited_le : run.consumed .provide .forfeited ≤ i64Max
  min_le_committed : i64Min ≤ run.committed
  committed_le : run.committed ≤ i64Max

instance (run : LedgerRun) : Decidable run.InRange :=
  decidable_of_iff (run.outstanding .receive ≤ i64Max ∧ run.outstanding .provide ≤ i64Max ∧
      run.consumed .provide .forfeited ≤ i64Max ∧ i64Min ≤ run.committed ∧ run.committed ≤ i64Max)
    ⟨fun ⟨h₁, h₂, h₃, h₄, h₅⟩ ↦ ⟨h₁, h₂, h₃, h₄, h₅⟩, fun h ↦ ⟨h.1, h.2, h.3, h.4, h.5⟩⟩

@[simp] theorem outstanding_start (state : PeerState) (leg : Leg) :
    (start state).outstanding leg = 0 := rfl

@[simp] theorem consumed_start (state : PeerState) (leg : Leg) (fate : Fate) :
    (start state).consumed leg fate = 0 := rfl

@[simp] theorem committed_start (state : PeerState) : (start state).committed = 0 := rfl

theorem inRange_start (state : PeerState) : (start state).InRange :=
  ⟨le_of_lt zero_lt_i64Max, le_of_lt zero_lt_i64Max, le_of_lt zero_lt_i64Max,
    le_of_lt i64Min_lt_zero, le_of_lt zero_lt_i64Max⟩

theorem priceOn_nonneg {reservation : Reservation} (h : 0 ≤ reservation.price.val) (leg : Leg) :
    0 ≤ priceOn reservation leg := by
  unfold priceOn
  split
  · exact h
  · exact le_rfl

theorem outstanding_hold (run : LedgerRun) (reservation : Reservation) (state : PeerState)
    (leg : Leg) : (run.hold reservation state).outstanding leg =
      run.outstanding leg + priceOn reservation leg := by
  simp [outstanding, hold]

theorem consumed_hold (run : LedgerRun) (reservation : Reservation) (state : PeerState)
    (leg : Leg) (fate : Fate) : (run.hold reservation state).consumed leg fate = run.consumed leg fate :=
  rfl

theorem committed_hold (run : LedgerRun) (reservation : Reservation) (state : PeerState) :
    (run.hold reservation state).committed = run.committed :=
  rfl

section Close

variable {run : LedgerRun} {id : ℕ} {reservation : Reservation}

theorem outstanding_close (hnodup : (keys run.held).Nodup) (hmem : (id, reservation) ∈ run.held)
    (fate : Fate) (state : PeerState) (leg : Leg) :
    (run.close id reservation fate state).outstanding leg =
      run.outstanding leg - priceOn reservation leg := by
  have hsplit := sum_map_eq_add_eraseKey hnodup hmem (fun entry ↦ priceOn entry.2 leg)
  unfold outstanding close
  dsimp only at hsplit ⊢
  omega

theorem consumed_close (fate : Fate) (state : PeerState) (leg : Leg) (fate' : Fate) :
    (run.close id reservation fate state).consumed leg fate' =
      run.consumed leg fate' + if fate = fate' then priceOn reservation leg else 0 := by
  simp [consumed, close]

theorem committed_close (fate : Fate) (state : PeerState) :
    (run.close id reservation fate state).committed = run.committed +
      if fate = .applied then priceOn reservation .provide - priceOn reservation .receive else 0 := by
  unfold committed
  rw [consumed_close, consumed_close]
  have hrecorded : (run.close id reservation fate state).recorded = run.recorded := rfl
  rw [hrecorded]
  split_ifs <;> omega

end Close

theorem committed_record (run : LedgerRun) (config : SwarmAccountingConfig) (amount : Au)
    (direction : Direction) :
    (run.step config (.record amount direction)).committed =
      run.committed + recordedValue (amount, direction) := by
  simp only [committed, step, consumed, List.map_append, List.sum_append, List.map_cons,
    List.map_nil, List.sum_cons, List.sum_nil]
  omega

end LedgerRun

/-! ## The counters as integers -/

namespace PeerState

/-- The reserve counter of a leg. -/
def reserveOn (state : PeerState) : Leg → ℤ
  | .receive => state.reservedBalance.toNat
  | .provide => state.shadowReservedBalance.toNat

@[simp] theorem reserveOn_receive (state : PeerState) :
    state.reserveOn .receive = state.reservedBalance.toNat := rfl

@[simp] theorem reserveOn_provide (state : PeerState) :
    state.reserveOn .provide = state.shadowReservedBalance.toNat := rfl

/-- A `fetch_add` of a non-negative amount that keeps the counter within `i64` is exact. -/
theorem toNat_add_asAmount {counter : UInt64} {amount : Au} (h : 0 ≤ amount.val)
    (hfit : (counter.toNat : ℤ) + amount.val ≤ i64Max) :
    ((counter + amount.asAmount).toNat : ℤ) = counter.toNat + amount.val := by
  have hamount := Au.toNat_asAmount_of_nonneg h
  have hlt : counter.toNat + amount.asAmount.toNat < 2 ^ 64 := by
    unfold i64Max at hfit
    omega
  rw [UInt64.toNat_add, Nat.mod_eq_of_lt hlt]
  push_cast
  omega

/-- A saturating release of at most the counter is exact: the floor does not engage. -/
theorem toNat_saturatingSub_asAmount {counter : UInt64} {amount : Au} (h : 0 ≤ amount.val)
    (hle : amount.val ≤ counter.toNat) :
    ((saturatingSubU64 counter amount.asAmount).toNat : ℤ) = counter.toNat - amount.val := by
  have hamount := Au.toNat_asAmount_of_nonneg h
  rw [toNat_saturatingSubU64]
  omega

variable {state : PeerState} {price : Au}

theorem reserveOn_addReserved (h : 0 ≤ price.val)
    (hfit : state.reserveOn .receive + price.val ≤ i64Max) (leg : Leg) :
    (state.addReserved price).reserveOn leg =
      state.reserveOn leg + if Leg.receive = leg then price.val else 0 := by
  cases leg
  · exact toNat_add_asAmount h hfit
  · simp [reserveOn, addReserved]

theorem reserveOn_addShadowReserved (h : 0 ≤ price.val)
    (hfit : state.reserveOn .provide + price.val ≤ i64Max) (leg : Leg) :
    (state.addShadowReserved price).reserveOn leg =
      state.reserveOn leg + if Leg.provide = leg then price.val else 0 := by
  cases leg
  · simp [reserveOn, addShadowReserved]
  · exact toNat_add_asAmount h hfit

theorem reserveOn_release {leg : Leg} (h : 0 ≤ price.val) (hle : price.val ≤ state.reserveOn leg)
    (leg' : Leg) : (leg.release state price).reserveOn leg' =
      state.reserveOn leg' - if leg = leg' then price.val else 0 := by
  cases leg <;> cases leg'
  case receive.receive => exact toNat_saturatingSub_asAmount h hle
  case provide.provide => exact toNat_saturatingSub_asAmount h hle
  all_goals simp [reserveOn, Leg.release, subReserved, subShadowReserved]

theorem release_balance (leg : Leg) (state : PeerState) (price : Au) :
    (leg.release state price).balance = state.balance := by
  cases leg <;> rfl

theorem release_ghostBalance (leg : Leg) (state : PeerState) (price : Au) :
    (leg.release state price).ghostBalance = state.ghostBalance := by
  cases leg <;> rfl

theorem reserveOn_addBalance (amount : Au) (leg : Leg) :
    (state.addBalance amount).reserveOn leg = state.reserveOn leg := by
  cases leg <;> rfl

theorem reserveOn_addGhost (amount : Au) (leg : Leg) :
    (state.addGhost amount).reserveOn leg = state.reserveOn leg := by
  cases leg <;> rfl

theorem reserveOn_record (amount : Au) (direction : Direction) (leg : Leg) :
    (state.record amount direction).reserveOn leg = state.reserveOn leg := by
  cases direction <;> cases leg <;> rfl

theorem record_ghostBalance (amount : Au) (direction : Direction) :
    (state.record amount direction).ghostBalance = state.ghostBalance := by
  cases direction <;> rfl

/-- A record moves the balance by its signed value, once that stays within `i64`. -/
theorem val_record_balance {amount : Au} (h : 0 ≤ amount.val) (direction : Direction)
    (hlo : i64Min ≤ state.balance.val + LedgerRun.recordedValue (amount, direction))
    (hhi : state.balance.val + LedgerRun.recordedValue (amount, direction) ≤ i64Max) :
    (state.record amount direction).balance.val =
      state.balance.val + LedgerRun.recordedValue (amount, direction) := by
  cases direction
  · exact Au.val_saturatingAdd_of_mem hlo hhi
  · have hneg := Au.val_saturatingNeg_of_nonneg h
    have hval : (state.record amount .download).balance.val =
        clampI64 (state.balance.val + amount.saturatingNeg.val) := rfl
    rw [hval, hneg]
    exact clampI64_of_mem hlo hhi

end PeerState

/-- What committing a leg adds to the balance: `-price` for a receive, `price` for a provide. -/
def Leg.delta : Leg → Au → Au
  | .receive, price => price.saturatingNeg
  | .provide, price => price

/-- `Leg::apply` is a commit followed by the leg's release. -/
theorem Leg.apply_eq_release (leg : Leg) (state : PeerState) (price : Au) :
    leg.apply state price = leg.release (state.addBalance (leg.delta price)) price := by
  cases leg <;> rfl

theorem Leg.val_delta {price : Au} (h : 0 ≤ price.val) (reservation : Reservation)
    (hleg : reservation.price = price) :
    (reservation.leg.delta price).val =
      LedgerRun.priceOn reservation .provide - LedgerRun.priceOn reservation .receive := by
  subst hleg
  cases hcase : reservation.leg
  · simp [delta, LedgerRun.priceOn, hcase, Au.val_saturatingNeg_of_nonneg h]
  · simp [delta, LedgerRun.priceOn, hcase]

/-! ## The prepares -/

theorem prepareReceive_ok {config : SwarmAccountingConfig} {state : PeerState} {price : Au}
    {reservation : Reservation} {state' : PeerState}
    (h : prepareReceive config state price = .ok (reservation, state')) :
    reservation = ⟨.receive, price, false⟩ ∧ state' = state.addReserved price := by
  unfold prepareReceive at h
  split at h
  · cases h
  · cases h
    exact ⟨rfl, rfl⟩

theorem prepareProvide_ok {state : PeerState} {price : Au} {reservation : Reservation}
    {state' : PeerState} (h : prepareProvide state price = .ok (reservation, state')) :
    reservation = ⟨.provide, price, false⟩ ∧ state' = state.addShadowReserved price := by
  unfold prepareProvide at h
  dsimp only at h
  split at h
  · cases h
  · cases h
    exact ⟨rfl, rfl⟩

end VertexSwarm.Accounting
