import VertexSwarm.Api.Au

/-!
# Per-peer balances and reservations

`swarm/accounting/core/src/accounting/{peer.rs, reservation.rs, mod.rs}`.  A `PeerState` holds
the peer's signed balance (saturating at the `i64` bounds), the `u64` receive and provide
reserves (`fetch_add` on the way in, saturating at zero on the way out) and the `u64` ghost
balance of refused deliveries, with the peer's two thresholds.

A `Reservation` is an RAII hold on one leg: `prepare_receive` and `prepare_provide` reserve its
price, `apply` commits it into the balance, `forfeit` (provide only) accrues it as ghost debt,
and dropping it un-applied releases the reserve.  Atomics are read and written one operation
at a time; a run on one peer is sequential here.
-/

namespace VertexSwarm.Accounting

open Saturating Api

/-- Atomic per-peer balance state. -/
structure PeerState where
  balance : Au
  reservedBalance : UInt64
  shadowReservedBalance : UInt64
  ghostBalance : UInt64
  paymentThreshold : Au
  disconnectThreshold : Au

namespace PeerState

/-- `PeerState::new`: zero balances under the given thresholds. -/
def new (paymentThreshold disconnectThreshold : Au) : PeerState :=
  ⟨Au.zero, 0, 0, 0, paymentThreshold, disconnectThreshold⟩

/-- `add_balance`: saturating at the `i64` bounds. -/
def addBalance (state : PeerState) (amount : Au) : PeerState :=
  { state with balance := state.balance.saturatingAdd amount }

/-- `reserved_balance()`: the receive reserve read back as AU. -/
def reservedBalanceAu (state : PeerState) : Au := Au.fromAmount state.reservedBalance

/-- `add_reserved`: a wrapping `fetch_add` of the amount. -/
def addReserved (state : PeerState) (amount : Au) : PeerState :=
  { state with reservedBalance := state.reservedBalance + amount.asAmount }

/-- `sub_reserved`: saturating at zero. -/
def subReserved (state : PeerState) (amount : Au) : PeerState :=
  { state with reservedBalance := saturatingSubU64 state.reservedBalance amount.asAmount }

/-- `shadow_reserved_balance()`. -/
def shadowReservedBalanceAu (state : PeerState) : Au := Au.fromAmount state.shadowReservedBalance

/-- `add_shadow_reserved`. -/
def addShadowReserved (state : PeerState) (amount : Au) : PeerState :=
  { state with shadowReservedBalance := state.shadowReservedBalance + amount.asAmount }

/-- `sub_shadow_reserved`. -/
def subShadowReserved (state : PeerState) (amount : Au) : PeerState :=
  { state with shadowReservedBalance := saturatingSubU64 state.shadowReservedBalance amount.asAmount }

/-- `ghost_balance()`. -/
def ghostBalanceAu (state : PeerState) : Au := Au.fromAmount state.ghostBalance

/-- `add_ghost`. -/
def addGhost (state : PeerState) (amount : Au) : PeerState :=
  { state with ghostBalance := state.ghostBalance + amount.asAmount }

end PeerState

/-! ## Reservations -/

/-- A reservation leg. -/
inductive Leg where
  /-- Receiving service: we owe the peer; reserves `reserved_balance`. -/
  | receive
  /-- Providing service: the peer owes us; reserves `shadow_reserved_balance`. -/
  | provide
deriving DecidableEq

namespace Leg

/-- `Leg::apply`: commit the leg's amount into the balance and clear its reserve. -/
def apply : Leg → PeerState → Au → PeerState
  | receive, state, price => (state.addBalance price.saturatingNeg).subReserved price
  | provide, state, price => (state.addBalance price).subShadowReserved price

/-- `Leg::release`: release the leg's reserve. -/
def release : Leg → PeerState → Au → PeerState
  | receive, state, price => state.subReserved price
  | provide, state, price => state.subShadowReserved price

end Leg

/-- A reserved balance change for one leg (the shared `Arc<PeerState>` is passed alongside). -/
structure Reservation where
  leg : Leg
  price : Au
  applied : Bool

namespace Reservation

/-- `Drop`: release the reserve unless the reservation was applied. -/
def drop (reservation : Reservation) (state : PeerState) : PeerState :=
  if !reservation.applied then reservation.leg.release state reservation.price else state

/-- `Reservation::apply`: commit, mark applied, then drop (which then releases nothing). -/
def apply (reservation : Reservation) (state : PeerState) : PeerState :=
  drop { reservation with applied := true } (reservation.leg.apply state reservation.price)

/-- `Reservation<Provide>::forfeit`: accrue the price as ghost debt, then drop (releasing the
shadow reserve). -/
def forfeit (reservation : Reservation) (state : PeerState) : PeerState :=
  reservation.drop (state.addGhost reservation.price)

/-- An applied reservation's drop releases nothing: an apply is one commit and no release. -/
theorem apply_eq (reservation : Reservation) (state : PeerState) :
    reservation.apply state = reservation.leg.apply state reservation.price := by
  simp [apply, drop]

theorem drop_of_not_applied {reservation : Reservation} (h : reservation.applied = false)
    (state : PeerState) : reservation.drop state = reservation.leg.release state reservation.price := by
  simp [drop, h]

end Reservation

/-! ## Preparing reservations -/

/-- `AccountingError`. -/
inductive AccountingError where
  /-- "peer {peer} balance {balance} exceeds disconnect threshold {threshold}" (the peer is the
  one of the run and is left out). -/
  | disconnectThreshold (balance threshold : Au)
  /-- "peer {peer} balance {balance} exceeds payment threshold {threshold}". -/
  | paymentThreshold (balance threshold : Au)

/-- `Ledger::snapshot` of the peer. -/
def PeerState.snapshot (state : PeerState) (config : SwarmAccountingConfig) : LedgerSnapshot :=
  ⟨state.balance, state.reservedBalanceAu, state.disconnectThreshold, config.settleTrigger⟩

/-- `Accounting::prepare_receive`: refuse a request the admission band refuses, otherwise
reserve its price. -/
def prepareReceive (config : SwarmAccountingConfig) (state : PeerState) (price : Au) :
    Except AccountingError (Reservation × PeerState) :=
  if !(Admission.admits ( LedgerSnapshot.admit (state.snapshot config) price)) then
    .error (.disconnectThreshold state.balance config.disconnectThreshold)
  else .ok (⟨.receive, price, false⟩, state.addReserved price)

/-- The debt a provide projects: committed balance, outstanding provides, ghost debt and the
price. -/
def projectedProvide (state : PeerState) (price : Au) : Au :=
  ((state.balance.saturatingAdd state.shadowReservedBalanceAu).saturatingAdd
    state.ghostBalanceAu).saturatingAdd price

/-- `Accounting::prepare_provide`: refuse once the projected debt would pass the payment
threshold, otherwise reserve the price. -/
def prepareProvide (state : PeerState) (price : Au) :
    Except AccountingError (Reservation × PeerState) :=
  let projected := projectedProvide state price
  if projected > state.paymentThreshold then
    .error (.paymentThreshold projected state.paymentThreshold)
  else .ok (⟨.provide, price, false⟩, state.addShadowReserved price)

/-- The direction of a recorded amount. -/
inductive Direction where
  | upload
  | download
deriving DecidableEq

/-- `AccountingPeerHandle::record`: an upload credits the balance, a download debits it. -/
def PeerState.record (state : PeerState) (amount : Au) : Direction → PeerState
  | .upload => state.addBalance amount
  | .download => state.addBalance amount.saturatingNeg

end VertexSwarm.Accounting
