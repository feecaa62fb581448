import VertexSwarm.Accounting.Peer
import VertexSwarm.Lib.Run

/-!
# The pseudosettle service, for one peer

`swarm/accounting/pseudosettle/src/service.rs`.  Pseudosettle is time-based forgiveness: a
debtor offers to settle an amount, and the creditor accepts what the peer owes, capped by a
refresh rate times the seconds since it last accepted (or since it first saw the peer).

For one peer the service keeps the pending outbound settle, our clock at the last inbound
credit (`last_settlement`), the creditor's clamped ack timestamp that paces our next settle
(`last_settle_ack`) and our clock at first contact (`first_seen`).  None of these entries is
ever removed.  The peer's accounting state is part of the model: the creditor side reads its
balance and both sides record into it.  Every other change to the balance arrives as an input.

The wall clock is an input too.  A handler that reads it more than once takes every reading
as its own input: `Received` reads it in the handler, again in `calculate_acceptable`, and
again for the ack's timestamp.
-/

namespace VertexSwarm.Pseudosettle

open Saturating Api Accounting

/-- `CLOCK_SKEW_WINDOW_SECS`: how far below our clock a creditor's ack timestamp is trusted. -/
def clockSkewWindowSecs : UInt64 := 60

/-- `PseudosettleSettlementError`, the variants the service raises. -/
inductive PseudosettleSettlementError where
  /-- "settlement already in progress" -/
  | settlementInProgress
  /-- "too soon since last settlement" -/
  | tooSoon
  /-- "network error: {0}" -/
  | networkError (message : String)
deriving DecidableEq

/-- `PseudosettleAck`: the amount a creditor accepted, and its clock when it decided. -/
structure PseudosettleAck where
  accepted : Au
  timestamp : Int64
deriving DecidableEq

/-- The service's entries for one peer, with the peer's accounting state. -/
structure PseudoPeer where
  account : PeerState
  pending : Option Au
  lastSettlement : Option UInt64
  lastSettleAck : Option UInt64
  firstSeen : Option UInt64

/-- What handling a command or event does outside the service's entries.  A ledger record is
also applied to the peer's account. -/
inductive PseudoEffect where
  /-- `ClientCommand::SendPseudosettle`, accepted by the network channel. -/
  | sendPseudosettle (amount : U256)
  /-- `ClientCommand::AckPseudosettle`. -/
  | ack (ack : PseudosettleAck)
  /-- `accounting.for_peer(peer).record(amount, direction)`. -/
  | record (amount : Au) (direction : Direction)
  /-- A settle's `response_tx.send(result)`. -/
  | respond (result : Except PseudosettleSettlementError Au)
  /-- `report_violation(peer)`. -/
  | reportViolation

/-- A `PseudosettleCommand` or `PseudosettleEvent` for the peer, with the clock readings its
handler takes and whether the network channel accepts the settle request; or a change to the
peer's balance made elsewhere in the node. -/
inductive PseudoInput where
  | settle (amount : Au) (now : UInt64) (sends : Bool)
  | sent (ack : PseudosettleAck) (now : UInt64)
  | received (amount : U256) (now later ackAt : UInt64)
  | failed
  | rebalanced (balance : Au)

/-- `wire_from_au`: the amount as a `U256`, through `as_amount`. -/
def wireFromAu (amount : Au) : U256 :=
  ⟨amount.asAmount.toNat, by have := amount.asAmount.toNat_lt; omega⟩

/-- `ack_timestamp`: the clock reading cast to `i64`. -/
def ackTimestamp (clock : UInt64) : Int64 := clock.toInt64

/-- `u64::try_from` of an `i64`. -/
def tryToU64 (value : Int64) : Option UInt64 :=
  if 0 ≤ value.toInt then some (UInt64.ofNat value.toInt.toNat) else none

/-- The rate gate of both directions: a reference at or after the clock means too soon. -/
def isTooSoon (reference : Option UInt64) (now : UInt64) : Bool :=
  match reference with
  | some last => decide (now ≤ last)
  | none => false

/-- The creditor's ack timestamp when it lies in the window below our clock, else our clock. -/
def effectiveAckTimestamp (timestamp : Int64) (now : UInt64) : UInt64 :=
  ((tryToU64 timestamp).filter fun t ↦
    decide (saturatingSubU64 now clockSkewWindowSecs ≤ t ∧ t ≤ now)).getD now

/-- `entry(peer).and_modify(|prev| *prev = (*prev).max(t)).or_insert(t)`. -/
def raiseTo (stored : Option UInt64) (t : UInt64) : UInt64 :=
  match stored with
  | some prev => max prev t
  | none => t

/-! ## The debtor side -/

/-- `handle_command(Settle)`: refuse while a settle is pending or before the creditor's pace
allows; otherwise send the request, pending its ack, or answer at once if the channel is
closed. -/
def settle (peer : PseudoPeer) (amount : Au) (now : UInt64) (sends : Bool) :
    PseudoPeer × List PseudoEffect :=
  if peer.pending.isSome then (peer, [.respond (.error .settlementInProgress)])
  else if isTooSoon peer.lastSettleAck now then (peer, [.respond (.error .tooSoon)])
  else if sends then ({ peer with pending := some amount }, [.sendPseudosettle (wireFromAu amount)])
  else (peer, [.respond (.error (.networkError "channel closed"))])

/-- `handle_event(Sent)`: complete the pending settle with the accepted amount clamped to the
offer, record it, and raise the pace reference to the clamped ack timestamp. -/
def sent (peer : PseudoPeer) (ack : PseudosettleAck) (now : UInt64) :
    PseudoPeer × List PseudoEffect :=
  match peer.pending with
  | none => (peer, [])
  | some offered =>
    let accepted := ack.accepted.min offered
    let effective := effectiveAckTimestamp ack.timestamp now
    ({ peer with account := peer.account.record accepted .upload, pending := none,
                 lastSettleAck := some (raiseTo peer.lastSettleAck effective) },
      (if offered < ack.accepted then [.reportViolation] else []) ++
        [.record accepted .upload, .respond (.ok accepted)])

/-! ## The creditor side -/

/-- `calculate_acceptable`: the request capped by what the peer owes and by the refresh-rate
allowance for the seconds since the last credit or, before any, since first contact, read
against the clock `now`; an allowance that overflows saturates. -/
def calculateAcceptable (refreshRate : Au) (peer : PseudoPeer) (requested : Au) (now : UInt64) : Au :=
  let balance := peer.account.balance
  if ¬ 0 < balance.val then Au.zero
  else
    let owed := balance
    let since := (peer.lastSettlement.or peer.firstSeen).getD now
    let elapsed := saturatingSubU64 now since
    let allowance := (refreshRate.checkedScale elapsed).getD (Au.fromAmount 0xFFFFFFFFFFFFFFFF)
    (requested.min owed).min allowance

/-- `first_seen.entry(peer).or_insert(now)`: anchor first contact, unless already anchored. -/
def anchorFirstSeen (peer : PseudoPeer) (now : UInt64) : PseudoPeer :=
  { peer with firstSeen := some (peer.firstSeen.getD now) }

@[simp] theorem anchorFirstSeen_account (peer : PseudoPeer) (now : UInt64) :
    (anchorFirstSeen peer now).account = peer.account := rfl

@[simp] theorem anchorFirstSeen_lastSettlement (peer : PseudoPeer) (now : UInt64) :
    (anchorFirstSeen peer now).lastSettlement = peer.lastSettlement := rfl

@[simp] theorem anchorFirstSeen_firstSeen (peer : PseudoPeer) (now : UInt64) :
    (anchorFirstSeen peer now).firstSeen = some (peer.firstSeen.getD now) := rfl

/-- `handle_event(Received)`: too soon after the last credit, ack nothing; otherwise anchor first
contact, credit the acceptable amount when positive, and ack it. -/
def received (refreshRate : Au) (peer : PseudoPeer) (amount : U256) (now later ackAt : UInt64) :
    PseudoPeer × List PseudoEffect :=
  if isTooSoon peer.lastSettlement now then (peer, [.ack ⟨Au.zero, ackTimestamp ackAt⟩])
  else
    let anchored := anchorFirstSeen peer now
    let acceptable := calculateAcceptable refreshRate anchored (Au.saturatingFromU256 amount) later
    if 0 < acceptable.val then
      ({ anchored with account := anchored.account.record acceptable .download,
                       lastSettlement := some now },
        [.record acceptable .download, .ack ⟨acceptable, ackTimestamp ackAt⟩])
    else (anchored, [.ack ⟨acceptable, ackTimestamp ackAt⟩])

/-- `handle_command` and `handle_event` for the peer. -/
def handle (refreshRate : Au) (peer : PseudoPeer) : PseudoInput → PseudoPeer × List PseudoEffect
  | .settle amount now sends => settle peer amount now sends
  | .sent ack now => sent peer ack now
  | .received amount now later ackAt => received refreshRate peer amount now later ackAt
  | .failed =>
    match peer.pending with
    | some _ => ({ peer with pending := none }, [.respond (.error (.networkError "substream failed"))])
    | none => (peer, [])
  | .rebalanced balance => ({ peer with account := { peer.account with balance } }, [])

/-- A run of the service for the peer: its entries and, for every input handled, the input with
its effects. -/
structure PseudoRun where
  peer : PseudoPeer
  log : List (PseudoInput × List PseudoEffect)

namespace PseudoRun

variable (refreshRate : Au)

/-- A service with no entries for the peer, whose account is `account`. -/
def start (account : PeerState) : PseudoRun := ⟨⟨account, none, none, none, none⟩, []⟩

/-- Handle one input. -/
def step (run : PseudoRun) (input : PseudoInput) : PseudoRun :=
  ⟨(handle refreshRate run.peer input).1, run.log ++ [(input, (handle refreshRate run.peer input).2)]⟩

/-- Handle a sequence of inputs. -/
def exec (run : PseudoRun) (inputs : List PseudoInput) : PseudoRun :=
  inputs.foldl (step refreshRate) run

/-- The inputs a run handled, in order. -/
def inputs (run : PseudoRun) : List PseudoInput := run.log.map Prod.fst

@[simp] theorem step_peer (run : PseudoRun) (input : PseudoInput) :
    (run.step refreshRate input).peer = (handle refreshRate run.peer input).1 := rfl

@[simp] theorem step_log (run : PseudoRun) (input : PseudoInput) :
    (run.step refreshRate input).log = run.log ++ [(input, (handle refreshRate run.peer input).2)] :=
  rfl

@[simp] theorem inputs_step (run : PseudoRun) (input : PseudoInput) :
    (run.step refreshRate input).inputs = run.inputs ++ [input] := by
  simp [inputs]

theorem inputs_exec (run : PseudoRun) (inputs : List PseudoInput) :
    (run.exec refreshRate inputs).inputs = run.inputs ++ inputs := by
  induction inputs generalizing run with
  | nil => simp [exec]
  | cons input inputs ih =>
    rw [exec, List.foldl_cons, ← exec, ih, inputs_step, List.append_assoc, List.singleton_append]

theorem inputs_prefix_of_mem_scanl {account : PeerState} {inputs : List PseudoInput} {run : PseudoRun}
    (hrun : run ∈ List.scanl (step refreshRate) (start account) inputs) : run.inputs <+: inputs := by
  obtain ⟨pre, hpre, rfl⟩ := Run.exists_prefix_of_mem_scanl _ hrun
  have hinputs : ((start account).exec refreshRate pre).inputs = pre :=
    inputs_exec refreshRate (start account) pre
  rw [show pre.foldl (step refreshRate) (start account) = (start account).exec refreshRate pre from rfl,
    hinputs]
  exact hpre

end PseudoRun

/-- The ledger amounts a list of effects records in a direction. -/
def recorded (direction : Direction) (effects : List PseudoEffect) : List Au :=
  effects.filterMap fun
    | .record amount direction' => if direction' = direction then some amount else none
    | _ => none

end VertexSwarm.Pseudosettle
