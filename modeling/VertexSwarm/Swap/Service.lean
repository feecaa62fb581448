import VertexSwarm.Accounting.Peer
import Mathlib

/-!
# The SWAP service, for one peer

`swarm/accounting/swap/src/service.rs`.  The service actor owns, per peer, the learned swap
identity, the cumulative payouts sent and received, the uncashed exposure and at most one
pending outbound settlement.  It issues a cheque for a `Settle` command, credits the ledger when
the peer acknowledges it, and validates and credits the cheques the peer sends.

Each handler touches only the entries of the peer it names, so the state kept here is the
peer's entry of `peers` (the default when absent, which `entry(..).or_default()` makes
indistinguishable) and of `pending`.  Addresses and signatures are type parameters; signing a
cheque's EIP-712 hash and recovering a signer from it are functions of the setup, and whether the
signer and the network channel succeed on a given settle is an input.  What a handler does
outside the state (the cheque handed to the network, the ledger record, the settle's response,
the score report) is returned as its effects.
-/

namespace VertexSwarm.Swap

open Saturating Api Accounting

/-- `nectar_contracts::Cheque`. -/
structure Cheque (Addr : Type) where
  chequebook : Addr
  beneficiary : Addr
  cumulativePayout : U256
deriving DecidableEq

/-- `SignedCheque`: a cheque with its signature bytes. -/
structure SignedCheque (Addr Sig : Type) where
  cheque : Cheque Addr
  signature : Sig
deriving DecidableEq

/-- `PeerSwapInfo`: where cheques we issue pay, and who signs the cheques the peer sends. -/
structure PeerSwapInfo (Addr : Type) where
  beneficiary : Addr
  issuer : Addr
deriving DecidableEq

/-- `SwapSettlementError`, the variants the service raises.  The texts of a signer or recovery
failure come from those libraries and are left out. -/
inductive SwapSettlementError (Addr : Type) where
  /-- "settlement already in progress" -/
  | settlementInProgress
  /-- "network error: {0}" -/
  | networkError (message : String)
  /-- "unknown beneficiary for peer" -/
  | unknownBeneficiary
  /-- "no swap identity learned for peer; cannot authenticate cheque" -/
  | unknownPeerIdentity
  /-- "cheque beneficiary mismatch: expected {expected}, got {got}" -/
  | beneficiaryMismatch (expected got : Addr)
  /-- "cheque signing failed: {0}" -/
  | signingFailed
  /-- "cheque issuer mismatch: expected {expected}, recovered {recovered}" -/
  | issuerMismatch (expected recovered : Addr)
  /-- "cumulative payout did not increase: last {last}, received {received}" -/
  | nonIncreasingPayout (last received : U256)
  /-- "cheque amount overflows accounting unit: {0}" -/
  | amountOverflow (value : U256)
  /-- "settlement amount is negative: {0}" -/
  | negativeAmount (value : Au)
  /-- "cheque validation failed: {0}" -/
  | validationFailed
  /-- "uncashed exposure at bounce limit: exposure {exposure}, limit {limit}" -/
  | exposureLimit (exposure limit : U256)

/-- `From<AuConversionError> for SwapSettlementError`. -/
def SwapSettlementError.ofConversion {Addr : Type} : AuConversionError → SwapSettlementError Addr
  | .u256TooLarge value => .amountOverflow value
  | .negative value => .negativeAmount value

/-- What the service is set up with: our chequebook and beneficiary, the bounce limit, and the
chain-bound signing of a cheque by our key and recovery of a cheque's signer. -/
structure SwapSetup (Addr Sig : Type) where
  chequebook : Addr
  beneficiary : Addr
  bounceLimit : U256
  sign : Cheque Addr → Sig
  recover : Cheque Addr → Sig → Option Addr

/-- `PeerChequeState`. -/
structure PeerChequeState (Addr : Type) where
  info : Option (PeerSwapInfo Addr)
  lastSentPayout : U256
  lastReceivedPayout : U256
  receivedUncashed : U256

/-- `PeerChequeState::default`. -/
def PeerChequeState.default {Addr : Type} : PeerChequeState Addr := ⟨none, 0, 0, 0⟩

/-- The service's entries for one peer: its cheque state, and the amount of its pending
settlement (whose response channel is answered through the `respond` effect). -/
structure SwapPeer (Addr : Type) where
  cheques : PeerChequeState Addr
  pending : Option Au

/-- What handling a command or event does outside the peer's entries. -/
inductive SwapEffect (Addr Sig : Type) where
  /-- `ClientCommand::SendCheque`, accepted by the network channel. -/
  | sendCheque (cheque : SignedCheque Addr Sig)
  /-- `accounting.for_peer(peer).record(amount, direction)`. -/
  | record (amount : Au) (direction : Direction)
  /-- A settle's `response_tx.send(result)`. -/
  | respond (result : Except (SwapSettlementError Addr) Au)
  /-- `report_violation(peer)`. -/
  | reportViolation

/-- A `SwapCommand` or `SwapEvent` for the peer; a settle also says whether the signer and the
network channel succeed. -/
inductive SwapInput (Addr Sig : Type) where
  | settle (amount : Au) (signs sends : Bool)
  | registerPeerInfo (info : PeerSwapInfo Addr)
  | chequeSent
  | chequeReceived (cheque : SignedCheque Addr Sig)
  | failed

/-- `U256::saturating_sub`. -/
def saturatingSubU256 (a b : U256) : U256 := if b ≤ a then a - b else 0

variable {Addr Sig : Type} [DecidableEq Addr] (setup : SwapSetup Addr Sig)

/-! ## Issuing -/

/-- `issue_cheque`: a cheque for the peer's beneficiary at the cumulative payout advanced by the
amount, committed to the state only once the signer signs it. -/
def issueCheque (state : PeerChequeState Addr) (wireAmount : U256) (signs : Bool) :
    Except (SwapSettlementError Addr) (SignedCheque Addr Sig × PeerChequeState Addr) :=
  match state.info with
  | none => .error .unknownBeneficiary
  | some info =>
    let nextPayout := state.lastSentPayout + wireAmount
    let cheque : Cheque Addr := ⟨setup.chequebook, info.beneficiary, nextPayout⟩
    if signs then .ok (⟨cheque, setup.sign cheque⟩, { state with lastSentPayout := nextPayout })
    else .error .signingFailed

/-- `handle_command(Settle)`: refuse while a settlement is pending or for a negative amount;
otherwise issue a cheque and hand it to the network, pending the acknowledgement, or roll the
payout back if the network channel refuses it. -/
def settle (peer : SwapPeer Addr) (amount : Au) (signs sends : Bool) :
    SwapPeer Addr × List (SwapEffect Addr Sig) :=
  if peer.pending.isSome then (peer, [.respond (.error .settlementInProgress)])
  else
    match Au.toU256 amount with
    | .error e => (peer, [.respond (.error (.ofConversion e))])
    | .ok wireAmount =>
      match issueCheque setup peer.cheques wireAmount signs with
      | .ok (cheque, cheques) =>
        if sends then (⟨cheques, some amount⟩, [.sendCheque cheque])
        else
          (⟨{ cheques with lastSentPayout := cheques.lastSentPayout - wireAmount }, peer.pending⟩,
            [.respond (.error (.networkError "channel closed"))])
      | .error e => (peer, [.respond (.error e)])

/-! ## Receiving -/

/-- `accept_cheque`: authenticate a received cheque against our beneficiary and the peer's
issuer, require a strictly higher cumulative payout, and credit the increment capped by the
bounce-limit headroom. -/
def acceptCheque (state : PeerChequeState Addr) (signed : SignedCheque Addr Sig) :
    Except (SwapSettlementError Addr) (Au × PeerChequeState Addr) :=
  match state.info with
  | none => .error .unknownPeerIdentity
  | some info =>
    if signed.cheque.beneficiary ≠ setup.beneficiary then
      .error (.beneficiaryMismatch setup.beneficiary signed.cheque.beneficiary)
    else
      match setup.recover signed.cheque signed.signature with
      | none => .error .validationFailed
      | some recovered =>
        if recovered ≠ info.issuer then .error (.issuerMismatch info.issuer recovered)
        else
          let received := signed.cheque.cumulativePayout
          let last := state.lastReceivedPayout
          if received ≤ last then .error (.nonIncreasingPayout last received)
          else
            let headroom := saturatingSubU256 setup.bounceLimit state.receivedUncashed
            if headroom = 0 then .error (.exposureLimit state.receivedUncashed setup.bounceLimit)
            else
              let increment := min (received - last) headroom
              match Au.tryFromU256 increment with
              | .error e => .error (.ofConversion e)
              | .ok amount =>
                .ok (amount, { state with lastReceivedPayout := last + increment,
                                          receivedUncashed := state.receivedUncashed + increment })

/-! ## The handlers -/

/-- `handle_command` and `handle_event` for the peer. -/
def handle (peer : SwapPeer Addr) : SwapInput Addr Sig → SwapPeer Addr × List (SwapEffect Addr Sig)
  | .settle amount signs sends => settle setup peer amount signs sends
  | .registerPeerInfo info => ({ peer with cheques := { peer.cheques with info := some info } }, [])
  | .chequeSent =>
    match peer.pending with
    | some amount => ({ peer with pending := none }, [.record amount .upload, .respond (.ok amount)])
    | none => (peer, [])
  | .chequeReceived signed =>
    match acceptCheque setup peer.cheques signed with
    | .ok (amount, cheques) => ({ peer with cheques }, [.record amount .download])
    | .error e =>
      -- only authenticated rejections count against the peer
      (peer, match e with
        | .unknownPeerIdentity => []
        | _ => [.reportViolation])
  | .failed =>
    match peer.pending with
    | some _ => ({ peer with pending := none }, [.respond (.error (.networkError "substream failed"))])
    | none => (peer, [])

/-- A run of the service for the peer: its entries and, for every input handled, the input
with its effects. -/
structure SwapRun (Addr Sig : Type) where
  peer : SwapPeer Addr
  log : List (SwapInput Addr Sig × List (SwapEffect Addr Sig))

/-- Handle one input. -/
def SwapRun.step (run : SwapRun Addr Sig) (input : SwapInput Addr Sig) : SwapRun Addr Sig :=
  ⟨(handle setup run.peer input).1, run.log ++ [(input, (handle setup run.peer input).2)]⟩

/-- Handle a sequence of inputs. -/
def SwapRun.exec (run : SwapRun Addr Sig) (inputs : List (SwapInput Addr Sig)) : SwapRun Addr Sig :=
  inputs.foldl (SwapRun.step setup) run

namespace SwapRun

/-- A service that has learned nothing about the peer and has nothing pending for it. -/
def start : SwapRun Addr Sig := ⟨⟨PeerChequeState.default, none⟩, []⟩

@[simp] theorem exec_nil (run : SwapRun Addr Sig) : run.exec setup [] = run := rfl

@[simp] theorem exec_cons (run : SwapRun Addr Sig) (input : SwapInput Addr Sig)
    (inputs : List (SwapInput Addr Sig)) :
    run.exec setup (input :: inputs) = (run.step setup input).exec setup inputs := rfl

theorem exec_append_singleton (run : SwapRun Addr Sig) (inputs : List (SwapInput Addr Sig))
    (input : SwapInput Addr Sig) :
    run.exec setup (inputs ++ [input]) = (run.exec setup inputs).step setup input := by
  rw [exec, List.foldl_append]
  rfl

@[simp] theorem step_peer (run : SwapRun Addr Sig) (input : SwapInput Addr Sig) :
    (run.step setup input).peer = (handle setup run.peer input).1 := rfl

@[simp] theorem step_log (run : SwapRun Addr Sig) (input : SwapInput Addr Sig) :
    (run.step setup input).log = run.log ++ [(input, (handle setup run.peer input).2)] := rfl

end SwapRun

/-- The ledger amounts a list of effects records in a direction. -/
def recorded (direction : Direction) (effects : List (SwapEffect Addr Sig)) : List Au :=
  effects.filterMap fun
    | .record amount direction' => if direction' = direction then some amount else none
    | _ => none

end VertexSwarm.Swap
