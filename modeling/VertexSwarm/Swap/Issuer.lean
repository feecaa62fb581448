import VertexSwarm.Swap.Receiver
import VertexSwarm.Lib.Cumulative
import VertexSwarm.Lib.Run
import Mathlib.Algebra.BigOperators.Ring.Finset
import Mathlib.Algebra.Order.BigOperators.Group.List
import Mathlib.Algebra.Group.Action.Defs
import Mathlib.Algebra.Group.Fin.Basic

/-!
# The issuing side of SWAP

A settle hands the peer a cheque at our cumulative payout advanced by its amount, and at most one
settle waits for the peer's acknowledgement at a time.  The payout is committed only once the
cheque is signed, and is rolled back when the network channel refuses the cheque, but it stays
advanced when the substream fails after the hand-off: the cheque may already be with the peer.

What a run does on this side is read off its log as a list of moves (`SwapRun.moves`): a hand-off
with its amount and cheque, a ledger credit for an upload, a release of the settle in flight.
`Outbound` says once what one handled input can do to that side; the invariant `Issued` follows
from it.  It says that the moves follow the settlement protocol (`Move.next`) with the pending
settle as its state, and that the handed cheques carry the running totals of their amounts, the
cumulative payout being the total.  From it: the payout is the sum of the handed amounts, the
handed payouts strictly increase, and an honest receiver fed them in any order credits the payout
capped by its bounce limit.
-/

namespace VertexSwarm.Swap

open Saturating Api Accounting Cumulative

variable {Addr Sig : Type}

/-! ## The moves of a run -/

/-- What handling an input did to the outbound settlement. -/
inductive Move (Addr Sig : Type) where
  /-- A settle handed its cheque to the network. -/
  | opened (amount : Au) (cheque : SignedCheque Addr Sig)
  /-- The ledger was credited for an upload. -/
  | credited (amount : Au)
  /-- A failure answered the settle in flight. -/
  | released

/-- The move an effect of handling `input` makes, if any. -/
def moveOf (input : SwapInput Addr Sig) : SwapEffect Addr Sig → Option (Move Addr Sig)
  | .sendCheque cheque =>
    (match input with
      | .settle amount _ _ => some (.opened amount cheque)
      | _ => none)
  | .record amount .upload => some (.credited amount)
  | .respond (.error _) =>
    (match input with
      | .failed => some .released
      | _ => none)
  | _ => none

/-- The moves a run made, in order. -/
def SwapRun.moves (run : SwapRun Addr Sig) : List (Move Addr Sig) :=
  run.log.flatMap fun entry ↦ entry.2.filterMap (moveOf entry.1)

/-- The inputs a run handled, in order. -/
def SwapRun.inputs (run : SwapRun Addr Sig) : List (SwapInput Addr Sig) := run.log.map Prod.fst

/-- One move of the settlement protocol from the settle in flight: a cheque is handed off only
with none in flight, and the settle in flight is closed by a credit of its own amount or by a
release; `none` when the move breaks the protocol. -/
def Move.next : Option Au → Move Addr Sig → Option (Option Au)
  | none, .opened amount _ => some (some amount)
  | some amount, .credited amount' => if amount' = amount then some none else none
  | some _, .released => some none
  | _, _ => none

/-- The amount and cheque of a hand-off. -/
def Move.handOff : Move Addr Sig → Option (Au × SignedCheque Addr Sig)
  | .opened amount cheque => some (amount, cheque)
  | _ => none

/-- The hand-offs among moves. -/
def handOffs (moves : List (Move Addr Sig)) : List (Au × SignedCheque Addr Sig) :=
  moves.filterMap Move.handOff

/-- The settles of a run that handed their cheque to the network, each with its cheque. -/
def SwapRun.handed (run : SwapRun Addr Sig) : List (Au × SignedCheque Addr Sig) :=
  handOffs run.moves

/-- The payout increment of a hand-off. -/
def handedAmount (handOff : Au × SignedCheque Addr Sig) : ℕ := handOff.1.val.toNat

/-- The cumulative payout of a hand-off's cheque. -/
def handedPayout (handOff : Au × SignedCheque Addr Sig) : ℕ :=
  handOff.2.cheque.cumulativePayout.val

@[simp] theorem handOffs_nil : handOffs ([] : List (Move Addr Sig)) = [] := rfl

@[simp] theorem handOffs_append (moves moves' : List (Move Addr Sig)) :
    handOffs (moves ++ moves') = handOffs moves ++ handOffs moves' :=
  List.filterMap_append

/-- Less than `2 ^ 193` hand-offs, each of at most `i64::MAX`, total less than `2 ^ 256`. -/
theorem sum_handedAmount_lt (handed : List (Au × SignedCheque Addr Sig))
    (hlength : handed.length < 2 ^ 193) : (handed.map handedAmount).sum < 2 ^ 256 := by
  have hle : ∀ n ∈ handed.map handedAmount, n ≤ 2 ^ 63 - 1 := by
    intro n hn
    obtain ⟨handOff, -, rfl⟩ := List.mem_map.mp hn
    have := handOff.1.le_max
    unfold i64Max at this
    unfold handedAmount
    omega
  have hsum := List.sum_le_card_nsmul _ _ hle
  rw [List.length_map, smul_eq_mul] at hsum
  omega

theorem cast_sum_handedAmount {handed : List (Au × SignedCheque Addr Sig)}
    (hnonneg : ∀ handOff ∈ handed, 0 ≤ handOff.1.val) :
    ((handed.map handedAmount).sum : ℤ) = (handed.map fun handOff ↦ handOff.1.val).sum := by
  rw [Nat.cast_list_sum, List.map_map]
  congr 1
  apply List.map_congr_left
  intro handOff hmem
  exact Int.toNat_of_nonneg (hnonneg handOff hmem)

variable (setup : SwapSetup Addr Sig)

/-- The cheque a settle issues at a payout: drawn on our chequebook for the peer's beneficiary,
signed with our key. -/
def issuedCheque (info : PeerSwapInfo Addr) (payout : U256) : SignedCheque Addr Sig :=
  ⟨⟨setup.chequebook, info.beneficiary, payout⟩, setup.sign ⟨setup.chequebook, info.beneficiary, payout⟩⟩

/-- The peer's learned identity stays, unless the input registers a new one. -/
def KeepsInfo (peer : SwapPeer Addr) (input : SwapInput Addr Sig) (next : SwapPeer Addr) : Prop :=
  next.cheques.info = peer.cheques.info ∨
    ∃ info, input = .registerPeerInfo info ∧ next.cheques.info = some info

/-- What handling one input can do to the outbound side of the peer's entries, with the moves it
makes. -/
inductive Outbound (peer : SwapPeer Addr) (input : SwapInput Addr Sig) :
    SwapPeer Addr → List (Move Addr Sig) → Prop
  /-- Nothing is handed off or closed, and the payout stands. -/
  | quiet {next : SwapPeer Addr} :
      next.cheques.lastSentPayout = peer.cheques.lastSentPayout → next.pending = peer.pending →
      KeepsInfo peer input next → Outbound peer input next []
  /-- A signed and sent settle, with nothing in flight, hands off a cheque at the payout advanced
  by its amount, pending its acknowledgement. -/
  | handOff {next : SwapPeer Addr} (amount : Au) (wire : U256) (info : PeerSwapInfo Addr) :
      input = .settle amount true true → peer.pending = none → Au.toU256 amount = .ok wire →
      peer.cheques.info = some info →
      next.cheques.lastSentPayout = peer.cheques.lastSentPayout + wire →
      next.pending = some amount → next.cheques.info = peer.cheques.info →
      Outbound peer input next
        [.opened amount (issuedCheque setup info (peer.cheques.lastSentPayout + wire))]
  /-- The settle in flight is closed by a ledger credit of its amount. -/
  | credit {next : SwapPeer Addr} (amount : Au) :
      peer.pending = some amount → next.pending = none →
      next.cheques.lastSentPayout = peer.cheques.lastSentPayout →
      next.cheques.info = peer.cheques.info → Outbound peer input next [.credited amount]
  /-- The settle in flight is released without a credit. -/
  | release {next : SwapPeer Addr} (amount : Au) :
      peer.pending = some amount → next.pending = none →
      next.cheques.lastSentPayout = peer.cheques.lastSentPayout →
      next.cheques.info = peer.cheques.info → Outbound peer input next [.released]

variable {setup}

theorem Outbound.flow {peer next : SwapPeer Addr} {input : SwapInput Addr Sig}
    {moves : List (Move Addr Sig)} (h : Outbound setup peer input next moves) :
    moves.foldlM Move.next peer.pending = some next.pending := by
  cases h with
  | quiet _ hpending _ => simp [hpending]
  | handOff amount wire info _ hnone _ _ _ hpending _ => simp [hnone, hpending, Move.next]
  | credit amount hsome hnone _ _ => simp [hsome, hnone, Move.next]
  | release amount hsome hnone _ _ => simp [hsome, hnone, Move.next]

/-! ## The outbound invariant -/

variable (setup) in
/-- The outbound books after handling `inputs`, having made `moves` and reached the peer's
entries `peer`. -/
structure Issued (inputs : List (SwapInput Addr Sig)) (moves : List (Move Addr Sig))
    (peer : SwapPeer Addr) : Prop where
  /-- The moves follow the settlement protocol, to the settle now pending. -/
  flow : moves.foldlM Move.next none = some peer.pending
  /-- Each handed cheque's payout is the running total of the handed amounts. -/
  totals : RunningTotals handedAmount handedPayout (2 ^ 256) 0 (handOffs moves)
  /-- The cumulative payout is the total of the handed amounts. -/
  total : peer.cheques.lastSentPayout.val = ((handOffs moves).map handedAmount).sum % 2 ^ 256
  /-- Each hand-off answers a signed and sent settle of its amount. -/
  settled : ∀ handOff ∈ handOffs moves, .settle handOff.1 true true ∈ inputs
  /-- Each handed cheque is ours, for a registered beneficiary. -/
  issued : ∀ handOff ∈ handOffs moves, ∃ info payout,
    .registerPeerInfo info ∈ inputs ∧ handOff.2 = issuedCheque setup info payout
  /-- There are no more hand-offs than inputs. -/
  count : (handOffs moves).length ≤ inputs.length
  /-- The learned identity was registered. -/
  registered : ∀ info, peer.cheques.info = some info → .registerPeerInfo info ∈ inputs

variable {inputs : List (SwapInput Addr Sig)} {moves : List (Move Addr Sig)}
  {peer : SwapPeer Addr}

theorem issued_start : Issued setup [] [] (SwapRun.start : SwapRun Addr Sig).peer where
  flow := rfl
  totals := trivial
  total := rfl
  settled := fun _ h ↦ absurd h List.not_mem_nil
  issued := fun _ h ↦ absurd h List.not_mem_nil
  count := le_refl 0
  registered := fun _ h ↦ by cases h

theorem Issued.keep (hinv : Issued setup inputs moves peer) {input : SwapInput Addr Sig}
    {next : SwapPeer Addr} {moves' : List (Move Addr Sig)}
    (hflow : moves'.foldlM Move.next peer.pending = some next.pending) (hoffs : handOffs moves' = [])
    (hpayout : next.cheques.lastSentPayout = peer.cheques.lastSentPayout)
    (hinfo : KeepsInfo peer input next) :
    Issued setup (inputs ++ [input]) (moves ++ moves') next := by
  have hsame : handOffs (moves ++ moves') = handOffs moves := by
    rw [handOffs_append, hoffs, List.append_nil]
  refine ⟨?_, hsame ▸ hinv.totals, ?_, ?_, ?_, ?_, ?_⟩
  · rw [List.foldlM_append, hinv.flow]
    exact hflow
  · rw [hsame, hpayout]
    exact hinv.total
  · intro handOff hmem
    exact List.mem_append_left _ (hinv.settled handOff (hsame ▸ hmem))
  · intro handOff hmem
    obtain ⟨info, payout, hregistered, hcheque⟩ := hinv.issued handOff (hsame ▸ hmem)
    exact ⟨info, payout, List.mem_append_left _ hregistered, hcheque⟩
  · rw [hsame, List.length_append]
    exact le_trans hinv.count (Nat.le_add_right _ _)
  · -- the identity is the one before, or the one this input registers
    intro info hnext
    rcases hinfo with hkept | ⟨info', rfl, hnew⟩
    · exact List.mem_append_left _ (hinv.registered info (hkept ▸ hnext))
    · rw [hnew, Option.some.injEq] at hnext
      exact List.mem_append_right _ (List.mem_singleton.mpr (congrArg _ hnext.symm))

theorem Issued.handOff (hinv : Issued setup inputs moves peer) {next : SwapPeer Addr}
    {amount : Au} {wire : U256} {info : PeerSwapInfo Addr} (hnone : peer.pending = none)
    (hwire : Au.toU256 amount = .ok wire) (hinfo : peer.cheques.info = some info)
    (hpayout : next.cheques.lastSentPayout = peer.cheques.lastSentPayout + wire)
    (hpending : next.pending = some amount) (hsame : next.cheques.info = peer.cheques.info) :
    Issued setup (inputs ++ [.settle amount true true])
      (moves ++ [.opened amount (issuedCheque setup info (peer.cheques.lastSentPayout + wire))]) next := by
  set cheque := issuedCheque setup info (peer.cheques.lastSentPayout + wire)
  have hoffs : handOffs (moves ++ [.opened amount cheque]) = handOffs moves ++ [(amount, cheque)] := by
    rw [handOffs_append]
    rfl
  -- the wire amount is the amount, and the payout advances by it modulo the word
  have hwire_val : wire.val = amount.val.toNat := by
    have := Au.toU256_eq_ok_iff.mp hwire
    omega
  have hadvance : (peer.cheques.lastSentPayout + wire).val =
      (((handOffs moves).map handedAmount).sum + amount.val.toNat) % 2 ^ 256 := by
    rw [Fin.val_add, hinv.total, hwire_val, Nat.mod_add_mod]
  refine ⟨?_, ?_, ?_, ?_, ?_, ?_, ?_⟩
  · rw [List.foldlM_append, hinv.flow, hnone]
    simp [Move.next, hpending]
  · rw [hoffs, runningTotals_append_singleton, Nat.zero_add]
    exact ⟨hinv.totals, hadvance⟩
  · rw [hpayout, hoffs, List.map_append, List.sum_append, List.map_singleton, List.sum_singleton]
    exact hadvance
  · intro handOff hmem
    rw [hoffs] at hmem
    rcases List.mem_append.mp hmem with hold | hnew
    · exact List.mem_append_left _ (hinv.settled handOff hold)
    · rw [List.mem_singleton.mp hnew]
      exact List.mem_append_right _ (List.mem_singleton_self _)
  · intro handOff hmem
    rw [hoffs] at hmem
    rcases List.mem_append.mp hmem with hold | hnew
    · obtain ⟨info', payout, hregistered, hcheque⟩ := hinv.issued handOff hold
      exact ⟨info', payout, List.mem_append_left _ hregistered, hcheque⟩
    · rw [List.mem_singleton.mp hnew]
      exact ⟨info, _, List.mem_append_left _ (hinv.registered info hinfo), rfl⟩
  · rw [hoffs, List.length_append, List.length_append]
    exact Nat.add_le_add_right hinv.count 1
  · intro info' hnext
    exact List.mem_append_left _ (hinv.registered info' (hsame ▸ hnext))

theorem Issued.advance (hinv : Issued setup inputs moves peer) {input : SwapInput Addr Sig}
    {next : SwapPeer Addr} {moves' : List (Move Addr Sig)}
    (hout : Outbound setup peer input next moves') :
    Issued setup (inputs ++ [input]) (moves ++ moves') next := by
  have hflow := hout.flow
  cases hout with
  | quiet hpayout _ hinfo => exact hinv.keep hflow rfl hpayout hinfo
  | handOff amount wire info hinput hnone hwire hinfo hpayout hpending hsame =>
    subst hinput
    exact hinv.handOff hnone hwire hinfo hpayout hpending hsame
  | credit amount _ _ hpayout hsame => exact hinv.keep hflow rfl hpayout (.inl hsame)
  | release amount _ _ hpayout hsame => exact hinv.keep hflow rfl hpayout (.inl hsame)

/-! ## What the books say -/

theorem Issued.lastSentPayout_eq (hinv : Issued setup inputs moves peer) :
    peer.cheques.lastSentPayout =
      ((handOffs moves).getLast?.map fun handOff ↦ handOff.2.cheque.cumulativePayout).getD 0 := by
  apply Fin.ext
  cases hlast : (handOffs moves).getLast? with
  | none =>
    rw [List.getLast?_eq_none_iff] at hlast
    rw [hinv.total, hlast]
    rfl
  | some handOff =>
    have hpayout := hinv.totals.getLast hlast
    rw [Nat.zero_add] at hpayout
    rw [hinv.total]
    exact hpayout.symm

theorem Issued.val_lastSentPayout (hinv : Issued setup inputs moves peer)
    (hfit : ((handOffs moves).map handedAmount).sum < 2 ^ 256) :
    peer.cheques.lastSentPayout.val = ((handOffs moves).map handedAmount).sum := by
  rw [hinv.total, Nat.mod_eq_of_lt hfit]

theorem Issued.payout_le (hinv : Issued setup inputs moves peer)
    (hfit : ((handOffs moves).map handedAmount).sum < 2 ^ 256) :
    ∀ handOff ∈ handOffs moves, handOff.2.cheque.cumulativePayout ≤ peer.cheques.lastSentPayout := by
  intro handOff hmem
  have hle := hinv.totals.le_of_mem (by rwa [Nat.zero_add]) handOff hmem
  rw [Nat.zero_add, ← hinv.val_lastSentPayout hfit] at hle
  exact hle

theorem Issued.pairwise_lt (hinv : Issued setup inputs moves peer)
    (hpos : ∀ handOff ∈ handOffs moves, 0 < handOff.1.val)
    (hfit : ((handOffs moves).map handedAmount).sum < 2 ^ 256) :
    ((handOffs moves).map fun handOff ↦ handOff.2.cheque.cumulativePayout).Pairwise (· < ·) := by
  have hinc : ∀ handOff ∈ handOffs moves, 0 < handedAmount handOff := by
    intro handOff hmem
    have := hpos handOff hmem
    unfold handedAmount
    omega
  have hvals := (hinv.totals.pairwise_lt hinc (by rwa [Nat.zero_add])).1
  rw [List.pairwise_map] at hvals ⊢
  exact hvals

/-! ## One input -/

variable (setup) in
theorem issueCheque_of_info {state : PeerChequeState Addr} {info : PeerSwapInfo Addr}
    (hinfo : state.info = some info) (wire : U256) :
    issueCheque setup state wire true =
      .ok (issuedCheque setup info (state.lastSentPayout + wire),
        { state with lastSentPayout := state.lastSentPayout + wire }) := by
  simp [issueCheque, hinfo, issuedCheque]

variable (setup) in
/-- A settle either hands off a cheque or leaves the outbound side as it was: a payout bumped for
a cheque the channel refused is rolled back. -/
theorem settle_outbound (peer : SwapPeer Addr) (amount : Au) (signs sends : Bool) :
    Outbound setup peer (.settle amount signs sends) (settle setup peer amount signs sends).1
      ((settle setup peer amount signs sends).2.filterMap (moveOf (.settle amount signs sends))) := by
  unfold settle
  by_cases hpending : peer.pending.isSome
  · rw [if_pos hpending]
    exact .quiet rfl rfl (.inl rfl)
  rw [if_neg hpending]
  have hnone : peer.pending = none := Option.not_isSome_iff_eq_none.mp hpending
  cases hwire : Au.toU256 amount with
  | error e => exact .quiet rfl rfl (.inl rfl)
  | ok wire =>
    dsimp only
    cases hinfo : peer.cheques.info with
    | none =>
      have hissue : issueCheque setup peer.cheques wire signs = .error .unknownBeneficiary := by
        simp [issueCheque, hinfo]
      rw [hissue]
      exact .quiet rfl rfl (.inl rfl)
    | some info =>
      cases signs with
      | false =>
        have hissue : issueCheque setup peer.cheques wire false = .error .signingFailed := by
          simp [issueCheque, hinfo]
        rw [hissue]
        exact .quiet rfl rfl (.inl rfl)
      | true =>
        rw [issueCheque_of_info setup hinfo wire]
        cases sends with
        | true => exact .handOff amount wire info rfl hnone hwire hinfo rfl rfl rfl
        | false =>
          -- the channel refused the cheque: the bump is rolled back
          simp only [Bool.false_eq_true, if_false]
          exact .quiet (add_sub_cancel_right peer.cheques.lastSentPayout wire) rfl (.inl rfl)

variable [DecidableEq Addr]

theorem acceptCheque_keeps_outbound {state state' : PeerChequeState Addr}
    {signed : SignedCheque Addr Sig} {amount : Au}
    (h : acceptCheque setup state signed = .ok (amount, state')) :
    state'.lastSentPayout = state.lastSentPayout ∧ state'.info = state.info := by
  unfold acceptCheque at h
  dsimp only at h
  -- every branch but the last rejects the cheque
  repeat' split at h
  all_goals simp only [Except.ok.injEq, Prod.mk.injEq, reduceCtorEq] at h
  obtain ⟨-, rfl⟩ := h
  exact ⟨rfl, rfl⟩

variable (setup)

theorem handle_outbound (peer : SwapPeer Addr) (input : SwapInput Addr Sig) :
    Outbound setup peer input (handle setup peer input).1
      ((handle setup peer input).2.filterMap (moveOf input)) := by
  cases input with
  | settle amount signs sends => exact settle_outbound setup peer amount signs sends
  | registerPeerInfo info => exact .quiet rfl rfl (.inr ⟨info, rfl, rfl⟩)
  | chequeSent =>
    cases hpending : peer.pending with
    | none =>
      have hhandle : handle setup peer (.chequeSent : SwapInput Addr Sig) = (peer, []) := by
        simp [handle, hpending]
      rw [hhandle]
      exact .quiet rfl rfl (.inl rfl)
    | some amount =>
      have hhandle : handle setup peer (.chequeSent : SwapInput Addr Sig) =
          ({ peer with pending := none }, [.record amount .upload, .respond (.ok amount)]) := by
        simp [handle, hpending]
      rw [hhandle]
      exact .credit amount hpending rfl rfl rfl
  | chequeReceived signed =>
    cases haccept : acceptCheque setup peer.cheques signed with
    | ok result =>
      obtain ⟨hsent, hinfo⟩ := acceptCheque_keeps_outbound haccept
      have hhandle : handle setup peer (.chequeReceived signed) =
          ({ peer with cheques := result.2 }, [.record result.1 .download]) := by
        simp [handle, haccept]
      rw [hhandle]
      exact .quiet hsent rfl (.inl hinfo)
    | error e =>
      -- a rejection changes nothing, and its report is no move
      have hpeer := (handle_chequeReceived_of_error haccept).1
      have hmoves : (handle setup peer (.chequeReceived signed)).2.filterMap
          (moveOf (.chequeReceived signed)) = [] := by
        simp only [handle, haccept]
        split <;> rfl
      rw [hmoves, hpeer]
      exact .quiet rfl rfl (.inl rfl)
  | failed =>
    cases hpending : peer.pending with
    | none =>
      have hhandle : handle setup peer (.failed : SwapInput Addr Sig) = (peer, []) := by
        simp [handle, hpending]
      rw [hhandle]
      exact .quiet rfl rfl (.inl rfl)
    | some amount =>
      have hhandle : handle setup peer (.failed : SwapInput Addr Sig) =
          ({ peer with pending := none }, [.respond (.error (.networkError "substream failed"))]) := by
        simp [handle, hpending]
      rw [hhandle]
      exact .release amount hpending rfl rfl rfl

theorem recorded_upload_chequeSent (peer : SwapPeer Addr) :
    recorded .upload (handle setup peer (.chequeSent : SwapInput Addr Sig)).2 = peer.pending.toList ∧
      (handle setup peer (.chequeSent : SwapInput Addr Sig)).1.pending = none := by
  cases hpending : peer.pending <;> simp [handle, hpending, recorded]

theorem recorded_upload_of_ne_chequeSent (peer : SwapPeer Addr) {input : SwapInput Addr Sig}
    (hinput : input ≠ .chequeSent) : recorded .upload (handle setup peer input).2 = [] := by
  cases input with
  | settle amount signs sends =>
    simp only [handle, settle]
    repeat' split
    all_goals rfl
  | registerPeerInfo info => rfl
  | chequeSent => exact absurd rfl hinput
  | chequeReceived signed =>
    cases haccept : acceptCheque setup peer.cheques signed with
    | ok result => simp [handle, haccept, recorded]
    | error e => exact (handle_chequeReceived_of_error haccept).2 .upload
  | failed => cases hpending : peer.pending <;> simp [handle, hpending, recorded]

namespace SwapRun

@[simp] theorem moves_step (run : SwapRun Addr Sig) (input : SwapInput Addr Sig) :
    (run.step setup input).moves =
      run.moves ++ (handle setup run.peer input).2.filterMap (moveOf input) := by
  simp [moves]

@[simp] theorem inputs_step (run : SwapRun Addr Sig) (input : SwapInput Addr Sig) :
    (run.step setup input).inputs = run.inputs ++ [input] := by
  simp [inputs]

theorem inputs_exec (run : SwapRun Addr Sig) (inputs : List (SwapInput Addr Sig)) :
    (run.exec setup inputs).inputs = run.inputs ++ inputs := by
  induction inputs generalizing run with
  | nil => simp
  | cons input inputs ih => rw [exec_cons, ih, inputs_step, List.append_assoc, List.singleton_append]

theorem inputs_prefix_of_mem_scanl {inputs : List (SwapInput Addr Sig)} {run : SwapRun Addr Sig}
    (hrun : run ∈ List.scanl (step setup) start inputs) : run.inputs <+: inputs := by
  obtain ⟨pre, hpre, rfl⟩ := Run.exists_prefix_of_mem_scanl _ hrun
  have hinputs : (start.exec setup pre).inputs = pre := inputs_exec setup start pre
  rw [show pre.foldl (step setup) start = start.exec setup pre from rfl, hinputs]
  exact hpre

end SwapRun

variable {setup}

theorem Issued.step {run : SwapRun Addr Sig} (hinv : Issued setup run.inputs run.moves run.peer)
    (input : SwapInput Addr Sig) :
    Issued setup (run.step setup input).inputs (run.step setup input).moves (run.step setup input).peer := by
  rw [SwapRun.inputs_step, SwapRun.moves_step, SwapRun.step_peer]
  exact hinv.advance (handle_outbound setup run.peer input)

variable (setup) in
theorem issued_of_run (inputs : List (SwapInput Addr Sig)) :
    ∀ run ∈ List.scanl (SwapRun.step setup) SwapRun.start inputs,
      Issued setup run.inputs run.moves run.peer :=
  Run.scanl_induction (P := fun (run : SwapRun Addr Sig) ↦ Issued setup run.inputs run.moves run.peer)
    (R := fun _ ↦ True) (Q := fun _ ↦ True)
    (fun _ input hinv _ _ ↦ hinv.step input) issued_start (fun _ _ ↦ trivial) (fun _ _ ↦ trivial)

theorem Issued.authentic (hinv : Issued setup inputs moves peer) {receiver : SwapSetup Addr Sig}
    {issuer : Addr}
    (hbeneficiary : ∀ info, .registerPeerInfo info ∈ inputs → info.beneficiary = receiver.beneficiary)
    (hrecover : ∀ cheque, receiver.recover cheque (setup.sign cheque) = some issuer) :
    ∀ handOff ∈ handOffs moves, Authentic receiver issuer handOff.2 = true := by
  intro handOff hmem
  obtain ⟨info, payout, hregistered, hcheque⟩ := hinv.issued handOff hmem
  rw [hcheque]
  simp [Authentic, issuedCheque, hbeneficiary info hregistered, hrecover]

theorem Issued.topPayout_eq (hinv : Issued setup inputs moves peer)
    (hfit : ((handOffs moves).map handedAmount).sum < 2 ^ 256) {receiver : SwapSetup Addr Sig}
    {issuer : Addr} (hauth : ∀ handOff ∈ handOffs moves, Authentic receiver issuer handOff.2 = true)
    {cheques : List (SignedCheque Addr Sig)}
    (hcheques : ∀ signed, signed ∈ cheques ↔ signed ∈ (handOffs moves).map Prod.snd) :
    topPayout receiver issuer cheques = peer.cheques.lastSentPayout := by
  have hmem : ∀ signed ∈ cheques, ∃ handOff ∈ handOffs moves, handOff.2 = signed :=
    fun signed h ↦ List.mem_map.mp ((hcheques signed).mp h)
  have hall : cheques.filter (Authentic receiver issuer) = cheques := by
    rw [List.filter_eq_self]
    intro signed h
    obtain ⟨handOff, hhanded, rfl⟩ := hmem signed h
    exact hauth handOff hhanded
  unfold topPayout raiseTop
  rw [hall]
  apply foldl_max_eq (Fin.zero_le _)
  · intro payout hpayout
    obtain ⟨signed, hsigned, rfl⟩ := List.mem_map.mp hpayout
    obtain ⟨handOff, hhanded, rfl⟩ := hmem signed hsigned
    exact hinv.payout_le hfit handOff hhanded
  · -- the payout is zero before any hand-off, and the last handed payout after
    rw [hinv.lastSentPayout_eq]
    cases hlast : (handOffs moves).getLast? with
    | none => exact .inl rfl
    | some handOff =>
      have hhanded := List.mem_of_getLast? hlast
      exact .inr (List.mem_map.mpr ⟨handOff.2, (hcheques _).mpr (List.mem_map_of_mem hhanded), rfl⟩)

/-- Over every state of a run of the service for a peer from the start, with positive settle
amounts and fewer than `2 ^ 193` inputs: the cumulative payout is the sum of the amounts of the
settles that handed their cheque to the network; the handed payouts strictly increase and the
cumulative payout is the last of them; the moves follow the settlement protocol to the settle now
pending; a ChequeSent closes that settle and credits exactly its amount as an upload, nothing
with none pending, and no other input credits an upload; and an honest receiver that registers our issuer, fed the handed cheques in any order,
credits the cumulative payout capped by its bounce limit. -/
theorem issued_payouts_of_run (setup : SwapSetup Addr Sig) (inputs : List (SwapInput Addr Sig))
    (hpositive : ∀ amount signs sends, .settle amount signs sends ∈ inputs → 0 < amount.val)
    (hlength : inputs.length < 2 ^ 193) :
    ∀ run ∈ List.scanl (SwapRun.step setup) SwapRun.start inputs,
      (run.peer.cheques.lastSentPayout.val : ℤ) = (run.handed.map fun handOff ↦ handOff.1.val).sum ∧
      (run.handed.map fun handOff ↦ handOff.2.cheque.cumulativePayout).Pairwise (· < ·) ∧
      run.peer.cheques.lastSentPayout =
        (run.handed.getLast?.map fun handOff ↦ handOff.2.cheque.cumulativePayout).getD 0 ∧
      run.moves.foldlM Move.next none = some run.peer.pending ∧
      (recorded .upload (handle setup run.peer .chequeSent).2 = run.peer.pending.toList ∧
        (handle setup run.peer .chequeSent).1.pending = none) ∧
      (∀ input, input ≠ .chequeSent → recorded .upload (handle setup run.peer input).2 = []) ∧
      ∀ (receiver : SwapSetup Addr Sig) (ours : PeerSwapInfo Addr)
        (cheques : List (SignedCheque Addr Sig)),
        (∀ info, .registerPeerInfo info ∈ inputs → info.beneficiary = receiver.beneficiary) →
        (∀ cheque, receiver.recover cheque (setup.sign cheque) = some ours.issuer) →
        (receiver.bounceLimit.val : ℤ) ≤ i64Max →
        (∀ signed, signed ∈ cheques ↔ signed ∈ run.handed.map Prod.snd) →
        (SwapRun.start.exec receiver
            (.registerPeerInfo ours :: cheques.map .chequeReceived)).peer.cheques.lastReceivedPayout =
          min run.peer.cheques.lastSentPayout receiver.bounceLimit := by
  intro run hrun
  have hinv := issued_of_run setup inputs run hrun
  have hhandled := SwapRun.inputs_prefix_of_mem_scanl setup hrun
  -- the settles a run handed off are among the inputs, so their amounts are positive
  have hpos : ∀ handOff ∈ run.handed, 0 < handOff.1.val := fun handOff hmem ↦
    hpositive _ _ _ (hhandled.subset (hinv.settled handOff hmem))
  have hfit : (run.handed.map handedAmount).sum < 2 ^ 256 :=
    sum_handedAmount_lt _ (lt_of_le_of_lt (hinv.count.trans hhandled.length_le) hlength)
  refine ⟨?_, hinv.pairwise_lt hpos hfit, hinv.lastSentPayout_eq, hinv.flow,
    recorded_upload_chequeSent setup run.peer,
    fun _ hinput ↦ recorded_upload_of_ne_chequeSent setup run.peer hinput, ?_⟩
  · rw [hinv.val_lastSentPayout hfit]
    exact cast_sum_handedAmount (fun handOff hmem ↦ le_of_lt (hpos handOff hmem))
  · intro receiver ours cheques hbeneficiary hrecover hlimit hcheques
    have hauth := hinv.authentic (fun info h ↦ hbeneficiary info (hhandled.subset h)) hrecover
    rw [lastReceivedPayout_of_registered hlimit, hinv.topPayout_eq hfit hauth hcheques]

/-- A peer's settles along every path: refused before its beneficiary is known, handed off,
refused while one is in flight, acknowledged, acknowledged with nothing pending, unsigned,
refused by the channel, handed off and failed, and handed off again. -/
def sampleSettles : List (SwapInput ℕ ℕ) :=
  [.settle (Au.fromAmount 100) true true, .registerPeerInfo ⟨2, 7⟩,
    .settle (Au.fromAmount 100) true true, .settle (Au.fromAmount 60) true true, .chequeSent,
    .chequeSent, .settle (Au.fromAmount 50) false true, .settle (Au.fromAmount 70) true false,
    .settle (Au.fromAmount 30) true true, .failed, .settle (Au.fromAmount 40) true true]

theorem issued_payouts_of_sampleSettles :
    (∀ amount signs sends, .settle amount signs sends ∈ sampleSettles → 0 < amount.val) ∧
      sampleSettles.length < 2 ^ 193 ∧
      ((SwapRun.start.exec echoSetup sampleSettles).peer.cheques.lastSentPayout.val : ℤ) = 170 := by
  have hpositive : ∀ amount signs sends,
      .settle amount signs sends ∈ sampleSettles → 0 < amount.val := by
    intro amount signs sends hmem
    simp only [sampleSettles, List.mem_cons, SwapInput.settle.injEq, List.not_mem_nil, or_false,
      reduceCtorEq, false_or] at hmem
    rcases hmem with ⟨rfl, -⟩ | ⟨rfl, -⟩ | ⟨rfl, -⟩ | ⟨rfl, -⟩ | ⟨rfl, -⟩ | ⟨rfl, -⟩ | ⟨rfl, -⟩ <;>
      decide
  exact ⟨hpositive, by decide,
    (issued_payouts_of_run echoSetup sampleSettles hpositive (by decide) _
      (Run.foldl_mem_scanl _ _ _)).1.trans (by decide)⟩

end VertexSwarm.Swap
