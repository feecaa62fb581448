import VertexSwarm.Swap.Service
import Mathlib.Data.List.Induction

/-!
# What the receiving side credits

A peer's cheques carry cumulative payouts, so what the peer has paid is the largest payout among
its authentic cheques, however they arrive.  The receiving side credits the increment over the
last credited payout, capped by the headroom under the bounce limit; with a bounce limit within
`i64` the increment always converts to AU.  So after any sequence of received cheques the last
credited payout, the uncashed exposure and the total credited to the ledger all equal the top
authentic payout capped by the bounce limit (`Credited`, kept by `Credited.receive`).
-/

namespace VertexSwarm.Swap

open Saturating Api Accounting

variable {Addr Sig : Type} (setup : SwapSetup Addr Sig)

/-! ## The credit invariant -/

/-- The receiving state of a registered peer against the top authentic payout seen: the last
credited payout is that payout capped by the bounce limit, and all of it is uncashed. -/
structure Credited (info : PeerSwapInfo Addr) (state : PeerChequeState Addr) (top : U256) : Prop where
  info_eq : state.info = some info
  uncashed : state.receivedUncashed = state.lastReceivedPayout
  closed : state.lastReceivedPayout = min top setup.bounceLimit

variable {setup} {info : PeerSwapInfo Addr} {state : PeerChequeState Addr} {top : U256}

theorem Credited.min_max_of_le (hc : Credited setup info state top) {received : U256}
    (h : received ≤ state.lastReceivedPayout) :
    min (max top received) setup.bounceLimit = state.lastReceivedPayout := by
  have hle : received ≤ top := le_trans h (hc.closed ▸ min_le_left _ _)
  rw [max_eq_left hle, hc.closed]

theorem min_max_of_full {last limit : U256} (top : U256) {received : U256} (hlt : last < received)
    (hfull : last = limit) : min (max top received) limit = last := by
  rw [hfull]
  exact min_eq_right (le_trans (le_of_lt (hfull ▸ hlt)) (le_max_right _ _))

theorem Credited.le_bounceLimit (hc : Credited setup info state top) :
    state.lastReceivedPayout ≤ setup.bounceLimit :=
  hc.closed ▸ min_le_right _ _

theorem Credited.headroom_val (hc : Credited setup info state top) :
    (saturatingSubU256 setup.bounceLimit state.receivedUncashed).val =
      setup.bounceLimit.val - state.lastReceivedPayout.val := by
  have hle : state.receivedUncashed ≤ setup.bounceLimit := hc.uncashed ▸ hc.le_bounceLimit
  rw [saturatingSubU256, if_pos hle, Fin.sub_val_of_le hle, hc.uncashed]

theorem Credited.eq_top (hc : Credited setup info state top)
    (hroom : state.lastReceivedPayout ≠ setup.bounceLimit) : state.lastReceivedPayout = top := by
  have hclosed := hc.closed
  rcases min_choice top setup.bounceLimit with h | h
  · rw [hclosed, h]
  · exact absurd (hclosed.trans h) hroom

variable [DecidableEq Addr]

variable (setup) in
/-- A cheque that `accept_cheque` authenticates for a peer whose issuer is `issuer`: it names our
beneficiary and its signature recovers to the issuer. -/
def Authentic (issuer : Addr) (signed : SignedCheque Addr Sig) : Bool :=
  signed.cheque.beneficiary = setup.beneficiary &&
    setup.recover signed.cheque signed.signature = some issuer

variable (setup) in
/-- The largest of `top` and the cumulative payouts of the authentic cheques. -/
def raiseTop (issuer : Addr) (top : U256) (cheques : List (SignedCheque Addr Sig)) : U256 :=
  ((cheques.filter (Authentic setup issuer)).map (·.cheque.cumulativePayout)).foldl max top

variable (setup) in
/-- The largest cumulative payout among the authentic cheques, `0` if there are none. -/
def topPayout (issuer : Addr) (cheques : List (SignedCheque Addr Sig)) : U256 :=
  raiseTop setup issuer 0 cheques

theorem raiseTop_append_singleton (issuer : Addr) (top : U256)
    (cheques : List (SignedCheque Addr Sig)) (signed : SignedCheque Addr Sig) :
    raiseTop setup issuer top (cheques ++ [signed]) =
      if Authentic setup issuer signed then
        max (raiseTop setup issuer top cheques) signed.cheque.cumulativePayout
      else raiseTop setup issuer top cheques := by
  unfold raiseTop
  rw [List.filter_append, List.map_append, List.foldl_append]
  by_cases h : Authentic setup issuer signed <;> simp [h]

/-- The total a list of effects credits to the ledger for cheques received. -/
def creditedTotal (effects : List (SwapEffect Addr Sig)) : ℤ :=
  ((recorded .download effects).map (·.val)).sum

/-! ## Rejections -/

theorem handle_chequeReceived_of_error {peer : SwapPeer Addr} {signed : SignedCheque Addr Sig}
    {e : SwapSettlementError Addr} (h : acceptCheque setup peer.cheques signed = .error e) :
    (handle setup peer (.chequeReceived signed)).1 = peer ∧
      ∀ direction, recorded direction (handle setup peer (.chequeReceived signed)).2 = [] := by
  dsimp only [handle]
  rw [h]
  refine ⟨rfl, fun direction ↦ ?_⟩
  dsimp only
  split <;> rfl

theorem acceptCheque_of_info_none (h : state.info = none) (signed : SignedCheque Addr Sig) :
    acceptCheque setup state signed = .error .unknownPeerIdentity := by
  simp [acceptCheque, h]

theorem Credited.accept (hc : Credited setup info state top)
    (hlimit : (setup.bounceLimit.val : ℤ) ≤ i64Max) {signed : SignedCheque Addr Sig}
    (hauth : Authentic setup info.issuer signed = true)
    (hlt : state.lastReceivedPayout < signed.cheque.cumulativePayout)
    (hroom : state.lastReceivedPayout ≠ setup.bounceLimit) :
    ∃ amount state', acceptCheque setup state signed = .ok (amount, state') ∧
      Credited setup info state' (max top signed.cheque.cumulativePayout) ∧
      (amount.val : ℤ) = state'.lastReceivedPayout.val - state.lastReceivedPayout.val := by
  obtain ⟨hbeneficiary, hrecover⟩ : signed.cheque.beneficiary = setup.beneficiary ∧
      setup.recover signed.cheque signed.signature = some info.issuer := by
    simpa [Authentic] using hauth
  have hheadroom := hc.headroom_val
  have hLB := hc.le_bounceLimit
  have hroom' : state.lastReceivedPayout.val < setup.bounceLimit.val :=
    lt_of_le_of_ne (Fin.le_def.mp hLB) (fun h ↦ hroom (Fin.ext h))
  have hlt' : state.lastReceivedPayout.val < signed.cheque.cumulativePayout.val := hlt
  have hpos : saturatingSubU256 setup.bounceLimit state.receivedUncashed ≠ 0 := by
    intro h0
    have := congrArg Fin.val h0
    rw [hheadroom] at this
    simp only [Fin.val_zero] at this
    omega
  -- the increment: the payout's excess, capped by the headroom
  set increment := min (signed.cheque.cumulativePayout - state.lastReceivedPayout)
    (saturatingSubU256 setup.bounceLimit state.receivedUncashed) with hincrement
  have hinc : increment.val = min (signed.cheque.cumulativePayout.val - state.lastReceivedPayout.val)
      (setup.bounceLimit.val - state.lastReceivedPayout.val) := by
    rw [hincrement, Fin.coe_min, Fin.sub_val_of_le (le_of_lt hlt), hheadroom]
  have hfit : (increment.val : ℤ) ≤ i64Max := by
    rw [hinc]
    omega
  have hsum : state.lastReceivedPayout.val + increment.val < 2 ^ 256 := by
    have := signed.cheque.cumulativePayout.isLt
    rw [hinc]
    omega
  obtain ⟨amount, hconv, hamount⟩ := Au.tryFromU256_of_le hfit
  let credited : PeerChequeState Addr :=
    { state with lastReceivedPayout := state.lastReceivedPayout + increment,
                 receivedUncashed := state.receivedUncashed + increment }
  refine ⟨amount, credited, ?_, ⟨hc.info_eq, ?_, ?_⟩, ?_⟩
  · simp [acceptCheque, credited, hc.info_eq, hbeneficiary, hrecover, not_le.mpr hlt, hpos,
      ← hincrement, hconv]
  · show state.receivedUncashed + increment = state.lastReceivedPayout + increment
    rw [hc.uncashed]
  · -- below the limit the top was the last credited payout, so the new top is the payout
    show state.lastReceivedPayout + increment = min (max top signed.cheque.cumulativePayout) _
    rw [← hc.eq_top hroom, max_eq_right (le_of_lt hlt)]
    apply Fin.ext
    rw [Fin.val_add_eq_of_add_lt hsum, hinc, Fin.coe_min]
    omega
  · show (amount.val : ℤ) = (state.lastReceivedPayout + increment).val - state.lastReceivedPayout.val
    rw [hamount, Fin.val_add_eq_of_add_lt hsum]
    omega

theorem acceptCheque_of_not_authentic (hinfo : state.info = some info) {signed : SignedCheque Addr Sig}
    (h : Authentic setup info.issuer signed = false) :
    ∃ e, acceptCheque setup state signed = .error e := by
  simp only [Authentic, Bool.and_eq_false_iff, decide_eq_false_iff_not] at h
  unfold acceptCheque
  rw [hinfo]
  dsimp only
  by_cases hbeneficiary : signed.cheque.beneficiary = setup.beneficiary
  · rw [if_neg (not_not.mpr hbeneficiary)]
    have hrecover : setup.recover signed.cheque signed.signature ≠ some info.issuer :=
      h.resolve_left (not_not.mpr hbeneficiary)
    cases hrec : setup.recover signed.cheque signed.signature with
    | none => exact ⟨_, rfl⟩
    | some recovered =>
      have hne : recovered ≠ info.issuer := fun heq ↦ hrecover (hrec.trans (congrArg some heq))
      dsimp only
      rw [if_pos hne]
      exact ⟨_, rfl⟩
  · rw [if_pos hbeneficiary]
    exact ⟨_, rfl⟩

variable {peer : SwapPeer Addr}

theorem Credited.of_rejected (hc : Credited setup info peer.cheques top) {signed : SignedCheque Addr Sig}
    {e : SwapSettlementError Addr} (h : acceptCheque setup peer.cheques signed = .error e) {top' : U256}
    (hcovered : min top' setup.bounceLimit = peer.cheques.lastReceivedPayout) :
    Credited setup info (handle setup peer (.chequeReceived signed)).1.cheques top' ∧
      (handle setup peer (.chequeReceived signed)).1.pending = peer.pending ∧
      creditedTotal (handle setup peer (.chequeReceived signed)).2 =
        (handle setup peer (.chequeReceived signed)).1.cheques.lastReceivedPayout.val -
          peer.cheques.lastReceivedPayout.val := by
  obtain ⟨hpeer, hrecorded⟩ := handle_chequeReceived_of_error h
  rw [hpeer, creditedTotal, hrecorded]
  exact ⟨⟨hc.info_eq, hc.uncashed, hcovered.symm⟩, rfl, by simp⟩

theorem Credited.receive (hc : Credited setup info peer.cheques top)
    (hlimit : (setup.bounceLimit.val : ℤ) ≤ i64Max) (signed : SignedCheque Addr Sig) :
    Credited setup info (handle setup peer (.chequeReceived signed)).1.cheques
        (if Authentic setup info.issuer signed then max top signed.cheque.cumulativePayout else top) ∧
      (handle setup peer (.chequeReceived signed)).1.pending = peer.pending ∧
      creditedTotal (handle setup peer (.chequeReceived signed)).2 =
        (handle setup peer (.chequeReceived signed)).1.cheques.lastReceivedPayout.val -
          peer.cheques.lastReceivedPayout.val := by
  cases hauth : Authentic setup info.issuer signed
  case false =>
    obtain ⟨e, he⟩ := acceptCheque_of_not_authentic hc.info_eq hauth
    exact hc.of_rejected he hc.closed.symm
  case true =>
    obtain ⟨hbeneficiary, hrecover⟩ : signed.cheque.beneficiary = setup.beneficiary ∧
        setup.recover signed.cheque signed.signature = some info.issuer := by
      simpa [Authentic] using hauth
    rw [if_pos rfl]
    by_cases hle : signed.cheque.cumulativePayout ≤ peer.cheques.lastReceivedPayout
    · -- a payout that does not advance is rejected
      have he : acceptCheque setup peer.cheques signed =
          .error (.nonIncreasingPayout peer.cheques.lastReceivedPayout signed.cheque.cumulativePayout) := by
        simp [acceptCheque, hc.info_eq, hbeneficiary, hrecover, hle]
      exact hc.of_rejected he (hc.min_max_of_le hle)
    have hlt := lt_of_not_ge hle
    by_cases hfull : peer.cheques.lastReceivedPayout = setup.bounceLimit
    · -- no headroom is left under the bounce limit
      have hzero : saturatingSubU256 setup.bounceLimit peer.cheques.receivedUncashed = 0 := by
        apply Fin.ext
        rw [hc.headroom_val, hfull, Nat.sub_self]
        rfl
      have he : acceptCheque setup peer.cheques signed =
          .error (.exposureLimit peer.cheques.receivedUncashed setup.bounceLimit) := by
        simp [acceptCheque, hc.info_eq, hbeneficiary, hrecover, hle, hzero]
      exact hc.of_rejected he (min_max_of_full top hlt hfull)
    · obtain ⟨amount, state', haccept, hcredited, hamount⟩ := hc.accept hlimit hauth hlt hfull
      have hhandle : handle setup peer (.chequeReceived signed) =
          ({ peer with cheques := state' }, [.record amount .download]) := by
        simp only [handle, haccept]
      rw [hhandle]
      refine ⟨hcredited, rfl, ?_⟩
      simp [creditedTotal, recorded, hamount]

/-- The total a run credited to the ledger for cheques received. -/
def SwapRun.credited (run : SwapRun Addr Sig) : ℤ := (run.log.map fun entry ↦ creditedTotal entry.2).sum

theorem SwapRun.credited_step (run : SwapRun Addr Sig) (input : SwapInput Addr Sig) :
    (run.step setup input).credited = run.credited + creditedTotal (handle setup run.peer input).2 := by
  simp [SwapRun.credited]

theorem Credited.receiveAll {run : SwapRun Addr Sig} (hc : Credited setup info run.peer.cheques top)
    (hlimit : (setup.bounceLimit.val : ℤ) ≤ i64Max) (cheques : List (SignedCheque Addr Sig)) :
    Credited setup info (run.exec setup (cheques.map .chequeReceived)).peer.cheques
        (raiseTop setup info.issuer top cheques) ∧
      (run.exec setup (cheques.map .chequeReceived)).credited - run.credited =
        (run.exec setup (cheques.map .chequeReceived)).peer.cheques.lastReceivedPayout.val -
          run.peer.cheques.lastReceivedPayout.val := by
  induction cheques using List.reverseRecOn with
  | nil => exact ⟨hc, by simp⟩
  | append_singleton cheques signed ih =>
    obtain ⟨hmid, hcredited⟩ := ih
    obtain ⟨hnext, -, hstep⟩ := hmid.receive hlimit signed
    rw [List.map_append, List.map_singleton, SwapRun.exec_append_singleton, SwapRun.credited_step,
      raiseTop_append_singleton]
    exact ⟨hnext, by rw [SwapRun.step_peer, hstep]; omega⟩

theorem Credited.registered (info : PeerSwapInfo Addr) :
    Credited setup info (SwapRun.start.step setup (.registerPeerInfo info : SwapInput Addr Sig)).peer.cheques 0 :=
  ⟨rfl, rfl, (min_eq_left (Fin.zero_le _)).symm⟩

theorem lastReceivedPayout_of_registered (hlimit : (setup.bounceLimit.val : ℤ) ≤ i64Max)
    (info : PeerSwapInfo Addr) (cheques : List (SignedCheque Addr Sig)) :
    (SwapRun.start.exec setup (.registerPeerInfo info :: cheques.map .chequeReceived)).peer.cheques.lastReceivedPayout =
      min (topPayout setup info.issuer cheques) setup.bounceLimit :=
  ((Credited.registered info).receiveAll hlimit cheques).1.closed

/-- After the peer's identity is registered, any sequence of received cheques (in any order, with
replays, twins, and cheques for other beneficiaries or from other keys) leaves the last credited
payout, the uncashed exposure and the total credited to the ledger all at the top authentic
payout capped by the bounce limit; a rejected cheque changes neither the peer's entries nor the
ledger; and without a registered identity no cheque is credited. -/
theorem credited_eq_min_topPayout (setup : SwapSetup Addr Sig)
    (hlimit : (setup.bounceLimit.val : ℤ) ≤ i64Max) (info : PeerSwapInfo Addr)
    (cheques : List (SignedCheque Addr Sig)) :
    let run := SwapRun.start.exec setup (.registerPeerInfo info :: cheques.map .chequeReceived)
    run.peer.cheques.lastReceivedPayout = min (topPayout setup info.issuer cheques) setup.bounceLimit ∧
      run.peer.cheques.receivedUncashed = run.peer.cheques.lastReceivedPayout ∧
      run.credited = run.peer.cheques.lastReceivedPayout.val ∧
      (∀ (peer : SwapPeer Addr) (signed : SignedCheque Addr Sig) (e : SwapSettlementError Addr),
        acceptCheque setup peer.cheques signed = .error e →
          (handle setup peer (.chequeReceived signed)).1 = peer ∧
            ∀ direction, recorded direction (handle setup peer (.chequeReceived signed)).2 = []) ∧
      (∀ (peer : SwapPeer Addr) (signed : SignedCheque Addr Sig), peer.cheques.info = none →
          (handle setup peer (.chequeReceived signed)).1 = peer ∧
            ∀ direction, recorded direction (handle setup peer (.chequeReceived signed)).2 = []) := by
  intro run
  have hzero : (SwapRun.start.step setup (.registerPeerInfo info)).credited = 0 := by
    simp [SwapRun.credited, SwapRun.start, handle, creditedTotal, recorded]
  obtain ⟨hc, hcredited⟩ := (Credited.registered info).receiveAll hlimit cheques
  refine ⟨hc.closed, hc.uncashed, ?_, fun _ _ _ h ↦ handle_chequeReceived_of_error h,
    fun _ signed h ↦ handle_chequeReceived_of_error (acceptCheque_of_info_none h signed)⟩
  rw [hzero] at hcredited
  have hinitial : (SwapRun.start.step setup (.registerPeerInfo info)).peer.cheques.lastReceivedPayout.val = 0 :=
    rfl
  rw [hinitial] at hcredited
  exact (sub_zero _).symm.trans (hcredited.trans (sub_zero _))

/-- A signature scheme in which a signature is the signer's address and recovery reads it back,
with the default bounce limit. -/
def echoSetup : SwapSetup ℕ ℕ := ⟨1, 2, 135000000, fun _ ↦ 1, fun _ signature ↦ some signature⟩

/-- Cheques from a peer whose issuer is `7`: a payout, a replay of a lower one, one signed by
another key, and one past the bounce limit. -/
def echoCheques : List (SignedCheque ℕ ℕ) :=
  [⟨⟨7, 2, 100⟩, 7⟩, ⟨⟨7, 2, 40⟩, 7⟩, ⟨⟨7, 2, 500000000⟩, 9⟩, ⟨⟨7, 2, 200000000⟩, 7⟩]

theorem credited_eq_min_topPayout_of_echoCheques :
    (echoSetup.bounceLimit.val : ℤ) ≤ i64Max ∧
      (SwapRun.start.exec echoSetup (.registerPeerInfo ⟨5, 7⟩ :: echoCheques.map .chequeReceived)).peer.cheques.lastReceivedPayout =
        135000000 :=
  ⟨by decide, (credited_eq_min_topPayout echoSetup (by decide) ⟨5, 7⟩ echoCheques).1.trans (by decide)⟩

end VertexSwarm.Swap
