import VertexSwarm.Pseudosettle.Service

/-!
# The debtor side of pseudosettle

A debtor sends one settle request at a time and waits for the creditor's ack.  The ack credits
our ledger with what the creditor accepted, clamped to what we offered; a failure releases the
request.  Either way the request's response channel is answered once.  The ack also carries
the creditor's clock, which paces our next request.  It is trusted only within a window below
our own clock (else our clock is used), and the stored reference only ever rises, so an ack
cannot rewind it.

Rising and staying below our clock cannot both hold when our wall clock steps back: the
reference then keeps a value above the clock reading at which it was last written.  What holds
is that every write is at least that reading less the window, and either at most that reading or
the value already stored; so the reference never exceeds a clock reading at which an ack was
taken.

The moves of a run are read off its log as in the SWAP model (`SwapRun.moves`): a request sent,
a ledger credit for an ack, a release.  `Debtor` says once what one handled input can do to this
side, and the invariant `DebtorBooks` follows from it.
-/

namespace VertexSwarm.Pseudosettle

open Saturating Api Accounting

/-! ## The moves of a run -/

/-- What handling an input did to the outbound settlement. -/
inductive Move where
  /-- A settle request was sent for an amount. -/
  | offered (amount : Au)
  /-- An ack accepting `accepted` credited the ledger with `credit`. -/
  | credited (accepted credit : Au)
  /-- A failure answered the settle in flight. -/
  | released

/-- The move an effect of handling `input` makes, if any. -/
def moveOf (input : PseudoInput) : PseudoEffect → Option Move
  | .sendPseudosettle _ =>
    (match input with
      | .settle amount _ _ => some (.offered amount)
      | _ => none)
  | .record credit .upload =>
    (match input with
      | .sent ack _ => some (.credited ack.accepted credit)
      | _ => none)
  | .respond (.error _) =>
    (match input with
      | .failed => some .released
      | _ => none)
  | _ => none

/-- The moves a run made, in order. -/
def PseudoRun.moves (run : PseudoRun) : List Move :=
  run.log.flatMap fun entry ↦ entry.2.filterMap (moveOf entry.1)

/-- The answers a list of effects sends to settle requests. -/
def responses (effects : List PseudoEffect) : List (Except PseudosettleSettlementError Au) :=
  effects.filterMap fun
    | .respond result => some result
    | _ => none

/-- The answers a run sent to settle requests, in order. -/
def PseudoRun.responses (run : PseudoRun) : List (Except PseudosettleSettlementError Au) :=
  run.log.flatMap fun entry ↦ Pseudosettle.responses entry.2

/-- A settle command. -/
def PseudoInput.isSettle : PseudoInput → Bool
  | .settle .. => true
  | _ => false

/-- One move of the settlement protocol from the request in flight: a request is sent only with
none in flight, and the request in flight is closed by a credit of the accepted amount clamped to
the offer, or by a release; `none` when the move breaks the protocol. -/
def Move.next : Option Au → Move → Option (Option Au)
  | none, .offered amount => some (some amount)
  | some inFlight, .credited accepted credit =>
    if credit = accepted.min inFlight then some none else none
  | some _, .released => some none
  | _, _ => none

/-- The amount in flight. -/
def inFlight (pending : Option Au) : ℤ := (pending.map (·.val)).getD 0

/-- The order of the pace reference: unset below every value. -/
def AckLe : Option UInt64 → Option UInt64 → Prop
  | none, _ => True
  | some _, none => False
  | some reference, some reference' => reference ≤ reference'

theorem AckLe.refl (reference : Option UInt64) : AckLe reference reference := by
  cases reference with
  | none => trivial
  | some reference => exact UInt64.le_iff_toNat_le.mpr (le_refl reference.toNat)

theorem effectiveAckTimestamp_mem (timestamp : Int64) (now : UInt64) :
    (saturatingSubU64 now clockSkewWindowSecs).toNat ≤ (effectiveAckTimestamp timestamp now).toNat ∧
      (effectiveAckTimestamp timestamp now).toNat ≤ now.toNat := by
  have hlow : (saturatingSubU64 now clockSkewWindowSecs).toNat ≤ now.toNat := by
    rw [toNat_saturatingSubU64]
    exact Nat.sub_le _ _
  unfold effectiveAckTimestamp
  cases tryToU64 timestamp with
  | none => exact ⟨hlow, le_refl _⟩
  | some t =>
    rw [Option.filter_some]
    split
    · next hwindow =>
      rw [decide_eq_true_iff] at hwindow
      exact ⟨UInt64.le_iff_toNat_le.mp hwindow.1, UInt64.le_iff_toNat_le.mp hwindow.2⟩
    · exact ⟨hlow, le_refl _⟩

theorem raiseTo_effective (stored : Option UInt64) (timestamp : Int64) (now : UInt64) :
    (saturatingSubU64 now clockSkewWindowSecs).toNat ≤
        (raiseTo stored (effectiveAckTimestamp timestamp now)).toNat ∧
      (raiseTo stored (effectiveAckTimestamp timestamp now) ≤ now ∨
        stored = some (raiseTo stored (effectiveAckTimestamp timestamp now))) := by
  obtain ⟨hlow, hhigh⟩ := effectiveAckTimestamp_mem timestamp now
  cases stored with
  | none => exact ⟨hlow, .inl (UInt64.le_iff_toNat_le.mpr hhigh)⟩
  | some prev =>
    simp only [raiseTo, UInt64.toNat_max]
    refine ⟨le_max_of_le_right hlow, ?_⟩
    -- the larger of the two is the stored value or the effective timestamp
    rcases le_total prev.toNat (effectiveAckTimestamp timestamp now).toNat with hle | hle
    · left
      rw [UInt64.le_iff_toNat_le, UInt64.toNat_max]
      omega
    · right
      congr 1
      apply UInt64.toNat_inj.mp
      rw [UInt64.toNat_max]
      omega

/-! ## One input -/

/-- What handling one input can do to the debtor side of the peer's entries, with the moves it
makes and the number of settle requests it answers. -/
inductive Debtor (peer : PseudoPeer) (input : PseudoInput) : PseudoPeer → List Move → ℕ → Prop
  /-- The request in flight and the pace reference stay; a settle refused is answered at once. -/
  | quiet {next : PseudoPeer} : next.pending = peer.pending →
      next.lastSettleAck = peer.lastSettleAck →
      Debtor peer input next [] (if input.isSettle then 1 else 0)
  /-- A settle with none in flight is sent, pending its ack. -/
  | offer {next : PseudoPeer} (amount : Au) (now : UInt64) : input = .settle amount now true →
      peer.pending = none → next.pending = some amount → next.lastSettleAck = peer.lastSettleAck →
      Debtor peer input next [.offered amount] 0
  /-- An ack closes the request in flight with a credit of the accepted amount clamped to the
  offer, and raises the pace reference. -/
  | credit {next : PseudoPeer} (ack : PseudosettleAck) (now : UInt64) (offered : Au) :
      input = .sent ack now → peer.pending = some offered → next.pending = none →
      next.lastSettleAck = some (raiseTo peer.lastSettleAck (effectiveAckTimestamp ack.timestamp now)) →
      Debtor peer input next [.credited ack.accepted (ack.accepted.min offered)] 1
  /-- A failure releases the request in flight. -/
  | release {next : PseudoPeer} (offered : Au) : input = .failed → peer.pending = some offered →
      next.pending = none → next.lastSettleAck = peer.lastSettleAck →
      Debtor peer input next [.released] 1

section Run

variable (refreshRate : Au)

theorem handle_debtor (peer : PseudoPeer) (input : PseudoInput) :
    Debtor peer input (handle refreshRate peer input).1
      ((handle refreshRate peer input).2.filterMap (moveOf input))
      (responses (handle refreshRate peer input).2).length := by
  cases input with
  | settle amount now sends =>
    simp only [handle, settle]
    by_cases hpending : peer.pending.isSome
    · rw [if_pos hpending]
      exact .quiet rfl rfl
    rw [if_neg hpending]
    have hnone : peer.pending = none := Option.not_isSome_iff_eq_none.mp hpending
    by_cases hgate : isTooSoon peer.lastSettleAck now = true
    · rw [if_pos hgate]
      exact .quiet rfl rfl
    rw [if_neg hgate]
    cases sends with
    | true => exact .offer amount now rfl hnone rfl rfl
    | false => exact .quiet rfl rfl
  | sent ack now =>
    simp only [handle, sent]
    cases hpending : peer.pending with
    | none => exact .quiet rfl rfl
    | some offered =>
      -- a violation report is neither a move nor an answer
      by_cases hover : offered < ack.accepted
      · simp only [hover, if_true]
        exact .credit ack now offered rfl hpending rfl rfl
      · simp only [hover, if_false]
        exact .credit ack now offered rfl hpending rfl rfl
  | received amount now later ackAt =>
    simp only [handle, received]
    split_ifs <;> exact .quiet rfl rfl
  | failed =>
    simp only [handle]
    cases hpending : peer.pending with
    | none => exact .quiet rfl rfl
    | some offered => exact .release offered rfl hpending rfl rfl
  | rebalanced balance => exact .quiet rfl rfl

/-- Closing the moves read so far leaves the request in flight to the moves that follow. -/
theorem flow_append {moves : List Move} {pending : Option Au}
    (h : moves.foldlM Move.next none = some pending) (moves' : List Move) :
    (moves ++ moves').foldlM Move.next none = moves'.foldlM Move.next pending := by
  rw [List.foldlM_append, h]
  rfl

theorem length_filter_isSettle_append (inputs : List PseudoInput) (input : PseudoInput) :
    ((inputs ++ [input]).filter PseudoInput.isSettle).length =
      (inputs.filter PseudoInput.isSettle).length + if input.isSettle then 1 else 0 := by
  rw [List.filter_append, List.length_append, List.filter_singleton]
  cases input.isSettle <;> rfl

/-- The debtor side's books after handling `inputs`: the moves follow the protocol up to the
request in flight; every settle has been answered once, or is the one in flight; every request
sent is a settle of the inputs; and the pace reference is at most a clock reading at which an
ack was taken. -/
structure DebtorBooks (inputs : List PseudoInput) (moves : List Move) (answered : ℕ)
    (peer : PseudoPeer) : Prop where
  flow : moves.foldlM Move.next none = some peer.pending
  answers : answered + (if peer.pending.isSome then 1 else 0) =
    (inputs.filter PseudoInput.isSettle).length
  offers : ∀ amount, Move.offered amount ∈ moves → ∃ now, PseudoInput.settle amount now true ∈ inputs
  acked : ∀ reference, peer.lastSettleAck = some reference →
    ∃ ack now, PseudoInput.sent ack now ∈ inputs ∧ reference ≤ now

theorem DebtorBooks.advance {inputs : List PseudoInput} {moves moves' : List Move}
    {answered answers : ℕ} {peer next : PseudoPeer} {input : PseudoInput}
    (hinv : DebtorBooks inputs moves answered peer) (h : Debtor peer input next moves' answers) :
    DebtorBooks (inputs ++ [input]) (moves ++ moves') (answered + answers) next := by
  have hinput : input ∈ inputs ++ [input] := List.mem_append_right _ List.mem_cons_self
  have hold : ∀ ack now, PseudoInput.sent ack now ∈ inputs → PseudoInput.sent ack now ∈ inputs ++ [input] :=
    fun _ _ h ↦ List.mem_append_left _ h
  have hsettle := length_filter_isSettle_append inputs input
  have hanswers := hinv.answers
  cases h with
  | quiet hpending hack =>
    refine ⟨?_, ?_, ?_, ?_⟩
    · rw [flow_append hinv.flow, hpending]
      rfl
    · rw [hsettle, hpending, ← hanswers]
      omega
    · intro amount hmem
      rw [List.append_nil] at hmem
      obtain ⟨now, hnow⟩ := hinv.offers amount hmem
      exact ⟨now, List.mem_append_left _ hnow⟩
    · intro reference href
      obtain ⟨ack, now, hsent, hle⟩ := hinv.acked reference (hack ▸ href)
      exact ⟨ack, now, hold ack now hsent, hle⟩
  | offer amount now hin hnone hpending hack =>
    subst hin
    refine ⟨?_, ?_, ?_, ?_⟩
    · rw [flow_append hinv.flow, hnone, hpending]
      rfl
    · rw [hnone] at hanswers
      rw [hsettle, hpending, ← hanswers]
      rfl
    · intro amount' hmem
      rcases List.mem_append.mp hmem with hmem | hmem
      · obtain ⟨now', hnow⟩ := hinv.offers amount' hmem
        exact ⟨now', List.mem_append_left _ hnow⟩
      · -- the request just sent is the settle handled
        obtain rfl : amount' = amount := by simpa using hmem
        exact ⟨now, hinput⟩
    · intro reference href
      obtain ⟨ack, now', hsent, hle⟩ := hinv.acked reference (hack ▸ href)
      exact ⟨ack, now', hold ack now' hsent, hle⟩
  | credit ack now offered hin hsome hpending hack =>
    subst hin
    refine ⟨?_, ?_, ?_, ?_⟩
    · rw [flow_append hinv.flow, hsome, hpending]
      simp [Move.next]
    · rw [hsome] at hanswers
      rw [hsettle, hpending, ← hanswers]
      rfl
    · intro amount hmem
      rcases List.mem_append.mp hmem with hmem | hmem
      · obtain ⟨now', hnow⟩ := hinv.offers amount hmem
        exact ⟨now', List.mem_append_left _ hnow⟩
      · simp at hmem
    · intro reference href
      rw [hack, Option.some.injEq] at href
      subst href
      -- the write is at most this ack's clock, or the reference already stored
      rcases (raiseTo_effective peer.lastSettleAck ack.timestamp now).2 with hle | hstored
      · exact ⟨ack, now, hinput, hle⟩
      · obtain ⟨ack', now', hsent, hle⟩ := hinv.acked _ hstored
        exact ⟨ack', now', hold ack' now' hsent, hle⟩
  | release offered hin hsome hpending hack =>
    subst hin
    refine ⟨?_, ?_, ?_, ?_⟩
    · rw [flow_append hinv.flow, hsome, hpending]
      rfl
    · rw [hsome] at hanswers
      rw [hsettle, hpending, ← hanswers]
      rfl
    · intro amount hmem
      rcases List.mem_append.mp hmem with hmem | hmem
      · obtain ⟨now', hnow⟩ := hinv.offers amount hmem
        exact ⟨now', List.mem_append_left _ hnow⟩
      · simp at hmem
    · intro reference href
      obtain ⟨ack, now', hsent, hle⟩ := hinv.acked reference (hack ▸ href)
      exact ⟨ack, now', hold ack now' hsent, hle⟩

namespace PseudoRun

@[simp] theorem moves_step (run : PseudoRun) (input : PseudoInput) :
    (run.step refreshRate input).moves =
      run.moves ++ (handle refreshRate run.peer input).2.filterMap (moveOf input) := by
  simp [moves]

@[simp] theorem responses_step (run : PseudoRun) (input : PseudoInput) :
    (run.step refreshRate input).responses =
      run.responses ++ Pseudosettle.responses (handle refreshRate run.peer input).2 := by
  simp [PseudoRun.responses]

end PseudoRun

theorem DebtorBooks.step {run : PseudoRun}
    (hinv : DebtorBooks run.inputs run.moves run.responses.length run.peer) (input : PseudoInput) :
    DebtorBooks (run.step refreshRate input).inputs (run.step refreshRate input).moves
      (run.step refreshRate input).responses.length (run.step refreshRate input).peer := by
  rw [PseudoRun.inputs_step, PseudoRun.moves_step, PseudoRun.responses_step, List.length_append,
    PseudoRun.step_peer]
  exact hinv.advance (handle_debtor refreshRate run.peer input)

end Run

end VertexSwarm.Pseudosettle
