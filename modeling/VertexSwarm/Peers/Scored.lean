import VertexSwarm.Lib.FloatOrder
import VertexSwarm.Peers.Score

/-!
# The records' scores over runs

A record's score changes only through the scoring: it starts fresh (`insert_peer`, the snapshot
load), an event rescores it (`report_peer`), a tick decays it, and the unban path resets it.
Every other operation copies it as it is.  So a class of scores that the scoring's fresh score
lies in and its three moves keep holds every record's score in every state a run reaches
(`ScoresIn.run`).

Under the swarm scoring, the scores read against the manager's configuration and marked warned
only below the warn threshold (in the warn band, or in the ban range a ban left the flag in) form
such a class (`records_warned_only_in_band`).  This holds for every `f64` score, `NaN` included:
a `NaN` score is never in the band, and no step leaves the flag up on one.  That the clamp keeps
the score within `[-100, 100]` is not carried over: a `NaN` weight gives a `NaN` score, and a
decay's product is rounded.
-/

namespace VertexSwarm.Peers

/-- A class of scores the scoring starts in and its moves keep. -/
structure Scoring.Keeps {σ ε : Type} (scoring : Scoring σ ε) (Q : σ → Prop) : Prop where
  fresh : Q scoring.fresh
  recordEvent : ∀ event x, Q x → Q (scoring.recordEvent event x).2
  decay : ∀ halfLifeSecs elapsedSecs x, Q x → Q (scoring.decay halfLifeSecs elapsedSecs x)
  resetToDisconnect : ∀ x, Q x → Q (scoring.resetToDisconnect x)

namespace PeerManager

variable {σ ε : Type} (config : PeerManagerConfig σ ε) {Q : σ → Prop}

/-- Every record of a table has its score in `Q`. -/
def ScoresIn (Q : σ → Prop) (peers : OrderedTable OverlayAddress (PeerEntry σ)) : Prop :=
  ∀ o e, peers.get o = some e → Q e.score

namespace ScoresIn

variable {peers : OrderedTable OverlayAddress (PeerEntry σ)}

theorem empty : ScoresIn Q (OrderedTable.empty : OrderedTable OverlayAddress (PeerEntry σ)) :=
  fun o e he ↦ by simp [OrderedTable.get_empty] at he

theorem put (h : ScoresIn Q peers) {o : OverlayAddress} {e : PeerEntry σ} (he : Q e.score) :
    ScoresIn Q (peers.put o e) := by
  intro o' e' hget
  rw [OrderedTable.get_put] at hget
  split_ifs at hget
  · cases hget
    exact he
  · exact h o' e' hget

theorem delete (h : ScoresIn Q peers) (o : OverlayAddress) : ScoresIn Q (peers.delete o) := by
  intro o' e' hget
  rw [OrderedTable.get_delete] at hget
  split_ifs at hget
  exact h o' e' hget

theorem put_of_get (h : ScoresIn Q peers) {o : OverlayAddress} {e e' : PeerEntry σ}
    (hget : peers.get o = some e) (he' : Q e.score → Q e'.score) : ScoresIn Q (peers.put o e') :=
  h.put (he' (h o e hget))

end ScoresIn

/-! ## One operation at a time -/

section Operations

variable {s : PeerManager σ}

theorem scoresIn_modifyEntry (h : ScoresIn Q s.peers) (o : OverlayAddress)
    {f : PeerEntry σ → PeerEntry σ} (hf : ∀ e, Q e.score → Q (f e).score) :
    ScoresIn Q (s.modifyEntry o f).peers := by
  unfold modifyEntry
  split
  · next entry hget => exact h.put_of_get hget (hf entry)
  · exact h

theorem scoresIn_banWithExpiry (h : ScoresIn Q s.peers) (o : OverlayAddress) (expiry : Option ℕ) :
    ScoresIn Q (s.banWithExpiry o expiry).peers := by
  unfold banWithExpiry
  split
  · exact h
  · dsimp only
    split
    · next entry hget =>
      split
      · exact h.put_of_get hget id
      · exact h
    · exact h

theorem scoresIn_removePeer (h : ScoresIn Q s.peers) (o : OverlayAddress) :
    ScoresIn Q (s.removePeer o).peers := h.delete o

theorem scoresIn_admit (h : ScoresIn Q s.peers) (o : OverlayAddress) (clock : ℕ) :
    ScoresIn Q ( PeerManager.admit config s o clock).2.peers := by
  unfold PeerManager.admit
  split
  · exact h
  · exact h
  · split
    · exact h
    · -- the victim leaves before the newcomer is admitted
      dsimp only
      split <;> exact scoresIn_removePeer h _

theorem scoresIn_insertPeer (hkeep : config.scoring.Keeps Q) (h : ScoresIn Q s.peers)
    (o : OverlayAddress) (peer : SwarmPeer) (clock : ℕ) :
    ScoresIn Q (s.insertPeer config o peer clock).2.peers := by
  unfold insertPeer
  split
  · next existing hget => exact h.put_of_get hget id
  · have hadmit := scoresIn_admit config h o clock
    split
    · next s' hs => exact hs ▸ hadmit
    · next s' hs =>
      rw [hs] at hadmit
      split
      · next existing hget => exact hadmit.put_of_get hget id
      · exact hadmit.put hkeep.fresh

theorem scoresIn_storeDiscoveredPeer (hkeep : config.scoring.Keeps Q) (h : ScoresIn Q s.peers)
    (peer : SwarmPeer) (clock : ℕ) : ScoresIn Q (s.storeDiscoveredPeer config peer clock).peers := by
  unfold storeDiscoveredPeer
  split
  · next entry hget =>
    split
    · exact h
    · exact h.put_of_get hget id
  · exact scoresIn_insertPeer config hkeep h _ peer clock

theorem scoresIn_reportPeer (hkeep : config.scoring.Keeps Q) (h : ScoresIn Q s.peers)
    (o : OverlayAddress) (event : ε) (clock : ℕ) :
    ScoresIn Q (s.reportPeer config o event clock).peers := by
  unfold reportPeer
  split
  · exact h
  · split
    · exact h
    · next entry hget =>
      have hrescored : ScoresIn Q (s.peers.put o
          { entry with score := (config.scoring.recordEvent event entry.score).2 }) :=
        h.put_of_get hget (hkeep.recordEvent event entry.score)
      dsimp only
      split
      · exact hrescored
      · exact hrescored
      · exact hrescored.put_of_get (OrderedTable.get_put_self _ _ _) id
      · exact scoresIn_banWithExpiry hrescored _ _

theorem scoresIn_unban (hkeep : config.scoring.Keeps Q) (h : ScoresIn Q s.peers)
    (o : OverlayAddress) : ScoresIn Q (s.unban config o).peers := by
  have hreset : ScoresIn Q (s.modifyEntry o fun entry ↦
      { entry with banned := false, score := config.scoring.resetToDisconnect entry.score }).peers :=
    scoresIn_modifyEntry h o fun e ↦ hkeep.resetToDisconnect e.score
  unfold unban
  dsimp only
  split
  · exact hreset
  · exact hreset

theorem scoresIn_expireBans (hkeep : config.scoring.Keeps Q) (h : ScoresIn Q s.peers) (now : ℕ) :
    ScoresIn Q (s.expireBans config now).peers := by
  unfold expireBans
  dsimp only
  -- one `unban` at a time, over whatever keys the expiry scan found
  generalize (s.bannedSet.rows.filter _).map Prod.fst = expired
  induction expired generalizing s with
  | nil => exact h
  | cons o expired ih => exact ih (scoresIn_unban config hkeep h o)

theorem scoresIn_decayScores (hkeep : config.scoring.Keeps Q) (h : ScoresIn Q s.peers) (now : ℕ) :
    ScoresIn Q (s.decayScores config now).peers := by
  intro o e hget
  simp only [decayScores, OrderedTable.get_mapValues, Option.map_eq_some_iff] at hget
  obtain ⟨entry, hentry, rfl⟩ := hget
  have hscore := h o entry hentry
  unfold PeerEntry.decayScore
  dsimp only
  split_ifs
  · exact hscore
  all_goals exact hkeep.decay _ _ _ hscore

theorem scoresIn_purgeStale (h : ScoresIn Q s.peers) (clock : ℕ) :
    ScoresIn Q (s.purgeStale clock).peers := by
  unfold purgeStale
  dsimp only
  generalize (s.peers.rows.filter _).map Prod.fst = stale
  induction stale generalizing s with
  | nil => exact h
  | cons o stale ih => exact ih (scoresIn_removePeer h o)

theorem scoresIn_tick (hkeep : config.scoring.Keeps Q) (h : ScoresIn Q s.peers) (now clock : ℕ) :
    ScoresIn Q (s.tick config now clock).peers :=
  scoresIn_purgeStale (scoresIn_expireBans config hkeep (scoresIn_decayScores config hkeep h now) now)
    clock

theorem scoresIn_onPeerConnected (hkeep : config.scoring.Keeps Q) (h : ScoresIn Q s.peers)
    (peer : SwarmPeer) (clock : ℕ) : ScoresIn Q (s.onPeerConnected config peer clock).peers := by
  have hinsert := scoresIn_insertPeer config hkeep h peer.overlay peer clock
  unfold onPeerConnected
  split
  · next s' hs =>
    rw [hs] at hinsert
    exact hinsert
  · next s' hs =>
    rw [hs] at hinsert
    refine scoresIn_reportPeer config hkeep ?_ _ _ _
    exact scoresIn_modifyEntry hinsert _ fun _ hscore ↦ hscore

theorem scoresIn_onDialedOverlayMismatch (h : ScoresIn Q s.peers) (o : OverlayAddress) (clock : ℕ) :
    ScoresIn Q (s.onDialedOverlayMismatch o clock).peers := by
  unfold onDialedOverlayMismatch
  split
  · exact h
  · split
    · exact scoresIn_modifyEntry h o fun _ hscore ↦ hscore
    · exact scoresIn_removePeer h o

theorem scoresIn_step (hkeep : config.scoring.Keeps Q) (h : ScoresIn Q s.peers) (op : PeerOp ε) :
    ScoresIn Q (s.step config op).peers := by
  cases op with
  | storeDiscoveredPeer peer clock => exact scoresIn_storeDiscoveredPeer config hkeep h peer clock
  | onPeerConnected peer clock => exact scoresIn_onPeerConnected config hkeep h peer clock
  | onPeerDisconnected o => exact scoresIn_modifyEntry h o fun _ hscore ↦ hscore
  | onDialedOverlayMismatch o clock => exact scoresIn_onDialedOverlayMismatch h o clock
  | reportPeer o event clock => exact scoresIn_reportPeer config hkeep h o event clock
  | recordDialFailure o clock => exact scoresIn_modifyEntry h o fun _ hscore ↦ hscore
  | ban o clock => exact scoresIn_banWithExpiry h o _
  | banPermanent o => exact scoresIn_banWithExpiry h o none
  | tick now clock => exact scoresIn_tick config hkeep h now clock

theorem scoresIn_run (hkeep : config.scoring.Keeps Q) (h : ScoresIn Q s.peers)
    (ops : List (PeerOp ε)) : ScoresIn Q (s.run config ops).peers := by
  induction ops using List.reverseRecOn with
  | nil => exact h
  | append_singleton ops op ih =>
    rw [run_append_singleton]
    exact scoresIn_step config hkeep ih op

theorem scoresIn_loadFromStore (hkeep : config.scoring.Keeps Q) (h : ScoresIn Q s.peers)
    (records : List PeerSnapshot) (clock : ℕ) : ScoresIn Q (s.loadFromStore config records clock).peers := by
  unfold loadFromStore
  induction records generalizing s with
  | nil => exact h
  | cons snapshot records ih =>
    rw [List.foldl_cons]
    apply ih
    split
    · exact h.put hkeep.fresh
    · exact h

end Operations

end PeerManager

/-! ## The swarm scoring -/

namespace SwarmPeerScore

/-- After any step, a warned peer's score lies below the warn threshold or in the ban range: the
flag follows the warn band, except after a ban, which keeps it. -/
theorem warned_step_imp (self : SwarmPeerScore) (op : ScoreOp)
    (hwarned : (step self op).2.warned = true) :
    (step self op).2.score.score < self.config.warnThreshold ∨
      (step self op).2.score.score ≤ self.config.banThreshold := by
  rw [warned_step] at hwarned
  rw [← score_step]
  cases op with
  | recordEvent event =>
    dsimp only at hwarned
    by_cases hban : self.config.shouldBan (step self (.recordEvent event)).1.2.2
    · exact .inr (of_decide_eq_true hban)
    · rw [if_neg hban] at hwarned
      simp only [SwarmScoringConfig.shouldWarn, Bool.and_eq_true, decide_eq_true_eq] at hwarned
      exact .inl hwarned.1
  | decay _ _ =>
    simp only [SwarmScoringConfig.shouldWarn, Bool.and_eq_true, decide_eq_true_eq] at hwarned
    exact .inl hwarned.1.1
  | reset _ =>
    simp only [SwarmScoringConfig.shouldWarn, Bool.and_eq_true, decide_eq_true_eq] at hwarned
    exact .inl hwarned.1

/-- A score as the manager keeps it: read against `config`, and warned only below the warn
threshold or in the ban range. -/
def WarnedInBand (config : SwarmScoringConfig) (self : SwarmPeerScore) : Prop :=
  self.config = config ∧
    (self.warned = true →
      self.score.score < config.warnThreshold ∨ self.score.score ≤ config.banThreshold)

theorem warnedInBand_step {config : SwarmScoringConfig} {self : SwarmPeerScore}
    (hself : WarnedInBand config self) (op : ScoreOp) : WarnedInBand config (step self op).2 := by
  obtain ⟨hconfig, -⟩ := hself
  refine ⟨(config_step self op).trans hconfig, fun hwarned ↦ ?_⟩
  rw [← hconfig]
  exact warned_step_imp self op hwarned

theorem keeps_warnedInBand (config : SwarmScoringConfig) :
    (swarmScoring config).Keeps (WarnedInBand config) where
  fresh := ⟨rfl, fun h ↦ by cases h⟩
  recordEvent event _ hself := warnedInBand_step hself (.recordEvent event)
  decay halfLifeSecs elapsedSecs _ hself :=
    warnedInBand_step hself (.decay halfLifeSecs elapsedSecs)
  resetToDisconnect _ hself := warnedInBand_step hself (.reset config.disconnectThreshold)

end SwarmPeerScore

namespace PeerManager

/-- Under the swarm scoring, every record of every manager a run reaches from a loaded one is
scored against the manager's configuration, and is marked warned only while its score is below
the warn threshold or at or below the ban threshold. -/
theorem records_warned_only_in_band (scoring : SwarmScoringConfig) (banDuration : ℕ)
    (backoffSecs : OverlayAddress → ℕ → ℕ) (proximity : Proximity) (localOverlay : OverlayAddress)
    (maxPo maxPerBin : ℕ)
    (records : List PeerSnapshot) (loadClock : ℕ) (ops : List (PeerOp SwarmScoringEvent)) :
    let config : PeerManagerConfig SwarmPeerScore SwarmScoringEvent :=
      ⟨banDuration, SwarmPeerScore.swarmScoring scoring, backoffSecs⟩
    let s :=
      ((new proximity localOverlay maxPo maxPerBin).loadFromStore config records loadClock).run config ops
    ∀ o e, s.peers.get o = some e →
      e.score.config = scoring ∧
        (e.score.warned = true →
          e.score.score.score < scoring.warnThreshold ∨
            e.score.score.score ≤ scoring.banThreshold) := by
  intro config s
  have hkeep := SwarmPeerScore.keeps_warnedInBand scoring
  exact scoresIn_run config hkeep
    (scoresIn_loadFromStore config hkeep ScoresIn.empty records loadClock) ops

/-- The default scoring with a `NaN` weight for malicious behaviour. -/
def nanWeightScoring : SwarmScoringConfig :=
  { SwarmScoringConfig.default with maliciousBehavior := 0.0 / 0.0 }

/-- A discovered peer reported for malicious behaviour under that scoring. -/
def nanWeightOps : List (PeerOp SwarmScoringEvent) :=
  [.storeDiscoveredPeer ⟨BigEndian.FixedBytes.ofNat 32 1, 1⟩ 0,
    .reportPeer (BigEndian.FixedBytes.ofNat 32 1) .maliciousBehavior 0]

theorem records_warned_only_in_band_of_nanWeight :
    let config : PeerManagerConfig SwarmPeerScore SwarmScoringEvent :=
      ⟨600, SwarmPeerScore.swarmScoring nanWeightScoring, fun _ _ ↦ 0⟩
    let s := ((new .byXor (BigEndian.FixedBytes.ofNat 32 0) 8 4).loadFromStore config [] 0).run
      config nanWeightOps
    (s.peers.get (BigEndian.FixedBytes.ofNat 32 1)).map (·.score.score.score.isNaN) = some true ∧
      ∀ o e, s.peers.get o = some e → e.score.score.score.isNaN = true → e.score.warned = false := by
  intro config s
  refine ⟨by decide +kernel, fun o e hget hnan ↦ ?_⟩
  have hband := (records_warned_only_in_band nanWeightScoring 600 (fun _ _ ↦ 0) .byXor
    (BigEndian.FixedBytes.ofNat 32 0) 8 4 [] 0 nanWeightOps o e hget).2
  cases hwarned : e.score.warned
  · rfl
  · exact ((hband hwarned).elim (FloatOrder.not_lt_of_isNaN hnan _)
      (FloatOrder.not_le_of_isNaN hnan _)).elim

end PeerManager

end VertexSwarm.Peers
