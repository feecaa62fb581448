import VertexSwarm.Lib.FloatOrder
import VertexSwarm.Lib.Projection
import VertexSwarm.Peers.Manager

/-!
# Peer scores and their threshold policy

`net/peer/score` keeps a peer's score on a scale clamped to `[-100, 100]`, with its latency
samples.  `swarm/peers/peer-score` reads every change of the score against three thresholds and
tells the peer manager what to do: ban when the new score is at or below the ban threshold,
disconnect when the score crosses the disconnect threshold downward, and warn once when it
enters the warn band, a flag remembering that the warning was given until the score leaves the
band.  Scores, weights and thresholds are `f64`, and `Float` here: IEEE arithmetic, with its
infinities and `NaN`, which compares with nothing.  The decay factor `0.5^(elapsed / half_life)`
is `Float.pow`, the C library's `pow` that `powf` calls too; no proof reads its value.

Only the ban is level-triggered.  Over every run of events, decays and resets, from any state,
between two warnings the score left the warn band, and between two disconnects it rose back
above the disconnect threshold (`score_outcomes_edge_triggered`).  Both are instances of the
separation rule `Projection.runLog_separated`: the warned flag, and a score not above the
disconnect threshold, are given up only by a step that leaves the band.  The second holds for
every float, `NaN` included, because a disconnect lands at or below the threshold and `≤` rules
out `>` (`FloatOrder.not_lt_of_le`).

`swarmScoring` is the scoring the peer manager calls, which the manager model takes as its
`Scoring` parameter.
-/

namespace VertexSwarm.Peers

open Projection

/-! ## Events and configuration -/

/-- `SwarmScoringEvent`; durations in nanoseconds. -/
inductive SwarmScoringEvent where
  | connectionSuccess (latency : Option ℕ)
  | connectionTimeout
  | connectionRefused
  | handshakeFailure
  | protocolError
  | earlyDisconnect (duration : ℕ)
  | retrievalSuccess (latency : ℕ)
  | retrievalFailure
  | pushSuccess (latency : ℕ)
  | pushFailure
  | invalidData
  | maliciousBehavior
  | accountingViolation
  | rateLimitExceeded
  | pingSuccess (latency : ℕ)
  | pingTimeout
  | gossipUseful
  | gossipStale
deriving DecidableEq

namespace SwarmScoringEvent

/-- `default_weight`. -/
def defaultWeight : SwarmScoringEvent → Float
  | connectionSuccess _ => 1.0
  | connectionTimeout => -1.5
  | connectionRefused => -1.0
  | handshakeFailure => -5.0
  | protocolError => -3.0
  | earlyDisconnect _ => -3.0
  | retrievalSuccess _ => 0.5
  | retrievalFailure => -2.0
  | pushSuccess _ => 0.5
  | pushFailure => -2.0
  | invalidData => -10.0
  | maliciousBehavior => -50.0
  | accountingViolation => -20.0
  | rateLimitExceeded => -5.0
  | pingSuccess _ => 0.1
  | pingTimeout => -0.5
  | gossipUseful => 0.2
  | gossipStale => -0.1

/-- `latency`: the round trip a success carries. -/
def latency : SwarmScoringEvent → Option ℕ
  | connectionSuccess latency => latency
  | retrievalSuccess latency | pushSuccess latency | pingSuccess latency => some latency
  | _ => none

end SwarmScoringEvent

/-- `DEFAULT_PEER_BAN_THRESHOLD`. -/
def defaultPeerBanThreshold : Float := -100.0

/-- `DEFAULT_PEER_DISCONNECT_THRESHOLD`. -/
def defaultPeerDisconnectThreshold : Float := -75.0

/-- `DEFAULT_PEER_WARN_THRESHOLD`. -/
def defaultPeerWarnThreshold : Float := -50.0

/-- `SwarmScoringConfig`, as `scoring_events!` generates it: a weight per event, and the three
thresholds. -/
structure SwarmScoringConfig where
  connectionSuccess : Float
  connectionTimeout : Float
  connectionRefused : Float
  handshakeFailure : Float
  protocolError : Float
  earlyDisconnect : Float
  retrievalSuccess : Float
  retrievalFailure : Float
  pushSuccess : Float
  pushFailure : Float
  invalidData : Float
  maliciousBehavior : Float
  accountingViolation : Float
  rateLimitExceeded : Float
  pingSuccess : Float
  pingTimeout : Float
  gossipUseful : Float
  gossipStale : Float
  banThreshold : Float
  warnThreshold : Float
  disconnectThreshold : Float

namespace SwarmScoringConfig

/-- `SwarmScoringConfig::default`: each weight the default weight of its event, and the default
thresholds. -/
def default : SwarmScoringConfig where
  connectionSuccess := (SwarmScoringEvent.connectionSuccess none).defaultWeight
  connectionTimeout := SwarmScoringEvent.connectionTimeout.defaultWeight
  connectionRefused := SwarmScoringEvent.connectionRefused.defaultWeight
  handshakeFailure := SwarmScoringEvent.handshakeFailure.defaultWeight
  protocolError := SwarmScoringEvent.protocolError.defaultWeight
  earlyDisconnect := (SwarmScoringEvent.earlyDisconnect 0).defaultWeight
  retrievalSuccess := (SwarmScoringEvent.retrievalSuccess 0).defaultWeight
  retrievalFailure := SwarmScoringEvent.retrievalFailure.defaultWeight
  pushSuccess := (SwarmScoringEvent.pushSuccess 0).defaultWeight
  pushFailure := SwarmScoringEvent.pushFailure.defaultWeight
  invalidData := SwarmScoringEvent.invalidData.defaultWeight
  maliciousBehavior := SwarmScoringEvent.maliciousBehavior.defaultWeight
  accountingViolation := SwarmScoringEvent.accountingViolation.defaultWeight
  rateLimitExceeded := SwarmScoringEvent.rateLimitExceeded.defaultWeight
  pingSuccess := (SwarmScoringEvent.pingSuccess 0).defaultWeight
  pingTimeout := SwarmScoringEvent.pingTimeout.defaultWeight
  gossipUseful := SwarmScoringEvent.gossipUseful.defaultWeight
  gossipStale := SwarmScoringEvent.gossipStale.defaultWeight
  banThreshold := defaultPeerBanThreshold
  warnThreshold := defaultPeerWarnThreshold
  disconnectThreshold := defaultPeerDisconnectThreshold

/-- `weight_for`: the configured weight of the event's kind. -/
def weightFor (config : SwarmScoringConfig) : SwarmScoringEvent → Float
  | .connectionSuccess _ => config.connectionSuccess
  | .connectionTimeout => config.connectionTimeout
  | .connectionRefused => config.connectionRefused
  | .handshakeFailure => config.handshakeFailure
  | .protocolError => config.protocolError
  | .earlyDisconnect _ => config.earlyDisconnect
  | .retrievalSuccess _ => config.retrievalSuccess
  | .retrievalFailure => config.retrievalFailure
  | .pushSuccess _ => config.pushSuccess
  | .pushFailure => config.pushFailure
  | .invalidData => config.invalidData
  | .maliciousBehavior => config.maliciousBehavior
  | .accountingViolation => config.accountingViolation
  | .rateLimitExceeded => config.rateLimitExceeded
  | .pingSuccess _ => config.pingSuccess
  | .pingTimeout => config.pingTimeout
  | .gossipUseful => config.gossipUseful
  | .gossipStale => config.gossipStale

/-- `should_ban`: at or below the ban threshold. -/
def shouldBan (config : SwarmScoringConfig) (score : Float) : Bool := decide (score ≤ config.banThreshold)

/-- `should_disconnect`: at or below the disconnect threshold, short of a ban. -/
def shouldDisconnect (config : SwarmScoringConfig) (score : Float) : Bool :=
  decide (score ≤ config.disconnectThreshold) && !config.shouldBan score

/-- `should_warn`: below the warn threshold, short of a ban. -/
def shouldWarn (config : SwarmScoringConfig) (score : Float) : Bool :=
  decide (score < config.warnThreshold) && !config.shouldBan score

end SwarmScoringConfig

/-! ## The score -/

/-- `MIN_SCORE`. -/
def minScore : Float := -100.0

/-- `MAX_SCORE`. -/
def maxScore : Float := 100.0

/-- `PeerScore`: the score, and the latency samples with their sum (the atomics are one value
each here). -/
structure PeerScore where
  score : Float
  latencySumNanos : UInt64
  latencySamples : UInt32

namespace PeerScore

/-- `f64::clamp`: raised to `lo`, then lowered to `hi`. -/
def clamp (x lo hi : Float) : Float :=
  let x := if x < lo then lo else x
  if hi < x then hi else x

/-- `PeerScore::new`. -/
def new : PeerScore := ⟨0.0, 0, 0⟩

/-- `add_score`: the old score and the new one, clamped to the scale. -/
def addScore (p : PeerScore) (delta : Float) : (Float × Float) × PeerScore :=
  let newVal := clamp (p.score + delta) minScore maxScore
  ((p.score, newVal), { p with score := newVal })

/-- `decay`: no time leaves the score as it is, a zero half-life zeroes it, and otherwise it is
scaled by `0.5^(elapsed / half_life)`, unclamped. -/
def decay (p : PeerScore) (halfLifeSecs elapsedSecs : ℕ) : (Float × Float) × PeerScore :=
  if elapsedSecs = 0 then ((p.score, p.score), p)
  else if halfLifeSecs = 0 then ((p.score, 0.0), { p with score := 0.0 })
  else
    let factor := (0.5 : Float) ^ (elapsedSecs.toFloat / halfLifeSecs.toFloat)
    let newVal := p.score * factor
    ((p.score, newVal), { p with score := newVal })

/-- `set_score`: the old score and the new one, clamped to the scale. -/
def setScore (p : PeerScore) (score : Float) : (Float × Float) × PeerScore :=
  let clamped := clamp score minScore maxScore
  ((p.score, clamped), { p with score := clamped })

/-- `PeerScore::should_ban`: strictly below the threshold. -/
def shouldBan (p : PeerScore) (threshold : Float) : Bool := decide (p.score < threshold)

/-- `record_latency`: both counters wrap, as `fetch_add` does. -/
def recordLatency (p : PeerScore) (latencyNanos : UInt64) : PeerScore :=
  { p with
    latencySumNanos := p.latencySumNanos + latencyNanos
    latencySamples := p.latencySamples + 1 }

/-- `avg_latency_nanos`: none before the first sample. -/
def avgLatencyNanos (p : PeerScore) : Option UInt64 :=
  if p.latencySamples = 0 then none else some (p.latencySumNanos / p.latencySamples.toUInt64)

end PeerScore

/-! ## The threshold policy -/

/-- `ScoreChange`: the outcome of an event, with the scores before and after it. -/
structure ScoreChange where
  outcome : ScoreOutcome
  oldScore : Float
  newScore : Float

/-- `SwarmPeerScore`: the score, the configuration it is read against, and whether the peer has
been warned since it last left the warn band. -/
structure SwarmPeerScore where
  score : PeerScore
  config : SwarmScoringConfig
  warned : Bool

namespace SwarmPeerScore

/-- `SwarmPeerScore::new`: not warned. -/
def new (score : PeerScore) (config : SwarmScoringConfig) : SwarmPeerScore := ⟨score, config, false⟩

/-- `SwarmPeerScore::with_defaults`. -/
def withDefaults : SwarmPeerScore := new PeerScore.new SwarmScoringConfig.default

/-- `check_thresholds`: the outcome of a change from `oldScore` to `newScore`.  A ban returns
before the warned flag is touched; otherwise the flag follows the warn band, and a warning is
given only when it goes up.  A disconnect outranks a warning. -/
def checkThresholds (self : SwarmPeerScore) (oldScore newScore : Float) :
    ScoreOutcome × SwarmPeerScore :=
  if self.config.shouldBan newScore then (.ban, self)
  else
    -- the compare-and-swap from `false` to `true` succeeds only for an unwarned peer
    let warnedNow := self.config.shouldWarn newScore && !self.warned
    let self := { self with warned := self.config.shouldWarn newScore }
    if self.config.disconnectThreshold < oldScore ∧ newScore ≤ self.config.disconnectThreshold then
      (.disconnect, self)
    else if warnedNow then (.warn, self)
    else (.ok, self)

/-- `record_event_change`: record the event's latency, add its weight, and check the change. -/
def recordEventChange (self : SwarmPeerScore) (event : SwarmScoringEvent) :
    ScoreChange × SwarmPeerScore :=
  let weight := self.config.weightFor event
  let score := match event.latency with
    | some latency => self.score.recordLatency (UInt64.ofNat (min latency (2 ^ 64 - 1)))
    | none => self.score
  let added := score.addScore weight
  let checked := { self with score := added.2 }.checkThresholds added.1.1 added.1.2
  (⟨checked.1, added.1.1, added.1.2⟩, checked.2)

/-- `record_event`. -/
def recordEvent (self : SwarmPeerScore) (event : SwarmScoringEvent) : ScoreOutcome × SwarmPeerScore :=
  ((self.recordEventChange event).1.outcome, (self.recordEventChange event).2)

/-- `SwarmPeerScore::decay`: a decay out of the warn band lowers the warned flag. -/
def decay (self : SwarmPeerScore) (halfLifeSecs elapsedSecs : ℕ) : (Float × Float) × SwarmPeerScore :=
  let decayed := self.score.decay halfLifeSecs elapsedSecs
  (decayed.1,
    { self with
      score := decayed.2
      warned := if self.config.shouldWarn decayed.1.2 then self.warned else false })

/-- `reset`: the warned flag is set to whether the new score lies in the warn band. -/
def reset (self : SwarmPeerScore) (score : Float) : (Float × Float) × SwarmPeerScore :=
  let set := self.score.setScore score
  (set.1, { self with score := set.2, warned := self.config.shouldWarn set.1.2 })

/-- `SwarmPeerScore::record_latency`: the round trip's nanoseconds, cast to `u64`. -/
def recordLatency (self : SwarmPeerScore) (rttNanos : ℕ) : SwarmPeerScore :=
  { self with score := self.score.recordLatency (UInt64.ofNat rttNanos) }

/-- `avg_latency`, in nanoseconds. -/
def avgLatency (self : SwarmPeerScore) : Option ℕ := self.score.avgLatencyNanos.map UInt64.toNat

/-- `SwarmPeerScore::should_ban`. -/
def shouldBan (self : SwarmPeerScore) : Bool := self.config.shouldBan self.score.score

/-! ## Runs -/

/-- A call on a peer's score: an event, a decay pass, or a reset. -/
inductive ScoreOp where
  | recordEvent (event : SwarmScoringEvent)
  | decay (halfLifeSecs elapsedSecs : ℕ)
  | reset (score : Float)
deriving DecidableEq

/-- One call, answering the outcome of an event and the scores before and after. -/
def step (self : SwarmPeerScore) : ScoreOp → (Option ScoreOutcome × Float × Float) × SwarmPeerScore
  | .recordEvent event =>
    let change := self.recordEventChange event
    ((some change.1.outcome, change.1.oldScore, change.1.newScore), change.2)
  | .decay halfLifeSecs elapsedSecs =>
    let decayed := self.decay halfLifeSecs elapsedSecs
    ((none, decayed.1), decayed.2)
  | .reset score =>
    let set := self.reset score
    ((none, set.1), set.2)

/-! ## What one step does -/

section Step

@[simp]
theorem config_checkThresholds (self : SwarmPeerScore) (oldScore newScore : Float) :
    (self.checkThresholds oldScore newScore).2.config = self.config := by
  unfold checkThresholds
  dsimp only
  split_ifs <;> rfl

@[simp]
theorem score_checkThresholds (self : SwarmPeerScore) (oldScore newScore : Float) :
    (self.checkThresholds oldScore newScore).2.score = self.score := by
  unfold checkThresholds
  dsimp only
  split_ifs <;> rfl

/-- The warned flag after a check: kept through a ban, and otherwise whether the new score lies
in the warn band. -/
theorem warned_checkThresholds (self : SwarmPeerScore) (oldScore newScore : Float) :
    (self.checkThresholds oldScore newScore).2.warned =
      if self.config.shouldBan newScore then self.warned else self.config.shouldWarn newScore := by
  unfold checkThresholds
  dsimp only
  split_ifs <;> rfl

theorem checkThresholds_fst (self : SwarmPeerScore) (oldScore newScore : Float) :
    (self.checkThresholds oldScore newScore).1 =
      if self.config.shouldBan newScore then .ban
      else if self.config.disconnectThreshold < oldScore ∧ newScore ≤ self.config.disconnectThreshold
        then .disconnect
      else if self.config.shouldWarn newScore && !self.warned then .warn
      else .ok := by
  unfold checkThresholds
  dsimp only
  split_ifs <;> rfl

theorem checkThresholds_eq_ban_iff (self : SwarmPeerScore) (oldScore newScore : Float) :
    (self.checkThresholds oldScore newScore).1 = .ban ↔ self.config.shouldBan newScore = true := by
  rw [checkThresholds_fst]
  split_ifs with hban <;> simp [hban]

theorem checkThresholds_eq_disconnect {self : SwarmPeerScore} {oldScore newScore : Float}
    (h : (self.checkThresholds oldScore newScore).1 = .disconnect) :
    self.config.disconnectThreshold < oldScore ∧ newScore ≤ self.config.disconnectThreshold := by
  rw [checkThresholds_fst] at h
  -- the other branches answer another outcome
  split_ifs at h with hban hcross
  exact hcross

theorem checkThresholds_eq_warn {self : SwarmPeerScore} {oldScore newScore : Float}
    (h : (self.checkThresholds oldScore newScore).1 = .warn) :
    self.warned = false ∧ self.config.shouldBan newScore = false ∧
      self.config.shouldWarn newScore = true := by
  rw [checkThresholds_fst] at h
  split_ifs at h with hban hcross hwarn
  simp only [Bool.and_eq_true, Bool.not_eq_true'] at hwarn
  exact ⟨hwarn.2, by simpa using hban, hwarn.1⟩

theorem config_step (self : SwarmPeerScore) (op : ScoreOp) :
    (step self op).2.config = self.config := by
  cases op <;> simp [step, recordEventChange, decay, reset]

theorem score_step (self : SwarmPeerScore) (op : ScoreOp) :
    (step self op).1.2.2 = (step self op).2.score.score := by
  cases op with
  | recordEvent event => simp [step, recordEventChange, PeerScore.addScore]
  | decay halfLifeSecs elapsedSecs =>
    simp only [step, decay, PeerScore.decay]
    split_ifs <;> rfl
  | reset score => rfl

theorem oldScore_step (self : SwarmPeerScore) (op : ScoreOp) :
    (step self op).1.2.1 = self.score.score := by
  cases op with
  | recordEvent event =>
    simp only [step, recordEventChange, PeerScore.addScore]
    split <;> rfl
  | decay halfLifeSecs elapsedSecs =>
    simp only [step, decay, PeerScore.decay]
    split_ifs <;> rfl
  | reset score => rfl

theorem step_recordEvent_fst (self : SwarmPeerScore) (event : SwarmScoringEvent) :
    (step self (.recordEvent event)).1.1 =
      some (self.checkThresholds (step self (.recordEvent event)).1.2.1
        (step self (.recordEvent event)).1.2.2).1 := by
  simp only [step, recordEventChange, checkThresholds_fst]

theorem step_fst_eq_some {self : SwarmPeerScore} {op : ScoreOp} {outcome : ScoreOutcome}
    (h : (step self op).1.1 = some outcome) :
    ∃ event, op = .recordEvent event ∧
      (self.checkThresholds (step self op).1.2.1 (step self op).1.2.2).1 = outcome := by
  cases op with
  | recordEvent event =>
    rw [step_recordEvent_fst, Option.some.injEq] at h
    exact ⟨event, rfl, h⟩
  | decay _ _ => simp [step] at h
  | reset _ => simp [step] at h

/-- The warned flag after a step: an event that bans keeps it, and every other step sets it to
whether the new score lies in the warn band, except that a decay only ever lowers it. -/
theorem warned_step (self : SwarmPeerScore) (op : ScoreOp) :
    (step self op).2.warned =
      match op with
      | .recordEvent _ =>
        if self.config.shouldBan (step self op).1.2.2 then self.warned
        else self.config.shouldWarn (step self op).1.2.2
      | .decay _ _ => self.config.shouldWarn (step self op).1.2.2 && self.warned
      | .reset _ => self.config.shouldWarn (step self op).1.2.2 := by
  cases op with
  | recordEvent event => simp [step, recordEventChange, warned_checkThresholds]
  | decay halfLifeSecs elapsedSecs =>
    simp only [step, decay]
    split_ifs with h <;> simp [h]
  | reset score => rfl

end Step

/-! ## Edge-triggered outcomes -/

section Policy

/-- A step that leaves the warn band: its new score is out of the band, and it is no event that
bans. -/
def LeavesWarnBand (config : SwarmScoringConfig) (entry : ScoreOp × Option ScoreOutcome × Float × Float) :
    Prop :=
  entry.2.1 ≠ some .ban ∧ config.shouldWarn entry.2.2.2 = false

theorem warned_step_of_not_leaves {self : SwarmPeerScore} {op : ScoreOp} (hwarned : self.warned = true)
    (hstay : ¬LeavesWarnBand self.config (op, (step self op).1)) :
    (step self op).2.warned = true := by
  rw [warned_step]
  simp only [LeavesWarnBand, not_and, Bool.not_eq_false] at hstay
  cases op with
  | recordEvent event =>
    dsimp only
    split_ifs with hban
    · exact hwarned
    · -- an event that does not ban answers no ban
      refine hstay ?_
      rw [step_recordEvent_fst, Ne, Option.some.injEq, checkThresholds_eq_ban_iff]
      exact hban
  | decay _ _ => simp [hstay (by simp [step]), hwarned]
  | reset _ => exact hstay (by simp [step])

theorem warned_of_step_warn {self : SwarmPeerScore} {op : ScoreOp}
    (h : (step self op).1.1 = some .warn) :
    self.warned = false ∧ (step self op).2.warned = true := by
  obtain ⟨event, rfl, hcheck⟩ := step_fst_eq_some h
  obtain ⟨hunwarned, hban, hwarn⟩ := checkThresholds_eq_warn hcheck
  refine ⟨hunwarned, ?_⟩
  rw [warned_step]
  simp [hban, hwarn]

theorem disconnect_of_step {self : SwarmPeerScore} {op : ScoreOp}
    (h : (step self op).1.1 = some .disconnect) :
    self.config.disconnectThreshold < self.score.score ∧
      (step self op).2.score.score ≤ self.config.disconnectThreshold := by
  obtain ⟨event, -, hcheck⟩ := step_fst_eq_some h
  rw [← oldScore_step self op, ← score_step self op]
  exact checkThresholds_eq_disconnect hcheck

theorem step_eq_ban_iff {self : SwarmPeerScore} {op : ScoreOp} :
    (step self op).1.1 = some .ban ↔
      (step self op).1.1.isSome ∧ self.config.shouldBan (step self op).1.2.2 := by
  cases op with
  | recordEvent event =>
    rw [step_recordEvent_fst, Option.some.injEq, checkThresholds_eq_ban_iff]
    simp
  | decay _ _ => simp [step]
  | reset _ => simp [step]

theorem exists_step_of_mem_runLog {self : SwarmPeerScore} {ops : List ScoreOp}
    {entry : ScoreOp × Option ScoreOutcome × Float × Float} (h : entry ∈ (runLog step self ops).1) :
    ∃ before : SwarmPeerScore,
      before.config = self.config ∧ entry = (entry.1, (step before entry.1).1) := by
  induction ops generalizing self with
  | nil => cases h
  | cons op ops ih =>
    rw [runLog_cons, List.mem_cons] at h
    rcases h with rfl | h
    · exact ⟨self, rfl, rfl⟩
    · obtain ⟨before, hconfig, hentry⟩ := ih h
      exact ⟨before, hconfig.trans (config_step self op), hentry⟩

/-- The threshold policy over every run, from any state.  An event answers a ban exactly when its
new score is at or below the ban threshold; between two warnings a step left the warn band; and
between two disconnects a step took the score back above the disconnect threshold. -/
theorem score_outcomes_edge_triggered (self : SwarmPeerScore) (ops : List ScoreOp)
    {pre mid post : List (ScoreOp × Option ScoreOutcome × Float × Float)}
    {x y : ScoreOp × Option ScoreOutcome × Float × Float}
    (hlog : (runLog step self ops).1 = pre ++ x :: (mid ++ y :: post)) :
    (∀ entry ∈ (runLog step self ops).1,
      entry.2.1 = some .ban ↔ entry.2.1.isSome ∧ self.config.shouldBan entry.2.2.2) ∧
    (x.2.1 = some .warn → y.2.1 = some .warn → ∃ entry ∈ mid, LeavesWarnBand self.config entry) ∧
    (x.2.1 = some .disconnect → y.2.1 = some .disconnect →
      ∃ entry ∈ mid, self.config.disconnectThreshold < entry.2.2.2) := by
  refine ⟨fun entry hentry ↦ ?_, fun hx hy ↦ ?_, fun hx hy ↦ ?_⟩
  · obtain ⟨before, hconfig, hstep⟩ := exists_step_of_mem_runLog hentry
    rw [hstep, ← hconfig]
    exact step_eq_ban_iff
  · -- the warned flag is given up only by a step that leaves the band
    exact runLog_separated (I := fun s : SwarmPeerScore ↦ s.config = self.config)
      (P := fun s ↦ s.warned = true) (E := LeavesWarnBand self.config)
      (A := fun entry ↦ entry.2.1 = some .warn) (B := fun entry ↦ entry.2.1 = some .warn)
      (fun s op hconfig ↦ (config_step s op).trans hconfig)
      (fun s op hconfig hwarned hstay ↦ warned_step_of_not_leaves hwarned (hconfig ▸ hstay))
      (fun s op _ hwarn ↦ (warned_of_step_warn hwarn).2)
      (fun s op _ hwarn hwarned ↦ by simp [(warned_of_step_warn hwarn).1] at hwarned)
      rfl hlog hx hy
  · -- a score not above the disconnect threshold is given up only by a step that lands above it;
    -- elaborated before it meets the goal, which would unfold the float comparisons
    exact (runLog_separated (I := fun s : SwarmPeerScore ↦ s.config = self.config)
      (P := fun s ↦ ¬self.config.disconnectThreshold < s.score.score)
      (E := fun entry ↦ self.config.disconnectThreshold < entry.2.2.2)
      (A := fun entry ↦ entry.2.1 = some .disconnect) (B := fun entry ↦ entry.2.1 = some .disconnect)
      (fun s op hconfig ↦ (config_step s op).trans hconfig)
      (fun s op _ _ hstay ↦ by rw [← score_step]; exact hstay)
      (fun s op hconfig hdisconnect ↦ by
        rw [← hconfig]
        exact FloatOrder.not_lt_of_le (disconnect_of_step hdisconnect).2)
      (fun s op hconfig hdisconnect ↦ by
        rw [← hconfig]
        exact not_not_intro (disconnect_of_step hdisconnect).1)
      rfl hlog hx hy :)

/-- Two warnings from the default scoring, with a reset to zero between them. -/
def rewarnOps : List ScoreOp :=
  [.recordEvent .maliciousBehavior, .recordEvent .protocolError, .reset 0.0,
    .recordEvent .maliciousBehavior, .recordEvent .protocolError]

theorem score_outcomes_edge_triggered_of_rewarn :
    ∃ entry ∈ [(ScoreOp.reset 0.0, none, (-53.0 : Float), (0.0 : Float)),
        (.recordEvent .maliciousBehavior, some .ok, 0.0, -50.0)],
      LeavesWarnBand withDefaults.config entry :=
  (@score_outcomes_edge_triggered withDefaults rewarnOps
    [(.recordEvent .maliciousBehavior, some .ok, 0.0, -50.0)] _ []
    (.recordEvent .protocolError, some .warn, -50.0, -53.0)
    (.recordEvent .protocolError, some .warn, -50.0, -53.0) (by decide +kernel)).2.1 rfl rfl

end Policy

/-! ## The scoring the peer manager calls -/

/-- The swarm scoring as the peer manager calls it: a fresh score under the manager's
configuration, its value, `record_event`, `decay`, the unban path's reset to the disconnect
threshold, and the connection success the manager reports on a handshake. -/
def swarmScoring (config : SwarmScoringConfig) : Scoring SwarmPeerScore SwarmScoringEvent where
  fresh := new PeerScore.new config
  value self := self.score.score
  recordEvent event self := self.recordEvent event
  decay halfLifeSecs elapsedSecs self := (self.decay halfLifeSecs elapsedSecs).2
  resetToDisconnect self := (self.reset config.disconnectThreshold).2
  connectionSuccess := .connectionSuccess none

end SwarmPeerScore

end VertexSwarm.Peers
