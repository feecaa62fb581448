import VertexSwarm.Lib.OrderedTable
import VertexSwarm.Peers.Index

/-!
# The peer manager

`peer-manager/src/{manager,maintenance,scoring,entry}.rs`.  The manager holds every known peer:
a record per overlay (`peers`), the proximity index over the same overlays, and the banned set
mapping each banned overlay to its expiry (`None` for a permanent ban).  Operations run one at a
time here; each is a function of the state, and the wall clock `unix_timestamp_secs()` that some
of them read is passed in as `clock`.

A peer's record keeps what the manager reads of it: the signed record's timestamp, the verified
bit, the connection stamp, the ban marker, the score, the dial backoff (consecutive failures and
last attempt) and the two clocks of staleness and score decay.  The scoring crate
(`vertex_swarm_peer_score`) is a parameter (`Scoring`): its score state, the value compared when
choosing a replacement victim, and the outcome of an event.  So is the jittered backoff window of
`PeerBackoff`, which is computed in floating point.

Lifecycle events are appended to `events` in emission order.  Metrics and log lines are left out,
as is the snapshot store, which only writes.
-/

namespace VertexSwarm.Peers

open BigEndian

/-! ## Records and configuration -/

/-- A signed peer record as the manager reads it: its overlay and signed timestamp (`SwarmPeer`;
the multiaddrs, signature, nonce and chequebook ride along unread). -/
structure SwarmPeer where
  overlay : OverlayAddress
  timestamp : ℤ
deriving DecidableEq

/-- `ScoreOutcome`: the action a score change implies. -/
inductive ScoreOutcome where
  | ok
  | warn
  | disconnect
  | ban
deriving DecidableEq

/-- The scoring crate as the manager calls it: a fresh score, its `f64` value (`score()`, compared
when choosing a replacement victim and tested against zero before a decay), recording an event,
decaying over a half-life, and the unban path's reset to the disconnect threshold. -/
structure Scoring (σ ε : Type) where
  fresh : σ
  value : σ → Float
  recordEvent : ε → σ → ScoreOutcome × σ
  decay : ℕ → ℕ → σ → σ
  resetToDisconnect : σ → σ
  connectionSuccess : ε

/-- `PeerManagerConfig`, as far as the modelled operations read it, with the backoff window
`PeerBackoff` grants a peer after a number of consecutive failures. -/
structure PeerManagerConfig (σ ε : Type) where
  banDuration : ℕ
  scoring : Scoring σ ε
  backoffSecs : OverlayAddress → ℕ → ℕ

/-- `STALE_THRESHOLD_SECS`. -/
def staleThresholdSecs : ℕ := 24 * 3600

/-- `STALE_FAILURE_THRESHOLD`. -/
def staleFailureThreshold : ℕ := 48

/-- `UNVERIFIED_STALE_FAILURE_THRESHOLD`. -/
def unverifiedStaleFailureThreshold : ℕ := 3

/-- `DISCONNECTED_SCORE_HALF_LIFE_SECS`. -/
def disconnectedScoreHalfLifeSecs : ℕ := 600

/-- `CONNECTED_SCORE_HALF_LIFE_SECS`. -/
def connectedScoreHalfLifeSecs : ℕ := 300

/-- `MAX_CLOCK_SKEW`. -/
def maxClockSkew : ℤ := 60

/-- `MIN_UPDATE_INTERVAL`. -/
def minUpdateInterval : ℤ := 300

/-- `TimestampRejection`. -/
inductive TimestampRejection where
  | invalid
  | inFuture
  | stale
  | tooSoon
deriving DecidableEq

/-- `check_timestamp`: the gossip timestamp policy. -/
def checkTimestamp (candidate : ℤ) (existing : Option ℤ) (now : ℤ) :
    Except TimestampRejection Unit :=
  if candidate ≤ 0 then .error .invalid
  else if candidate > now + maxClockSkew then .error .inFuture
  else
    match existing with
    | some stored =>
      if stored > 0 then
        if candidate ≤ stored then .error .stale
        else if candidate ≤ stored + minUpdateInterval then .error .tooSoon
        else .ok ()
      else .ok ()
    | none => .ok ()

/-! ## Peer entries -/

/-- `PeerEntry`, with the fields the manager reads. -/
structure PeerEntry (σ : Type) where
  peer : SwarmPeer
  verified : Bool
  connectedSince : ℕ
  banned : Bool
  score : σ
  failures : ℕ
  lastAttempt : ℕ
  lastSeen : ℕ
  lastDecay : ℕ

namespace PeerEntry

variable {σ : Type}

/-- `PeerEntry::with_config`: unverified, disconnected, unbanned, fresh score, no failures. -/
def withConfig (peer : SwarmPeer) (fresh : σ) (clock : ℕ) : PeerEntry σ :=
  ⟨peer, false, 0, false, fresh, 0, 0, clock, clock⟩

/-- `is_connected`. -/
def isConnected (entry : PeerEntry σ) : Bool := entry.connectedSince ≠ 0

/-- `is_stale`: no failures is never stale; otherwise the failure budget of the verified bit, or
a day unseen. -/
def isStale (entry : PeerEntry σ) (clock : ℕ) : Bool :=
  if entry.failures = 0 then false
  else if entry.failures ≥
      (if entry.verified then staleFailureThreshold else unverifiedStaleFailureThreshold) then true
  else clock - entry.lastSeen > staleThresholdSecs

/-- `is_in_backoff`: a failed peer waits out its backoff window from the last attempt. -/
def isInBackoff (entry : PeerEntry σ) (backoffSecs : ℕ → ℕ) (clock : ℕ) : Bool :=
  entry.failures ≠ 0 ∧ clock < entry.lastAttempt + backoffSecs entry.failures

/-- `is_dialable`. -/
def isDialable (entry : PeerEntry σ) (backoffSecs : ℕ → ℕ) (clock : ℕ) : Bool :=
  !entry.banned && !entry.isInBackoff backoffSecs clock

/-- `update_addresses`: the new record, and a refreshed `last_seen` only without failures. -/
def updateAddresses (entry : PeerEntry σ) (peer : SwarmPeer) (clock : ℕ) : PeerEntry σ :=
  { entry with peer, lastSeen := if entry.failures = 0 then clock else entry.lastSeen }

/-- `record_dial_failure`. -/
def recordDialFailure (entry : PeerEntry σ) (clock : ℕ) : PeerEntry σ :=
  { entry with failures := entry.failures + 1, lastAttempt := clock }

/-- `set_connected`: the connection stamp, failures reset, `last_seen` refreshed. -/
def setConnected (entry : PeerEntry σ) (clock : ℕ) : PeerEntry σ :=
  { entry with connectedSince := clock, failures := 0, lastSeen := clock }

/-- `decay_score`: the decay clock always advances; a banned or zero score is not decayed. -/
def decayScore {ε : Type} (entry : PeerEntry σ) (scoring : Scoring σ ε) (now : ℕ) :
    PeerEntry σ :=
  let elapsed := now - entry.lastDecay
  if elapsed = 0 ∨ entry.banned ∨ scoring.value entry.score == 0.0 then
    { entry with lastDecay := now }
  else
    let halfLife :=
      if entry.isConnected then connectedScoreHalfLifeSecs else disconnectedScoreHalfLifeSecs
    { entry with lastDecay := now, score := scoring.decay halfLife elapsed entry.score }

end PeerEntry

/-- `PeerSnapshot`: what the snapshot store keeps of a peer. -/
structure PeerSnapshot where
  peer : SwarmPeer
  lastSeen : ℕ

/-- `PeerEntry::from_snapshot`: identity only; everything else starts afresh. -/
def PeerEntry.fromSnapshot {σ : Type} (snapshot : PeerSnapshot) (fresh : σ) (clock : ℕ) :
    PeerEntry σ :=
  ⟨snapshot.peer, false, 0, false, fresh, 0, 0, snapshot.lastSeen, clock⟩

/-! ## The manager -/

/-- `PeerLifecycleEvent`, by the overlay it names (and a ban's expiry). -/
inductive PeerLifecycleEvent where
  | connected (overlay : OverlayAddress)
  | disconnected (overlay : OverlayAddress)
  | scoreWarning (overlay : OverlayAddress)
  | disconnectRequested (overlay : OverlayAddress)
  | banned (overlay : OverlayAddress) (expiry : Option ℕ)
  | unbanned (overlay : OverlayAddress)
deriving DecidableEq

/-- `PeerManager`: the records, the proximity index over them, the banned set, and the events
emitted so far. -/
structure PeerManager (σ : Type) where
  index : ProximityIndex
  peers : OrderedTable OverlayAddress (PeerEntry σ)
  bannedSet : OrderedTable OverlayAddress (Option ℕ)
  events : List PeerLifecycleEvent

namespace PeerManager

variable {σ ε : Type} (config : PeerManagerConfig σ ε)

/-- `PeerManager::new` without a store: an empty index filing by `proximity`, no records, no
bans. -/
def new (proximity : Proximity) (localOverlay : OverlayAddress) (maxPo maxPerBin : ℕ) :
    PeerManager σ :=
  ⟨ProximityIndex.new proximity localOverlay maxPo maxPerBin, .empty, .empty, []⟩

/-- `emit`. -/
def emit (s : PeerManager σ) (event : PeerLifecycleEvent) : PeerManager σ :=
  { s with events := s.events ++ [event] }

/-- `is_banned`: the banned set holds the overlay. -/
def isBanned (s : PeerManager σ) (overlay : OverlayAddress) : Bool := (s.bannedSet.get overlay).isSome

/-- Apply `f` to the record of `overlay`, if there is one. -/
def modifyEntry (s : PeerManager σ) (overlay : OverlayAddress) (f : PeerEntry σ → PeerEntry σ) :
    PeerManager σ :=
  match s.peers.get overlay with
  | some entry => { s with peers := s.peers.put overlay (f entry) }
  | none => s

/-- `ban_with_expiry`: a second ban is a no-op; a first one enters the banned set, marks the
record if there is one, and emits `Banned`. -/
def banWithExpiry (s : PeerManager σ) (overlay : OverlayAddress) (expiry : Option ℕ) :
    PeerManager σ :=
  match s.bannedSet.get overlay with
  | some _ => s
  | none =>
    let s := { s with bannedSet := s.bannedSet.put overlay expiry }
    let s := match s.peers.get overlay with
      | some entry =>
        if !entry.banned then { s with peers := s.peers.put overlay { entry with banned := true } }
        else s
      | none => s
    s.emit (.banned overlay expiry)

/-- `ban`: a timed ban of `ban_duration` from now. -/
def ban (s : PeerManager σ) (overlay : OverlayAddress) (clock : ℕ) : PeerManager σ :=
  s.banWithExpiry overlay (some (clock + config.banDuration))

/-- `ban_permanent`. -/
def banPermanent (s : PeerManager σ) (overlay : OverlayAddress) : PeerManager σ :=
  s.banWithExpiry overlay none

/-- `unban`: clear the record's ban and reset its score; leave the banned set and emit
`Unbanned` only if the overlay was in it. -/
def unban (s : PeerManager σ) (overlay : OverlayAddress) : PeerManager σ :=
  let s := s.modifyEntry overlay fun entry ↦
    { entry with banned := false, score := config.scoring.resetToDisconnect entry.score }
  match s.bannedSet.get overlay with
  | some _ => { s with bannedSet := s.bannedSet.delete overlay }.emit (.unbanned overlay)
  | none => s

/-- `remove_peer`: out of the records, the index and the banned set. -/
def removePeer (s : PeerManager σ) (overlay : OverlayAddress) : PeerManager σ :=
  { s with
    peers := s.peers.delete overlay
    index := (s.index.remove overlay).2
    bannedSet := s.bannedSet.delete overlay }

/-- The scan of `find_replaceable` over the rest of a bin, given the best candidate so far: an
index entry without a record is taken at once, connected peers are skipped, and a candidate is
better when it is stale and the best is not, or equally stale with a lower score. -/
def findReplaceableFrom (s : PeerManager σ) (clock : ℕ) :
    Option (OverlayAddress × Bool × Float) → List OverlayAddress → Option OverlayAddress
  | best, [] => best.map (·.1)
  | best, overlay :: rest =>
    match s.peers.get overlay with
    | none => some overlay
    | some entry =>
      if entry.isConnected then s.findReplaceableFrom clock best rest
      else
        let stale := entry.isStale clock
        let score := config.scoring.value entry.score
        let better := match best with
          | none => true
          | some (_, bestStale, bestScore) =>
            (stale && !bestStale) || (stale == bestStale && decide (score < bestScore))
        s.findReplaceableFrom clock (if better then some (overlay, stale, score) else best) rest

/-- `find_replaceable`: the worst disconnected member of `bin`. -/
def findReplaceable (s : PeerManager σ) (bin : ℕ) (clock : ℕ) : Option OverlayAddress :=
  s.findReplaceableFrom config clock none (s.index.peersInBin bin)

end PeerManager

/-- `admit`: into the index, replacing the worst disconnected member of a full bin. -/
def PeerManager.admit {σ ε : Type} (config : PeerManagerConfig σ ε) (s : PeerManager σ)
    (overlay : OverlayAddress) (clock : ℕ) : Bool × PeerManager σ :=
  match s.index.add overlay with
  | .ok index => (true, { s with index })
  | .error .alreadyPresent => (true, s)
  | .error .binFull =>
    match s.findReplaceable config (s.index.binFor overlay) clock with
    | none => (false, s)
    | some victim =>
      let s := s.removePeer victim
      match s.index.add overlay with
      | .ok index => (true, { s with index })
      | .error .alreadyPresent => (true, s)
      | .error .binFull => (false, s)

namespace PeerManager

variable {σ ε : Type} (config : PeerManagerConfig σ ε)

/-- `insert_peer`: refresh a known record, or admit and create a new one; `false` when the bin
is full of connected peers. -/
def insertPeer (s : PeerManager σ) (overlay : OverlayAddress) (peer : SwarmPeer) (clock : ℕ) :
    Bool × PeerManager σ :=
  match s.peers.get overlay with
  | some existing => (true, { s with peers := s.peers.put overlay (existing.updateAddresses peer clock) })
  | none =>
    match  PeerManager.admit config s overlay clock with
    | (false, s) => (false, s)
    | (true, s) =>
      match s.peers.get overlay with
      | some existing =>
        (true, { s with peers := s.peers.put overlay (existing.updateAddresses peer clock) })
      | none =>
        (true, { s with
          peers := s.peers.put overlay (PeerEntry.withConfig peer config.scoring.fresh clock) })

/-- `reject_stale_gossip`. -/
def rejectStaleGossip (candidate : ℤ) (existing : Option ℤ) (clock : ℕ) : Bool :=
  match checkTimestamp candidate existing clock with
  | .ok () => false
  | .error _ => true

/-- `store_discovered_peer`: a known record is refreshed unless the gossip timestamp policy
rejects it; an unknown one goes through `insert_peer`. -/
def storeDiscoveredPeer (s : PeerManager σ) (peer : SwarmPeer) (clock : ℕ) : PeerManager σ :=
  match s.peers.get peer.overlay with
  | some entry =>
    if rejectStaleGossip peer.timestamp (some entry.peer.timestamp) clock then s
    else { s with peers := s.peers.put peer.overlay (entry.updateAddresses peer clock) }
  | none => (s.insertPeer config peer.overlay peer clock).2

/-- `record_dial_failure`. -/
def recordDialFailure (s : PeerManager σ) (overlay : OverlayAddress) (clock : ℕ) :
    PeerManager σ :=
  s.modifyEntry overlay (·.recordDialFailure clock)

/-- `report_peer`: dropped for a banned or unknown peer; otherwise the event is scored and its
outcome acted on. -/
def reportPeer (s : PeerManager σ) (overlay : OverlayAddress) (event : ε) (clock : ℕ) :
    PeerManager σ :=
  if s.isBanned overlay then s
  else
    match s.peers.get overlay with
    | none => s
    | some entry =>
      let (outcome, score) := config.scoring.recordEvent event entry.score
      let entry := { entry with score }
      let s := { s with peers := s.peers.put overlay entry }
      match outcome with
      | .ok => s
      | .warn => s.emit (.scoreWarning overlay)
      | .disconnect =>
        { s with peers := s.peers.put overlay (entry.recordDialFailure clock) }.emit
          (.disconnectRequested overlay)
      | .ban => s.ban config overlay clock

/-- `on_peer_connected`: insert, verify, stamp the connection, emit `Connected` and report the
success. -/
def onPeerConnected (s : PeerManager σ) (peer : SwarmPeer) (clock : ℕ) : PeerManager σ :=
  match s.insertPeer config peer.overlay peer clock with
  | (false, s) => s
  | (true, s) =>
    let s := s.modifyEntry peer.overlay fun entry ↦ { entry.setConnected clock with verified := true }
    (s.emit (.connected peer.overlay)).reportPeer config peer.overlay
      config.scoring.connectionSuccess clock

/-- `on_peer_disconnected`. -/
def onPeerDisconnected (s : PeerManager σ) (overlay : OverlayAddress) : PeerManager σ :=
  (s.modifyEntry overlay fun entry ↦ { entry with connectedSince := 0 }).emit
    (.disconnected overlay)

/-- `on_dialed_overlay_mismatch`: a verified record takes a dial failure, an unverified one is
removed. -/
def onDialedOverlayMismatch (s : PeerManager σ) (dialed : OverlayAddress) (clock : ℕ) :
    PeerManager σ :=
  match s.peers.get dialed with
  | none => s
  | some entry => if entry.verified then s.recordDialFailure dialed clock else s.removePeer dialed

/-- `decay_scores`. -/
def decayScores (s : PeerManager σ) (now : ℕ) : PeerManager σ :=
  { s with peers := s.peers.mapValues fun _ entry ↦ entry.decayScore config.scoring now }

/-- `expire_bans`: unban every timed ban whose expiry has passed. -/
def expireBans (s : PeerManager σ) (now : ℕ) : PeerManager σ :=
  let expired := (s.bannedSet.rows.filter fun row ↦
    match row.2 with
    | some expiry => decide (now ≥ expiry)
    | none => false).map Prod.fst
  expired.foldl (fun s overlay ↦ s.unban config overlay) s

/-- `purge_stale`: remove every stale record. -/
def purgeStale (s : PeerManager σ) (clock : ℕ) : PeerManager σ :=
  let stale := (s.peers.rows.filter fun row ↦ row.2.isStale clock).map Prod.fst
  stale.foldl (fun s overlay ↦ s.removePeer overlay) s

/-- `tick`: decay, expire bans, purge stale records. -/
def tick (s : PeerManager σ) (now clock : ℕ) : PeerManager σ :=
  ((s.decayScores config now).expireBans config now).purgeStale clock

/-- `load_from_store`: seed the records from a snapshot, dropping what the index refuses. -/
def loadFromStore (s : PeerManager σ) (records : List PeerSnapshot) (clock : ℕ) : PeerManager σ :=
  records.foldl (fun s snapshot ↦
    match s.index.add snapshot.peer.overlay with
    | .ok index =>
      { s with
        index
        peers := s.peers.put snapshot.peer.overlay
          (PeerEntry.fromSnapshot snapshot config.scoring.fresh clock) }
    | .error _ => s) s

/-! ## Dialable-peer queries -/

/-- `get_dialable_peers`: the records of the candidates that are neither banned nor backing off. -/
def getDialablePeers (s : PeerManager σ) (candidates : List OverlayAddress) (clock : ℕ) :
    List SwarmPeer :=
  candidates.filterMap fun overlay ↦
    if s.isBanned overlay then none
    else
      match s.peers.get overlay with
      | some entry =>
        if entry.isDialable (config.backoffSecs overlay) clock then some entry.peer else none
      | none => none

/-- `eligible_peers`: the overlays whose record is dialable. -/
def eligiblePeers (s : PeerManager σ) (clock : ℕ) : List OverlayAddress :=
  (s.peers.rows.filter fun row ↦ row.2.isDialable (config.backoffSecs row.1) clock).map Prod.fst

/-- `dialable_overlays_in_bin`. -/
def dialableOverlaysInBin (s : PeerManager σ) (bin : ℕ) (clock : ℕ) : List OverlayAddress :=
  (s.index.peersInBin bin).filter fun overlay ↦
    !s.isBanned overlay &&
      match s.peers.get overlay with
      | some entry => entry.isDialable (config.backoffSecs overlay) clock
      | none => false

/-- `peer_is_in_backoff`: a known peer whose record is backing off. -/
def peerIsInBackoff (s : PeerManager σ) (overlay : OverlayAddress) (clock : ℕ) : Bool :=
  match s.peers.get overlay with
  | some entry => entry.isInBackoff (config.backoffSecs overlay) clock
  | none => false

/-- `dialable_overlays_in_bin_excluding`: the dialable overlays of a bin that `exclude` does not
reject, in the index's order. -/
def dialableOverlaysInBinExcluding (s : PeerManager σ) (bin : ℕ) (exclude : OverlayAddress → Bool)
    (clock : ℕ) : List OverlayAddress :=
  (s.index.peersInBin bin).filter fun overlay ↦
    !s.isBanned overlay && !exclude overlay &&
      match s.peers.get overlay with
      | some entry => entry.isDialable (config.backoffSecs overlay) clock
      | none => false

/-! ## What each operation does to the state

The spec lemmas later proofs cite: each operation's effect on the fields, one lemma per branch
that matters, so that no caller unfolds an operation. -/

@[simp] theorem bannedSet_emit (s : PeerManager σ) (e : PeerLifecycleEvent) :
    (s.emit e).bannedSet = s.bannedSet := rfl

@[simp] theorem events_emit (s : PeerManager σ) (e : PeerLifecycleEvent) :
    (s.emit e).events = s.events ++ [e] := rfl

@[simp] theorem peers_emit (s : PeerManager σ) (e : PeerLifecycleEvent) :
    (s.emit e).peers = s.peers := rfl

@[simp] theorem index_emit (s : PeerManager σ) (e : PeerLifecycleEvent) :
    (s.emit e).index = s.index := rfl

/-- `modify_entry` touches only the record. -/
theorem modifyEntry_eq (s : PeerManager σ) (o : OverlayAddress) (f : PeerEntry σ → PeerEntry σ) :
    ∃ peers, s.modifyEntry o f = { s with peers } := by
  unfold modifyEntry
  split
  · exact ⟨_, rfl⟩
  · exact ⟨s.peers, rfl⟩

@[simp] theorem bannedSet_modifyEntry (s : PeerManager σ) (o : OverlayAddress)
    (f : PeerEntry σ → PeerEntry σ) : (s.modifyEntry o f).bannedSet = s.bannedSet := by
  obtain ⟨peers, h⟩ := s.modifyEntry_eq o f
  rw [h]

@[simp] theorem events_modifyEntry (s : PeerManager σ) (o : OverlayAddress)
    (f : PeerEntry σ → PeerEntry σ) : (s.modifyEntry o f).events = s.events := by
  obtain ⟨peers, h⟩ := s.modifyEntry_eq o f
  rw [h]

@[simp] theorem index_modifyEntry (s : PeerManager σ) (o : OverlayAddress)
    (f : PeerEntry σ → PeerEntry σ) : (s.modifyEntry o f).index = s.index := by
  obtain ⟨peers, h⟩ := s.modifyEntry_eq o f
  rw [h]

@[simp] theorem bannedSet_removePeer (s : PeerManager σ) (o : OverlayAddress) :
    (s.removePeer o).bannedSet = s.bannedSet.delete o := rfl

@[simp] theorem events_removePeer (s : PeerManager σ) (o : OverlayAddress) :
    (s.removePeer o).events = s.events := rfl

@[simp] theorem peers_removePeer (s : PeerManager σ) (o : OverlayAddress) :
    (s.removePeer o).peers = s.peers.delete o := rfl

@[simp] theorem index_removePeer (s : PeerManager σ) (o : OverlayAddress) :
    (s.removePeer o).index = (s.index.remove o).2 := rfl

@[simp] theorem bannedSet_decayScores (s : PeerManager σ) (now : ℕ) :
    (s.decayScores config now).bannedSet = s.bannedSet := rfl

@[simp] theorem events_decayScores (s : PeerManager σ) (now : ℕ) :
    (s.decayScores config now).events = s.events := rfl

@[simp] theorem index_decayScores (s : PeerManager σ) (now : ℕ) :
    (s.decayScores config now).index = s.index := rfl

theorem banWithExpiry_of_banned {s : PeerManager σ} {o : OverlayAddress} (expiry : Option ℕ)
    (h : s.isBanned o = true) : s.banWithExpiry o expiry = s := by
  obtain ⟨old, hold⟩ := Option.isSome_iff_exists.mp h
  simp only [banWithExpiry, hold]

/-- A first ban enters the banned set with its expiry, marks an unbanned record, and emits
`Banned`. -/
theorem banWithExpiry_of_not_banned {s : PeerManager σ} {o : OverlayAddress} {e : PeerEntry σ}
    (expiry : Option ℕ) (h : s.bannedSet.get o = none) (hentry : s.peers.get o = some e)
    (hfree : e.banned = false) :
    s.banWithExpiry o expiry =
      { s with
        bannedSet := s.bannedSet.put o expiry
        peers := s.peers.put o { e with banned := true }
        events := s.events ++ [.banned o expiry] } := by
  simp only [banWithExpiry, h, hentry, hfree, Bool.not_false, ite_true]
  rfl

/-- `unban` resets the record and takes the overlay out of the banned set; it emits `Unbanned`
exactly when the overlay was there. -/
theorem events_unban (s : PeerManager σ) (o : OverlayAddress) :
    (s.unban config o).events =
      if (s.bannedSet.get o).isSome then s.events ++ [.unbanned o] else s.events := by
  cases h : s.bannedSet.get o with
  | none => simp [unban, h]
  | some expiry => simp [unban, h]

theorem bannedSet_unban (s : PeerManager σ) (o : OverlayAddress) :
    (s.unban config o).bannedSet = s.bannedSet.delete o := by
  cases h : s.bannedSet.get o with
  | none =>
    simp only [unban, bannedSet_modifyEntry, h]
    exact (OrderedTable.ext_rows (OrderedTable.delete_rows_of_get_none h)).symm
  | some expiry => simp [unban, h]

/-- A record is created by `insert_peer` when the overlay is unknown and the index takes it. -/
theorem insertPeer_of_add {s : PeerManager σ} {o : OverlayAddress} {index : ProximityIndex}
    (peer : SwarmPeer) (clock : ℕ) (hget : s.peers.get o = none)
    (hadd : s.index.add o = .ok index) :
    s.insertPeer config o peer clock =
      (true, { s with
        index
        peers := s.peers.put o (PeerEntry.withConfig peer config.scoring.fresh clock) }) := by
  simp only [insertPeer, hget, hadd,  PeerManager.admit]

/-- Gossip of an unknown overlay goes through `insert_peer`. -/
theorem storeDiscoveredPeer_of_unknown {s : PeerManager σ} {peer : SwarmPeer} (clock : ℕ)
    (hget : s.peers.get peer.overlay = none) :
    s.storeDiscoveredPeer config peer clock = (s.insertPeer config peer.overlay peer clock).2 := by
  simp only [storeDiscoveredPeer, hget]

theorem onDialedOverlayMismatch_of_unverified {s : PeerManager σ} {o : OverlayAddress}
    {e : PeerEntry σ} (clock : ℕ) (hget : s.peers.get o = some e) (hv : e.verified = false) :
    s.onDialedOverlayMismatch o clock = s.removePeer o := by
  simp only [onDialedOverlayMismatch, hget, hv, Bool.false_eq_true, ite_false]

/-- The candidates that `get_dialable_peers` yields: unbanned, with a dialable record. -/
theorem mem_getDialablePeers {s : PeerManager σ} {candidates : List OverlayAddress} {clock : ℕ}
    {peer : SwarmPeer} :
    peer ∈ s.getDialablePeers config candidates clock ↔
      ∃ o ∈ candidates, s.isBanned o = false ∧ ∃ e, s.peers.get o = some e ∧
        e.isDialable (config.backoffSecs o) clock = true ∧ e.peer = peer := by
  simp only [getDialablePeers, List.mem_filterMap]
  refine exists_congr fun o ↦ and_congr_right fun _ ↦ ?_
  cases hb : s.isBanned o <;> cases s.peers.get o <;> simp

/-! ## Runs -/

/-- One call into the manager. -/
inductive PeerOp (ε : Type) where
  | storeDiscoveredPeer (peer : SwarmPeer) (clock : ℕ)
  | onPeerConnected (peer : SwarmPeer) (clock : ℕ)
  | onPeerDisconnected (overlay : OverlayAddress)
  | onDialedOverlayMismatch (overlay : OverlayAddress) (clock : ℕ)
  | reportPeer (overlay : OverlayAddress) (event : ε) (clock : ℕ)
  | recordDialFailure (overlay : OverlayAddress) (clock : ℕ)
  | ban (overlay : OverlayAddress) (clock : ℕ)
  | banPermanent (overlay : OverlayAddress)
  | tick (now clock : ℕ)

/-- The manager after one call. -/
def step (s : PeerManager σ) : PeerOp ε → PeerManager σ
  | .storeDiscoveredPeer peer clock => s.storeDiscoveredPeer config peer clock
  | .onPeerConnected peer clock => s.onPeerConnected config peer clock
  | .onPeerDisconnected overlay => s.onPeerDisconnected overlay
  | .onDialedOverlayMismatch overlay clock => s.onDialedOverlayMismatch overlay clock
  | .reportPeer overlay event clock => s.reportPeer config overlay event clock
  | .recordDialFailure overlay clock => s.recordDialFailure overlay clock
  | .ban overlay clock => s.ban config overlay clock
  | .banPermanent overlay => s.banPermanent overlay
  | .tick now clock => s.tick config now clock

/-- The manager after the calls `ops`, one at a time. -/
def run (s : PeerManager σ) (ops : List (PeerOp ε)) : PeerManager σ := ops.foldl (step config) s

@[simp]
theorem run_nil (s : PeerManager σ) : run config s [] = s := rfl

@[simp]
theorem run_append_singleton (s : PeerManager σ) (ops : List (PeerOp ε)) (op : PeerOp ε) :
    run config s (ops ++ [op]) = step config (run config s ops) op := by
  simp [run, List.foldl_append]

end PeerManager

end VertexSwarm.Peers
