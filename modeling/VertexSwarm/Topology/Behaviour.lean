import VertexSwarm.Net.DialTracker
import VertexSwarm.Net.PeerRegistry
import VertexSwarm.Topology.Routing

/-!
# The topology behaviour's connection handlers

`topology/src/dialing.rs`, `connection_handlers.rs` and `protocol_handlers.rs`: how
`TopologyBehaviour` moves its three tables of connection state as events reach it.  A dial to a
known overlay reserves routing capacity (`try_reserve_dial`) and registers the dial in the
`DialTracker`; the swarm's `ConnectionEstablished` resolves an outbound dial into the
`PeerRegistry` and moves the routing phase on to handshaking, or registers an inbound connection
as pending; a completed handshake activates the registry state and the routing phase; a dial
failure, a failed handshake, a peer's last `ConnectionClosed` and the cleanup tick release what
they find.  Each handler runs to its end before the next event and is one step here.

What the handlers read outside the three tables is a parameter: the multiaddr parsers
(`extract_peer_id` and the IP version), the dial capability's address filter and the peer
manager's ban list.  What they write elsewhere (metrics, events, gossip, scores, close reasons,
reachability, the swarm actions they queue) is left out.  The swarm around the behaviour is the
list of connections it holds open and the connection ids it has issued: it establishes a
connection under a fresh id, at most two per peer, and reports on closing how many of the peer's
connections stay open (`Swarm.Delivers`).

A handshaking routing entry is meant to stand for a live registry state carrying its overlay,
and is not always one: when an inbound connection of a peer is registered while our dial to it is in flight, the
outbound connection the dial then makes is refused by the registry (`connected_outbound` finds
the peer tracked) while the routing moves the dialed overlay to handshaking
(`handleConnectionEstablished_of_tracked`); the close of the peer's last connection removes the
inbound state, which carries no overlay, and releases nothing
(`handleConnectionClosed_of_unknown`).  The overlay then stays handshaking with no connection
and no dial behind it (`handshaking_outlives_connections`).
-/

namespace VertexSwarm.Topology

open Keyed Net

/-- `HANDSHAKE_TIMEOUT`, in nanoseconds. -/
def handshakeTimeout : ℕ := 15 * 10 ^ 9

/-- `DialTarget`: a stored record, which knows its overlay, or a bare multiaddr. -/
inductive DialTarget (A : Type)
  | known (overlay : Peers.OverlayAddress) (multiaddrs : List A)
  | unknown (addr : A)

namespace DialTarget

variable {P A : Type}

/-- `peer_id`: the first `/p2p/` component among the addresses. -/
def peerId (extractPeerId : A → Option P) : DialTarget A → Option P
  | known _ multiaddrs => multiaddrs.findSome? extractPeerId
  | unknown addr => extractPeerId addr

/-- `overlay`. -/
def overlay : DialTarget A → Option Peers.OverlayAddress
  | known overlay _ => some overlay
  | unknown _ => none

/-- `addrs`. -/
def addrs : DialTarget A → List A
  | known _ multiaddrs => multiaddrs
  | unknown addr => [addr]

end DialTarget

namespace KademliaRouting

variable (r : KademliaRouting)

/-- `if let Some(overlay) = &request.id { self.routing.release_dial(overlay) }`. -/
def releaseDialOf : Option Peers.OverlayAddress → KademliaRouting
  | some overlay => r.releaseDial overlay
  | none => r

/-- `if let Some(overlay) = &state.id() { self.routing.release_handshake(overlay) }`. -/
def releaseHandshakeOf : Option Peers.OverlayAddress → KademliaRouting
  | some overlay => r.releaseHandshake overlay
  | none => r

end KademliaRouting

/-- The connection state of `TopologyBehaviour`: the routing, the dial tracker, whose requests
carry the dialed overlay and the dial reason, and the connection registry, whose states carry the
reason of the dial that opened them. -/
structure TopologyBehaviour (P C A D : Type) where
  routing : KademliaRouting
  dialTracker : DialTracker Peers.OverlayAddress P A D
  connectionRegistry : PeerRegistry Peers.OverlayAddress P C (Option D)

/-- The events that reach `TopologyBehaviour`, each with the clock reading of the handler that
reads `Instant::now()`: a dial it issues, the swarm's connection events, the handshake outcome its
connection handler reports, and the cleanup tick. -/
inductive BehaviourEvent (P C A D : Type)
  | dial (target : DialTarget A) (reason : D) (now : ℕ)
  | connectionEstablished (peerId : P) (connectionId : C) (dialer : Bool) (now : ℕ)
  | connectionClosed (peerId : P) (connectionId : C) (remainingEstablished : ℕ)
  | dialFailure (peerId : Option P)
  | handshakeCompleted (peerId : P) (connectionId : C) (overlay : Peers.OverlayAddress) (now : ℕ)
  | handshakeFailed (peerId : P)
  | cleanupStalePending (now : ℕ)

namespace TopologyBehaviour

variable {P C A D : Type} [DecidableEq P] [DecidableEq C]

/-- The tables of a new `TopologyBehaviour`, at `now`. -/
def new (proximity : Peers.Proximity) (localOverlay : Peers.OverlayAddress) (maxPo : ℕ)
    (limits : DepthAwareLimits) (config : DialTrackerConfig) (now : ℕ) : TopologyBehaviour P C A D :=
  ⟨.new proximity localOverlay maxPo limits, .new config now, .new⟩

section Handlers

variable (ipVersion : A → Option IpVersion) (extractPeerId : A → Option P) (canDial : A → Bool)
  (isBanned : Peers.OverlayAddress → Bool) (b : TopologyBehaviour P C A D)

/-- `is_peer_tracked`: registered, queued or in flight. -/
def isPeerTracked (peerId : P) : Bool :=
  b.connectionRegistry.containsPeer peerId || b.dialTracker.containsPeer peerId

/-- `dial`, at `now`: skipped for a target with no `PeerId` and for a tracked peer; a known
overlay reserves routing capacity first, which is released when `prepare_and_start` refuses. -/
def dial (target : DialTarget A) (reason : D) (now : ℕ) : TopologyBehaviour P C A D :=
  match target.peerId extractPeerId with
  | none => b
  | some peerId =>
    if b.isPeerTracked peerId then b
    else
      let reserved : Option KademliaRouting := match target.overlay with
        | some overlay =>
          let reservation := b.routing.tryReserveDial overlay
          if reservation.1 then some reservation.2 else none
        | none => some b.routing
      match reserved with
      | none => b
      | some routing =>
        match b.dialTracker.prepareAndStart ipVersion target.overlay peerId target.addrs reason
            canDial now with
        | (.ok _, dialTracker) => { b with routing, dialTracker }
        | (.error _, _) => { b with routing := routing.releaseDialOf target.overlay }

/-- `handle_connection_established`, at `now`: an outbound connection resolves its dial, is
registered, and moves the dialed overlay on to handshaking whether or not the registry took it;
an inbound one is registered as pending. -/
def handleConnectionEstablished (peerId : P) (connectionId : C) (dialer : Bool) (now : ℕ) :
    TopologyBehaviour P C A D :=
  if dialer then
    match b.dialTracker.resolve peerId with
    | (none, _) => b
    | (some request, dialTracker) =>
      let connectionRegistry := (b.connectionRegistry.connectedOutbound peerId connectionId
        request.id request.queuedAt (some request.data)).2
      let routing := match request.id with
        | some overlay => b.routing.dialConnected overlay
        | none => b.routing
      ⟨routing, dialTracker, connectionRegistry⟩
  else
    { b with connectionRegistry := (b.connectionRegistry.connectedInbound peerId connectionId now).2 }

/-- `handle_connection_closed`: nothing moves while the peer keeps a connection; at its last,
the registry gives up the peer's state, and the overlay that state carries, if any, leaves its
routing phase and the connected-peer index. -/
def handleConnectionClosed (peerId : P) (remainingEstablished : ℕ) : TopologyBehaviour P C A D :=
  if 0 < remainingEstablished then b
  else
    let removed := b.connectionRegistry.disconnected peerId
    match removed.1.bind ConnectionState.id with
    | none => { b with connectionRegistry := removed.2 }
    | some overlay =>
      { b with
        routing := (b.routing.disconnected overlay).peerDisconnected overlay
        connectionRegistry := removed.2 }

/-- `handle_dial_failure`: the failed dial is resolved and its overlay's dial released. -/
def handleDialFailure (peerId : Option P) : TopologyBehaviour P C A D :=
  match peerId with
  | none => b
  | some peerId =>
    match b.dialTracker.resolve peerId with
    | (none, _) => b
    | (some request, dialTracker) => { b with routing := b.routing.releaseDialOf request.id, dialTracker }

/-- `on_handshake_failed`: the registry gives up the peer's state, and the overlay it carries is
released from handshaking. -/
def onHandshakeFailed (peerId : P) : TopologyBehaviour P C A D :=
  let removed := b.connectionRegistry.disconnected peerId
  { b with
    routing := b.routing.releaseHandshakeOf (removed.1.bind ConnectionState.id)
    connectionRegistry := removed.2 }

/-- `cleanup_stale_pending`, at `now`: the timed-out dials leave the tracker and release their
overlays; then each peer pending longer than the handshake timeout is dropped, by a loop body
that moves the tables as `on_handshake_failed` does. -/
def cleanupStalePending (now : ℕ) : TopologyBehaviour P C A D :=
  let cleanup := b.dialTracker.cleanupExpired now
  let b := { b with
    routing := cleanup.1.timedOutInFlight.foldl
      (fun (routing : KademliaRouting) (request : DialRequest _ P A D) ↦ routing.releaseDialOf request.id)
      b.routing
    dialTracker := cleanup.2 }
  (b.connectionRegistry.stalePending handshakeTimeout now).foldl onHandshakeFailed b

/-- `on_handshake_completed`, at `now`, for the overlay the handshake asserted.  A banned overlay
is closed (`close_peer`) and nothing moves.  A dialed record whose handshake asserted another
overlay gives up the dialed overlay's reservation and reserves the asserted one as inbound.  An
inbound connection is closed when the asserted overlay's bin has no room, and otherwise reserved;
the registry state is then activated, and the overlay goes active and joins the connected
peers. -/
def onHandshakeCompleted (peerId : P) (connectionId : C) (overlay : Peers.OverlayAddress)
    (now : ℕ) : TopologyBehaviour P C A D :=
  let registry := b.connectionRegistry
  let currentState := (registry.get overlay).or ((registry.resolveId peerId).bind registry.get)
  let direction := (currentState.bind ConnectionState.direction).getD .inbound
  if isBanned overlay then b
  else
    let routing := match currentState.bind ConnectionState.id with
      | some dialed =>
        if dialed ≠ overlay then (b.routing.releaseHandshake dialed).reserveInbound overlay
        else b.routing
      | none => b.routing
    let activated (routing : KademliaRouting) : TopologyBehaviour P C A D :=
      { b with
        routing := (routing.handshakeCompleted overlay).peerConnected overlay
        connectionRegistry := (registry.activate peerId connectionId overlay now).2 }
    if direction = .inbound then
      if routing.shouldAcceptInbound overlay then activated (routing.reserveInbound overlay)
      else { b with routing }
    else activated routing

/-- One event, handled. -/
def step : BehaviourEvent P C A D → TopologyBehaviour P C A D
  | .dial target reason now => b.dial ipVersion extractPeerId canDial target reason now
  | .connectionEstablished peerId connectionId dialer now =>
    b.handleConnectionEstablished peerId connectionId dialer now
  | .connectionClosed peerId _ remainingEstablished => b.handleConnectionClosed peerId remainingEstablished
  | .dialFailure peerId => b.handleDialFailure peerId
  | .handshakeCompleted peerId connectionId overlay now =>
    b.onHandshakeCompleted isBanned peerId connectionId overlay now
  | .handshakeFailed peerId => b.onHandshakeFailed peerId
  | .cleanupStalePending now => b.cleanupStalePending now

end Handlers

end TopologyBehaviour

/-- The swarm around the behaviour: the connections it holds open, by peer, and the connection
ids it has issued. -/
structure Swarm (P C A D : Type) where
  behaviour : TopologyBehaviour P C A D
  established : List (P × C)
  issued : List C

namespace Swarm

variable {P C A D : Type} [DecidableEq P] [DecidableEq C]
  (ipVersion : A → Option IpVersion) (extractPeerId : A → Option P) (canDial : A → Bool)
  (isBanned : Peers.OverlayAddress → Bool)

/-- An event delivered: the behaviour handles it, and an established connection opens under its
id, a closed one closes. -/
def deliver (s : Swarm P C A D) (event : BehaviourEvent P C A D) : Swarm P C A D :=
  let behaviour := s.behaviour.step ipVersion extractPeerId canDial isBanned event
  match event with
  | .connectionEstablished peerId connectionId _ _ =>
    ⟨behaviour, s.established ++ [(peerId, connectionId)], s.issued ++ [connectionId]⟩
  | .connectionClosed peerId connectionId _ => ⟨behaviour, s.established.erase (peerId, connectionId), s.issued⟩
  | _ => ⟨behaviour, s.established, s.issued⟩

/-- What the swarm delivers: a connection established under a fresh id while its peer has fewer
than two open (`MAX_ESTABLISHED_PER_PEER`), the close of an open connection with the number of
its peer's connections that stay open, and handshake outcomes on open connections. -/
def Delivers (s : Swarm P C A D) : BehaviourEvent P C A D → Prop
  | .connectionEstablished peerId connectionId _ _ =>
    connectionId ∉ s.issued ∧ (keys s.established).count peerId < 2
  | .connectionClosed peerId connectionId remainingEstablished =>
    (peerId, connectionId) ∈ s.established ∧
      remainingEstablished = (keys (s.established.erase (peerId, connectionId))).count peerId
  | .handshakeCompleted peerId connectionId _ _ => (peerId, connectionId) ∈ s.established
  | .handshakeFailed peerId => peerId ∈ keys s.established
  | _ => True

end Swarm

namespace TopologyBehaviour

variable {P C A D : Type} [DecidableEq P] [DecidableEq C]
  {ipVersion : A → Option IpVersion} {extractPeerId : A → Option P} {canDial : A → Bool}
  (b : TopologyBehaviour P C A D)

/-! ## The handlers on the paths of a dial -/

omit [DecidableEq C] in
theorem dial_known_of_free {overlay : Peers.OverlayAddress} {multiaddrs : List A} {peerId : P}
    {reason : D} {now : ℕ} {reserved : KademliaRouting} {opts : DialOpts P A}
    (hpeer : multiaddrs.findSome? extractPeerId = some peerId)
    (huntracked : b.isPeerTracked peerId = false) (hid : b.dialTracker.idIndex overlay = none)
    (hreserve : b.routing.tryReserveDial overlay = (true, reserved))
    (hopts : prepareDialOpts ipVersion peerId multiaddrs canDial = some opts) :
    b.dial ipVersion extractPeerId canDial (.known overlay multiaddrs) reason now =
      { b with
        routing := reserved
        dialTracker := b.dialTracker.insertInFlight
          (DialRequest.new (some overlay) peerId [] reason now) now } := by
  have hfree : b.dialTracker.isTracked peerId (some overlay) = false := by
    rw [isPeerTracked, Bool.or_eq_false_iff] at huntracked
    simpa [DialTracker.isTracked, DialTracker.containsPeer, hid] using huntracked.2
  simp [dial, DialTarget.peerId, DialTarget.overlay, DialTarget.addrs, hpeer, huntracked, hreserve,
    DialTracker.prepareAndStart_of_free hfree hopts]

theorem handleConnectionEstablished_of_tracked {peerId : P} {connectionId : C} {now : ℕ}
    {request : DialRequest Peers.OverlayAddress P A D}
    {dialTracker : DialTracker Peers.OverlayAddress P A D} {overlay : Peers.OverlayAddress}
    (htracked : b.connectionRegistry.containsPeer peerId = true)
    (hresolve : b.dialTracker.resolve peerId = (some request, dialTracker))
    (hoverlay : request.id = some overlay) :
    b.handleConnectionEstablished peerId connectionId true now =
      ⟨b.routing.dialConnected overlay, dialTracker, b.connectionRegistry⟩ := by
  simp [handleConnectionEstablished, hresolve, hoverlay,
    PeerRegistry.connectedOutbound_of_containsPeer htracked]

theorem handleConnectionClosed_of_unknown {peerId : P}
    (hunknown : (b.connectionRegistry.disconnected peerId).1.bind ConnectionState.id = none) :
    b.handleConnectionClosed peerId 0 =
      { b with connectionRegistry := (b.connectionRegistry.disconnected peerId).2 } := by
  simp [handleConnectionClosed, hunknown]

/-! ## A handshaking entry with no connection behind it -/

/-- A peer whose inbound connection is registered while our dial to it is in flight: the dial's
outbound connection moves the dialed overlay to handshaking though the registry refuses it, and
once both connections have closed the overlay is still handshaking, with no connection of the peer
open, no dial to it in flight and no state left in the registry. -/
theorem handshaking_outlives_connections (ipVersion : A → Option IpVersion) (extractPeerId : A → Option P)
    (canDial : A → Bool) (isBanned : Peers.OverlayAddress → Bool) (proximity : Peers.Proximity)
    (localOverlay : Peers.OverlayAddress) (maxPo : ℕ) (limits : DepthAwareLimits)
    (config : DialTrackerConfig) (overlay : Peers.OverlayAddress) (multiaddrs : List A)
    (peerId : P) (inbound outbound : C) (reason : D) (dialedAt inboundAt outboundAt : ℕ)
    (hpeer : multiaddrs.findSome? extractPeerId = some peerId)
    (hroom : limits.needsMore ((KademliaRouting.new proximity localOverlay maxPo limits).binFor overlay)
      .zero 0 = true)
    (haddrs : (prepareDialOpts ipVersion peerId multiaddrs canDial).isSome)
    (hfresh : inbound ≠ outbound) :
    let start : Swarm P C A D := ⟨.new proximity localOverlay maxPo limits config dialedAt, [], []⟩
    let run : List (BehaviourEvent P C A D) :=
      [.dial (.known overlay multiaddrs) reason dialedAt,
        .connectionEstablished peerId inbound false inboundAt,
        .connectionEstablished peerId outbound true outboundAt,
        .connectionClosed peerId inbound 1,
        .connectionClosed peerId outbound 0]
    let final := run.foldl (Swarm.deliver ipVersion extractPeerId canDial isBanned) start
    Run.Allowed (Swarm.deliver ipVersion extractPeerId canDial isBanned) Swarm.Delivers start run ∧
      peerId ∉ keys final.established ∧ peerId ∉ keys final.behaviour.dialTracker.inFlight ∧
      final.behaviour.connectionRegistry.maps.byKey = [] ∧
      find final.behaviour.routing.connectionPhases overlay = some .handshaking := by
  intro start run final
  obtain ⟨opts, hopts⟩ := Option.isSome_iff_exists.mp haddrs
  set routing := KademliaRouting.new proximity localOverlay maxPo limits with hrouting
  have hgranted : (routing.tryReserveDial overlay).1 = true := by
    have hempty : routing.effectiveCount (routing.binFor overlay) = 0 := by
      simp [routing, KademliaRouting.effectiveCount, KademliaRouting.new, atomicLoad_makeAtomicVec]
    have hnone : find routing.connectionPhases overlay = none := rfl
    have hlimits : routing.limits.needsMore (routing.binFor overlay) routing.depth 0 = true := hroom
    simp [KademliaRouting.tryReserveDial, hempty, hnone, hlimits]
  set reserved := (routing.tryReserveDial overlay).2
  have hreserve : routing.tryReserveDial overlay = (true, reserved) := by
    rw [← hgranted]
  have hreserved : reserved.connectionPhases = [(overlay, .dialing)] := by
    rw [KademliaRouting.connectionPhases_tryReserveDial, hgranted, if_pos rfl]
    rfl
  set b0 : TopologyBehaviour P C A D := .new proximity localOverlay maxPo limits config dialedAt with hb0
  set request : DialRequest Peers.OverlayAddress P A D := DialRequest.new (some overlay) peerId [] reason dialedAt
  have hb1 : b0.dial ipVersion extractPeerId canDial (.known overlay multiaddrs) reason dialedAt =
      { b0 with routing := reserved, dialTracker := b0.dialTracker.insertInFlight request dialedAt } :=
    dial_known_of_free b0 hpeer (by simp [b0, new, isPeerTracked, PeerRegistry.containsPeer, PeerRegistry.new, Maps.empty, DialTracker.containsPeer, DialTracker.new, keys]) rfl hreserve hopts
  set b1 : TopologyBehaviour P C A D :=
    { b0 with routing := reserved, dialTracker := b0.dialTracker.insertInFlight request dialedAt }
  set registry := (b1.connectionRegistry.connectedInbound peerId inbound inboundAt).2
  have htracked : registry.containsPeer peerId = true := by
    simp [registry, PeerRegistry.containsPeer, PeerRegistry.connectedInbound, ConnectionState.peerId]
  have hfind : find b1.dialTracker.inFlight peerId = some { request with startedAt := some dialedAt } := by
    simp [b1, request, DialRequest.new]
  have hresolve : b1.dialTracker.resolve peerId = (some { request with startedAt := some dialedAt },
      DialTracker.untrackId { b1.dialTracker with inFlight := eraseKey b1.dialTracker.inFlight peerId }
        { request with startedAt := some dialedAt }) := by
    simp only [DialTracker.resolve, hfind]
  set b2 : TopologyBehaviour P C A D := { b1 with connectionRegistry := registry }
  have hb2 : b1.handleConnectionEstablished peerId inbound false inboundAt = b2 := rfl
  set b3 : TopologyBehaviour P C A D := ⟨reserved.dialConnected overlay,
    DialTracker.untrackId { b1.dialTracker with inFlight := eraseKey b1.dialTracker.inFlight peerId }
      { request with startedAt := some dialedAt }, registry⟩
  have hb3 : b2.handleConnectionEstablished peerId outbound true outboundAt = b3 :=
    handleConnectionEstablished_of_tracked b2 htracked hresolve rfl
  have hb4 : b3.handleConnectionClosed peerId 1 = b3 := rfl
  -- the inbound state, which carries no overlay, is what the last close removes
  have hremoved : (registry.disconnected peerId).1 =
      some (.connected peerId inbound none .inbound inboundAt default) := by
    simp [registry, PeerRegistry.disconnected, Maps.removeByPeer, PeerRegistry.connectedInbound,
      ConnectionState.peerId, b1, b0, new, PeerRegistry.new, Maps.empty, find, insertBack, eraseKey]
  have hb5 : b3.handleConnectionClosed peerId 0 =
      { b3 with connectionRegistry := (b3.connectionRegistry.disconnected peerId).2 } :=
    handleConnectionClosed_of_unknown b3 (by simp [b3, hremoved, ConnectionState.id])
  have hfinal : final = ⟨{ b3 with connectionRegistry := (b3.connectionRegistry.disconnected peerId).2 },
      [], [inbound, outbound]⟩ := by
    simp only [final, run, start, List.foldl_cons, List.foldl_nil, Swarm.deliver, step]
    rw [← hb0, hb1, hb2, hb3, hb4, hb5]
    simp
  have hcleared : (registry.disconnected peerId).2.maps.byKey = [] := by
    simp [registry, PeerRegistry.disconnected, Maps.removeByPeer, PeerRegistry.connectedInbound,
      ConnectionState.peerId, ConnectionState.startedAt, ConnectionState.connectionId,
      ConnectionState.isActive, Maps.removePending, b1, b0, new, PeerRegistry.new, Maps.empty, find,
      insertBack, eraseKey]
  have hhandshaking : find (reserved.dialConnected overlay).connectionPhases overlay = some .handshaking := by
    rw [KademliaRouting.connectionPhases_dialConnected, hreserved]
    simp
  refine ⟨?_, ?_, ?_, ?_, ?_⟩
  · simp [Run.Allowed, Swarm.Delivers, Swarm.deliver, run, start, hfresh.symm, keys]
  · simp [hfinal, keys]
  · rw [hfinal]
    simp [b3, mem_keys_eraseKey]
  · rw [hfinal]
    exact hcleared
  · rw [hfinal]
    exact hhandshaking
/-- Peer `0`, at address `0`, dialed for an overlay in bin `0` of a new behaviour under the default
limits, with inbound connection `1` and outbound connection `2`. -/
theorem handshaking_outlives_connections_of_crossed_dial :
    let overlay := BigEndian.FixedBytes.ofNat 32 (2 ^ 255)
    let start : Swarm ℕ ℕ ℕ Unit :=
      ⟨.new .byXor (BigEndian.FixedBytes.ofNat 32 0) 31 .default .default 0, [], []⟩
    let run : List (BehaviourEvent ℕ ℕ ℕ Unit) :=
      [.dial (.known overlay [0]) () 0, .connectionEstablished 0 1 false 1,
        .connectionEstablished 0 2 true 2, .connectionClosed 0 1 1, .connectionClosed 0 2 0]
    let final := run.foldl (Swarm.deliver (fun _ ↦ none) some (fun _ ↦ true) (fun _ ↦ false)) start
    [0].findSome? (some : ℕ → Option ℕ) = some 0 ∧
      DepthAwareLimits.default.needsMore
        ((KademliaRouting.new .byXor (BigEndian.FixedBytes.ofNat 32 0) 31 .default).binFor overlay)
          .zero 0 = true ∧
      (prepareDialOpts (fun _ : ℕ ↦ none) 0 [0] fun _ ↦ true).isSome ∧ (1 : ℕ) ≠ 2 ∧
      find final.behaviour.routing.connectionPhases overlay = some .handshaking := by
  intro overlay start run final
  have hroom : DepthAwareLimits.default.needsMore
      ((KademliaRouting.new .byXor (BigEndian.FixedBytes.ofNat 32 0) 31 .default).binFor overlay)
        .zero 0 = true := by
    decide +kernel
  exact ⟨rfl, hroom, rfl, by decide,
    (handshaking_outlives_connections (fun _ ↦ none) some (fun _ ↦ true) (fun _ ↦ false) .byXor _ 31
      .default .default overlay [0] 0 1 2 () 0 1 2 rfl hroom rfl (by decide)).2.2.2.2⟩

end TopologyBehaviour

end VertexSwarm.Topology
