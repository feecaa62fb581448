import Mathlib.Data.Finset.Basic
import VertexSwarm.Lib.Keyed

/-!
# The peer registry

`PeerRegistry` tracks a peer's connection from transport connection (`Connected`, pending) to
confirmed identity (`Active`).  A state is stored under a key, `Known(id)` or `Pending(peer_id)`,
with three secondary indices kept by hand (`PeerId` to key, `ConnectionId` to key, and the
pending keys by start time) and two counters.

The indices are consistent (`Consistent`: each state's `PeerId` and connection point back at
its key, the pending keys sit under their start times, the counters count the pending and the
active states) on a new registry, and `disconnected` removes exactly the state a `PeerId` owns.
They do not survive every sequence of calls: `connected_inbound` inserts under `Pending(peer_id)`
without checking whether the peer is tracked, so a second inbound connection of a pending peer
overwrites its state while the first connection's index rows stay and the pending counter
counts both.

Clock readings are a parameter of each call that reads `Instant::now()`.
-/

namespace VertexSwarm.Net

open Keyed

/-- `ConnectionDirection`. -/
inductive ConnectionDirection
  | outbound
  | inbound
  deriving DecidableEq, Repr

/-- `RegistryKey<Id>`. -/
inductive RegistryKey (Id P : Type)
  | known (id : Id)
  | pending (peerId : P)
  deriving DecidableEq, Repr

/-- `ConnectionState<Id, R>`. -/
inductive ConnectionState (Id P C R : Type)
  | connected (peerId : P) (connectionId : C) (id : Option Id) (direction : ConnectionDirection)
      (startedAt : ℕ) (reason : R)
  | active (peerId : P) (id : Id) (connectionId : C) (connectedAt : ℕ) (reason : R)

/-- `ActivateResult<Id>`. -/
inductive ActivateResult (Id P C : Type)
  | accepted
  | replaced (oldPeerId : P) (oldConnectionId : C) (oldId : Option Id)

namespace ConnectionState

variable {Id P C R : Type}

/-- `peer_id`. -/
def peerId : ConnectionState Id P C R → P
  | connected peerId .. => peerId
  | active peerId .. => peerId

/-- `connection_id`. -/
def connectionId : ConnectionState Id P C R → Option C
  | connected _ connectionId .. => some connectionId
  | active _ _ connectionId .. => some connectionId

/-- `started_at`: set for a pending connection only. -/
def startedAt : ConnectionState Id P C R → Option ℕ
  | connected _ _ _ _ startedAt _ => some startedAt
  | active .. => none

/-- `reason`. -/
def reason : ConnectionState Id P C R → R
  | connected _ _ _ _ _ reason => reason
  | active _ _ _ _ reason => reason

/-- `is_active`. -/
def isActive : ConnectionState Id P C R → Bool
  | connected .. => false
  | active .. => true

/-- `is_pending`. -/
def isPending : ConnectionState Id P C R → Bool
  | connected .. => true
  | active .. => false

/-- `direction`: known for a pending connection only. -/
def direction : ConnectionState Id P C R → Option ConnectionDirection
  | connected _ _ _ direction _ _ => some direction
  | active .. => none

/-- `id`: the application id, which an inbound connection learns at activation. -/
def id : ConnectionState Id P C R → Option Id
  | connected _ _ id _ _ _ => id
  | active _ id _ _ _ => some id

end ConnectionState

/-- `Maps<Id, R>`: `byKey` is the `HashMap` of states, the others its indices.  A start time with
no pending key stands for one absent from the `BTreeMap`. -/
structure Maps (Id P C R : Type) where
  byKey : List (RegistryKey Id P × ConnectionState Id P C R)
  peerToKey : P → Option (RegistryKey Id P)
  connToKey : C → Option (RegistryKey Id P)
  pendingByTime : ℕ → Finset (RegistryKey Id P)

/-- `PeerRegistry<Id, R>`; the counters are `usize`. -/
structure PeerRegistry (Id P C R : Type) where
  maps : Maps Id P C R
  numActive : UInt64
  numPending : UInt64

namespace Maps

variable {Id P C R : Type} [DecidableEq Id] [DecidableEq P] [DecidableEq C]

/-- `Maps::default`. -/
def empty : Maps Id P C R := ⟨[], fun _ ↦ none, fun _ ↦ none, fun _ ↦ ∅⟩

/-- `add_pending`. -/
def addPending (maps : Maps Id P C R) (startedAt : ℕ) (key : RegistryKey Id P) : Maps Id P C R :=
  { maps with
    pendingByTime := Function.update maps.pendingByTime startedAt
      (insert key (maps.pendingByTime startedAt)) }

/-- `remove_pending`. -/
def removePending (maps : Maps Id P C R) (startedAt : ℕ) (key : RegistryKey Id P) :
    Maps Id P C R :=
  { maps with
    pendingByTime := Function.update maps.pendingByTime startedAt
      ((maps.pendingByTime startedAt).erase key) }

/-- `insert`: index the state under every index that applies, then store it, replacing any
state under the key. -/
def insert (maps : Maps Id P C R) (key : RegistryKey Id P) (state : ConnectionState Id P C R) :
    Maps Id P C R :=
  let maps := { maps with peerToKey := Function.update maps.peerToKey state.peerId (some key) }
  let maps := match state.connectionId with
    | some connectionId =>
      { maps with connToKey := Function.update maps.connToKey connectionId (some key) }
    | none => maps
  let maps := match state.startedAt with
    | some startedAt => maps.addPending startedAt key
    | none => maps
  { maps with byKey := insertBack maps.byKey key state }

/-- `remove_by_key`: the secondary indices are cleared only where they still point at the key. -/
def removeByKey (maps : Maps Id P C R) (key : RegistryKey Id P) :
    Option (ConnectionState Id P C R) × Maps Id P C R :=
  match find maps.byKey key with
  | none => (none, maps)
  | some state =>
    let maps := { maps with byKey := eraseKey maps.byKey key }
    let maps := if maps.peerToKey state.peerId = some key then
        { maps with peerToKey := Function.update maps.peerToKey state.peerId none }
      else maps
    let maps := match state.connectionId with
      | some connectionId =>
        if maps.connToKey connectionId = some key then
          { maps with connToKey := Function.update maps.connToKey connectionId none }
        else maps
      | none => maps
    let maps := match state.startedAt with
      | some startedAt => maps.removePending startedAt key
      | none => maps
    (some state, maps)

/-- `remove_by_peer`: the `PeerId`'s index row goes first, then the state under its key. -/
def removeByPeer (maps : Maps Id P C R) (peerId : P) :
    Option (ConnectionState Id P C R) × Maps Id P C R :=
  match maps.peerToKey peerId with
  | none => (none, maps)
  | some key =>
    let maps := { maps with peerToKey := Function.update maps.peerToKey peerId none }
    match find maps.byKey key with
    | none => (none, maps)
    | some state =>
      let maps := { maps with byKey := eraseKey maps.byKey key }
      let maps := match state.connectionId with
        | some connectionId =>
          { maps with connToKey := Function.update maps.connToKey connectionId none }
        | none => maps
      let maps := match state.startedAt with
        | some startedAt => maps.removePending startedAt key
        | none => maps
      (some state, maps)

end Maps

namespace PeerRegistry

variable {Id P C R : Type} [DecidableEq Id] [DecidableEq P] [DecidableEq C]

/-- `PeerRegistry::new`. -/
def new : PeerRegistry Id P C R := ⟨Maps.empty, 0, 0⟩

/-- `get`: the state under an id's known key. -/
def get (reg : PeerRegistry Id P C R) (id : Id) : Option (ConnectionState Id P C R) :=
  find reg.maps.byKey (.known id)

/-- `resolve_id`: the id of a `PeerId`'s key, when that key is a known one. -/
def resolveId (reg : PeerRegistry Id P C R) (peerId : P) : Option Id :=
  match reg.maps.peerToKey peerId with
  | some (.known id) => some id
  | _ => none

/-- `contains_peer`. -/
def containsPeer (reg : PeerRegistry Id P C R) (peerId : P) : Bool :=
  (reg.maps.peerToKey peerId).isSome

/-- `connected_outbound`: refused when the `PeerId`, or the id's known key, is already
tracked. -/
def connectedOutbound (reg : PeerRegistry Id P C R) (peerId : P) (connectionId : C)
    (id : Option Id) (startedAt : ℕ) (reason : R) :
    Option (ConnectionState Id P C R) × PeerRegistry Id P C R :=
  if (reg.maps.peerToKey peerId).isSome then (none, reg)
  else
    let key : Option (RegistryKey Id P) := match id with
      | some knownId =>
        if RegistryKey.known knownId ∈ keys reg.maps.byKey then none else some (.known knownId)
      | none => some (.pending peerId)
    match key with
    | none => (none, reg)
    | some key =>
      let state := ConnectionState.connected peerId connectionId id .outbound startedAt reason
      (some state, { reg with maps := reg.maps.insert key state, numPending := reg.numPending + 1 })

/-- `connected_inbound`, at `now`: stored under `Pending(peer_id)` with no check on what the
registry already holds. -/
def connectedInbound [Inhabited R] (reg : PeerRegistry Id P C R) (peerId : P) (connectionId : C)
    (now : ℕ) : ConnectionState Id P C R × PeerRegistry Id P C R :=
  let state := ConnectionState.connected peerId connectionId none .inbound now default
  (state, { reg with
    maps := reg.maps.insert (.pending peerId) state, numPending := reg.numPending + 1 })

/-- `Replacement<Id>`: what `activate` replaces. -/
inductive Replacement (Id P C : Type)
  | byId (oldPeerId : P) (oldConnectionId : C) (pendingKey : Option (RegistryKey Id P))
  | byPeerId (existingId : Id) (oldConnectionId : C)
  | none (pendingKey : Option (RegistryKey Id P))

/-- `find_replacement`. -/
def findReplacement (maps : Maps Id P C R) (id : Id) (peerId : P) : Replacement Id P C :=
  let knownKey : RegistryKey Id P := .known id
  -- the key, if a pending state is stored under it
  let isPendingKey : RegistryKey Id P → Option (RegistryKey Id P) := fun key ↦
    match find maps.byKey key with
    | some state => if state.isPending then some key else none
    | none => none
  match find maps.byKey knownKey with
  | some (.active activePeerId _ activeConnectionId _ _) =>
    let pending := match maps.peerToKey peerId with
      | some key => if key ≠ knownKey then isPendingKey key else none
      | none => none
    .byId activePeerId activeConnectionId pending
  | _ =>
    let byPeer : Option (Replacement Id P C) := match maps.peerToKey peerId with
      | some (.known existingId) =>
        if existingId ≠ id then
          match find maps.byKey (.known existingId) with
          | some (.active _ _ connectionId _ _) => some (.byPeerId existingId connectionId)
          | _ => none
        else none
      | _ => none
    byPeer.getD (.none (isPendingKey (.pending peerId)))

/-- `remove_by_key` that counts what it removed as active or pending. -/
def removeCounted (maps : Maps Id P C R) (key : RegistryKey Id P) (removed : ℕ × ℕ) :
    Maps Id P C R × (ℕ × ℕ) :=
  match maps.removeByKey key with
  | (some state, maps) =>
    (maps, if state.isActive then (removed.1 + 1, removed.2) else (removed.1, removed.2 + 1))
  | (none, maps) => (maps, removed)

/-- `activate`, at `now`: clear the known key, clear what the replacement names, then store the
`Active` state under the known key; the counters move by what was removed, as `usize`s. -/
def activate [Inhabited R] (reg : PeerRegistry Id P C R) (peerId : P) (connectionId : C)
    (id : Id) (now : ℕ) : ActivateResult Id P C × PeerRegistry Id P C R :=
  let maps := reg.maps
  let knownKey : RegistryKey Id P := .known id
  let reason : R := match maps.peerToKey peerId with
    | some key => ((find maps.byKey key).map ConnectionState.reason).getD default
    | none => default
  let replacement := findReplacement maps id peerId
  -- (active removed, pending removed)
  let cleared := removeCounted maps knownKey (0, 0)
  let (result, maps, removed) : ActivateResult Id P C × Maps Id P C R × (ℕ × ℕ) :=
    match replacement with
    | .byId oldPeerId oldConnectionId pendingKey =>
      let step := match pendingKey with
        | some key => removeCounted cleared.1 key cleared.2
        | none => cleared
      (.replaced oldPeerId oldConnectionId none, step.1, step.2)
    | .byPeerId existingId oldConnectionId =>
      let step := removeCounted cleared.1 (.known existingId) cleared.2
      (.replaced peerId oldConnectionId (some existingId), step.1, step.2)
    | .none pendingKey =>
      let step := match pendingKey with
        | some key => removeCounted cleared.1 key cleared.2
        | none => cleared
      (.accepted, step.1, step.2)
  let maps := maps.insert knownKey (.active peerId id connectionId now reason)
  (result, ⟨maps, reg.numActive + 1 - UInt64.ofNat removed.1,
    reg.numPending - UInt64.ofNat removed.2⟩)

/-- `stale_pending(timeout)`, at `now`: the peers of the pending keys started at `now - timeout` or
earlier, by start time, the keys of one start time in the order of their states (a `HashSet`'s
order, which no caller relies on); none while the clock is short of the timeout, where
`checked_sub` fails. -/
def stalePending (reg : PeerRegistry Id P C R) (timeout now : ℕ) : List P :=
  if now < timeout then []
  else (List.range (now - timeout + 1)).flatMap fun startedAt ↦
    (reg.maps.byKey.filter fun entry ↦ entry.1 ∈ reg.maps.pendingByTime startedAt).map
      fun entry ↦ entry.2.peerId

/-- `disconnected`: remove what the `PeerId` owns and count it down. -/
def disconnected (reg : PeerRegistry Id P C R) (peerId : P) :
    Option (ConnectionState Id P C R) × PeerRegistry Id P C R :=
  match reg.maps.removeByPeer peerId with
  | (some state, maps) =>
    (some state, if state.isActive then ⟨maps, reg.numActive - 1, reg.numPending⟩
      else ⟨maps, reg.numActive, reg.numPending - 1⟩)
  | (none, maps) => (none, { reg with maps := maps })

end PeerRegistry

namespace Maps

variable {Id P C R : Type} [DecidableEq Id] [DecidableEq P] [DecidableEq C]
  (maps : Maps Id P C R) (key : RegistryKey Id P) (state : ConnectionState Id P C R)

@[simp]
theorem byKey_insert : (maps.insert key state).byKey = insertBack maps.byKey key state := by
  unfold Maps.insert
  split <;> split <;> rfl

@[simp]
theorem peerToKey_insert :
    (maps.insert key state).peerToKey = Function.update maps.peerToKey state.peerId (some key) := by
  unfold Maps.insert
  split <;> split <;> rfl

end Maps

namespace PeerRegistry

variable {Id P C R : Type} [DecidableEq Id] [DecidableEq P] [DecidableEq C]

/-- `connected_outbound` refuses a peer the registry tracks, and leaves the registry as it was. -/
theorem connectedOutbound_of_containsPeer {reg : PeerRegistry Id P C R} {peerId : P}
    (h : reg.containsPeer peerId = true) (connectionId : C) (id : Option Id) (startedAt : ℕ)
    (reason : R) : reg.connectedOutbound peerId connectionId id startedAt reason = (none, reg) := by
  rw [containsPeer] at h
  simp [connectedOutbound, h]

/-- The registry's indices and counters agree with its states: every state's `PeerId` maps to
its key and every `PeerId` row names a state of that peer, a connection maps to a key exactly
when the state there has that connection, the pending keys sit under their states' start times,
and the counters count the pending and the active states. -/
structure Consistent (reg : PeerRegistry Id P C R) : Prop where
  nodup : (keys reg.maps.byKey).Nodup
  peerToKey_of_mem : ∀ {key state}, (key, state) ∈ reg.maps.byKey →
    reg.maps.peerToKey state.peerId = some key
  mem_of_peerToKey : ∀ {peerId key}, reg.maps.peerToKey peerId = some key →
    ∃ state, (key, state) ∈ reg.maps.byKey ∧ state.peerId = peerId
  connToKey_iff : ∀ connectionId key, reg.maps.connToKey connectionId = some key ↔
    ∃ state, (key, state) ∈ reg.maps.byKey ∧ state.connectionId = some connectionId
  pendingByTime_iff : ∀ startedAt key, key ∈ reg.maps.pendingByTime startedAt ↔
    ∃ state, (key, state) ∈ reg.maps.byKey ∧ state.startedAt = some startedAt
  numPending_eq : reg.numPending.toNat = reg.maps.byKey.countP (fun entry ↦ entry.2.isPending)
  numActive_eq : reg.numActive.toNat = reg.maps.byKey.countP (fun entry ↦ entry.2.isActive)

/-- A second inbound connection of a pending peer overwrites its state: the pending counter
counts two states where one is stored, and the first connection's index rows stay behind, also
after the peer disconnects. -/
theorem connected_inbound_overwrites_pending [Inhabited R] (peerId : P) (first second : C)
    (startedAt restartedAt : ℕ) (hconnection : first ≠ second) (htime : startedAt ≠ restartedAt) :
    let reg := ((new.connectedInbound peerId first startedAt).2.connectedInbound peerId second
      restartedAt).2
    reg.maps.byKey =
        [(.pending peerId, (.connected peerId second none .inbound restartedAt default :
          ConnectionState Id P C R))] ∧
      reg.numPending = 2 ∧ reg.maps.connToKey first = some (.pending peerId) ∧
      RegistryKey.pending peerId ∈ reg.maps.pendingByTime startedAt ∧ ¬ reg.Consistent ∧
      (reg.disconnected peerId).2.maps.byKey = [] ∧ (reg.disconnected peerId).2.numPending = 1 ∧
      (reg.disconnected peerId).2.maps.connToKey first = some (.pending peerId) ∧
      RegistryKey.pending peerId ∈ (reg.disconnected peerId).2.maps.pendingByTime startedAt := by
  intro reg
  have hbyKey : reg.maps.byKey =
      [(.pending peerId, (.connected peerId second none .inbound restartedAt default :
        ConnectionState Id P C R))] := by
    simp [reg, connectedInbound, new, Maps.empty, insertBack, eraseKey]
  have hpending : reg.numPending = 2 := rfl
  -- the second connection re-points only its own rows
  have hpeer : reg.maps.peerToKey peerId = some (.pending peerId) := by
    simp [reg, connectedInbound, ConnectionState.peerId]
  have hconn : reg.maps.connToKey first = some (.pending peerId) := by
    simp [reg, connectedInbound, Maps.insert, Maps.addPending, ConnectionState.connectionId,
      ConnectionState.startedAt, Function.update_of_ne hconnection]
  have htimes : RegistryKey.pending peerId ∈ reg.maps.pendingByTime startedAt := by
    simp [reg, connectedInbound, Maps.insert, Maps.addPending, ConnectionState.connectionId,
      ConnectionState.startedAt, Function.update_of_ne htime]
  refine ⟨hbyKey, hpending, hconn, htimes, fun hconsistent ↦ ?_, ?_⟩
  · -- the pending counter counts two states where one is stored
    have hcount := hconsistent.numPending_eq
    rw [hpending, hbyKey] at hcount
    simp [ConnectionState.isPending] at hcount
  · -- `disconnected` removes the one stored state and the second connection's rows only
    simp [disconnected, Maps.removeByPeer, hpeer, hbyKey, find, eraseKey,
      ConnectionState.connectionId, ConnectionState.startedAt, ConnectionState.isActive,
      Maps.removePending, Function.update_of_ne hconnection, Function.update_of_ne htime, hconn,
      htimes, hpending]

/-- Two inbound connections `1` and `2` of peer `0`, at clock readings `1` and `2`. -/
theorem connected_inbound_overwrites_pending_of_two :
    (1 : ℕ) ≠ 2 ∧ (1 : ℕ) ≠ 2 ∧
      ¬ (((new : PeerRegistry ℕ ℕ ℕ Unit).connectedInbound 0 1 1).2.connectedInbound 0 2 2).2.Consistent :=
  ⟨by decide, by decide,
    (connected_inbound_overwrites_pending 0 1 2 1 2 (by decide) (by decide)).2.2.2.2.1⟩

end PeerRegistry

end VertexSwarm.Net
