import VertexSwarm.Lib.Keyed
import VertexSwarm.Lib.Run
import VertexSwarm.Peers.Index
import VertexSwarm.Topology.Limits

/-!
# Connection phases and their per-bin counters

`topology/src/kademlia/routing.rs`, `KademliaRouting` as `RoutingCapacity` moves it.  Each
overlay the node is connecting to has a `ConnectionPhase` in `connection_phases`: `Dialing` from
a reserved dial, `Handshaking` once the dial connected or an inbound connection was reserved,
`Active` once the handshake completed.  Beside the map, three vectors of per-bin counters
(`dialing_counts`, `handshaking_counts`, `active_counts`) are moved by the same calls; their sum
over a bin is the bin's effective count, which gates dials (`needs_more`), and the last two give
the evictable count behind the trim surplus.

Each call takes the phase lock once and is taken as one step; the counters `try_reserve_dial`
reads before the lock are read in the same state.  The phase map is a keyed list (no caller
reads the `HashMap`'s order); the counters are `usize` vectors of `max_po + 1` slots, with
`fetch_add` and `fetch_sub` wrapping and a bin past the vector skipped, as `atomic_inc` skips it.

`connected` and `on_peer_disconnected` (`SwarmRouting`) move the connected-peer index; the depth
they publish afterwards, with its hysteresis, is not modelled, and no call here moves the depth.

`Accounted` is what the counters are meant to say: each slot is the number of phase entries of
its phase whose overlay lies in its bin.  Every call keeps it, over any run, as long as a release
names the phase it releases (`Accounted.apply`, `accounted_of_run`).  `release_dial` and
`release_handshake` remove the entry whatever its phase and count down only their own phase, so
a release of an overlay in another phase leaves that phase's counter one too high for good
(`release_dial_leaves_handshaking_count`).  A reserved dial never lifts its bin's effective count
past the bin's target (`effectiveCount_tryReserveDial_le`).
-/

namespace VertexSwarm.Topology

open Keyed Storer

/-- `ConnectionPhase`. -/
inductive ConnectionPhase where
  | dialing
  | handshaking
  | active
deriving DecidableEq, Repr

/-- `atomic_inc`: one more in a bin's slot; a bin past the vector is skipped. -/
def atomicInc (vec : List UInt64) (bin : Bin) : List UInt64 := vec.modify bin.val (· + 1)

/-- `atomic_dec`: `fetch_sub(1)`, wrapping below zero. -/
def atomicDec (vec : List UInt64) (bin : Bin) : List UInt64 := vec.modify bin.val (· - 1)

/-- `atomic_load`: a bin's slot, zero past the vector. -/
def atomicLoad (vec : List UInt64) (bin : Bin) : UInt64 := vec[bin.val]?.getD 0

/-- `make_atomic_vec`. -/
def makeAtomicVec (n : ℕ) : List UInt64 := List.replicate n 0

/-- The part of `KademliaRouting` the capacity calls and the trim read: nectar's proximity, the
local overlay and `max_po` behind `bin_for`, the depth-aware limits, the connected-peer index,
the published depth, the three counter vectors and the phase map. -/
structure KademliaRouting where
  proximity : Peers.Proximity
  localOverlay : Peers.OverlayAddress
  maxPo : ℕ
  limits : DepthAwareLimits
  connectedPeers : Peers.ProximityIndex
  depth : NeighborhoodDepth
  dialingCounts : List UInt64
  handshakingCounts : List UInt64
  activeCounts : List UInt64
  connectionPhases : List (Peers.OverlayAddress × ConnectionPhase)

namespace KademliaRouting

/-- `KademliaRouting::new`: no peers, depth zero, zero counters over `max_po + 1` bins. -/
def new (proximity : Peers.Proximity) (localOverlay : Peers.OverlayAddress) (maxPo : ℕ)
    (limits : DepthAwareLimits) : KademliaRouting where
  proximity := proximity
  localOverlay := localOverlay
  maxPo := maxPo
  limits := limits
  connectedPeers := .new proximity localOverlay maxPo 0
  depth := .zero
  dialingCounts := makeAtomicVec (maxPo + 1)
  handshakingCounts := makeAtomicVec (maxPo + 1)
  activeCounts := makeAtomicVec (maxPo + 1)
  connectionPhases := []

variable (r : KademliaRouting)

/-- `bin_for`: the proximity order to the local overlay, capped at `max_po`. -/
def binFor (peer : Peers.OverlayAddress) : Bin :=
  Bin.ofPo (min (r.proximity.po r.localOverlay peer) r.maxPo)

/-- `effective_count`: dialing, handshaking and active, in `usize`. -/
def effectiveCount (bin : Bin) : UInt64 :=
  atomicLoad r.dialingCounts bin + atomicLoad r.handshakingCounts bin +
    atomicLoad r.activeCounts bin

/-- `evictable_count`: handshaking and active. -/
def evictableCount (bin : Bin) : UInt64 :=
  atomicLoad r.handshakingCounts bin + atomicLoad r.activeCounts bin

/-- The counter vector of a phase. -/
def counts : ConnectionPhase → List UInt64
  | .dialing => r.dialingCounts
  | .handshaking => r.handshakingCounts
  | .active => r.activeCounts

/-- The routing with the counter vector of a phase changed by `f`. -/
def modifyCounts (phase : ConnectionPhase) (f : List UInt64 → List UInt64) : KademliaRouting :=
  { r with
    dialingCounts := if phase = .dialing then f r.dialingCounts else r.dialingCounts
    handshakingCounts := if phase = .handshaking then f r.handshakingCounts else r.handshakingCounts
    activeCounts := if phase = .active then f r.activeCounts else r.activeCounts }

/-- `atomic_inc` on a phase's counters. -/
def countUp (phase : ConnectionPhase) (bin : Bin) : KademliaRouting :=
  r.modifyCounts phase (atomicInc · bin)

/-- `atomic_dec` on a phase's counters. -/
def countDown (phase : ConnectionPhase) (bin : Bin) : KademliaRouting :=
  r.modifyCounts phase (atomicDec · bin)

/-! ## `RoutingCapacity` -/

/-- `try_reserve_dial`: refused for an overlay that has a phase and for a bin that needs no
more; otherwise the overlay is dialing. -/
def tryReserveDial (overlay : Peers.OverlayAddress) : Bool × KademliaRouting :=
  let bin := r.binFor overlay
  let effective := r.effectiveCount bin
  if (find r.connectionPhases overlay).isSome then (false, r)
  else if !r.limits.needsMore bin r.depth effective then (false, r)
  else (true, { r.countUp .dialing bin with
    connectionPhases := insertBack r.connectionPhases overlay .dialing })

/-- `release_dial`: the entry is removed whatever its phase; only a dialing one is counted
down. -/
def releaseDial (overlay : Peers.OverlayAddress) : KademliaRouting :=
  let phases := eraseKey r.connectionPhases overlay
  match find r.connectionPhases overlay with
  | some .dialing => { r.countDown .dialing (r.binFor overlay) with connectionPhases := phases }
  | _ => { r with connectionPhases := phases }

/-- `dial_connected`: a dialing overlay moves to handshaking. -/
def dialConnected (overlay : Peers.OverlayAddress) : KademliaRouting :=
  let bin := r.binFor overlay
  if find r.connectionPhases overlay = some .dialing then
    { (r.countDown .dialing bin).countUp .handshaking bin with
      connectionPhases := insertBack r.connectionPhases overlay .handshaking }
  else r

/-- `handshake_completed`: a handshaking overlay moves to active. -/
def handshakeCompleted (overlay : Peers.OverlayAddress) : KademliaRouting :=
  let bin := r.binFor overlay
  if find r.connectionPhases overlay = some .handshaking then
    { (r.countDown .handshaking bin).countUp .active bin with
      connectionPhases := insertBack r.connectionPhases overlay .active }
  else r

/-- `release_handshake`: as `release_dial`, for the handshaking phase. -/
def releaseHandshake (overlay : Peers.OverlayAddress) : KademliaRouting :=
  let phases := eraseKey r.connectionPhases overlay
  match find r.connectionPhases overlay with
  | some .handshaking =>
    { r.countDown .handshaking (r.binFor overlay) with connectionPhases := phases }
  | _ => { r with connectionPhases := phases }

/-- `disconnected`: the entry is removed, and each arm counts down the phase it removed. -/
def disconnected (overlay : Peers.OverlayAddress) : KademliaRouting :=
  match find r.connectionPhases overlay with
  | some phase => { r.countDown phase (r.binFor overlay) with
      connectionPhases := eraseKey r.connectionPhases overlay }
  | none => r

/-- `reserve_inbound`: an overlay with no phase is handshaking, with no capacity check. -/
def reserveInbound (overlay : Peers.OverlayAddress) : KademliaRouting :=
  if (find r.connectionPhases overlay).isSome then r
  else { r.countUp .handshaking (r.binFor overlay) with
    connectionPhases := insertBack r.connectionPhases overlay .handshaking }

/-- `should_accept_inbound`: an overlay with no phase, in a bin below its ceiling. -/
def shouldAcceptInbound (overlay : Peers.OverlayAddress) : Bool :=
  let bin := r.binFor overlay
  (find r.connectionPhases overlay).isNone && r.limits.shouldAcceptInbound bin r.depth (r.effectiveCount bin)

/-! ## `SwarmRouting` -/

/-- `peer_connected`: the overlay joins the connected-peer index, when its bin has room. -/
def peerConnected (peer : Peers.OverlayAddress) : KademliaRouting :=
  match r.connectedPeers.add peer with
  | .ok connectedPeers => { r with connectedPeers }
  | .error _ => r

/-- `peer_disconnected`: the overlay leaves the connected-peer index. -/
def peerDisconnected (peer : Peers.OverlayAddress) : KademliaRouting :=
  { r with connectedPeers := (r.connectedPeers.remove peer).2 }

end KademliaRouting

/-- The `RoutingCapacity` calls that move the phases; `should_accept_inbound` only reads. -/
inductive RoutingCall where
  | tryReserveDial (overlay : Peers.OverlayAddress)
  | releaseDial (overlay : Peers.OverlayAddress)
  | dialConnected (overlay : Peers.OverlayAddress)
  | handshakeCompleted (overlay : Peers.OverlayAddress)
  | releaseHandshake (overlay : Peers.OverlayAddress)
  | disconnected (overlay : Peers.OverlayAddress)
  | reserveInbound (overlay : Peers.OverlayAddress)

namespace KademliaRouting

variable (r : KademliaRouting)

/-- One call, its result dropped. -/
def apply : RoutingCall → KademliaRouting
  | .tryReserveDial overlay => (r.tryReserveDial overlay).2
  | .releaseDial overlay => r.releaseDial overlay
  | .dialConnected overlay => r.dialConnected overlay
  | .handshakeCompleted overlay => r.handshakeCompleted overlay
  | .releaseHandshake overlay => r.releaseHandshake overlay
  | .disconnected overlay => r.disconnected overlay
  | .reserveInbound overlay => r.reserveInbound overlay

/-- A release names the phase it releases, or an overlay with no phase; other calls are free. -/
def releasesOwnPhase : RoutingCall → Prop
  | .releaseDial overlay =>
    find r.connectionPhases overlay = none ∨ find r.connectionPhases overlay = some .dialing
  | .releaseHandshake overlay =>
    find r.connectionPhases overlay = none ∨ find r.connectionPhases overlay = some .handshaking
  | _ => True

/-- The phase entries of a phase whose overlay lies in a bin. -/
def phaseCount (phase : ConnectionPhase) (bin : Bin) : ℕ :=
  r.connectionPhases.countP fun entry ↦ entry.2 = phase ∧ r.binFor entry.1 = bin

/-- The counters count the phase map: one phase per overlay, a slot per bin up to `max_po`, and
in each slot the number of entries of its phase in its bin. -/
structure Accounted : Prop where
  nodup : (keys r.connectionPhases).Nodup
  length_counts : ∀ phase, (r.counts phase).length = r.maxPo + 1
  counts_eq : ∀ phase bin, atomicLoad (r.counts phase) bin = UInt64.ofNat (r.phaseCount phase bin)

end KademliaRouting

/-! ## The counters -/

theorem length_atomicInc (vec : List UInt64) (bin : Bin) :
    (atomicInc vec bin).length = vec.length :=
  List.length_modify _ _ _

theorem length_atomicDec (vec : List UInt64) (bin : Bin) :
    (atomicDec vec bin).length = vec.length :=
  List.length_modify _ _ _

/-- `atomic_inc` adds one to its own slot, when the vector has it, and to no other. -/
theorem atomicLoad_atomicInc (vec : List UInt64) (bin bin' : Bin) :
    atomicLoad (atomicInc vec bin) bin' =
      atomicLoad vec bin' + if bin = bin' ∧ bin.val < vec.length then 1 else 0 := by
  unfold atomicLoad atomicInc
  rw [List.getElem?_modify]
  by_cases hbin : bin = bin'
  · subst hbin
    by_cases hlen : bin.val < vec.length <;> simp [hlen]
  · have hval : bin.val ≠ bin'.val := Fin.val_ne_of_ne hbin
    simp [hval, hbin]

theorem atomicLoad_atomicDec (vec : List UInt64) (bin bin' : Bin) :
    atomicLoad (atomicDec vec bin) bin' =
      atomicLoad vec bin' - if bin = bin' ∧ bin.val < vec.length then 1 else 0 := by
  unfold atomicLoad atomicDec
  rw [List.getElem?_modify]
  by_cases hbin : bin = bin'
  · subst hbin
    by_cases hlen : bin.val < vec.length <;> simp [hlen]
  · have hval : bin.val ≠ bin'.val := Fin.val_ne_of_ne hbin
    simp [hval, hbin]

theorem atomicLoad_makeAtomicVec (n : ℕ) (bin : Bin) : atomicLoad (makeAtomicVec n) bin = 0 := by
  simp [atomicLoad, makeAtomicVec, List.getElem?_replicate]
  split <;> rfl

namespace KademliaRouting

variable (r : KademliaRouting) {phase : ConnectionPhase} {overlay : Peers.OverlayAddress}

theorem counts_modifyCounts (phase phase' : ConnectionPhase) (f : List UInt64 → List UInt64) :
    (r.modifyCounts phase f).counts phase' = if phase = phase' then f (r.counts phase') else r.counts phase' := by
  cases phase <;> cases phase' <;> simp [modifyCounts, counts]

@[simp] theorem counts_withPhases (l : List (Peers.OverlayAddress × ConnectionPhase)) :
    ({ r with connectionPhases := l } : KademliaRouting).counts = r.counts := by
  funext phase
  cases phase <;> rfl

/-- The phase entries of a routing with a new phase map, counted by `bin_for` of the routing the
counters came from. -/
theorem phaseCount_withPhases (phase : ConnectionPhase) (f : List UInt64 → List UInt64)
    (l : List (Peers.OverlayAddress × ConnectionPhase)) (phase' : ConnectionPhase) (bin : Bin) :
    ({ r.modifyCounts phase f with connectionPhases := l } : KademliaRouting).phaseCount phase' bin =
      l.countP fun entry ↦ entry.2 = phase' ∧ r.binFor entry.1 = bin := rfl

theorem binFor_le (overlay : Peers.OverlayAddress) : (r.binFor overlay).val ≤ r.maxPo := by
  have hprox := r.proximity.po_le r.localOverlay overlay
  unfold binFor Bin.ofPo Bin.tryFrom
  split
  · simp only [Option.getD_some]
    omega
  · simp only [Option.getD_none, Fin.val_last]
    simp only [Peers.maxPo, Storer.maxPo] at *
    omega


/-- Counting up the slot of an overlay's own bin, in a vector of `max_po + 1` slots. -/
theorem atomicLoad_countUp (hlen : (r.counts phase).length = r.maxPo + 1) (phase' : ConnectionPhase)
    (bin : Bin) :
    atomicLoad ((r.countUp phase (r.binFor overlay)).counts phase') bin =
      atomicLoad (r.counts phase') bin + if phase = phase' ∧ r.binFor overlay = bin then 1 else 0 := by
  rw [countUp, counts_modifyCounts]
  by_cases hphase : phase = phase'
  · subst hphase
    simp [atomicLoad_atomicInc, hlen, binFor_le]
  · simp [hphase]

theorem atomicLoad_countDown (hlen : (r.counts phase).length = r.maxPo + 1) (phase' : ConnectionPhase)
    (bin : Bin) :
    atomicLoad ((r.countDown phase (r.binFor overlay)).counts phase') bin =
      atomicLoad (r.counts phase') bin - if phase = phase' ∧ r.binFor overlay = bin then 1 else 0 := by
  rw [countDown, counts_modifyCounts]
  by_cases hphase : phase = phase'
  · subst hphase
    simp [atomicLoad_atomicDec, hlen, binFor_le]
  · simp [hphase]

theorem length_countUp (phase' : ConnectionPhase) (bin : Bin) :
    ((r.countUp phase bin).counts phase').length = (r.counts phase').length := by
  rw [countUp, counts_modifyCounts]
  split <;> simp_all [length_atomicInc]

theorem length_countDown (phase' : ConnectionPhase) (bin : Bin) :
    ((r.countDown phase bin).counts phase').length = (r.counts phase').length := by
  rw [countDown, counts_modifyCounts]
  split <;> simp_all [length_atomicDec]

/-! ## The phase map -/

theorem connectionPhases_tryReserveDial (overlay : Peers.OverlayAddress) :
    (r.tryReserveDial overlay).2.connectionPhases =
      if (r.tryReserveDial overlay).1 then insertBack r.connectionPhases overlay .dialing
      else r.connectionPhases := by
  unfold KademliaRouting.tryReserveDial
  dsimp only
  split_ifs <;> first | rfl | contradiction

theorem connectionPhases_releaseDial (overlay : Peers.OverlayAddress) :
    (r.releaseDial overlay).connectionPhases = eraseKey r.connectionPhases overlay := by
  unfold KademliaRouting.releaseDial
  split <;> rfl

theorem connectionPhases_dialConnected (overlay : Peers.OverlayAddress) :
    (r.dialConnected overlay).connectionPhases =
      if find r.connectionPhases overlay = some .dialing then
        insertBack r.connectionPhases overlay .handshaking
      else r.connectionPhases := by
  unfold KademliaRouting.dialConnected
  split_ifs <;> rfl

theorem connectionPhases_handshakeCompleted (overlay : Peers.OverlayAddress) :
    (r.handshakeCompleted overlay).connectionPhases =
      if find r.connectionPhases overlay = some .handshaking then
        insertBack r.connectionPhases overlay .active
      else r.connectionPhases := by
  unfold KademliaRouting.handshakeCompleted
  split_ifs <;> rfl

theorem connectionPhases_releaseHandshake (overlay : Peers.OverlayAddress) :
    (r.releaseHandshake overlay).connectionPhases = eraseKey r.connectionPhases overlay := by
  unfold KademliaRouting.releaseHandshake
  split <;> rfl

/-- `disconnected` removes the entry; with none there is nothing to remove. -/
theorem connectionPhases_disconnected (overlay : Peers.OverlayAddress) :
    (r.disconnected overlay).connectionPhases = eraseKey r.connectionPhases overlay := by
  unfold KademliaRouting.disconnected
  split
  · rfl
  · next hnone => exact (eraseKey_of_not_mem (find_eq_none_iff.mp hnone)).symm

theorem connectionPhases_reserveInbound (overlay : Peers.OverlayAddress) :
    (r.reserveInbound overlay).connectionPhases =
      if (find r.connectionPhases overlay).isSome then r.connectionPhases
      else insertBack r.connectionPhases overlay .handshaking := by
  unfold KademliaRouting.reserveInbound
  split_ifs <;> rfl

@[simp]
theorem connectionPhases_peerConnected (peer : Peers.OverlayAddress) :
    (r.peerConnected peer).connectionPhases = r.connectionPhases := by
  unfold KademliaRouting.peerConnected
  split <;> rfl

@[simp]
theorem connectionPhases_peerDisconnected (peer : Peers.OverlayAddress) :
    (r.peerDisconnected peer).connectionPhases = r.connectionPhases := rfl

/-! ## The accounting -/

variable {r}

theorem Accounted.enter (h : r.Accounted) (hfresh : find r.connectionPhases overlay = none)
    (phase : ConnectionPhase) :
    ({ r.countUp phase (r.binFor overlay) with
      connectionPhases := insertBack r.connectionPhases overlay phase } : KademliaRouting).Accounted := by
  have hnot : overlay ∉ keys r.connectionPhases := find_eq_none_iff.mp hfresh
  refine ⟨Nodup.insertBack h.nodup overlay phase, fun phase' ↦ ?_, fun phase' bin ↦ ?_⟩
  · rw [counts_withPhases, length_countUp]
    exact h.length_counts phase'
  · -- the new entry counts once, in its own phase and bin
    rw [counts_withPhases, atomicLoad_countUp r (h.length_counts phase), countUp,
      phaseCount_withPhases, countP_insertBack, eraseKey_of_not_mem hnot, h.counts_eq, phaseCount]
    by_cases hself : phase = phase' ∧ r.binFor overlay = bin <;> simp [hself]

theorem Accounted.leave (h : r.Accounted) (hphase : find r.connectionPhases overlay = some phase) :
    ({ r.countDown phase (r.binFor overlay) with
      connectionPhases := eraseKey r.connectionPhases overlay } : KademliaRouting).Accounted := by
  have hmem := mem_of_find hphase
  refine ⟨Nodup.eraseKey h.nodup overlay, fun phase' ↦ ?_, fun phase' bin ↦ ?_⟩
  · rw [counts_withPhases, length_countDown]
    exact h.length_counts phase'
  · -- the leaving entry was counted once, in its own phase and bin
    rw [counts_withPhases, atomicLoad_countDown r (h.length_counts phase), countDown,
      phaseCount_withPhases, h.counts_eq, phaseCount, countP_eq_eraseKey_add h.nodup hmem]
    by_cases hself : phase = phase' ∧ r.binFor overlay = bin <;> simp [hself]

theorem Accounted.move (h : r.Accounted) (hphase : find r.connectionPhases overlay = some phase)
    (phase' : ConnectionPhase) :
    ({ (r.countDown phase (r.binFor overlay)).countUp phase' (r.binFor overlay) with
      connectionPhases := insertBack r.connectionPhases overlay phase' } : KademliaRouting).Accounted := by
  have hmoved := (h.leave hphase).enter (find_eraseKey_self r.connectionPhases overlay) phase'
  rw [insertBack_eraseKey] at hmoved
  exact hmoved

theorem Accounted.tryReserveDial (h : r.Accounted) (overlay : Peers.OverlayAddress) :
    (r.tryReserveDial overlay).2.Accounted := by
  unfold KademliaRouting.tryReserveDial
  dsimp only
  split_ifs with hphase
  · exact h
  · exact h
  · exact h.enter (Option.not_isSome_iff_eq_none.mp hphase) .dialing

theorem Accounted.releaseDial (h : r.Accounted)
    (hown : find r.connectionPhases overlay = none ∨ find r.connectionPhases overlay = some .dialing) :
    (r.releaseDial overlay).Accounted := by
  rcases hown with hnone | hdialing
  · -- no entry: the removal changes nothing
    have hsame : r.releaseDial overlay = r := by
      simp [KademliaRouting.releaseDial, hnone, eraseKey_of_not_mem (find_eq_none_iff.mp hnone)]
    rw [hsame]
    exact h
  · simpa [KademliaRouting.releaseDial, hdialing] using h.leave hdialing

theorem Accounted.releaseHandshake (h : r.Accounted)
    (hown : find r.connectionPhases overlay = none ∨
      find r.connectionPhases overlay = some .handshaking) :
    (r.releaseHandshake overlay).Accounted := by
  rcases hown with hnone | hhandshaking
  · have hsame : r.releaseHandshake overlay = r := by
      simp [KademliaRouting.releaseHandshake, hnone, eraseKey_of_not_mem (find_eq_none_iff.mp hnone)]
    rw [hsame]
    exact h
  · simpa [KademliaRouting.releaseHandshake, hhandshaking] using h.leave hhandshaking

theorem Accounted.dialConnected (h : r.Accounted) (overlay : Peers.OverlayAddress) :
    (r.dialConnected overlay).Accounted := by
  unfold KademliaRouting.dialConnected
  dsimp only
  split_ifs with hphase
  · exact h.move hphase .handshaking
  · exact h

theorem Accounted.handshakeCompleted (h : r.Accounted) (overlay : Peers.OverlayAddress) :
    (r.handshakeCompleted overlay).Accounted := by
  unfold KademliaRouting.handshakeCompleted
  dsimp only
  split_ifs with hphase
  · exact h.move hphase .active
  · exact h

theorem Accounted.disconnected (h : r.Accounted) (overlay : Peers.OverlayAddress) :
    (r.disconnected overlay).Accounted := by
  unfold KademliaRouting.disconnected
  split
  · next phase hphase => exact h.leave hphase
  · exact h

theorem Accounted.reserveInbound (h : r.Accounted) (overlay : Peers.OverlayAddress) :
    (r.reserveInbound overlay).Accounted := by
  unfold KademliaRouting.reserveInbound
  split_ifs with hphase
  · exact h
  · exact h.enter (Option.not_isSome_iff_eq_none.mp hphase) .handshaking

theorem Accounted.apply (h : r.Accounted) {call : RoutingCall} (hown : r.releasesOwnPhase call) :
    (r.apply call).Accounted := by
  cases call with
  | tryReserveDial overlay => exact h.tryReserveDial overlay
  | releaseDial overlay => exact h.releaseDial hown
  | dialConnected overlay => exact h.dialConnected overlay
  | handshakeCompleted overlay => exact h.handshakeCompleted overlay
  | releaseHandshake overlay => exact h.releaseHandshake hown
  | disconnected overlay => exact h.disconnected overlay
  | reserveInbound overlay => exact h.reserveInbound overlay

theorem accounted_new (proximity : Peers.Proximity) (localOverlay : Peers.OverlayAddress)
    (maxPo : ℕ) (limits : DepthAwareLimits) : (new proximity localOverlay maxPo limits).Accounted := by
  refine ⟨List.nodup_nil, fun phase ↦ ?_, fun phase bin ↦ ?_⟩
  · cases phase <;> simp [new, counts, makeAtomicVec]
  · cases phase <;> simp [new, counts, phaseCount, atomicLoad_makeAtomicVec]

theorem accounted_of_run (h : r.Accounted) {calls : List RoutingCall}
    (hcalls : Run.Allowed apply releasesOwnPhase r calls) : (calls.foldl apply r).Accounted :=
  Run.foldl_induction_of_allowed (fun _ _ hs hown ↦ hs.apply hown) h hcalls


variable (r)

/-- Every call keeps one phase per overlay: it keeps the map, inserts under a key, or removes
one. -/
theorem nodup_apply (h : (keys r.connectionPhases).Nodup) (call : RoutingCall) :
    (keys (r.apply call).connectionPhases).Nodup := by
  cases call with
  | tryReserveDial overlay =>
    rw [apply, connectionPhases_tryReserveDial]
    split_ifs
    exacts [Nodup.insertBack h overlay .dialing, h]
  | releaseDial overlay =>
    rw [apply, connectionPhases_releaseDial]
    exact Nodup.eraseKey h overlay
  | dialConnected overlay =>
    rw [apply, connectionPhases_dialConnected]
    split_ifs
    exacts [Nodup.insertBack h overlay .handshaking, h]
  | handshakeCompleted overlay =>
    rw [apply, connectionPhases_handshakeCompleted]
    split_ifs
    exacts [Nodup.insertBack h overlay .active, h]
  | releaseHandshake overlay =>
    rw [apply, connectionPhases_releaseHandshake]
    exact Nodup.eraseKey h overlay
  | disconnected overlay =>
    rw [apply, connectionPhases_disconnected]
    exact Nodup.eraseKey h overlay
  | reserveInbound overlay =>
    rw [apply, connectionPhases_reserveInbound]
    split_ifs
    exacts [h, Nodup.insertBack h overlay .handshaking]

theorem nodup_of_run (h : (keys r.connectionPhases).Nodup) (calls : List RoutingCall) :
    (keys (calls.foldl apply r).connectionPhases).Nodup :=
  Run.foldl_induction (R := fun _ ↦ True) (Q := fun _ ↦ True) (fun s call hs _ _ ↦ nodup_apply s hs call)
    h (fun _ _ ↦ trivial) (fun _ _ ↦ trivial)

/-! ## Reserved dials -/

theorem effectiveCount_tryReserveDial_le {overlay : Peers.OverlayAddress} {r' : KademliaRouting}
    (h : r.tryReserveDial overlay = (true, r')) :
    r'.effectiveCount (r.binFor overlay) ≤ r.limits.target (r.binFor overlay) r.depth := by
  unfold KademliaRouting.tryReserveDial at h
  dsimp only at h
  split_ifs at h with hphase hmore
  · cases h
  · cases h
  obtain rfl := (Prod.mk.inj h).2
  set bin := r.binFor overlay
  -- the new dial is counted in the bin's dialing slot, if the vector has one
  have hcount : effectiveCount { r.countUp .dialing bin with
      connectionPhases := insertBack r.connectionPhases overlay .dialing } bin =
      r.effectiveCount bin + if bin.val < r.dialingCounts.length then 1 else 0 := by
    simp only [effectiveCount, countUp, modifyCounts, if_true, reduceCtorEq, if_false,
      atomicLoad_atomicInc, true_and]
    ac_rfl
  by_cases htarget : r.limits.target bin r.depth = usizeMax
  · rw [htarget]
    exact le_usizeMax _
  · have hlt : r.effectiveCount bin < r.limits.target bin r.depth := by
      simpa [DepthAwareLimits.needsMore, htarget] using hmore
    rw [hcount]
    split
    · rw [UInt64.lt_iff_toNat_lt] at hlt
      have hbound := (r.limits.target bin r.depth).toNat_lt
      rw [UInt64.le_iff_toNat_le, UInt64.toNat_add, UInt64.toNat_one, Nat.mod_eq_of_lt (by omega)]
      omega
    · simpa using UInt64.le_of_lt hlt


/-! ## A release in the wrong phase

An inbound reservation makes an overlay handshaking; a `release_dial` for it (a dial failure
reported for an overlay whose inbound connection was reserved meanwhile) removes the entry, but
the handshaking slot of its bin keeps the one it was given.  From then on the bin's effective
and evictable counts are one too high, with no phase entry left for any call to count down. -/

theorem release_dial_leaves_handshaking_count (proximity : Peers.Proximity)
    (localOverlay : Peers.OverlayAddress) (maxPo : ℕ) (limits : DepthAwareLimits)
    (overlay : Peers.OverlayAddress) :
    let start := new proximity localOverlay maxPo limits
    let drifted := (start.reserveInbound overlay).releaseDial overlay
    (drifted.connectionPhases = [] ∧
      atomicLoad drifted.handshakingCounts (drifted.binFor overlay) = 1 ∧ ¬ drifted.Accounted) ∧
    (∀ calls : List RoutingCall, (keys (calls.foldl apply start).connectionPhases).Nodup) ∧
    (∀ calls : List RoutingCall, Run.Allowed apply releasesOwnPhase start calls →
      (calls.foldl apply start).Accounted) ∧
    ∀ (r r' : KademliaRouting) (dialed : Peers.OverlayAddress), r.tryReserveDial dialed = (true, r') →
      r'.effectiveCount (r.binFor dialed) ≤ r.limits.target (r.binFor dialed) r.depth := by
  intro start drifted
  have hbin : (start.binFor overlay).val ≤ maxPo := start.binFor_le overlay
  -- the inbound reservation is counted; the release removes the entry and counts nothing down
  have hdrifted : drifted =
      { start.countUp .handshaking (start.binFor overlay) with connectionPhases := [] } := by
    simp [drifted, KademliaRouting.reserveInbound, KademliaRouting.releaseDial, start, new, find,
      insertBack, eraseKey]
  have hphases : drifted.connectionPhases = [] := by
    rw [hdrifted]
  have hload : atomicLoad drifted.handshakingCounts (drifted.binFor overlay) = 1 := by
    rw [hdrifted]
    change atomicLoad (atomicInc (makeAtomicVec (maxPo + 1)) (start.binFor overlay))
      (start.binFor overlay) = 1
    rw [atomicLoad_atomicInc, atomicLoad_makeAtomicVec, if_pos ⟨rfl, by simp [makeAtomicVec]; omega⟩]
    rfl
  refine ⟨⟨hphases, hload, fun hacc ↦ ?_⟩, nodup_of_run start List.nodup_nil,
    fun _ hcalls ↦ accounted_of_run (accounted_new proximity localOverlay maxPo limits) hcalls,
    fun r _ _ h ↦ effectiveCount_tryReserveDial_le r h⟩
  -- the slot holds one, while no entry is left to be counted in it
  have hslot := hacc.counts_eq .handshaking (drifted.binFor overlay)
  rw [counts, hload, phaseCount, hphases, List.countP_nil] at hslot
  exact absurd hslot (by decide)

end KademliaRouting

end VertexSwarm.Topology
