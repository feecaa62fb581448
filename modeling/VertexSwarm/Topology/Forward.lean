import VertexSwarm.Lib.Select
import VertexSwarm.Peers.Index
import VertexSwarm.Postage.StampIndex

/-!
# Forwarding to closer peers

`client-behaviour/src/forward.rs` (`closer_candidates`) over `KademliaRouting::closest_to`
(`topology/src/kademlia/routing.rs`).  A relay that cannot serve a chunk asks the routing table
for the connected peers closest to the chunk, and keeps those strictly closer to the chunk by
XOR distance than both the requester and itself, at most `MAX_FORWARD_CANDIDATES`.

`closest_to` does not compare XOR distances.  It scores each connected peer, in the order
`iter_by_proximity` walks them, by its proximity order to the address, capped at `MAX_PO`; keeps
the top `2 * MAX_FORWARD_CANDIDATES` of them with `select_nth_unstable_by` when there are more;
and sorts those by proximity, deepest first.  Peers of equal proximity look the same to it, and
every peer at least `MAX_PO` deep is of equal proximity: when more of them tie than it keeps,
which ones it drops is decided by the selection, not by XOR distance.

The routing table's connected peers are a `ProximityIndex` with no bin cap; the introselect
loop of the selection is a parameter that reorders (`Select.perm_select`), and nectar's
`proximity` is a parameter given by its laws (`Peers.Proximity`).

What the forwarder returns is always sound (`closerCandidates_sound`): distinct connected peers,
neither the requester nor this node, each strictly closer than both.  It is not complete: in
`closer_candidates_misses_tied_peer` seven connected peers tie at `MAX_PO`, and the only one
strictly closer than the requester is the one the selection drops.
-/

namespace VertexSwarm.Topology

open BigEndian Peers Postage Select

/-- `MAX_FORWARD_CANDIDATES`. -/
def maxForwardCandidates : ℕ := 3

/-- `ChunkAddress::closer`: `a` is strictly closer to the address than `b` by XOR distance. -/
def closer (address : ChunkAddress) (a b : OverlayAddress) : Bool :=
  decide ((address.toNat ^^^ a.toNat) < (address.toNat ^^^ b.toNat))

/-- The order `closest_to` selects in, `|a, b| b.1.cmp(&a.1)` as `is_less`: the greater
proximity comes first. -/
def byProximityDesc (a b : OverlayAddress × ℕ) : Bool := decide (b.2 < a.2)

/-- `KademliaRouting::closest_to`: the connected peers scored by capped proximity to the address,
the top `count` selected when there are more, then sorted deepest first (a stable sort). -/
def closestTo (proximity : Proximity)
    (partitionLoop : List (OverlayAddress × ℕ) → ℕ → List (OverlayAddress × ℕ))
    (connected : ProximityIndex) (address : ChunkAddress) (count : ℕ) : List OverlayAddress :=
  let peersWithDistance :=
    connected.iterByProximity.map fun (_, peer) ↦ (peer, proximity.po address peer)
  let top :=
    if count < peersWithDistance.length then
      (selectNthUnstableBy byProximityDesc partitionLoop peersWithDistance count).take count
    else peersWithDistance
  (top.mergeSort fun a b ↦ decide (b.2 ≤ a.2)).map Prod.fst

/-- `closer_candidates`: of the `2 * MAX_FORWARD_CANDIDATES` closest connected peers, those that
are neither the requester nor this node and strictly closer than both, in order, at most
`MAX_FORWARD_CANDIDATES`. -/
def closerCandidates (proximity : Proximity)
    (partitionLoop : List (OverlayAddress × ℕ) → ℕ → List (OverlayAddress × ℕ))
    (connected : ProximityIndex) (target : ChunkAddress) (requester localOverlay : OverlayAddress) :
    List OverlayAddress :=
  (((closestTo proximity partitionLoop connected target (maxForwardCandidates * 2)).filter fun peer ↦
      peer != requester && peer != localOverlay).filter fun peer ↦
      closer target peer requester && closer target peer localOverlay).take maxForwardCandidates

/-! ## Soundness -/

section Sound

variable (proximity : Proximity) {partitionLoop : List (OverlayAddress × ℕ) → ℕ → List (OverlayAddress × ℕ)}

/-- `closest_to` returns some of the connected peers, each at most once as often as the walk
meets it. -/
theorem closestTo_subperm (hloop : ∀ v index, (partitionLoop v index).Perm v)
    (connected : ProximityIndex) (address : ChunkAddress) (count : ℕ) :
    (closestTo proximity partitionLoop connected address count).Subperm
      (connected.iterByProximity.map Prod.snd) := by
  unfold closestTo
  dsimp only
  set v := connected.iterByProximity.map fun (_, peer) ↦ (peer, proximity.po address peer)
  have hpeers : v.map Prod.fst = connected.iterByProximity.map Prod.snd := by
    simp [v, Function.comp_def]
  -- the selection reorders and the cut keeps a prefix, so the top is a sub-multiset of the walk
  have htop : (if count < v.length then
      (selectNthUnstableBy byProximityDesc partitionLoop v count).take count else v).Subperm v := by
    split_ifs
    · exact (List.take_sublist _ _).subperm.trans (perm_select hloop v count).subperm
    · exact (List.Perm.refl v).subperm
  rw [← hpeers]
  -- the sort reorders; projecting a reordered sublist gives a reordered sublist
  obtain ⟨l, hperm, hsublist⟩ := (List.mergeSort_perm _ _).subperm.trans htop
  exact ⟨l.map Prod.fst, hperm.map Prod.fst, hsublist.map Prod.fst⟩

/-- What the forwarder returns is sound: distinct connected peers, neither the requester nor this
node, each strictly closer to the target than both, at most `MAX_FORWARD_CANDIDATES`. -/
theorem closerCandidates_sound (hloop : ∀ v index, (partitionLoop v index).Perm v)
    {connected : ProximityIndex} (hwf : connected.Wf) (target : ChunkAddress)
    (requester localOverlay : OverlayAddress) :
    let result := closerCandidates proximity partitionLoop connected target requester localOverlay
    result.Nodup ∧ result.length ≤ maxForwardCandidates ∧
      ∀ peer ∈ result, connected.Holds peer ∧ peer ≠ requester ∧ peer ≠ localOverlay ∧
        closer target peer requester = true ∧ closer target peer localOverlay = true := by
  intro result
  have hsub : result.Subperm (connected.iterByProximity.map Prod.snd) :=
    ((List.take_sublist _ _).trans ((List.filter_sublist).trans List.filter_sublist)).subperm.trans
      (closestTo_subperm proximity hloop connected target _)
  have hnodup : result.Nodup := by
    obtain ⟨l, hperm, hsublist⟩ := hsub
    exact hperm.nodup_iff.mp ((ProximityIndex.Wf.nodup_iterByProximity hwf).sublist hsublist)
  refine ⟨hnodup, List.length_take_le _ _, fun peer hpeer ↦ ?_⟩
  have hheld := (ProximityIndex.Wf.mem_iterByProximity hwf).mp (hsub.subset hpeer)
  obtain ⟨hkept, hcloser⟩ := List.mem_filter.mp (List.mem_of_mem_take hpeer)
  obtain ⟨-, hother⟩ := List.mem_filter.mp hkept
  simp only [Bool.and_eq_true, bne_iff_ne, ne_eq] at hcloser hother
  exact ⟨hheld, hother.1, hother.2, hcloser.1, hcloser.2⟩

theorem mergeSort_of_tied {top : List (OverlayAddress × ℕ)} {d : ℕ} (h : ∀ t ∈ top, t.2 = d) :
    top.mergeSort (fun a b ↦ decide (b.2 ≤ a.2)) = top := by
  apply List.mergeSort_of_pairwise
  refine List.pairwise_of_forall_mem_list fun a ha b hb ↦ ?_
  simp [h a ha, h b hb]

end Sound

/-! ## Seven peers tied at `MAX_PO`

The chunk is at address zero and this node has the top bit set, so every peer below lies in its
bin 0 and the walk meets them in the order they connected.  The requester is at distance `2^10`
from the chunk.  The first peer to connect is at distance 1, strictly closer than the requester
and this node; six more follow at distances `2^11` to `2^16`.  All seven share at least `MAX_PO`
leading bits with the chunk, so `closest_to` scores them alike; asked for six, it swaps the first
maximal one, which `max_index` finds at position 0, into the cut. -/

/-- The chunk. -/
def tiedTarget : ChunkAddress := FixedBytes.ofNat 32 0

/-- This node. -/
def tiedLocal : OverlayAddress := FixedBytes.ofNat 32 (2 ^ 255)

/-- The requester. -/
def tiedRequester : OverlayAddress := FixedBytes.ofNat 32 (2 ^ 10)

/-- The one connected peer strictly closer than the requester. -/
def tiedClosest : OverlayAddress := FixedBytes.ofNat 32 1

/-- The six connected peers farther than the requester. -/
def tiedFar : List OverlayAddress := (List.range 6).map fun i ↦ FixedBytes.ofNat 32 (2 ^ (11 + i))

/-- The routing table's connected peers, in bin 0 in the order they connected. -/
def tiedConnected : ProximityIndex :=
  ⟨.byXor, tiedLocal, maxPo, 0, fun bin ↦ if bin = 0 then tiedClosest :: tiedFar else [],
    fun bin ↦ if bin = 0 then 7 else 0, 7⟩

/-- `tiedConnected` is a table the routing code can hold. -/
theorem wf_tiedConnected : tiedConnected.Wf where
  nodup bin := by
    simp only [tiedConnected]
    split_ifs
    · decide
    · exact List.nodup_nil
  binFor_eq bin addr hmem := by
    simp only [tiedConnected] at hmem
    split_ifs at hmem with hbin
    · subst hbin
      exact (by decide : ∀ addr ∈ tiedClosest :: tiedFar, tiedConnected.binFor addr = 0) addr hmem
    · simp at hmem
  length_le hcap := absurd hcap (lt_irrefl 0)
  binCounts_eq bin := by
    simp only [tiedConnected]
    split_ifs <;> rfl
  totalCount_eq := by
    simp only [tiedConnected]
    rw [Finset.sum_eq_single 0 (fun bin _ hbin ↦ by simp [hbin]) (by simp)]
    rfl

theorem closer_candidates_misses_tied_peer (proximity : Proximity)
    (partitionLoop : List (OverlayAddress × ℕ) → ℕ → List (OverlayAddress × ℕ)) :
    tiedConnected.Wf ∧ tiedConnected.Holds tiedClosest ∧
      closer tiedTarget tiedClosest tiedRequester = true ∧
      closer tiedTarget tiedClosest tiedLocal = true ∧
      closerCandidates proximity partitionLoop tiedConnected tiedTarget tiedRequester tiedLocal = [] := by
  -- every function with nectar's laws is the one read off the XOR
  obtain rfl : proximity = .byXor := Subsingleton.elim _ _
  refine ⟨wf_tiedConnected, by decide, by decide, by decide, ?_⟩
  -- all seven are scored `MAX_PO`, the closest one first
  have hwalk : tiedConnected.iterByProximity.map
      (fun (_, peer) ↦ (peer, Proximity.byXor.po tiedTarget peer)) =
      (tiedClosest, 31) :: tiedFar.map (·, 31) := by
    decide
  have htied : ∀ t ∈ tiedFar.map (·, 31), byProximityDesc (tiedClosest, 31) t = false := by
    decide
  have hcount : maxForwardCandidates * 2 = (tiedFar.map (·, 31)).length := rfl
  unfold closerCandidates closestTo
  dsimp only
  rw [hwalk, hcount, select_last_of_tied htied,
    if_pos (show (tiedFar.map (·, 31)).length < ((tiedClosest, 31) :: tiedFar.map (·, 31)).length by
      decide)]
  -- the swap sent the closest peer past the cut; the six kept are tied and stay in order
  rw [mergeSort_of_tied (d := 31) (by decide)]
  decide

end VertexSwarm.Topology
