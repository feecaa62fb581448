import Mathlib.Data.Finset.Basic
import VertexSwarm.Peers.Manager
import VertexSwarm.Topology.Limits

/-!
# Dial-candidate selection

`topology/src/kademlia/candidates.rs`.  `evaluate_connections` captures a snapshot (the limits at
one depth, the peers in a connection phase, the peers already queued), opens one
`CandidateSelector` on it and the connected-peer index, and runs two passes: the neighbourhood
pass over the bins from the deepest down to the depth, then the balanced pass over the bins
below the depth, deepest first.  Each pass pulls each bin's dialable overlays from the peer
manager (without the connected ones) and offers them to `try_add_with_bin_capacity`, which
refuses a peer when the selector is full, when the peer is connected, in progress, queued,
banned or backing off, when it is already a candidate, or when the bin's count with the
selections so far does not need more.

The peer manager is read, not changed, and the wall clock its backoff check reads is one
`clock` for the whole selection.  `usize` counts are `UInt64` where the limits compare them and
natural numbers where they count list elements (the candidate list never outgrows
`max_candidates`).

What holds of both passes together (`selection_respects_targets`): the candidates are distinct,
at most `max_candidates`, none connected, in progress, queued, banned or backing off; and in
every bin whose target is not the `usize::MAX` sentinel, a bin that got a candidate ends within
its target counting its candidates.  Past a non-zero depth the neighbourhood target is the
sentinel, and that pass is the greedy pick of eligible peers, deepest bin first, up to
`max_candidates`.  At depth zero every bin is a neighbourhood bin with the bootstrap target, so
that pass is capped per bin as well.
-/

namespace VertexSwarm.Topology

open Peers Storer

/-! ## Greedy selection

What the neighbourhood pass is for past the depth: scanning the supply in order, keep each peer
that is acceptable and not kept yet, while fewer than the bound are kept. -/

section Greedy

variable {α : Type*} [DecidableEq α] (n : ℕ) (ok : α → Bool)

/-- One element of the scan. -/
def pickStep (kept : List α) (a : α) : List α :=
  if kept.length < n ∧ ok a = true ∧ a ∉ kept then kept ++ [a] else kept

/-- The greedy pick from `l` after `kept`. -/
def pickDistinct (kept l : List α) : List α := l.foldl (pickStep n ok) kept

theorem pickDistinct_of_full {kept : List α} (h : n ≤ kept.length) (l : List α) :
    pickDistinct n ok kept l = kept := by
  induction l with
  | nil => rfl
  | cons a l ih =>
    rw [pickDistinct, List.foldl_cons, pickStep, if_neg fun hpick ↦ absurd hpick.1 (by omega)]
    exact ih

theorem pickDistinct_append (kept l l' : List α) :
    pickDistinct n ok kept (l ++ l') = pickDistinct n ok (pickDistinct n ok kept l) l' :=
  List.foldl_append

end Greedy

/-- `LimitsSnapshot`: the limits read at one depth. -/
structure LimitsSnapshot where
  depth : NeighborhoodDepth
  limits : DepthAwareLimits

namespace LimitsSnapshot

variable (snapshot : LimitsSnapshot)

/-- `LimitsSnapshot::capture`. -/
def capture (limits : DepthAwareLimits) (depth : NeighborhoodDepth) : LimitsSnapshot :=
  ⟨depth, limits⟩

/-- The target at the snapshot's depth (the test-only `target`). -/
def target (bin : Bin) : UInt64 := snapshot.limits.target bin snapshot.depth

/-- `LimitsSnapshot::needs_more`. -/
def needsMore (bin : Bin) (connected : UInt64) : Bool :=
  snapshot.limits.needsMore bin snapshot.depth connected

/-- `LimitsSnapshot::deficit`. -/
def deficit (bin : Bin) (connected : UInt64) : UInt64 :=
  snapshot.limits.deficit bin snapshot.depth connected

theorem needsMore_of_target_eq {bin : Bin} (h : snapshot.target bin = usizeMax) (connected : UInt64) :
    snapshot.needsMore bin connected = true := by
  unfold target at h
  simp only [needsMore, DepthAwareLimits.needsMore]
  rw [if_pos h]

theorem needsMore_of_target_ne {bin : Bin} (h : snapshot.target bin ≠ usizeMax) (connected : UInt64) :
    snapshot.needsMore bin connected = decide (connected < snapshot.target bin) := by
  unfold target at h ⊢
  simp only [needsMore, DepthAwareLimits.needsMore]
  rw [if_neg h]

theorem target_of_neighborhood {bin : Bin} (hdepth : snapshot.depth ≠ .zero)
    (hbin : snapshot.depth.bin ≤ bin) : snapshot.target bin = usizeMax := by
  unfold target DepthAwareLimits.target
  rw [if_neg hdepth, if_pos (by simpa [NeighborhoodDepth.contains] using hbin)]

end LimitsSnapshot

/-- `CandidateSnapshot`: the limits, and the peers in a connection phase or queued at capture. -/
structure CandidateSnapshot where
  limits : LimitsSnapshot
  inProgress : Finset OverlayAddress
  queued : Finset OverlayAddress

/-- `CandidateSelector`: the snapshot and the connected-peer index it borrows, the candidates so
far and the number selected in each bin. -/
structure CandidateSelector where
  snapshot : CandidateSnapshot
  connectedPeers : ProximityIndex
  candidates : List OverlayAddress
  maxCandidates : ℕ
  binSelections : Bin → ℕ

namespace CandidateSelector

/-- `CandidateSelector::new`: no candidates, no selections. -/
def new (snapshot : CandidateSnapshot) (connectedPeers : ProximityIndex) (maxCandidates : ℕ) :
    CandidateSelector :=
  ⟨snapshot, connectedPeers, [], maxCandidates, fun _ ↦ 0⟩

variable (sel : CandidateSelector)

/-- `is_full`. -/
def isFull : Bool := decide (sel.maxCandidates ≤ sel.candidates.length)

/-- `remaining`, saturating. -/
def remaining : ℕ := sel.maxCandidates - sel.candidates.length

/-- `bin_selected`. -/
def binSelected (bin : Bin) : ℕ := sel.binSelections bin

/-- The count a bin is compared at: its effective count and its selections, a `usize` sum. -/
def projected (bin : Bin) (effective : UInt64) : UInt64 := effective + UInt64.ofNat (sel.binSelected bin)

end CandidateSelector

section Selection

variable {σ ε : Type} (config : PeerManagerConfig σ ε) (pm : PeerManager σ) (clock : ℕ)

/-- `CandidateSnapshot::is_eligible`: not in progress, not queued, not banned, not backing off. -/
def CandidateSnapshot.isEligible (snapshot : CandidateSnapshot) (peer : OverlayAddress) : Bool :=
  !decide (peer ∈ snapshot.inProgress) && !decide (peer ∈ snapshot.queued) && !pm.isBanned peer &&
    !pm.peerIsInBackoff config peer clock

theorem CandidateSnapshot.isEligible_eq_true {snapshot : CandidateSnapshot} {peer : OverlayAddress} :
    snapshot.isEligible config pm clock peer = true ↔
      peer ∉ snapshot.inProgress ∧ peer ∉ snapshot.queued ∧ pm.isBanned peer = false ∧
        pm.peerIsInBackoff config peer clock = false := by
  simp [isEligible, and_assoc]

/-- The peers an offer can take: not connected, and eligible. -/
def CandidateSnapshot.acceptable (snapshot : CandidateSnapshot) (connected : ProximityIndex)
    (peer : OverlayAddress) : Bool :=
  !decide (connected.Holds peer) && snapshot.isEligible config pm clock peer

/-- The supply of a bin: `dialable_overlays_in_bin_excluding` the connected peers. -/
def dialableSupply (connected : ProximityIndex) (bin : Bin) : List OverlayAddress :=
  pm.dialableOverlaysInBinExcluding config bin.val (fun overlay ↦ decide (connected.Holds overlay)) clock

namespace CandidateSelector

/-- `try_add_with_bin_capacity`: whether the peer was added, and the selector. -/
def tryAddWithBinCapacity (sel : CandidateSelector) (peer : OverlayAddress) (bin : Bin)
    (effectiveCount : UInt64) : Bool × CandidateSelector :=
  if sel.isFull then (false, sel)
  else if sel.connectedPeers.Holds peer then (false, sel)
  else if !sel.snapshot.isEligible config pm clock peer then (false, sel)
  else if peer ∈ sel.candidates then (false, sel)
  else if !sel.snapshot.limits.needsMore bin (sel.projected bin effectiveCount) then (false, sel)
  else
    (true, { sel with
      candidates := sel.candidates ++ [peer]
      binSelections := Function.update sel.binSelections bin (sel.binSelections bin + 1) })

/-- The inner loop of `select_neighborhood_candidates` over one bin's supply: it stops when the
selector is full or the bin needs no more, and passes over a refused peer. -/
def fillNeighborhoodBin (bin : Bin) (effective : UInt64) :
    List OverlayAddress → CandidateSelector → CandidateSelector
  | [], sel => sel
  | peer :: rest, sel =>
    if sel.isFull then sel
    else if !sel.snapshot.limits.needsMore bin (sel.projected bin effective) then sel
    else fillNeighborhoodBin bin effective rest (sel.tryAddWithBinCapacity config pm clock peer bin effective).2

/-- The outer loop of `select_neighborhood_candidates`: it stops when the selector is full, and
skips a bin that needs no more. -/
def neighborhoodLoop (connectedCounts : Bin → UInt64) : List Bin → CandidateSelector → CandidateSelector
  | [], sel => sel
  | bin :: rest, sel =>
    if sel.isFull then sel
    else if !sel.snapshot.limits.needsMore bin (sel.projected bin (connectedCounts bin)) then
      neighborhoodLoop connectedCounts rest sel
    else
      neighborhoodLoop connectedCounts rest
        (fillNeighborhoodBin config pm clock bin (connectedCounts bin)
          (dialableSupply config pm clock sel.connectedPeers bin) sel)

/-- `select_neighborhood_candidates`: the bins from `max_bin` down to the depth. -/
def selectNeighborhoodCandidates (sel : CandidateSelector) (connectedCounts : Bin → UInt64)
    (maxBin : Bin) : CandidateSelector :=
  neighborhoodLoop config pm clock connectedCounts
    (neighborhoodBins sel.snapshot.limits.depth maxBin).reverse sel

/-- The bins `select_balanced_candidates` fills: each balanced bin that needs more, with its
effective count and a positive deficit, ascending. -/
def binStats (sel : CandidateSelector) (connectedCounts : Bin → UInt64) : List (Bin × UInt64 × UInt64) :=
  (balancedBins sel.snapshot.limits.depth).filterMap fun bin ↦
    let effective := connectedCounts bin
    if !sel.snapshot.limits.needsMore bin (sel.projected bin effective) then none
    else
      let deficit := sel.snapshot.limits.deficit bin (sel.projected bin effective)
      if 0 < deficit then some (bin, effective, deficit) else none

/-- The inner loop of `select_balanced_candidates`: at most `to_add` peers from one bin's supply,
counting only the added ones. -/
def fillBalancedBin (bin : Bin) (effective : UInt64) (toAdd : ℕ) :
    List OverlayAddress → ℕ → CandidateSelector → CandidateSelector
  | [], _, sel => sel
  | peer :: rest, added, sel =>
    if toAdd ≤ added || sel.isFull then sel
    else
      let offer := sel.tryAddWithBinCapacity config pm clock peer bin effective
      fillBalancedBin bin effective toAdd rest (if offer.1 then added + 1 else added) offer.2

/-- The outer loop of `select_balanced_candidates`: each bin up to its deficit and the room left. -/
def balancedLoop : List (Bin × UInt64 × UInt64) → CandidateSelector → CandidateSelector
  | [], sel => sel
  | (bin, effective, deficit) :: rest, sel =>
    if sel.isFull then sel
    else
      balancedLoop rest
        (fillBalancedBin config pm clock bin effective (min deficit.toNat sel.remaining)
          (dialableSupply config pm clock sel.connectedPeers bin) 0 sel)

/-- `select_balanced_candidates`: nothing at depth zero; otherwise the bins of `binStats`, sorted
deepest first (`sort_by_key` on `Reverse`, a stable sort). -/
def selectBalancedCandidates (sel : CandidateSelector) (connectedCounts : Bin → UInt64) :
    CandidateSelector :=
  if sel.snapshot.limits.depth = .zero then sel
  else
    balancedLoop config pm clock
      ((binStats sel connectedCounts).mergeSort fun a b ↦ decide (b.1 ≤ a.1)) sel

end CandidateSelector

/-- The two passes of `evaluate_connections` on one selector. -/
def selectCandidates (snapshot : CandidateSnapshot) (connectedPeers : ProximityIndex)
    (maxCandidates : ℕ) (connectedCounts : Bin → UInt64) (maxBin : Bin) : CandidateSelector :=
  let sel := CandidateSelector.new snapshot connectedPeers maxCandidates
  let sel := sel.selectNeighborhoodCandidates config pm clock connectedCounts maxBin
  sel.selectBalancedCandidates config pm clock connectedCounts

/-! ## What one offer does

Every loop of the two passes is a run of offers, each at the offered bin's effective count;
what the selector keeps is proved of one offer and carried along the run. -/

namespace CandidateSelector

theorem tryAddWithBinCapacity_cases (sel : CandidateSelector) (peer : OverlayAddress) (bin : Bin)
    (effective : UInt64) :
    sel.tryAddWithBinCapacity config pm clock peer bin effective = (false, sel) ∨
      (sel.tryAddWithBinCapacity config pm clock peer bin effective =
          (true, { sel with
            candidates := sel.candidates ++ [peer]
            binSelections := Function.update sel.binSelections bin (sel.binSelections bin + 1) }) ∧
        sel.isFull = false ∧ ¬sel.connectedPeers.Holds peer ∧
        sel.snapshot.isEligible config pm clock peer = true ∧ peer ∉ sel.candidates ∧
        sel.snapshot.limits.needsMore bin (sel.projected bin effective) = true) := by
  unfold tryAddWithBinCapacity
  split_ifs <;> simp_all

theorem frame_tryAddWithBinCapacity (sel : CandidateSelector) (peer : OverlayAddress) (bin : Bin)
    (effective : UInt64) :
    let sel' := (sel.tryAddWithBinCapacity config pm clock peer bin effective).2
    sel'.snapshot = sel.snapshot ∧ sel'.connectedPeers = sel.connectedPeers ∧
      sel'.maxCandidates = sel.maxCandidates := by
  rcases tryAddWithBinCapacity_cases config pm clock sel peer bin effective with hrefused | ⟨hadded, -⟩
  · rw [hrefused]
    exact ⟨rfl, rfl, rfl⟩
  · rw [hadded]
    exact ⟨rfl, rfl, rfl⟩

/-- One offer, at the offered bin's effective count. -/
def OfferStep (connectedCounts : Bin → UInt64) (sel sel' : CandidateSelector) : Prop :=
  ∃ peer bin, sel' = (sel.tryAddWithBinCapacity config pm clock peer bin (connectedCounts bin)).2

/-- A run of offers. -/
def Offered (connectedCounts : Bin → UInt64) : CandidateSelector → CandidateSelector → Prop :=
  Relation.ReflTransGen (OfferStep config pm clock connectedCounts)

theorem frame_of_offerStep {connectedCounts : Bin → UInt64} {sel sel' : CandidateSelector}
    (h : OfferStep config pm clock connectedCounts sel sel') :
    sel'.snapshot = sel.snapshot ∧ sel'.connectedPeers = sel.connectedPeers ∧
      sel'.maxCandidates = sel.maxCandidates := by
  obtain ⟨peer, bin, rfl⟩ := h
  exact frame_tryAddWithBinCapacity config pm clock sel peer bin _

theorem frame_of_offered {connectedCounts : Bin → UInt64} {sel sel' : CandidateSelector}
    (h : Offered config pm clock connectedCounts sel sel') :
    sel'.snapshot = sel.snapshot ∧ sel'.connectedPeers = sel.connectedPeers ∧
      sel'.maxCandidates = sel.maxCandidates := by
  induction h with
  | refl => exact ⟨rfl, rfl, rfl⟩
  | tail _ hstep ih =>
    obtain ⟨hsnap, hconn, hmax⟩ := frame_of_offerStep config pm clock hstep
    exact ⟨hsnap.trans ih.1, hconn.trans ih.2.1, hmax.trans ih.2.2⟩

variable (connectedCounts : Bin → UInt64)

theorem offered_fillNeighborhoodBin (bin : Bin) (supply : List OverlayAddress) (sel : CandidateSelector) :
    Offered config pm clock connectedCounts sel
      (fillNeighborhoodBin config pm clock bin (connectedCounts bin) supply sel) := by
  induction supply generalizing sel with
  | nil => exact .refl
  | cons peer rest ih =>
    simp only [fillNeighborhoodBin]
    split_ifs
    · exact .refl
    · exact .refl
    · exact (Relation.ReflTransGen.single ⟨peer, bin, rfl⟩).trans (ih _)

theorem offered_neighborhoodLoop (bins : List Bin) (sel : CandidateSelector) :
    Offered config pm clock connectedCounts sel (neighborhoodLoop config pm clock connectedCounts bins sel) := by
  induction bins generalizing sel with
  | nil => exact .refl
  | cons bin rest ih =>
    simp only [neighborhoodLoop]
    split_ifs
    · exact .refl
    · exact ih sel
    · exact (offered_fillNeighborhoodBin config pm clock connectedCounts bin _ sel).trans (ih _)

theorem offered_fillBalancedBin (bin : Bin) (toAdd : ℕ) (supply : List OverlayAddress) (added : ℕ)
    (sel : CandidateSelector) :
    Offered config pm clock connectedCounts sel
      (fillBalancedBin config pm clock bin (connectedCounts bin) toAdd supply added sel) := by
  induction supply generalizing added sel with
  | nil => exact .refl
  | cons peer rest ih =>
    simp only [fillBalancedBin]
    split
    · exact .refl
    · exact (Relation.ReflTransGen.single ⟨peer, bin, rfl⟩).trans (ih _ _)

/-- Each bin `select_balanced_candidates` fills is balanced and carries its effective count. -/
theorem mem_binStats {sel : CandidateSelector} {stat : Bin × UInt64 × UInt64}
    (h : stat ∈ binStats sel connectedCounts) :
    stat.1 ∈ balancedBins sel.snapshot.limits.depth ∧ stat.2.1 = connectedCounts stat.1 := by
  obtain ⟨bin, hbin, hstat⟩ := List.mem_filterMap.mp h
  dsimp only at hstat
  -- the refused bins give `none`, which `split_ifs` discards
  split_ifs at hstat
  rw [Option.some_inj] at hstat
  exact hstat ▸ ⟨hbin, rfl⟩

theorem offered_balancedLoop (stats : List (Bin × UInt64 × UInt64))
    (hstats : ∀ stat ∈ stats, stat.2.1 = connectedCounts stat.1) (sel : CandidateSelector) :
    Offered config pm clock connectedCounts sel (balancedLoop config pm clock stats sel) := by
  induction stats generalizing sel with
  | nil => exact .refl
  | cons stat rest ih =>
    obtain ⟨bin, effective, deficit⟩ := stat
    have heffective : effective = connectedCounts bin := hstats _ List.mem_cons_self
    subst heffective
    simp only [balancedLoop]
    split_ifs
    · exact .refl
    · exact (offered_fillBalancedBin config pm clock connectedCounts bin _ _ 0 sel).trans
        (ih (fun stat hstat ↦ hstats stat (List.mem_cons_of_mem _ hstat)) _)

theorem offered_selectNeighborhoodCandidates (sel : CandidateSelector) (maxBin : Bin) :
    Offered config pm clock connectedCounts sel
      (sel.selectNeighborhoodCandidates config pm clock connectedCounts maxBin) :=
  offered_neighborhoodLoop config pm clock connectedCounts _ sel

theorem offered_selectBalancedCandidates (sel : CandidateSelector) :
    Offered config pm clock connectedCounts sel
      (sel.selectBalancedCandidates config pm clock connectedCounts) := by
  unfold selectBalancedCandidates
  split_ifs
  · exact .refl
  · exact offered_balancedLoop config pm clock connectedCounts _
      (fun stat hstat ↦ (mem_binStats connectedCounts ((List.mergeSort_perm _ _).subset hstat)).2) sel

/-! ## What the selector keeps -/

/-- While a bin's count and selections stay below `2^64`, their `usize` sum does not wrap. -/
theorem toNat_projected {sel : CandidateSelector} {bin : Bin} {effective : UInt64}
    (h : effective.toNat + sel.binSelected bin < 2 ^ 64) :
    (sel.projected bin effective).toNat = effective.toNat + sel.binSelected bin := by
  have hselected : sel.binSelected bin < 2 ^ 64 := by omega
  rw [projected, UInt64.toNat_add, UInt64.toNat_ofNat', Nat.mod_eq_of_lt hselected, Nat.mod_eq_of_lt h]

/-- What every offer keeps: distinct candidates, at most `max_candidates`, each neither connected
nor refused by the snapshot; and a bin with selections, unless its target is the sentinel, within
its target counting them. -/
structure Selected (sel : CandidateSelector) : Prop where
  nodup : sel.candidates.Nodup
  length_le : sel.candidates.length ≤ sel.maxCandidates
  eligible : ∀ peer ∈ sel.candidates,
    ¬sel.connectedPeers.Holds peer ∧ sel.snapshot.isEligible config pm clock peer = true
  within : ∀ bin, sel.snapshot.limits.target bin ≠ usizeMax → sel.binSelected bin ≠ 0 →
    (connectedCounts bin).toNat + sel.binSelected bin ≤ (sel.snapshot.limits.target bin).toNat

theorem selected_new (snapshot : CandidateSnapshot) (connectedPeers : ProximityIndex)
    (maxCandidates : ℕ) : Selected config pm clock connectedCounts (new snapshot connectedPeers maxCandidates) :=
  ⟨List.nodup_nil, Nat.zero_le _, fun _ h ↦ absurd h List.not_mem_nil, fun _ _ h ↦ absurd rfl h⟩

/-- An added peer passed the target check at the count before it, which did not wrap: the bin
stays within its target. -/
theorem Selected.within_add {sel : CandidateSelector} (h : Selected config pm clock connectedCounts sel)
    {bin : Bin} (htarget : sel.snapshot.limits.target bin ≠ usizeMax)
    (hneeds : sel.snapshot.limits.needsMore bin (sel.projected bin (connectedCounts bin)) = true) :
    (connectedCounts bin).toNat + (sel.binSelected bin + 1) ≤ (sel.snapshot.limits.target bin).toNat := by
  rw [LimitsSnapshot.needsMore_of_target_ne _ htarget, decide_eq_true_eq, UInt64.lt_iff_toNat_lt] at hneeds
  have hfit : (connectedCounts bin).toNat + sel.binSelected bin < 2 ^ 64 := by
    by_cases hselected : sel.binSelected bin = 0
    · rw [hselected]
      exact (connectedCounts bin).toNat_lt
    · have := h.within bin htarget hselected
      have := (sel.snapshot.limits.target bin).toNat_lt
      omega
  rw [toNat_projected hfit] at hneeds
  omega

theorem Selected.offerStep {sel sel' : CandidateSelector} (h : Selected config pm clock connectedCounts sel)
    (hstep : OfferStep config pm clock connectedCounts sel sel') :
    Selected config pm clock connectedCounts sel' := by
  obtain ⟨peer, bin, rfl⟩ := hstep
  rcases tryAddWithBinCapacity_cases config pm clock sel peer bin (connectedCounts bin) with
    hrefused | ⟨hadded, hfull, hconnected, heligible, hfresh, hneeds⟩
  · rwa [hrefused]
  · rw [hadded]
    have hroom : sel.candidates.length < sel.maxCandidates := by simpa [isFull] using hfull
    refine ⟨?_, ?_, ?_, ?_⟩
    · refine List.nodup_append.mpr ⟨h.nodup, List.nodup_singleton peer, ?_⟩
      rintro a ha b hb rfl
      exact hfresh (List.mem_singleton.mp hb ▸ ha)
    · change (sel.candidates ++ [peer]).length ≤ sel.maxCandidates
      rw [List.length_append, List.length_singleton]
      omega
    · intro q hq
      rcases List.mem_append.mp hq with hold | hnew
      · exact h.eligible q hold
      · rw [List.mem_singleton.mp hnew]
        exact ⟨hconnected, heligible⟩
    · intro b htarget hselected
      change (connectedCounts b).toNat + Function.update sel.binSelections bin (sel.binSelections bin + 1) b ≤ _
      by_cases hb : b = bin
      · subst hb
        rw [Function.update_self]
        exact h.within_add config pm clock connectedCounts htarget hneeds
      · change Function.update sel.binSelections bin (sel.binSelections bin + 1) b ≠ 0 at hselected
        rw [Function.update_of_ne hb] at hselected ⊢
        exact h.within b htarget hselected

theorem Selected.offered {sel sel' : CandidateSelector} (h : Selected config pm clock connectedCounts sel)
    (hrun : Offered config pm clock connectedCounts sel sel') : Selected config pm clock connectedCounts sel' := by
  induction hrun with
  | refl => exact h
  | tail _ hstep ih => exact ih.offerStep config pm clock connectedCounts hstep

/-! ## The neighbourhood pass past the depth -/

theorem candidates_tryAdd_of_sentinel (sel : CandidateSelector) (peer : OverlayAddress) {bin : Bin}
    (effective : UInt64) (htarget : sel.snapshot.limits.target bin = usizeMax) :
    (sel.tryAddWithBinCapacity config pm clock peer bin effective).2.candidates =
      pickStep sel.maxCandidates (sel.snapshot.acceptable config pm clock sel.connectedPeers)
        sel.candidates peer := by
  have hneeds := sel.snapshot.limits.needsMore_of_target_eq htarget (sel.projected bin effective)
  unfold tryAddWithBinCapacity pickStep CandidateSnapshot.acceptable isFull
  -- the guards of the offer and of the greedy step are the same, the target check apart
  split_ifs <;> simp_all
  omega

theorem candidates_fillNeighborhoodBin_of_sentinel {bin : Bin} (effective : UInt64)
    (supply : List OverlayAddress) (sel : CandidateSelector)
    (htarget : sel.snapshot.limits.target bin = usizeMax) :
    (fillNeighborhoodBin config pm clock bin effective supply sel).candidates =
      pickDistinct sel.maxCandidates (sel.snapshot.acceptable config pm clock sel.connectedPeers)
        sel.candidates supply := by
  induction supply generalizing sel with
  | nil => rfl
  | cons peer rest ih =>
    simp only [fillNeighborhoodBin]
    by_cases hfull : sel.isFull = true
    · rw [if_pos hfull, pickDistinct_of_full _ _ (by simpa [isFull] using hfull)]
    · have hneeds := sel.snapshot.limits.needsMore_of_target_eq htarget (sel.projected bin effective)
      rw [if_neg hfull, if_neg (by simp [hneeds])]
      obtain ⟨hsnap, hconn, hmax⟩ := frame_tryAddWithBinCapacity config pm clock sel peer bin effective
      rw [ih _ (hsnap ▸ htarget), hsnap, hconn, hmax,
        candidates_tryAdd_of_sentinel config pm clock sel peer effective htarget]
      rfl

theorem candidates_neighborhoodLoop_of_sentinel (bins : List Bin) (sel : CandidateSelector)
    (htarget : ∀ bin ∈ bins, sel.snapshot.limits.target bin = usizeMax) :
    (neighborhoodLoop config pm clock connectedCounts bins sel).candidates =
      pickDistinct sel.maxCandidates (sel.snapshot.acceptable config pm clock sel.connectedPeers)
        sel.candidates (bins.flatMap (dialableSupply config pm clock sel.connectedPeers)) := by
  induction bins generalizing sel with
  | nil => rfl
  | cons bin rest ih =>
    simp only [neighborhoodLoop]
    by_cases hfull : sel.isFull = true
    · rw [if_pos hfull, pickDistinct_of_full _ _ (by simpa [isFull] using hfull)]
    · have hbin := htarget bin List.mem_cons_self
      rw [if_neg hfull, if_neg (by simp [LimitsSnapshot.needsMore_of_target_eq _ hbin]),
        List.flatMap_cons, pickDistinct_append]
      obtain ⟨hsnap, hconn, hmax⟩ := frame_of_offered config pm clock
        (offered_fillNeighborhoodBin config pm clock connectedCounts bin
          (dialableSupply config pm clock sel.connectedPeers bin) sel)
      rw [ih _ fun b hb ↦ hsnap ▸ htarget b (List.mem_cons_of_mem _ hb), hsnap, hconn, hmax,
        candidates_fillNeighborhoodBin_of_sentinel config pm clock _ _ sel hbin]

/-- Past a non-zero depth every neighbourhood bin needs more, so the neighbourhood pass is the
greedy pick over the bins' supplies, deepest bin first, bounded by `max_candidates` alone. -/
theorem candidates_selectNeighborhoodCandidates (sel : CandidateSelector) (maxBin : Bin)
    (hdepth : sel.snapshot.limits.depth ≠ .zero) :
    (sel.selectNeighborhoodCandidates config pm clock connectedCounts maxBin).candidates =
      pickDistinct sel.maxCandidates (sel.snapshot.acceptable config pm clock sel.connectedPeers)
        sel.candidates ((neighborhoodBins sel.snapshot.limits.depth maxBin).reverse.flatMap
          (dialableSupply config pm clock sel.connectedPeers)) := by
  refine candidates_neighborhoodLoop_of_sentinel config pm clock connectedCounts _ sel fun bin hbin ↦ ?_
  rw [List.mem_reverse, neighborhoodBins, List.mem_filter] at hbin
  have hrange : sel.snapshot.limits.depth.bin ≤ bin ∧ bin ≤ maxBin := by simpa using hbin.2
  exact sel.snapshot.limits.target_of_neighborhood hdepth hrange.1

end CandidateSelector

open CandidateSelector in
/-- The two passes on one selector, as `evaluate_connections` runs them: the candidates are
distinct, at most `max_candidates`, and none is connected, in progress, queued, banned or
backing off; a bin that got candidates ends within its target counting them, unless its target
is the `usize::MAX` sentinel; and past a non-zero depth the neighbourhood pass is the greedy
pick of acceptable peers over the bins' supplies from `max_bin` down to the depth, bounded by
`max_candidates` alone. -/
theorem selection_respects_targets (snapshot : CandidateSnapshot) (connectedPeers : ProximityIndex)
    (maxCandidates : ℕ) (connectedCounts : Bin → UInt64) (maxBin : Bin) :
    let afterNeighborhood := (CandidateSelector.new snapshot connectedPeers maxCandidates).selectNeighborhoodCandidates
      config pm clock connectedCounts maxBin
    let sel := afterNeighborhood.selectBalancedCandidates config pm clock connectedCounts
    sel.candidates.Nodup ∧ sel.candidates.length ≤ maxCandidates ∧
      (∀ peer ∈ sel.candidates, ¬connectedPeers.Holds peer ∧ peer ∉ snapshot.inProgress ∧
        peer ∉ snapshot.queued ∧ pm.isBanned peer = false ∧ pm.peerIsInBackoff config peer clock = false) ∧
      (∀ bin, snapshot.limits.target bin ≠ usizeMax → sel.binSelected bin ≠ 0 →
        (connectedCounts bin).toNat + sel.binSelected bin ≤ (snapshot.limits.target bin).toNat) ∧
      (snapshot.limits.depth ≠ .zero →
        afterNeighborhood.candidates = pickDistinct maxCandidates (snapshot.acceptable config pm clock connectedPeers) []
          ((neighborhoodBins snapshot.limits.depth maxBin).reverse.flatMap
            (dialableSupply config pm clock connectedPeers))) := by
  intro afterNeighborhood sel
  -- both passes are runs of offers from the fresh selector, which keep `Selected` and the frame
  have hrun : Offered config pm clock connectedCounts (new snapshot connectedPeers maxCandidates) sel :=
    (offered_selectNeighborhoodCandidates config pm clock connectedCounts _ maxBin).trans
      (offered_selectBalancedCandidates config pm clock connectedCounts _)
  have hsel := (selected_new config pm clock connectedCounts snapshot connectedPeers maxCandidates).offered
    config pm clock connectedCounts hrun
  obtain ⟨hsnap, hconn, hmax⟩ := frame_of_offered config pm clock hrun
  change sel.snapshot = snapshot at hsnap
  change sel.connectedPeers = connectedPeers at hconn
  change sel.maxCandidates = maxCandidates at hmax
  refine ⟨hsel.nodup, hmax ▸ hsel.length_le, fun peer hpeer ↦ ?_, fun bin htarget hselected ↦ ?_,
    fun hdepth ↦ candidates_selectNeighborhoodCandidates config pm clock connectedCounts _ maxBin hdepth⟩
  · obtain ⟨hconnected, heligible⟩ := hsel.eligible peer hpeer
    rw [hsnap, CandidateSnapshot.isEligible_eq_true] at heligible
    exact ⟨hconn ▸ hconnected, heligible⟩
  · have hwithin := hsel.within bin (hsnap ▸ htarget) hselected
    rwa [hsnap] at hwithin

end Selection

/-- Where the selection is capped short of `max_candidates`.  A balanced bin already over its
target gets no candidate and ends over it; and at depth zero every bin is a neighbourhood bin
with the bootstrap target, so the neighbourhood pass takes nothing from a bin at that target
where the greedy pick up to `max_candidates` takes its dialable peer. -/
theorem selection_capped_short_of_max_candidates :
    let home : OverlayAddress := BigEndian.FixedBytes.ofNat 32 0
    let peer : OverlayAddress := BigEndian.FixedBytes.ofNat 32 (2 ^ 255)
    let config : PeerManagerConfig Unit Unit :=
      ⟨0, ⟨(), fun _ ↦ 0, fun _ s ↦ (.ok, s), fun _ _ s ↦ s, id, ()⟩, fun _ _ ↦ 0⟩
    let pm : PeerManager Unit :=
      ⟨{ ProximityIndex.new .byXor home Storer.maxPo 0 with bins := fun bin ↦ if bin = 0 then [peer] else [] },
        OrderedTable.empty.put peer (PeerEntry.withConfig ⟨peer, 0⟩ () 0), .empty, []⟩
    let connected := ProximityIndex.new .byXor home Storer.maxPo 0
    let shallow : CandidateSnapshot := ⟨⟨⟨1⟩, .default⟩, ∅, ∅⟩
    let overfull := selectCandidates config pm 0 shallow connected 1 (fun _ ↦ 161) (Fin.last Storer.maxPo)
    let bootstrap : CandidateSnapshot := ⟨⟨.zero, .default⟩, ∅, ∅⟩
    let capped := (CandidateSelector.new bootstrap connected 1).selectNeighborhoodCandidates config pm 0
      (fun _ ↦ 18) (Fin.last Storer.maxPo)
    shallow.limits.target 0 = 160 ∧ overfull.binSelected 0 = 0 ∧
      bootstrap.limits.target 0 = 18 ∧ capped.candidates = [] ∧
      pickDistinct 1 (bootstrap.acceptable config pm 0 connected) []
        ((neighborhoodBins .zero (Fin.last Storer.maxPo)).reverse.flatMap
          (dialableSupply config pm 0 connected)) = [peer] := by
  decide +kernel

end VertexSwarm.Topology
