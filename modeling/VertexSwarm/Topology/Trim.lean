import VertexSwarm.Lib.Select
import VertexSwarm.Topology.Routing

/-!
# Trim candidates

`topology/src/kademlia/routing.rs`, `eviction_candidates` and `select_trim_victims`.  A balanced
bin (below the published depth) holding more evictable peers (handshaking and active, by the
counters) than `max(target, oversaturation)` sheds the surplus: its handshaking overlays first,
in the phase map's order, then active peers chosen by `select_trim_victims`.

`select_trim_victims` takes a pool of `(overlay, rank, score)` entries and a count; asked for at
least the whole pool it returns the pool, otherwise it picks one victim per round by
`Iterator::min_by` on rank, then score (an unordered pair of `f64` scores counting as equal),
then the higher redundancy (the longest prefix the entry shares with another overlay still in
the pool), then the overlay, and takes it out with `swap_remove`.  Scores are of any type with
a `partial_cmp`; under a total order, each round takes an entry no other remaining entry
precedes (`trimStep_spec`), so every victim is below every survivor in `(rank, score)`, a tie
going to the higher redundancy (`trimRounds_spec`).

The candidates come from two sources the routing keeps apart: the phase map for handshaking
overlays, and the connected-peer index for active ones.  When no connected peer has a dialing
or handshaking phase, the candidates are distinct, never dialing, and each bin's are its
handshaking overlays and then its active peers, at most its surplus in all
(`eviction_candidates_sound`).  A connected overlay that is dialing, or handshaking, is returned
as an active candidate all the same, the latter twice (`eviction_candidates_of_pending_peer`).
-/

namespace VertexSwarm.Topology

open Keyed Storer Select

/-- A pool entry of `select_trim_victims`: an overlay, its rank and its score. -/
abbrev PoolEntry (R S : Type) := Peers.OverlayAddress × R × S

section Victims

variable {R S : Type} [LinearOrder R] (proximity : Peers.Proximity)
  (partialCmp : S → S → Option Ordering)

/-- `by_rank_then_score`: rank, then score, an unordered pair of scores counting as equal. -/
def byRankThenScore (a b : PoolEntry R S) : Ordering :=
  (compare a.2.1 b.2.1).then ((partialCmp a.2.2 b.2.2).getD .eq)

/-- The redundancy of an entry: the highest proximity its overlay shares with another overlay of
the pool, `None` when there is none. -/
def redundancyIn (pool : List (PoolEntry R S)) (entry : PoolEntry R S) : Option ℕ :=
  ((pool.filter fun other ↦ other.1 ≠ entry.1).map fun other ↦
    proximity.po entry.1 other.1).max?

/-- The comparator of the `min_by`: `by_rank_then_score`, then the higher redundancy first,
then the overlay. -/
def victimOrder (a b : PoolEntry R S × Option ℕ) : Ordering :=
  ((byRankThenScore partialCmp a.1 b.1).then (compare b.2 a.2)).then (compare a.1.1 b.1.1)

/-- One round of `select_trim_victims`: the redundancy of every entry, the first entry the
comparator puts no later entry before, and the pool without it by `swap_remove`; nothing from an
empty pool. -/
def trimStep (pool : List (PoolEntry R S)) : Option (Peers.OverlayAddress × List (PoolEntry R S)) :=
  let scored := pool.zip (pool.map (redundancyIn proximity pool))
  let idx := minIndex (fun t acc ↦ victimOrder partialCmp acc t == .gt) scored
  pool[idx]?.map fun victim ↦ (victim.1, swapRemove pool idx)

/-- The `while victims.len() < count` loop, at most `count` rounds. -/
def trimRounds : ℕ → List (PoolEntry R S) → List Peers.OverlayAddress → List Peers.OverlayAddress
  | 0, _, victims => victims
  | n + 1, pool, victims =>
    match trimStep proximity partialCmp pool with
    | none => victims
    | some (victim, rest) => trimRounds n rest (victims ++ [victim])

/-- `select_trim_victims`: the whole pool when `count` covers it, the rounds otherwise. -/
def selectTrimVictims (pool : List (PoolEntry R S)) (count : ℕ) : List Peers.OverlayAddress :=
  if count ≥ pool.length then pool.map (·.1)
  else trimRounds proximity partialCmp count pool []

end Victims

/-- `EvictionPhase`. -/
inductive EvictionPhase where
  | handshaking
  | active
deriving DecidableEq, Repr

/-- `EvictionCandidate`. -/
structure EvictionCandidate where
  overlay : Peers.OverlayAddress
  bin : Bin
  phase : EvictionPhase
deriving DecidableEq

namespace KademliaRouting

variable (r : KademliaRouting) {R S : Type} [LinearOrder R] [Zero S]
  (partialCmp : S → S → Option Ordering)

/-- `handshaking_by_bin[bin]`: the handshaking overlays of a bin, in the phase map's order. -/
def handshakingIn (bin : Bin) : List Peers.OverlayAddress :=
  (r.connectionPhases.filter fun entry ↦ entry.2 = .handshaking ∧ r.binFor entry.1 = bin).map
    Prod.fst

/-- The active pool of a bin: its connected peers with their rank and score (`0.0` for a peer
the peer manager has no score for). -/
def activeIn (rank : Peers.OverlayAddress → R) (getPeerScore : Peers.OverlayAddress → Option S)
    (bin : Bin) : List (PoolEntry R S) :=
  (r.connectedPeers.peersInBin bin.val).map fun overlay ↦
    (overlay, rank overlay, (getPeerScore overlay).getD 0)

/-- The candidates of one balanced bin: nothing without a surplus; else handshaking overlays up
to the surplus, then, if any of it remains, active peers by `select_trim_victims`. -/
def binCandidates (rank : Peers.OverlayAddress → R) (getPeerScore : Peers.OverlayAddress → Option S)
    (bin : Bin) : List EvictionCandidate :=
  let surplus := r.limits.surplus bin r.depth (r.evictableCount bin)
  if surplus = 0 then []
  else
    let handshaking := (r.handshakingIn bin).take surplus.toNat
    let remaining := surplus.toNat - handshaking.length
    let phase1 := handshaking.map fun overlay ↦ ⟨overlay, bin, .handshaking⟩
    if remaining > 0 then
      phase1 ++ (selectTrimVictims r.proximity partialCmp (r.activeIn rank getPeerScore bin) remaining).map
        fun overlay ↦ ⟨overlay, bin, .active⟩
    else phase1

/-- `eviction_candidates`: the candidates of every balanced bin, shallowest first. -/
def evictionCandidates (rank : Peers.OverlayAddress → R)
    (getPeerScore : Peers.OverlayAddress → Option S) : List EvictionCandidate :=
  (balancedBins r.depth).flatMap (r.binCandidates partialCmp rank getPeerScore)

end KademliaRouting

/-! ## The victim order -/

/-- `Option`'s order as a number: `None` first, then `Some` by its value. -/
def redundancyRank : Option ℕ → ℕ
  | none => 0
  | some p => p + 1

theorem compare_eq_gt_iff_redundancyRank (a b : Option ℕ) :
    compare a b = .gt ↔ redundancyRank b < redundancyRank a := by
  cases a <;> cases b <;> simp [compare, compareOfLessAndEq, redundancyRank]
  omega

theorem compare_eq_eq_iff_redundancyRank (a b : Option ℕ) :
    compare a b = .eq ↔ redundancyRank a = redundancyRank b := by
  cases a <;> cases b <;> simp [compare, compareOfLessAndEq, redundancyRank]
  omega

section VictimOrder
variable {R S : Type} [LinearOrder R] (proximity : Peers.Proximity)
  (partialCmp : S → S → Option Ordering)

/-- Where an entry stands in the victim order, with a given redundancy: rank, score, the higher
redundancy first, overlay. -/
def scoredKey [LinearOrder S] (scored : PoolEntry R S × Option ℕ) :
    Lex (R × Lex (S × Lex (ℕᵒᵈ × Peers.OverlayAddress))) :=
  toLex (scored.1.2.1, toLex (scored.1.2.2, toLex (OrderDual.toDual (redundancyRank scored.2), scored.1.1)))

theorem victimOrder_eq_gt_iff [LinearOrder S] (hcmp : ∀ a b, partialCmp a b = some (compare a b))
    (a b : PoolEntry R S × Option ℕ) :
    victimOrder partialCmp a b = .gt ↔ scoredKey b < scoredKey a := by
  simp only [victimOrder, byRankThenScore, hcmp, Option.getD_some, scoredKey, Prod.Lex.toLex_lt_toLex,
    Ordering.then_eq_gt, Ordering.then_eq_eq, compare_gt_iff_gt, compare_eq_iff_eq,
    compare_eq_gt_iff_redundancyRank, compare_eq_eq_iff_redundancyRank, OrderDual.toDual_lt_toDual,
    OrderDual.toDual_inj]
  grind

omit [LinearOrder R] in
theorem redundancyIn_perm proximity {pool pool' : List (PoolEntry R S)} (h : pool.Perm pool') (entry : PoolEntry R S) :
    redundancyIn proximity pool entry = redundancyIn proximity pool' entry :=
  max?_eq_of_perm ((h.filter _).map _)

variable [LinearOrder S]

/-- Where an entry stands in a pool's victim order. -/
def victimKey (pool : List (PoolEntry R S)) (entry : PoolEntry R S) :
    Lex (R × Lex (S × Lex (ℕᵒᵈ × Peers.OverlayAddress))) :=
  scoredKey (entry, redundancyIn proximity pool entry)

omit [LinearOrder R] in
theorem victimKey_perm proximity {pool pool' : List (PoolEntry R S)} (h : pool.Perm pool') :
    victimKey proximity pool = victimKey proximity pool' := by
  funext entry
  rw [victimKey, victimKey, redundancyIn_perm proximity h]

/-! ## Rounds -/

theorem trimStep_spec {pool rest : List (PoolEntry R S)} {victim : Peers.OverlayAddress}
    (h : trimStep proximity partialCmp pool = some (victim, rest)) :
    ∃ v, v.1 = victim ∧ pool.Perm (v :: rest) ∧
      ((∀ a b, partialCmp a b = some (compare a b)) →
        ∀ e ∈ pool, victimKey proximity pool v ≤ victimKey proximity pool e) := by
  unfold trimStep at h
  dsimp only at h
  set idx := minIndex (fun t acc ↦ victimOrder partialCmp acc t == .gt)
    (pool.zip (pool.map (redundancyIn proximity pool))) with hidx
  obtain ⟨v, hv, hvictim⟩ := Option.map_eq_some_iff.mp h
  obtain ⟨hlt, rfl⟩ := List.getElem?_eq_some_iff.mp hv
  cases hvictim
  refine ⟨pool[idx], rfl, perm_swapRemove hlt, fun hcmp e he ↦ ?_⟩
  -- the `min_by` runs over each entry paired with its redundancy
  have hscored : pool.zip (pool.map (redundancyIn proximity pool)) =
      pool.map fun entry ↦ (entry, redundancyIn proximity pool entry) := List.map_prod_left_eq_zip.symm
  have hat : (pool.zip (pool.map (redundancyIn proximity pool)))[idx]? =
      some (pool[idx], redundancyIn proximity pool pool[idx]) := by
    rw [hscored, List.getElem?_map, hv]
    rfl
  have hless : ∀ t acc : PoolEntry R S × Option ℕ,
      (victimOrder partialCmp acc t == .gt) = decide (scoredKey t < scoredKey acc) := by
    intro t acc
    rw [Bool.eq_iff_iff, beq_iff_eq, decide_eq_true_iff]
    exact victimOrder_eq_gt_iff partialCmp hcmp acc t
  have hmin := minIndex_le scoredKey hless hat (e, redundancyIn proximity pool e)
    (by rw [hscored]; exact List.mem_map_of_mem he)
  exact hmin


omit [LinearOrder S] in
theorem trimStep_eq_none_iff {pool : List (PoolEntry R S)} :
    trimStep proximity partialCmp pool = none ↔ pool = [] := by
  constructor
  · intro h
    by_contra hne
    have hscored : pool.zip (pool.map (redundancyIn proximity pool)) ≠ [] := by
      simpa [List.map_prod_left_eq_zip.symm] using hne
    obtain ⟨x, hx⟩ := exists_getElem?_minIndex
      (fun t acc ↦ victimOrder partialCmp acc t == .gt) hscored
    have hlt := (List.getElem?_eq_some_iff.mp hx).1
    rw [List.length_zip, List.length_map, min_self] at hlt
    unfold trimStep at h
    simp [List.getElem?_eq_getElem hlt] at h
  · rintro rfl
    rfl

/-- Each taken entry comes first in the victim order among itself, the entries taken after it
and the survivors, redundancy counted among those: the pool it was taken from. -/
def WorstFirst : List (PoolEntry R S) → List (PoolEntry R S) → Prop
  | [], _ => True
  | v :: taken, survivors =>
    (∀ e ∈ v :: taken ++ survivors,
      victimKey proximity (v :: taken ++ survivors) v ≤ victimKey proximity (v :: taken ++ survivors) e) ∧
      WorstFirst taken survivors

theorem trimRounds_spec (n : ℕ) (pool : List (PoolEntry R S)) (victims : List Peers.OverlayAddress) :
    ∃ taken survivors, trimRounds proximity partialCmp n pool victims = victims ++ taken.map (·.1) ∧
      pool.Perm (taken ++ survivors) ∧ taken.length = min n pool.length ∧
      ((∀ a b, partialCmp a b = some (compare a b)) → WorstFirst proximity taken survivors) := by
  induction n generalizing pool victims with
  | zero => exact ⟨[], pool, by simp [trimRounds], List.Perm.refl _, by simp, fun _ ↦ trivial⟩
  | succ n ih =>
    cases hstep : trimStep proximity partialCmp pool with
    | none =>
      have hnil := (trimStep_eq_none_iff proximity partialCmp).mp hstep
      subst hnil
      exact ⟨[], [], by simp [trimRounds, hstep], List.Perm.refl _, by simp, fun _ ↦ trivial⟩
    | some result =>
      obtain ⟨victim, rest⟩ := result
      obtain ⟨v, rfl, hperm, hfirst⟩ := trimStep_spec proximity partialCmp hstep
      obtain ⟨taken, survivors, hrounds, hrest, hlength, hworst⟩ := ih rest (victims ++ [v.1])
      have hpool : pool.Perm (v :: taken ++ survivors) := hperm.trans (hrest.cons v)
      refine ⟨v :: taken, survivors, ?_, hpool, ?_, fun hcmp ↦ ⟨fun e he ↦ ?_, hworst hcmp⟩⟩
      · simp [trimRounds, hstep, hrounds]
      · have hlen : pool.length = rest.length + 1 := by simpa using hperm.length_eq
        simp only [List.length_cons, hlength, hlen]
        omega
      · -- the round's pool is the rest of the run, reordered
        rw [← victimKey_perm proximity hpool]
        exact hfirst hcmp e (hpool.mem_iff.mpr he)


omit [LinearOrder R] [LinearOrder S] in
theorem WorstFirst.le_survivor [LinearOrder R] [LinearOrder S] {taken survivors : List (PoolEntry R S)}
    (h : WorstFirst proximity taken survivors) (i : ℕ) (hi : i < taken.length) {s : PoolEntry R S}
    (hs : s ∈ survivors) :
    victimKey proximity (taken.drop i ++ survivors) taken[i] ≤ victimKey proximity (taken.drop i ++ survivors) s := by
  induction taken generalizing i with
  | nil => simp at hi
  | cons v taken ih =>
    cases i with
    | zero => simpa using h.1 s (by simp [hs])
    | succ i => simpa using ih h.2 i (by simpa using hi)

/-- An entry before another in a pool's victim order is below it in `(rank, score)`, and when
tied there its redundancy is not below the other's. -/
theorem le_of_victimKey_le {pool : List (PoolEntry R S)} {v s : PoolEntry R S}
    (h : victimKey proximity pool v ≤ victimKey proximity pool s) :
    toLex v.2 ≤ toLex s.2 ∧
      (v.2 = s.2 → compare (redundancyIn proximity pool s) (redundancyIn proximity pool v) ≠ .gt) := by
  simp only [victimKey, scoredKey, Prod.Lex.toLex_le_toLex, OrderDual.toDual_lt_toDual,
    OrderDual.toDual_inj] at h
  rw [ne_eq, compare_eq_gt_iff_redundancyRank, Prod.Lex.le_iff, Prod.ext_iff]
  simp only [ofLex_toLex]
  grind


/-- `select_trim_victims` returns as many pool entries' overlays as asked for, or the whole
pool, and under a total order on scores each victim is below every survivor in
`(rank, score)`, a tie going to the victim whose redundancy, in the pool it was taken from, is
not below the survivor's. -/
theorem selectTrimVictims_spec (pool : List (PoolEntry R S)) (count : ℕ) :
    ∃ taken survivors, selectTrimVictims proximity partialCmp pool count = taken.map (·.1) ∧
      pool.Perm (taken ++ survivors) ∧ taken.length = min count pool.length ∧
      ((∀ a b, partialCmp a b = some (compare a b)) →
        ∀ i (hi : i < taken.length), ∀ s ∈ survivors, toLex taken[i].2 ≤ toLex s.2 ∧
          (taken[i].2 = s.2 → compare (redundancyIn proximity (taken.drop i ++ survivors) s)
            (redundancyIn proximity (taken.drop i ++ survivors) taken[i]) ≠ .gt)) := by
  unfold selectTrimVictims
  split_ifs with hcount
  · -- the whole pool, with no survivor
    exact ⟨pool, [], rfl, by simp, by omega, fun _ _ _ s hs ↦ absurd hs List.not_mem_nil⟩
  · obtain ⟨taken, survivors, hrounds, hperm, hlength, hworst⟩ :=
      trimRounds_spec proximity partialCmp count pool []
    refine ⟨taken, survivors, by simpa using hrounds, hperm, hlength, fun hcmp i hi s hs ↦ ?_⟩
    exact le_of_victimKey_le proximity (WorstFirst.le_survivor proximity (hworst hcmp) i hi hs)

theorem nodup_selectTrimVictims {pool : List (PoolEntry R S)} (hpool : (pool.map (·.1)).Nodup)
    (count : ℕ) : (selectTrimVictims proximity partialCmp pool count).Nodup := by
  obtain ⟨taken, survivors, hvictims, hperm, -⟩ := selectTrimVictims_spec proximity partialCmp pool count
  rw [hvictims]
  have hall : ((taken ++ survivors).map (·.1)).Nodup := (hperm.map _).nodup_iff.mp hpool
  rw [List.map_append] at hall
  exact hall.sublist (List.sublist_append_left _ _)

theorem mem_of_mem_selectTrimVictims {pool : List (PoolEntry R S)} {count : ℕ}
    {overlay : Peers.OverlayAddress} (h : overlay ∈ selectTrimVictims proximity partialCmp pool count) :
    overlay ∈ pool.map (·.1) := by
  obtain ⟨taken, survivors, hvictims, hperm, -⟩ := selectTrimVictims_spec proximity partialCmp pool count
  rw [hvictims] at h
  rw [(hperm.map _).mem_iff, List.map_append]
  exact List.mem_append_left _ h

theorem length_selectTrimVictims_le (pool : List (PoolEntry R S)) (count : ℕ) :
    (selectTrimVictims proximity partialCmp pool count).length ≤ count := by
  obtain ⟨taken, survivors, hvictims, -, hlength, -⟩ := selectTrimVictims_spec proximity partialCmp pool count
  rw [hvictims, List.length_map, hlength]
  exact min_le_left _ _


end VictimOrder

/-! ## Candidates -/

namespace KademliaRouting

variable {r : KademliaRouting} {R S : Type} [LinearOrder R] [LinearOrder S] [Zero S]
  {partialCmp : S → S → Option Ordering} {rank : Peers.OverlayAddress → R}
  {getPeerScore : Peers.OverlayAddress → Option S}

omit [LinearOrder R] [LinearOrder S] [Zero S] in
theorem mem_handshakingIn {bin : Bin} {overlay : Peers.OverlayAddress} :
    overlay ∈ r.handshakingIn bin ↔
      (overlay, .handshaking) ∈ r.connectionPhases ∧ r.binFor overlay = bin := by
  simp [handshakingIn]

omit [LinearOrder R] [LinearOrder S] in
theorem map_fst_activeIn (bin : Bin) :
    (r.activeIn rank getPeerScore bin).map (·.1) = r.connectedPeers.peersInBin bin.val := by
  simp [activeIn, Function.comp_def]

/-- A candidate of a bin is of that bin: one of its handshaking overlays, or one of its connected
peers. -/
theorem mem_binCandidates {bin : Bin} {c : EvictionCandidate}
    (h : c ∈ r.binCandidates partialCmp rank getPeerScore bin) :
    c.bin = bin ∧ (c.phase = .handshaking ∧ c.overlay ∈ r.handshakingIn bin ∨
      c.phase = .active ∧ c.overlay ∈ r.connectedPeers.peersInBin bin.val) := by
  unfold binCandidates at h
  dsimp only at h
  split_ifs at h
  · exact absurd h List.not_mem_nil
  · rcases List.mem_append.mp h with h | h
    · obtain ⟨overlay, hoverlay, rfl⟩ := List.mem_map.mp h
      exact ⟨rfl, .inl ⟨rfl, List.mem_of_mem_take hoverlay⟩⟩
    · obtain ⟨overlay, hoverlay, rfl⟩ := List.mem_map.mp h
      have hpool := mem_of_mem_selectTrimVictims r.proximity partialCmp hoverlay
      rw [map_fst_activeIn] at hpool
      exact ⟨rfl, .inr ⟨rfl, hpool⟩⟩
  · obtain ⟨overlay, hoverlay, rfl⟩ := List.mem_map.mp h
    exact ⟨rfl, .inl ⟨rfl, List.mem_of_mem_take hoverlay⟩⟩

omit [LinearOrder R] [LinearOrder S] [Zero S] in
theorem map_phase_candidates (overlays : List Peers.OverlayAddress) (bin : Bin)
    (phase : EvictionPhase) :
    (overlays.map fun overlay ↦ (⟨overlay, bin, phase⟩ : EvictionCandidate)).map (·.phase) =
      List.replicate overlays.length phase := by
  simp [Function.comp_def, List.map_const']

omit [LinearOrder S] in
theorem binCandidates_phases (bin : Bin) :
    ∃ m n, (r.binCandidates partialCmp rank getPeerScore bin).map (·.phase) =
      List.replicate m .handshaking ++ List.replicate n .active := by
  unfold binCandidates
  dsimp only
  split_ifs
  · exact ⟨0, 0, rfl⟩
  · rw [List.map_append, map_phase_candidates, map_phase_candidates]
    exact ⟨_, _, rfl⟩
  · rw [map_phase_candidates]
    exact ⟨_, 0, (List.append_nil _).symm⟩

/-- A bin gives at most its surplus: the handshaking overlays take what they can, the active
victims at most what remains. -/
theorem length_binCandidates_le (bin : Bin) :
    (r.binCandidates partialCmp rank getPeerScore bin).length ≤
      (r.limits.surplus bin r.depth (r.evictableCount bin)).toNat := by
  unfold binCandidates
  dsimp only
  split_ifs
  · simp
  · have hvictims := length_selectTrimVictims_le r.proximity partialCmp (r.activeIn rank getPeerScore bin)
      ((r.limits.surplus bin r.depth (r.evictableCount bin)).toNat -
        ((r.handshakingIn bin).take (r.limits.surplus bin r.depth (r.evictableCount bin)).toNat).length)
    have htake := List.length_take_le (r.limits.surplus bin r.depth (r.evictableCount bin)).toNat
      (r.handshakingIn bin)
    simp only [List.length_append, List.length_map]
    omega
  · simp


/-! ### Routings whose connected peers are active -/

section Settled

variable (hwf : r.connectedPeers.Wf) (hnodup : (keys r.connectionPhases).Nodup)
  (hsettled : ∀ overlay, r.connectedPeers.Holds overlay →
    find r.connectionPhases overlay = none ∨ find r.connectionPhases overlay = some .active)

include hnodup in
omit [LinearOrder R] [LinearOrder S] [Zero S] in
theorem find_of_mem_handshakingIn {bin : Bin} {overlay : Peers.OverlayAddress}
    (h : overlay ∈ r.handshakingIn bin) : find r.connectionPhases overlay = some .handshaking :=
  find_eq_some_of_mem hnodup (mem_handshakingIn.mp h).1

include hwf hsettled in
omit [LinearOrder R] [LinearOrder S] [Zero S] in
theorem find_of_mem_peersInBin {bin : Bin} {overlay : Peers.OverlayAddress}
    (h : overlay ∈ r.connectedPeers.peersInBin bin.val) :
    find r.connectionPhases overlay = none ∨ find r.connectionPhases overlay = some .active := by
  rw [hwf.peersInBin_eq] at h
  exact hsettled overlay (hwf.mem_iff.mp h).1

include hwf hnodup hsettled in
omit [LinearOrder R] [LinearOrder S] [Zero S] in
theorem not_connected_of_mem_handshakingIn {bin bin' : Bin} {overlay : Peers.OverlayAddress}
    (hhandshaking : overlay ∈ r.handshakingIn bin)
    (hpeer : overlay ∈ r.connectedPeers.peersInBin bin'.val) : False := by
  have hphase := find_of_mem_handshakingIn hnodup hhandshaking
  rcases find_of_mem_peersInBin hwf hsettled hpeer with hfind | hfind <;> rw [hphase] at hfind <;>
    cases hfind

include hwf hnodup hsettled in
/-- The candidates of one bin are distinct: the handshaking overlays are distinct phase entries,
the victims distinct connected peers, and no connected peer is handshaking. -/
theorem nodup_binCandidates (bin : Bin) :
    ((r.binCandidates partialCmp rank getPeerScore bin).map (·.overlay)).Nodup := by
  have hhandshaking : (r.handshakingIn bin).Nodup :=
    hnodup.sublist (List.filter_sublist.map Prod.fst)
  have hpool : ((r.activeIn rank getPeerScore bin).map (·.1)).Nodup := by
    rw [map_fst_activeIn, hwf.peersInBin_eq]
    exact hwf.nodup bin.val
  unfold binCandidates
  dsimp only
  split_ifs
  · exact List.nodup_nil
  · rw [List.map_append, List.map_map, List.map_map]
    refine List.nodup_append.mpr ⟨?_, ?_, ?_⟩
    · simpa [Function.comp_def] using hhandshaking.sublist (List.take_sublist _ _)
    · simpa [Function.comp_def] using nodup_selectTrimVictims r.proximity partialCmp hpool _
    · -- a handshaking overlay is never a connected peer
      simp only [Function.comp_def, List.map_id']
      intro overlay hmem overlay' hmem' hsame
      subst hsame
      have hpeer := mem_of_mem_selectTrimVictims r.proximity partialCmp hmem'
      rw [map_fst_activeIn] at hpeer
      exact not_connected_of_mem_handshakingIn hwf hnodup hsettled (List.mem_of_mem_take hmem) hpeer
  · rw [List.map_map]
    simpa [Function.comp_def] using hhandshaking.sublist (List.take_sublist _ _)

include hwf hnodup hsettled in
/-- Two bins give different overlays: a handshaking overlay lies in the bin `bin_for` gives it,
a connected peer in the bin the index files it under, and no overlay is both. -/
theorem disjoint_binCandidates {bin bin' : Bin} (hne : bin ≠ bin') :
    ((r.binCandidates partialCmp rank getPeerScore bin).map (·.overlay)).Disjoint
      ((r.binCandidates partialCmp rank getPeerScore bin').map (·.overlay)) := by
  intro overlay hmem hmem'
  obtain ⟨c, hc, rfl⟩ := List.mem_map.mp hmem
  obtain ⟨c', hc', hsame⟩ := List.mem_map.mp hmem'
  obtain ⟨-, hsource⟩ := mem_binCandidates hc
  obtain ⟨-, hsource'⟩ := mem_binCandidates hc'
  rw [hsame] at hsource'
  rcases hsource with ⟨-, hhandshaking⟩ | ⟨-, hpeer⟩ <;>
    rcases hsource' with ⟨-, hhandshaking'⟩ | ⟨-, hpeer'⟩
  · exact hne ((mem_handshakingIn.mp hhandshaking).2.symm.trans
      (mem_handshakingIn.mp hhandshaking').2)
  · exact not_connected_of_mem_handshakingIn hwf hnodup hsettled hhandshaking hpeer'
  · exact not_connected_of_mem_handshakingIn hwf hnodup hsettled hhandshaking' hpeer
  · -- the index files an overlay under one bin
    rw [hwf.peersInBin_eq] at hpeer hpeer'
    exact hne (Fin.ext ((hwf.binFor_eq _ _ hpeer).symm.trans (hwf.binFor_eq _ _ hpeer')))

include hwf hnodup hsettled in
theorem nodup_evictionCandidates :
    ((r.evictionCandidates partialCmp rank getPeerScore).map (·.overlay)).Nodup := by
  rw [evictionCandidates, List.map_flatMap]
  refine List.nodup_flatMap.mpr ⟨fun bin _ ↦ nodup_binCandidates hwf hnodup hsettled bin, ?_⟩
  exact (nodup_balancedBins r.depth).imp fun hne ↦ disjoint_binCandidates hwf hnodup hsettled hne

end Settled

theorem filter_flatMap_binCandidates {bins : List Bin} (hbins : bins.Nodup) {bin : Bin}
    (hbin : bin ∈ bins) :
    (bins.flatMap (r.binCandidates partialCmp rank getPeerScore)).filter (·.bin = bin) =
      r.binCandidates partialCmp rank getPeerScore bin := by
  induction bins with
  | nil => exact absurd hbin List.not_mem_nil
  | cons b bins ih =>
    obtain ⟨hfresh, hrest⟩ := List.nodup_cons.mp hbins
    rw [List.flatMap_cons, List.filter_append]
    by_cases hb : b = bin
    · -- the bin's own candidates stay; no later bin has one of its candidates
      subst hb
      have hown : (r.binCandidates partialCmp rank getPeerScore b).filter (·.bin = b) =
          r.binCandidates partialCmp rank getPeerScore b :=
        List.filter_eq_self.mpr fun c hc ↦ by simpa using (mem_binCandidates hc).1
      have hothers : (bins.flatMap (r.binCandidates partialCmp rank getPeerScore)).filter
          (·.bin = b) = [] := by
        refine List.filter_eq_nil_iff.mpr fun c hc ↦ ?_
        obtain ⟨b', hb', hc'⟩ := List.mem_flatMap.mp hc
        rw [(mem_binCandidates hc').1]
        have hne : b' ≠ b := fun hsame ↦ hfresh (hsame ▸ hb')
        simpa using hne
      rw [hown, hothers, List.append_nil]
    · have hnone : (r.binCandidates partialCmp rank getPeerScore b).filter (·.bin = bin) = [] :=
        List.filter_eq_nil_iff.mpr fun c hc ↦ by simp [(mem_binCandidates hc).1, hb]
      rw [hnone, List.nil_append]
      exact ih hrest ((List.mem_cons.mp hbin).resolve_left (Ne.symm hb))


/-! ### What the trim returns -/

theorem eviction_candidates_sound (r : KademliaRouting) {R S : Type} [LinearOrder R]
    [LinearOrder S] [Zero S] (partialCmp : S → S → Option Ordering)
    (rank : Peers.OverlayAddress → R) (getPeerScore : Peers.OverlayAddress → Option S)
    (hwf : r.connectedPeers.Wf) (hnodup : (keys r.connectionPhases).Nodup)
    (hsettled : ∀ overlay, r.connectedPeers.Holds overlay →
      find r.connectionPhases overlay = none ∨ find r.connectionPhases overlay = some .active) :
    let candidates := r.evictionCandidates partialCmp rank getPeerScore
    (candidates.map (·.overlay)).Nodup ∧
    (∀ c ∈ candidates, c.bin ∈ balancedBins r.depth ∧
      find r.connectionPhases c.overlay ≠ some .dialing ∧
      (c.phase = .handshaking →
        find r.connectionPhases c.overlay = some .handshaking ∧ r.binFor c.overlay = c.bin) ∧
      (c.phase = .active → c.overlay ∈ r.connectedPeers.peersInBin c.bin.val)) ∧
    (∀ bin ∈ balancedBins r.depth,
      (candidates.filter (·.bin = bin)).length ≤
        (r.limits.surplus bin r.depth (r.evictableCount bin)).toNat ∧
      ∃ m n, (candidates.filter (·.bin = bin)).map (·.phase) =
        List.replicate m .handshaking ++ List.replicate n .active) ∧
    ∀ (pool : List (PoolEntry R S)) (count : ℕ),
      ((pool.map (·.1)).Nodup → (selectTrimVictims r.proximity partialCmp pool count).Nodup) ∧
      ∃ taken survivors, selectTrimVictims r.proximity partialCmp pool count = taken.map (·.1) ∧
        pool.Perm (taken ++ survivors) ∧ taken.length = min count pool.length ∧
        ((∀ a b, partialCmp a b = some (compare a b)) →
          ∀ i (hi : i < taken.length), ∀ s ∈ survivors, toLex taken[i].2 ≤ toLex s.2 ∧
            (taken[i].2 = s.2 → compare (redundancyIn r.proximity (taken.drop i ++ survivors) s)
              (redundancyIn r.proximity (taken.drop i ++ survivors) taken[i]) ≠ .gt)) := by
  intro candidates
  refine ⟨nodup_evictionCandidates hwf hnodup hsettled, fun c hc ↦ ?_, fun bin hbin ↦ ?_,
    fun pool count ↦ ⟨fun hpool ↦ nodup_selectTrimVictims r.proximity partialCmp hpool count,
      selectTrimVictims_spec r.proximity partialCmp pool count⟩⟩
  · obtain ⟨bin, hbin, hc⟩ := List.mem_flatMap.mp hc
    obtain ⟨rfl, hsource⟩ := mem_binCandidates hc
    rcases hsource with ⟨hphase, hhandshaking⟩ | ⟨hphase, hpeer⟩
    · -- a handshaking overlay of the bin's own phase entries
      have hfind := find_of_mem_handshakingIn hnodup hhandshaking
      refine ⟨hbin, by simp [hfind], fun _ ↦ ⟨hfind, (mem_handshakingIn.mp hhandshaking).2⟩,
        fun hactive ↦ absurd (hphase.symm.trans hactive) (by decide)⟩
    · -- a connected peer of the bin, active or with no phase
      refine ⟨hbin, ?_, fun hhandshaking ↦ absurd (hphase.symm.trans hhandshaking) (by decide),
        fun _ ↦ hpeer⟩
      rcases find_of_mem_peersInBin hwf hsettled hpeer with hfind | hfind <;> simp [hfind]
  · have hfilter : candidates.filter (·.bin = bin) =
        r.binCandidates partialCmp rank getPeerScore bin :=
      filter_flatMap_binCandidates (nodup_balancedBins r.depth) hbin
    rw [hfilter]
    exact ⟨length_binCandidates_le bin, binCandidates_phases bin⟩

/-- Overlay `i` of bin 0 of the zero overlay, for `i < 128`. -/
def settledOverlay (i : ℕ) : Peers.OverlayAddress := BigEndian.FixedBytes.ofNat 32 ((128 + i) * 2 ^ 248)

/-- A settled routing with a surplus in bin 0: the limits of `DepthAwareLimits::new(0, 0)` with
saturation, bootstrap target and oversaturation level set to one; overlays 0 to 2 handshaken,
active and connected, overlay 3 handshaking, all in bin 0, at depth 1.  Bin 0 has four evictable
peers against a level of one: overlay 3 is its handshaking candidate, then two connected peers. -/
def settledRouting : KademliaRouting :=
  let localOverlay : Peers.OverlayAddress := BigEndian.FixedBytes.ofNat 32 0
  let calls := (List.range 3).flatMap (fun i ↦
      [RoutingCall.reserveInbound (settledOverlay i), .handshakeCompleted (settledOverlay i)]) ++
    [.reserveInbound (settledOverlay 3)]
  let ran := calls.foldl apply (new .byXor localOverlay 31 ⟨0, 0, 4, 1, 1, 1⟩)
  { ran with
    depth := ⟨1⟩
    connectedPeers := ⟨.byXor, localOverlay, 31, 0,
      fun bin ↦ if bin = 0 then [settledOverlay 0, settledOverlay 1, settledOverlay 2] else [],
      fun bin ↦ if bin = 0 then 3 else 0, 3⟩ }

theorem eviction_candidates_sound_of_settled :
    settledRouting.connectedPeers.Wf ∧ (keys settledRouting.connectionPhases).Nodup ∧
      (∀ overlay, settledRouting.connectedPeers.Holds overlay →
        find settledRouting.connectionPhases overlay = none ∨
          find settledRouting.connectionPhases overlay = some .active) ∧
      ((settledRouting.evictionCandidates (fun a b : ℕ ↦ some (compare a b)) (fun _ ↦ (0 : ℕ))
        (fun _ ↦ none)).map (·.overlay)).Nodup ∧
      ((settledRouting.evictionCandidates (fun a b : ℕ ↦ some (compare a b)) (fun _ ↦ (0 : ℕ))
        (fun _ ↦ none)).filter (·.bin = 0)).length ≤
        (settledRouting.limits.surplus 0 settledRouting.depth (settledRouting.evictableCount 0)).toNat ∧
      (settledRouting.evictionCandidates (fun a b : ℕ ↦ some (compare a b)) (fun _ ↦ (0 : ℕ))
        (fun _ ↦ none)).map (·.phase) = [.handshaking, .active, .active] := by
  have hwf : settledRouting.connectedPeers.Wf := by
    refine ⟨fun bin ↦ ?_, fun bin addr haddr ↦ ?_, fun hcap ↦ absurd hcap (lt_irrefl 0),
      fun bin ↦ ?_, ?_⟩
    · dsimp only [settledRouting]
      split <;> decide +kernel
    · -- the three connected overlays lie in bin 0
      dsimp only [settledRouting] at haddr ⊢
      split at haddr
      · next hbin =>
        subst hbin
        simp only [List.mem_cons, List.not_mem_nil, or_false] at haddr
        rcases haddr with rfl | rfl | rfl <;> decide +kernel
      · exact absurd haddr List.not_mem_nil
    · dsimp only [settledRouting]
      split <;> rfl
    · simp [settledRouting, Finset.sum_range_succ]
  have hnodup : (keys settledRouting.connectionPhases).Nodup := by decide +kernel
  have hsettled : ∀ overlay, settledRouting.connectedPeers.Holds overlay →
      find settledRouting.connectionPhases overlay = none ∨
        find settledRouting.connectionPhases overlay = some .active := by
    intro overlay hheld
    rw [Peers.ProximityIndex.Holds] at hheld
    dsimp only [settledRouting] at hheld ⊢
    split at hheld
    · simp only [List.mem_cons, List.not_mem_nil, or_false] at hheld
      rcases hheld with rfl | rfl | rfl <;> exact .inr (by decide +kernel)
    · exact absurd hheld List.not_mem_nil
  have hsound := eviction_candidates_sound settledRouting (fun a b : ℕ ↦ some (compare a b))
    (fun _ ↦ (0 : ℕ)) (fun _ ↦ none) hwf hnodup hsettled
  exact ⟨hwf, hnodup, hsettled, hsound.1, (hsound.2.2.1 0 (by decide +kernel)).1, by decide +kernel⟩

omit [LinearOrder R] [LinearOrder S] [Zero S] in
theorem Accounted.withPeers (h : r.Accounted) (depth : NeighborhoodDepth)
    (connectedPeers : Peers.ProximityIndex) :
    ({ r with depth := depth, connectedPeers := connectedPeers } : KademliaRouting).Accounted :=
  ⟨h.nodup, h.length_counts, h.counts_eq⟩

/-! ### A connected peer still dialing

The phase map and the connected-peer index are moved by separate calls, and nothing ties them:
`try_reserve_dial` looks only at the phase map, `connected` only at the index.  Below, from a new
routing at `max_po = 31` with `DepthAwareLimits::new(0, 0)`, a dial is reserved for overlay 0,
inbound connections are reserved for overlays 1 to 21 and the handshakes of 2 to 21 complete; all
lie in bin 0 of the zero overlay.  Overlays 0 and 1 are connected and the depth is published at 1.
The counters count the phases and the index is well formed, yet bin 0, with 21 evictable peers
against an oversaturation level of 18, returns overlay 1 as a handshaking candidate and then
overlays 0 and 1 as active ones: overlay 0 is dialing, and overlay 1 comes twice. -/

theorem eviction_candidates_of_pending_peer :
    let overlay := fun i : ℕ ↦ (BigEndian.FixedBytes.ofNat 32 ((128 + i) * 2 ^ 248) :
      Peers.OverlayAddress)
    let localOverlay : Peers.OverlayAddress := BigEndian.FixedBytes.ofNat 32 0
    let calls := [RoutingCall.tryReserveDial (overlay 0), .reserveInbound (overlay 1)] ++
      (List.range 20).flatMap fun i ↦
        [RoutingCall.reserveInbound (overlay (i + 2)), .handshakeCompleted (overlay (i + 2))]
    let ran := calls.foldl apply (new .byXor localOverlay 31 (DepthAwareLimits.new 0 0))
    let routing : KademliaRouting := { ran with
      depth := ⟨1⟩
      connectedPeers := ⟨.byXor, localOverlay, 31, 0,
        fun bin ↦ if bin = 0 then [overlay 0, overlay 1] else [],
        fun bin ↦ if bin = 0 then 2 else 0, 2⟩ }
    let candidates := routing.evictionCandidates (fun a b : ℕ ↦ some (compare a b))
      (fun _ ↦ (0 : ℕ)) (fun _ ↦ none)
    routing.Accounted ∧ routing.connectedPeers.Wf ∧
      find routing.connectionPhases (overlay 0) = some .dialing ∧
      find routing.connectionPhases (overlay 1) = some .handshaking ∧
      candidates = [⟨overlay 1, 0, .handshaking⟩, ⟨overlay 0, 0, .active⟩, ⟨overlay 1, 0, .active⟩] := by
  intro overlay localOverlay calls ran routing candidates
  -- no call of the run is a release, so the counters count the phases
  have hran : ran.Accounted := by
    refine accounted_of_run (accounted_new .byXor localOverlay 31 _) (Run.allowed_of_forall ?_ _)
    intro s call hcall
    simp only [calls, List.mem_append, List.mem_cons, List.not_mem_nil, or_false, List.mem_flatMap,
      List.mem_range] at hcall
    rcases hcall with (rfl | rfl) | ⟨i, -, rfl | rfl⟩ <;> trivial
  have hwf : routing.connectedPeers.Wf := by
    refine ⟨fun bin ↦ ?_, fun bin addr haddr ↦ ?_, fun hcap ↦ absurd hcap (lt_irrefl 0),
      fun bin ↦ ?_, ?_⟩
    · dsimp only [routing]
      split <;> decide +kernel
    · -- both connected overlays lie in bin 0
      dsimp only [routing] at haddr ⊢
      split at haddr
      · next hbin =>
        subst hbin
        rcases List.mem_pair.mp haddr with rfl | rfl <;> decide +kernel
      · exact absurd haddr List.not_mem_nil
    · dsimp only [routing]
      split <;> rfl
    · simp [routing, Finset.sum_range_succ]
  exact ⟨hran.withPeers ⟨1⟩ routing.connectedPeers, hwf, by decide +kernel,
    by decide +kernel, by decide +kernel⟩

end KademliaRouting

end VertexSwarm.Topology
