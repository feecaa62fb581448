import Mathlib
import VertexSwarm.Lib.Saturating
import VertexSwarm.Storer.Radius

/-!
# Depth-aware bin limits

`topology/src/kademlia/limits.rs`, `DepthAwareLimits`.  At a neighbourhood depth `d > 0` a bin
below `d` is balanced: it is dialed toward a target that tapers linearly with the bin,
`total_target * (i + 1) / (d (d + 1) / 2)`, floored at `nominal` and at the saturation threshold;
a bin at or past `d` is in the neighbourhood, where the target is the sentinel `usize::MAX`.  At
depth zero every bin is filled toward `max(bootstrap_target, saturation)`.  Inbound is accepted
below the ceiling `max(target + headroom, oversaturation)` and trimming reclaims peers above
`max(target, oversaturation)`, where the oversaturation level is clamped up to the bootstrap
target and the saturation threshold.

`usize` is `u64` here: the configuration is six `UInt64`s, `saturating_mul` and `saturating_sub`
saturate, and the `+` of the ceiling wraps, as an unchecked release build computes it.

What holds for every configuration: a balanced or bootstrap target is never below saturation
(`saturation_le_target`) and a trim never cuts below the band floor (`min_le_sub_surplus`); and
while the ceiling's sum fits, a bin that needs a dial accepts inbound
(`shouldAcceptInbound_of_needsMore`).  What does not: the accept band and the trim band are not
aligned once a bin's target is more than `oversaturation - headroom`, so at the default limits a
deep bin accepts inbound peers that the next trim can evict, and a large `total_target`
saturates the taper into the neighbourhood sentinel (`inbound_accepted_then_trimmable`).
-/

namespace VertexSwarm.Topology

open Saturating Storer

/-- `usize::MAX`, also the neighbourhood sentinel of `target` and `ceiling`. -/
def usizeMax : UInt64 := UInt64.ofNat (2 ^ 64 - 1)

/-- Every `usize` is at most `usize::MAX`. -/
theorem le_usizeMax (count : UInt64) : count ≤ usizeMax := by
  have hbound := count.toNat_lt
  have hmax : usizeMax.toNat = 2 ^ 64 - 1 := rfl
  rw [UInt64.le_iff_toNat_le, hmax]
  omega

/-- `NeighborhoodDepth`: the shallowest bin of the neighbourhood. -/
structure NeighborhoodDepth where
  bin : Bin
deriving DecidableEq

namespace NeighborhoodDepth

/-- `NeighborhoodDepth::ZERO`: every bin is in the neighbourhood. -/
def zero : NeighborhoodDepth := ⟨0⟩

/-- `NeighborhoodDepth::get`. -/
def get (depth : NeighborhoodDepth) : ℕ := depth.bin.val

/-- `NeighborhoodDepth::contains`: the bins at or deeper than the depth. -/
def contains (depth : NeighborhoodDepth) (bin : Bin) : Bool := decide (depth.bin ≤ bin)

end NeighborhoodDepth

/-- `all_bins`: the bins `0 ..= max`, ascending. -/
def allBins (max : Bin) : List Bin := (List.finRange (maxPo + 1)).filter (· ≤ max)

/-- `balanced_bins`: the bins shallower than the depth, ascending. -/
def balancedBins (depth : NeighborhoodDepth) : List Bin :=
  (List.finRange (maxPo + 1)).filter (· < depth.bin)

/-- `neighborhood_bins`: the bins from the depth to `max`, ascending. -/
def neighborhoodBins (depth : NeighborhoodDepth) (max : Bin) : List Bin :=
  (List.finRange (maxPo + 1)).filter fun bin ↦ depth.bin ≤ bin ∧ bin ≤ max

theorem nodup_balancedBins (depth : NeighborhoodDepth) : (balancedBins depth).Nodup :=
  (List.nodup_finRange _).filter _

/-- `DepthAwareLimits`. -/
structure DepthAwareLimits where
  totalTarget : UInt64
  nominal : UInt64
  inboundHeadroom : UInt64
  bootstrapTarget : UInt64
  oversaturationPeers : UInt64
  saturation : UInt64
deriving DecidableEq

namespace DepthAwareLimits

/-- `DepthAwareLimits::new`: the given budget and nominal, the default headroom (4), bootstrap
target (18) and oversaturation level (18), and the default saturation threshold (8). -/
def new (totalTarget nominal : UInt64) : DepthAwareLimits := ⟨totalTarget, nominal, 4, 18, 18, 8⟩

/-- `DepthAwareLimits::default`: a budget of 160 peers, nominal 3. -/
def default : DepthAwareLimits := new 160 3

variable (limits : DepthAwareLimits)

/-- `oversaturation`: the configured level clamped up to the bootstrap target and saturation. -/
def oversaturation : UInt64 :=
  max (max limits.oversaturationPeers limits.bootstrapTarget) limits.saturation

/-- `target`: the bootstrap fill at depth zero, the sentinel in the neighbourhood, and the
linear taper floored at `nominal` and saturation in a balanced bin. -/
def target (bin : Bin) (depth : NeighborhoodDepth) : UInt64 :=
  if depth = .zero then max limits.bootstrapTarget limits.saturation
  else if depth.contains bin then usizeMax
  else
    let weight := UInt64.ofNat (bin.val + 1)
    let d := UInt64.ofNat depth.get
    let weightSum := d * (d + 1) / 2
    let allocated := saturatingMulU64 limits.totalTarget weight / weightSum
    max (max allocated limits.nominal) limits.saturation

/-- `needs_more`: always in the neighbourhood, below the target elsewhere. -/
def needsMore (bin : Bin) (depth : NeighborhoodDepth) (connected : UInt64) : Bool :=
  let target := limits.target bin depth
  if target = usizeMax then true else decide (connected < target)

/-- `deficit`: `1000` less the count in the neighbourhood, the distance to the target elsewhere,
both saturating. -/
def deficit (bin : Bin) (depth : NeighborhoodDepth) (connected : UInt64) : UInt64 :=
  let target := limits.target bin depth
  if target = usizeMax then saturatingSubU64 1000 connected else saturatingSubU64 target connected

/-- `surplus`: nothing in the neighbourhood, the peers above `max(target, oversaturation)`
elsewhere. -/
def surplus (bin : Bin) (depth : NeighborhoodDepth) (connected : UInt64) : UInt64 :=
  let target := limits.target bin depth
  if target = usizeMax then 0 else saturatingSubU64 connected (max target limits.oversaturation)

/-- `ceiling`: the sentinel in the neighbourhood, `max(target + headroom, oversaturation)`
elsewhere. -/
def ceiling (bin : Bin) (depth : NeighborhoodDepth) : UInt64 :=
  let target := limits.target bin depth
  if target = usizeMax then usizeMax else max (target + limits.inboundHeadroom) limits.oversaturation

/-- `should_accept_inbound`: below the ceiling. -/
def shouldAcceptInbound (bin : Bin) (depth : NeighborhoodDepth) (connected : UInt64) : Bool :=
  decide (connected < limits.ceiling bin depth)

/-! ## The band -/

theorem target_of_balanced {bin : Bin} {depth : NeighborhoodDepth} (hdepth : depth ≠ .zero)
    (hbin : depth.contains bin = false) :
    limits.target bin depth = max (max (saturatingMulU64 limits.totalTarget
      (UInt64.ofNat (bin.val + 1)) / (UInt64.ofNat depth.get * (UInt64.ofNat depth.get + 1) / 2))
      limits.nominal) limits.saturation := by
  rw [target, if_neg hdepth, if_neg (by simp [hbin])]

theorem saturation_le_target {bin : Bin} {depth : NeighborhoodDepth}
    (h : depth = .zero ∨ depth.contains bin = false) :
    limits.saturation ≤ limits.target bin depth := by
  rw [UInt64.le_iff_toNat_le]
  by_cases hzero : depth = .zero
  · rw [target, if_pos hzero, UInt64.toNat_max]
    exact le_max_right _ _
  · rw [target_of_balanced limits hzero (h.resolve_left hzero), UInt64.toNat_max]
    exact le_max_right _ _

/-- A trim never cuts a bin below the band floor: what is left is at least the smaller of the
count and the oversaturation level. -/
theorem min_le_sub_surplus (bin : Bin) (depth : NeighborhoodDepth) (connected : UInt64) :
    min connected.toNat limits.oversaturation.toNat ≤
      connected.toNat - (limits.surplus bin depth connected).toNat := by
  unfold surplus
  dsimp only
  split
  · simp
  · rw [toNat_saturatingSubU64, UInt64.toNat_max]
    omega

/-- Below the sentinel, and while `target + headroom` fits in a `usize`, a bin that needs a
dial accepts inbound. -/
theorem shouldAcceptInbound_of_needsMore {bin : Bin} {depth : NeighborhoodDepth}
    {connected : UInt64} (htarget : limits.target bin depth ≠ usizeMax)
    (hfit : (limits.target bin depth).toNat + limits.inboundHeadroom.toNat < 2 ^ 64)
    (h : limits.needsMore bin depth connected = true) :
    limits.shouldAcceptInbound bin depth connected = true := by
  rw [needsMore, if_neg htarget, decide_eq_true_eq, UInt64.lt_iff_toNat_lt] at h
  rw [shouldAcceptInbound, ceiling, if_neg htarget, decide_eq_true_eq, UInt64.lt_iff_toNat_lt,
    UInt64.toNat_max, UInt64.toNat_add, Nat.mod_eq_of_lt hfit]
  omega

/-! ## Where the bands part

At the default limits and depth 1, bin 0 is balanced with the whole budget as its target, 160;
its ceiling is 164 and its trim floor 160.  A bin of 160 peers accepts an inbound peer, and with
it the bin has a surplus of one.  With `total_target = usize::MAX` the saturated taper of bin 0
is the neighbourhood sentinel; with `inbound_headroom = usize::MAX` the ceiling's sum wraps to
159, below the target, so a bin of 159 peers needs a dial and refuses inbound. -/

theorem inbound_accepted_then_trimmable :
    let depth : NeighborhoodDepth := ⟨1⟩
    default.target 0 depth = 160 ∧
      default.shouldAcceptInbound 0 depth 160 = true ∧ default.surplus 0 depth 161 = 1 ∧
      { default with totalTarget := usizeMax }.target 0 depth = usizeMax ∧
      { default with inboundHeadroom := usizeMax }.needsMore 0 depth 159 = true ∧
      { default with inboundHeadroom := usizeMax }.shouldAcceptInbound 0 depth 159 = false := by
  decide

end DepthAwareLimits

end VertexSwarm.Topology
