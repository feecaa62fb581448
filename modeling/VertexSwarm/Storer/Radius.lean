import VertexSwarm.Lib.Saturating
import VertexSwarm.Storer.Footprint

/-!
# Size-driven storage radius

`storer/src/radius.rs`.  The reserve's storage radius follows its occupancy: `derive_radius`
grows it by one bin when the reserve holds more than its capacity, shrinks it by one when an idle
node holds less than half its capacity within the radius, and holds it otherwise.
`RadiusController::apply` reads the occupancy, decides, and on a grow runs `grow_to_capacity`,
which sheds the boundary bin through `evict_from_bin` (at most `BIN_EVICT_MAX` entries) and steps
the radius until the count is within capacity or the radius is at `MAX_PO`, then commits the radius.

`apply` is generic over the reserve (`R: SettableRadius`); here the reserve is a structure of its
verbs over a state, and a lawful one (`SettableRadius.Sheds`) is one whose `evict_from_bin` removes
`min(count_in(bin), max)` entries of its bin and nothing of another.  `DbReserve` is lawful over its
representation invariant.

What `apply` guarantees on a grow that returns `Ok(r)`: every bin from the old radius up to `r`
was shed once, losing `min(count_in(b), BIN_EVICT_MAX)` entries, every other bin is as it was, and
the count is within capacity unless `r = MAX_PO`.  The loop itself, run with a shed closure that
logs its calls, sheds the bins from its start up, one per step and in order, and returns one bin
past the last shed bin within capacity, or `MAX_PO` still over it after shedding every bin below
(`grow_to_capacity_sheds_consecutive_bins`).  A bin that held more than `BIN_EVICT_MAX`
entries therefore keeps the rest below the committed radius, and later grows shed only at or past
the new radius.
-/

namespace VertexSwarm.Storer

open BigEndian Saturating

/-- `MAX_PO`, the deepest proximity order. -/
def maxPo : ℕ := 31

/-- A reserve bin, `0 ..= MAX_PO`; a storage radius and a proximity order are one too. -/
abbrev Bin := Fin (maxPo + 1)

/-- The numerals of `Bin` (`Fin.instOfNat`) all rest on this one fact. -/
instance (priority := high) bin_neZero : NeZero (maxPo + 1) := ⟨Nat.succ_ne_zero maxPo⟩

/-- `Bin::try_from`. -/
def Bin.tryFrom (raw : ℕ) : Option Bin := if h : raw < maxPo + 1 then some ⟨raw, h⟩ else none

/-- The byte a bin is keyed by in the reserve's tables. -/
def Bin.toUInt8 (bin : Bin) : UInt8 := UInt8.ofNat bin.val

/-- `BIN_EVICT_MAX`: the most entries one shed evicts from a bin. -/
def binEvictMax : UInt64 := 10000

/-- `step_up`: the radius one bin deeper, or `None` at the deepest bin. -/
def stepUp (radius : Bin) : Option Bin :=
  if maxPo ≤ radius.val then none else Bin.tryFrom (radius.val + 1)

/-- `step_down`: the radius one bin shallower, or `None` at zero. -/
def stepDown (radius : Bin) : Option Bin :=
  if radius.val = 0 then none else Bin.tryFrom (radius.val - 1)

/-- `RadiusDecision`. -/
inductive RadiusDecision where
  | hold
  | shrink (next : Bin)
  | grow (next : Bin)
deriving DecidableEq

/-- `RadiusOutcome`: the terminal outcome of the grow loop. -/
inductive RadiusOutcome where
  | withinCapacity (radius : Bin)
  | atCeiling (radius : Bin)
deriving DecidableEq

/-- The radius either outcome carries, as `apply` reads it. -/
def RadiusOutcome.radius : RadiusOutcome → Bin
  | .withinCapacity radius => radius
  | .atCeiling radius => radius

/-- `ReserveOccupancy`: counts in stamped entries. -/
structure ReserveOccupancy where
  withinRadius : ℕ
  total : ℕ
  capacity : UInt64
  radius : Bin
deriving DecidableEq

/-- `shrink_threshold`: `capacity * 5 / 10`, the multiplication saturating. -/
def shrinkThreshold (capacity : UInt64) : UInt64 := saturatingMulU64 capacity 5 / 10

/-- `derive_radius`: grow over capacity (a hard constraint, checked first), shrink when idle and
under the threshold above the floor, hold otherwise. -/
def deriveRadius (occ : ReserveOccupancy) (minimumRadius : Bin) (syncingIdle : Bool) :
    RadiusDecision :=
  if occ.capacity.toNat < occ.total then
    match stepUp occ.radius with
    | some next => .grow next
    | none => .hold
  else if syncingIdle ∧ occ.withinRadius < (shrinkThreshold occ.capacity).toNat ∧
      minimumRadius < occ.radius then
    match stepDown occ.radius with
    | some next => .shrink next
    | none => .hold
  else .hold

theorem stepUp_eq_some {radius next : Bin} (h : stepUp radius = some next) :
    radius.val < maxPo ∧ next.val = radius.val + 1 := by
  unfold stepUp Bin.tryFrom at h
  split at h
  · cases h
  · next hlt =>
    split at h
    · cases h
      exact ⟨by omega, rfl⟩
    · cases h

theorem stepUp_eq_none {radius : Bin} (h : stepUp radius = none) : radius.val = maxPo := by
  unfold stepUp Bin.tryFrom at h
  have hle := radius.is_lt
  split at h
  · omega
  · split at h
    · cases h
    · omega

theorem stepUp_of_lt {radius : Bin} (h : radius.val < maxPo) :
    ∃ next, stepUp radius = some next := by
  cases hstep : stepUp radius with
  | none => exact absurd (stepUp_eq_none hstep) (by omega)
  | some next => exact ⟨next, rfl⟩

/-- `derive_radius` grows exactly when the reserve is over capacity below the deepest bin. -/
theorem deriveRadius_eq_grow_iff (occ : ReserveOccupancy) (minimumRadius : Bin) (syncingIdle : Bool)
    (next : Bin) :
    deriveRadius occ minimumRadius syncingIdle = .grow next ↔
      occ.capacity.toNat < occ.total ∧ stepUp occ.radius = some next := by
  unfold deriveRadius
  split
  · next hover =>
    split
    · next next' hstep => simp [hstep, hover]
    · next hstep => simp [hstep]
  · next hwithin =>
    refine ⟨fun h ↦ ?_, fun h ↦ absurd h.1 hwithin⟩
    split at h
    · split at h <;> cases h
    · cases h

/-! ## The grow loop -/

section Grow

variable {γ : Type}

/-- `grow_to_capacity`: while the total is over capacity, shed the boundary bin and step the
radius; stop within capacity, or at the ceiling.  The shed closure's captured state `γ` is
threaded through (`FnMut`).  It steps up at most `MAX_PO - start` times. -/
def growToCapacity (radius : Bin) (capacity : UInt64) (total : ℕ) (shed : γ → Bin → ℕ × γ)
    (state : γ) : RadiusOutcome × γ :=
  if capacity.toNat < total then
    match _hstep : stepUp radius with
    | some next =>
      -- the radius becomes `next` whether or not this shed sufficed: bin `radius` is gone
      let shed' := shed state radius
      if shed'.1 ≤ capacity.toNat then (.withinCapacity next, shed'.2)
      else growToCapacity next capacity shed'.1 shed shed'.2
    | none => (.atCeiling radius, state)
  else (.withinCapacity radius, state)
termination_by maxPo - radius.val
decreasing_by
  have := stepUp_eq_some _hstep
  omega

/-- The grow loop keeps any invariant of the radius, the total and the shed state that one shed
of an over-capacity boundary bin keeps; it stops at a radius whose total is within capacity, or
at the deepest bin.  By well-founded induction on the bins left. -/
theorem growToCapacity_invariant (capacity : UInt64) (shed : γ → Bin → ℕ × γ)
    (P : Bin → ℕ → γ → Prop)
    (hstep : ∀ radius next total state, stepUp radius = some next → capacity.toNat < total →
      P radius total state → P next (shed state radius).1 (shed state radius).2)
    (radius : Bin) (total : ℕ) (state : γ) (hstart : P radius total state) :
    ∃ total', P (growToCapacity radius capacity total shed state).1.radius total'
        (growToCapacity radius capacity total shed state).2 ∧
      ((growToCapacity radius capacity total shed state).1.radius.val = maxPo ∨
        total' ≤ capacity.toNat) := by
  rw [growToCapacity]
  split
  · next hover =>
    split
    · next next hnext =>
      have hshed := hstep radius next total state hnext hover hstart
      dsimp only
      split
      · -- this shed brought the reserve within capacity
        next hwithin => exact ⟨_, hshed, Or.inr hwithin⟩
      · exact growToCapacity_invariant capacity shed P hstep next _ _ hshed
    · -- no deeper bin: the ceiling
      next hnone => exact ⟨total, hstart, Or.inl (stepUp_eq_none hnone)⟩
  · next hwithin => exact ⟨total, hstart, Or.inr (not_lt.mp hwithin)⟩
termination_by maxPo - radius.val
decreasing_by
  obtain ⟨-, hval⟩ := stepUp_eq_some ‹stepUp radius = some _›
  omega

theorem le_growToCapacity_radius (capacity : UInt64) (shed : γ → Bin → ℕ × γ) (radius : Bin)
    (total : ℕ) (state : γ) : radius ≤ (growToCapacity radius capacity total shed state).1.radius := by
  obtain ⟨-, hle, -⟩ := growToCapacity_invariant capacity shed (fun radius' _ _ ↦ radius ≤ radius')
    (fun radius' next _ _ hnext _ hle ↦ by
      have := stepUp_eq_some hnext
      rw [Fin.le_def] at hle ⊢
      omega)
    radius total state le_rfl
  exact hle

theorem lt_growToCapacity_radius (capacity : UInt64) (shed : γ → Bin → ℕ × γ) {radius next : Bin}
    {total : ℕ} (state : γ) (hover : capacity.toNat < total) (hnext : stepUp radius = some next) :
    radius < (growToCapacity radius capacity total shed state).1.radius := by
  have hlt : radius < next := by
    rw [Fin.lt_def, (stepUp_eq_some hnext).2]
    omega
  rw [growToCapacity, if_pos hover]
  split
  · next next' hnext' =>
    obtain rfl : next = next' := Option.some.inj (hnext.symm.trans hnext')
    dsimp only
    split
    · exact hlt
    · exact lt_of_lt_of_le hlt (le_growToCapacity_radius capacity shed next _ _)
  · next hnone => exact absurd (hnext.symm.trans hnone) (by simp)

/-! ### Which bins the loop sheds

The shed closure is instrumented: `recordShed` forwards each call and logs the bin it was given
with the total it returned.  The logged run does what the plain one does, and its log is the bins
`start, start + 1, …` in order (`growToCapacity_recordShed`). -/

/-- The shed closure, logging each call: the bin it was given and the total it returned. -/
def recordShed (shed : γ → Bin → ℕ × γ) (state : γ × List (Bin × ℕ)) (bin : Bin) :
    ℕ × (γ × List (Bin × ℕ)) :=
  let shed' := shed state.1 bin
  (shed'.1, (shed'.2, state.2 ++ [(bin, shed'.1)]))

/-- The total the loop last compared with the capacity: the one the last shed returned, or the
initial one when nothing was shed. -/
def lastTotal (total : ℕ) (calls : List (Bin × ℕ)) : ℕ := (calls.getLast?.map Prod.snd).getD total

theorem lastTotal_nil (total : ℕ) : lastTotal total [] = total := rfl

theorem lastTotal_cons (total : ℕ) (bin : Bin) (value : ℕ) (calls : List (Bin × ℕ)) :
    lastTotal total ((bin, value) :: calls) = lastTotal value calls := by
  cases calls with
  | nil => rfl
  | cons call calls =>
    simp only [lastTotal, List.getLast?_cons, Option.map_some,
      Option.getD_some]

/-- How a run from `start` that logged `calls` ended: within capacity one bin past the last shed
bin, or at the deepest bin, still over capacity. -/
def GrowShape (capacity : UInt64) (start : Bin) (total : ℕ) (calls : List (Bin × ℕ)) :
    RadiusOutcome → Prop
  | .withinCapacity radius =>
    radius.val = start.val + calls.length ∧ lastTotal total calls ≤ capacity.toNat
  | .atCeiling radius =>
    radius = Fin.last maxPo ∧ start.val + calls.length = maxPo ∧
      capacity.toNat < lastTotal total calls

theorem GrowShape.cons {capacity : UInt64} {radius next : Bin} {total value : ℕ}
    {calls : List (Bin × ℕ)} {outcome : RadiusOutcome} (hnext : next.val = radius.val + 1)
    (h : GrowShape capacity next value calls outcome) :
    GrowShape capacity radius total ((radius, value) :: calls) outcome := by
  cases outcome with
  | withinCapacity r =>
    obtain ⟨hr, hlast⟩ := h
    refine ⟨?_, by rwa [lastTotal_cons]⟩
    rw [hr, hnext, List.length_cons]
    omega
  | atCeiling r =>
    obtain ⟨hr, hdeep, hlast⟩ := h
    refine ⟨hr, ?_, by rwa [lastTotal_cons]⟩
    rw [List.length_cons]
    omega

/-- The logged run: the plain run's outcome and shed state, the log extended by the bins
`radius, radius + 1, …` in order, and the outcome of the shape `GrowShape`.  By well-founded
induction on the bins left, as `growToCapacity` recurses. -/
theorem growToCapacity_recordShed (capacity : UInt64) (shed : γ → Bin → ℕ × γ) (radius : Bin)
    (total : ℕ) (state : γ) (log : List (Bin × ℕ)) :
    ∃ calls, growToCapacity radius capacity total (recordShed shed) (state, log) =
        ((growToCapacity radius capacity total shed state).1,
          ((growToCapacity radius capacity total shed state).2, log ++ calls)) ∧
      calls.map (fun call ↦ call.1.val) = List.range' radius.val calls.length ∧
      GrowShape capacity radius total calls (growToCapacity radius capacity total shed state).1 := by
  rw [growToCapacity.eq_1 radius capacity total (recordShed shed),
    growToCapacity.eq_1 radius capacity total shed]
  by_cases hover : capacity.toNat < total
  · rw [if_pos hover, if_pos hover]
    split
    · next next hnext =>
      have hnext' := (stepUp_eq_some hnext).2
      dsimp only [recordShed]
      by_cases hwithin : (shed state radius).1 ≤ capacity.toNat
      · -- the first shed suffices: one call, one bin deeper
        rw [if_pos hwithin, if_pos hwithin]
        exact ⟨[(radius, (shed state radius).1)], rfl, rfl, hnext', hwithin⟩
      · rw [if_neg hwithin, if_neg hwithin]
        obtain ⟨calls, hrun, hbins, hshape⟩ := growToCapacity_recordShed capacity shed next
          (shed state radius).1 (shed state radius).2 (log ++ [(radius, (shed state radius).1)])
        refine ⟨(radius, (shed state radius).1) :: calls, by simp [hrun], ?_, hshape.cons hnext'⟩
        rw [List.map_cons, hbins, hnext', List.length_cons, List.range'_succ]
    · -- no deeper bin: nothing is shed
      next hnone =>
      exact ⟨[], by simp, rfl, Fin.ext (stepUp_eq_none hnone), stepUp_eq_none hnone, hover⟩
  · rw [if_neg hover, if_neg hover]
    exact ⟨[], by simp, rfl, rfl, not_lt.mp hover⟩
termination_by maxPo - radius.val
decreasing_by
  have := stepUp_eq_some ‹stepUp radius = some _›
  omega

theorem grow_to_capacity_sheds_consecutive_bins (start : Bin) (capacity : UInt64) (total : ℕ)
    (shed : γ → Bin → ℕ × γ) (state : γ) :
    let run := growToCapacity start capacity total (recordShed shed) (state, [])
    let calls := run.2.2
    (run.1, run.2.1) = growToCapacity start capacity total shed state ∧
      calls.length ≤ maxPo - start.val ∧
      calls.map (fun call ↦ call.1.val) = List.range' start.val calls.length ∧
      (∀ radius, run.1 = .withinCapacity radius ↔
        lastTotal total calls ≤ capacity.toNat ∧ radius.val = start.val + calls.length) ∧
      (capacity.toNat < lastTotal total calls →
        run.1 = .atCeiling (Fin.last maxPo) ∧ calls.length = maxPo - start.val) := by
  obtain ⟨calls, hrun, hbins, hshape⟩ := growToCapacity_recordShed capacity shed start total state []
  simp only [hrun, List.nil_append, true_and]
  generalize (growToCapacity start capacity total shed state).1 = outcome at hshape ⊢
  cases outcome with
  | withinCapacity r =>
    obtain ⟨hr, hlast⟩ := hshape
    have hdeep : r.val ≤ maxPo := Nat.le_of_lt_succ r.is_lt
    refine ⟨by omega, hbins, fun radius ↦ ⟨?_, ?_⟩, fun hover ↦ absurd hlast (not_le.mpr hover)⟩
    · rintro ⟨⟩
      exact ⟨hlast, hr⟩
    · rintro ⟨-, hradius⟩
      rw [Fin.ext (hr.trans hradius.symm)]
  | atCeiling r =>
    obtain ⟨hr, hdeep, hlast⟩ := hshape
    refine ⟨by omega, hbins, fun radius ↦ ⟨nofun, fun h ↦ absurd h.1 (not_le.mpr hlast)⟩,
      fun _ ↦ ⟨by rw [hr], by omega⟩⟩

end Grow

/-! ## The controller -/

section Controller

variable {σ ε : Type}

/-- The verbs of a reserve that the controller calls (`ReserveStore` with `SettableRadius`), over
a reserve state `σ` with errors `ε`.  A verb that fails leaves no state behind: its transaction
aborted. -/
structure SettableRadius (σ ε : Type) where
  storageRadius : σ → Bin
  count : σ → Except ε ℕ
  capacity : σ → UInt64
  countIn : σ → Bin → Except ε ℕ
  evictFromBin : σ → Bin → UInt64 → Except ε (ℕ × σ)
  setStorageRadius : σ → Bin → σ

/-- `ProximityOrder::new(po).unwrap_or(ProximityOrder::MAX)`. -/
def Bin.ofPo (po : ℕ) : Bin := (Bin.tryFrom po).getD (Fin.last maxPo)

/-- `occupancy_of`: the radius, the count, and the saturating sum of the counts of the bins at or
past the radius. -/
def occupancyOf (reserve : SettableRadius σ ε) (state : σ) : Except ε ReserveOccupancy := do
  let radius := reserve.storageRadius state
  let total ← reserve.count state
  let withinRadius ← (List.range' radius.val (maxPo + 1 - radius.val)).foldlM
    (fun within po ↦ do
      let count ← reserve.countIn state (Bin.ofPo po)
      pure (saturatingAddNat within count)) 0
  pure ⟨withinRadius, total, reserve.capacity state, radius⟩

/-- The shed closure of `apply`'s grow path: evict up to `BIN_EVICT_MAX` entries of the boundary
bin and re-read the count.  It captures the first error and the reserve; with an error captured it
reports the snapshot's total and does nothing more. -/
def shedBin (reserve : SettableRadius σ ε) (occTotal : ℕ) :
    Option ε × σ → Bin → ℕ × (Option ε × σ)
  | (some e, state), _ => (occTotal, (some e, state))
  | (none, state), radius =>
    match reserve.evictFromBin state radius binEvictMax with
    | .ok (_, state') =>
      match reserve.count state' with
      | .ok total => (total, (none, state'))
      | .error e => (occTotal, (some e, state'))
    | .error e => (occTotal, (some e, state))

/-- `RadiusController`: the configured floor; the radius itself lives in the reserve. -/
structure RadiusController where
  minimumRadius : Bin

/-- `RadiusController::decide`. -/
def RadiusController.decide (controller : RadiusController) (occ : ReserveOccupancy)
    (syncingIdle : Bool) : RadiusDecision :=
  deriveRadius occ controller.minimumRadius syncingIdle

/-- `RadiusController::apply`: decide, perform the implied eviction, commit the radius, and
return it with the reserve's state after.  A grow sheds before it commits; a shed error is
surfaced after the loop, the evictions before it committed. -/
def RadiusController.apply (controller : RadiusController) (reserve : SettableRadius σ ε)
    (state : σ) (syncingIdle : Bool) : Except ε Bin × σ :=
  match occupancyOf reserve state with
  | .error e => (.error e, state)
  | .ok occ =>
    match controller.decide occ syncingIdle with
    | .hold => (.ok occ.radius, state)
    | .shrink next => (.ok next, reserve.setStorageRadius state next)
    | .grow _ =>
      let grown := growToCapacity occ.radius occ.capacity occ.total (shedBin reserve occ.total)
        (none, state)
      match grown.2 with
      | (some e, state') => (.error e, state')
      | (none, state') => (.ok grown.1.radius, reserve.setStorageRadius state' grown.1.radius)

/-- What the controller relies on of a reserve: an invariant its writes keep, under which
`evict_from_bin` removes `min(count_in(bin), max)` entries of its bin and leaves every other bin,
and a radius write that moves no data. -/
structure SettableRadius.Sheds (reserve : SettableRadius σ ε) (inv : σ → Prop) : Prop where
  evictFromBin : ∀ {state state' bin max evicted}, inv state →
    reserve.evictFromBin state bin max = .ok (evicted, state') →
    inv state' ∧ ∀ b, reserve.countIn state' b =
      (reserve.countIn state b).map (fun count ↦ if b = bin then count - min count max.toNat else count)
  setStorageRadius : ∀ {state} radius, inv state → inv (reserve.setStorageRadius state radius)
  count_setStorageRadius : ∀ state radius,
    reserve.count (reserve.setStorageRadius state radius) = reserve.count state
  countIn_setStorageRadius : ∀ state radius b,
    reserve.countIn (reserve.setStorageRadius state radius) b = reserve.countIn state b
  storageRadius_setStorageRadius : ∀ state radius,
    reserve.storageRadius (reserve.setStorageRadius state radius) = radius

theorem occupancyOf_eq_ok {reserve : SettableRadius σ ε} {state : σ} {occ : ReserveOccupancy}
    (h : occupancyOf reserve state = .ok occ) :
    reserve.count state = .ok occ.total ∧ occ.radius = reserve.storageRadius state ∧
      occ.capacity = reserve.capacity state := by
  unfold occupancyOf at h
  cases hcount : reserve.count state with
  | error e => simp [hcount, bind, Except.bind] at h
  | ok total =>
    simp only [hcount, bind, Except.bind] at h
    split at h
    · cases h
    · cases h
      exact ⟨rfl, rfl, rfl⟩

/-- What a grow from `start` that stops at `stop` leaves of a bin holding `count` entries: the
bins it passed lose `min(count, BIN_EVICT_MAX)`. -/
def shedCount (start stop b : Bin) (count : ℕ) : ℕ :=
  if start ≤ b ∧ b < stop then count - min count binEvictMax.toNat else count

/-- One more shed, of the boundary bin `radius`, moves the stop to `next`. -/
theorem shedCount_step {start radius next : Bin} (hstart : start ≤ radius)
    (hnext : next.val = radius.val + 1) (b : Bin) (count : ℕ) :
    (if b = radius then shedCount start radius b count - min (shedCount start radius b count)
      binEvictMax.toNat else shedCount start radius b count) = shedCount start next b count := by
  rw [Fin.le_def] at hstart
  unfold shedCount
  split
  · next hb =>
    subst hb
    simp [Fin.lt_def, hnext, Fin.le_def, hstart]
  · next hb =>
    have hb' : b.val ≠ radius.val := fun h ↦ hb (Fin.ext h)
    have hiff : (start ≤ b ∧ b < radius) ↔ (start ≤ b ∧ b < next) := by
      simp only [Fin.le_def, Fin.lt_def, hnext]
      omega
    simp only [hiff]

theorem shedCount_self (start b : Bin) : shedCount start start b = id := by
  funext count
  unfold shedCount
  rw [if_neg (fun h ↦ absurd (lt_of_le_of_lt h.1 h.2) (lt_irrefl _))]
  rfl

variable {reserve : SettableRadius σ ε} {inv : σ → Prop}

/-- What the grow loop keeps over a lawful reserve from `state`: while no shed failed, the reserve
keeps its invariant, the loop's total is its count, and each bin from the start up to the loop's
radius was shed once. -/
def GrowInv (reserve : SettableRadius σ ε) (inv : σ → Prop) (state : σ) (start : Bin)
    (radius : Bin) (total : ℕ) (shedState : Option ε × σ) : Prop :=
  start ≤ radius ∧ (shedState.1 = none → inv shedState.2 ∧ reserve.count shedState.2 = .ok total ∧
    ∀ b, reserve.countIn shedState.2 b = (reserve.countIn state b).map (shedCount start radius b))

/-- One shed of the boundary bin keeps `GrowInv`: a failed eviction or count captures its error,
a successful one removes what the contract says. -/
theorem GrowInv.shed (sheds : reserve.Sheds inv) {state : σ} {start radius next : Bin} {total occTotal : ℕ}
    {shedState : Option ε × σ} (hnext : stepUp radius = some next)
    (hinv : GrowInv reserve inv state start radius total shedState) :
    GrowInv reserve inv state start next (shedBin reserve occTotal shedState radius).1
      (shedBin reserve occTotal shedState radius).2 := by
  obtain ⟨hstart, hlive⟩ := hinv
  have hval := (stepUp_eq_some hnext).2
  have hstart' : start ≤ next := by
    rw [Fin.le_def] at hstart ⊢
    omega
  obtain ⟨err, current⟩ := shedState
  cases err with
  | some e => exact ⟨hstart', fun h ↦ by simp [shedBin] at h⟩
  | none =>
    obtain ⟨hcur, -, hcounts⟩ := hlive rfl
    cases hevict : reserve.evictFromBin current radius binEvictMax with
    | error e => exact ⟨hstart', fun h ↦ by simp [shedBin, hevict] at h⟩
    | ok result =>
      obtain ⟨evicted, state'⟩ := result
      obtain ⟨hinv', hcounts'⟩ := sheds.evictFromBin hcur hevict
      cases hcount : reserve.count state' with
      | error e => exact ⟨hstart', fun h ↦ by simp [shedBin, hevict, hcount] at h⟩
      | ok total' =>
        simp only [shedBin, hevict, hcount]
        refine ⟨hstart', fun _ ↦ ⟨hinv', hcount, fun b ↦ ?_⟩⟩
        rw [hcounts', hcounts]
        cases reserve.countIn state b with
        | error e => rfl
        | ok count => exact congrArg Except.ok (shedCount_step hstart hval b count)

/-- On a grow that returns `Ok(r)` from a lawful reserve: the reserve keeps its invariant and
commits `r`, deeper than the old radius; the count is within capacity unless `r = MAX_PO`; and
every bin from the old radius up to `r` lost `min(count_in(b), BIN_EVICT_MAX)` entries while
every other bin is as it was. -/
theorem apply_of_grow (sheds : reserve.Sheds inv) (controller : RadiusController) {state : σ}
    {syncingIdle : Bool} (hinv : inv state) {occ : ReserveOccupancy} {next radius : Bin}
    (hocc : occupancyOf reserve state = .ok occ) (hgrow : controller.decide occ syncingIdle = .grow next)
    (hok : (controller.apply reserve state syncingIdle).1 = .ok radius) :
    inv (controller.apply reserve state syncingIdle).2 ∧
      reserve.storageRadius (controller.apply reserve state syncingIdle).2 = radius ∧
      occ.radius < radius ∧
      (∃ total, reserve.count (controller.apply reserve state syncingIdle).2 = .ok total ∧
        (total ≤ occ.capacity.toNat ∨ radius.val = maxPo)) ∧
      ∀ b, reserve.countIn (controller.apply reserve state syncingIdle).2 b =
        (reserve.countIn state b).map (shedCount occ.radius radius b) := by
  obtain ⟨hcount, -, -⟩ := occupancyOf_eq_ok hocc
  obtain ⟨hover, hnext⟩ := (deriveRadius_eq_grow_iff occ controller.minimumRadius syncingIdle next).mp hgrow
  have hstart : GrowInv reserve inv state occ.radius occ.radius occ.total (none, state) :=
    ⟨le_rfl, fun _ ↦ ⟨hinv, hcount, fun b ↦ by rw [shedCount_self, Except.map_id]; rfl⟩⟩
  obtain ⟨total, ⟨-, hlive⟩, hdone⟩ := growToCapacity_invariant occ.capacity (shedBin reserve occ.total)
    (GrowInv reserve inv state occ.radius) (fun _ _ _ _ hstep _ hprev ↦ hprev.shed sheds hstep)
    occ.radius occ.total (none, state) hstart
  have hlt := lt_growToCapacity_radius occ.capacity (shedBin reserve occ.total) (none, state) hover hnext
  unfold RadiusController.apply at hok ⊢
  rw [hocc] at hok ⊢
  dsimp only at hok ⊢
  rw [hgrow] at hok ⊢
  dsimp only at hok ⊢
  revert hlive hok
  generalize growToCapacity occ.radius occ.capacity occ.total (shedBin reserve occ.total) (none, state) = grown at hdone hlt ⊢
  obtain ⟨outcome, err, state'⟩ := grown
  cases err with
  | some e =>
    intro hok _
    simp at hok
  | none =>
    intro hok hlive
    dsimp only at hok ⊢
    obtain ⟨hinv', hcount', hcounts⟩ := hlive rfl
    cases hok
    refine ⟨sheds.setStorageRadius _ hinv', sheds.storageRadius_setStorageRadius _ _, hlt,
      ⟨total, by rw [sheds.count_setStorageRadius, hcount'], hdone.symm⟩, fun b ↦ ?_⟩
    rw [sheds.countIn_setStorageRadius, hcounts]

end Controller

/-! ## `DbReserve` -/

/-- A `DbReserve` with its radius cell.  The cell only ever holds a valid bin, so reading it never
falls back to zero. -/
structure RadiusReserve where
  reserve : DbReserve
  radius : Bin

/-- `DbReserve`'s `ReserveStore` and `SettableRadius` verbs; its backend is infallible here. -/
def RadiusReserve.verbs (ctx : ReserveContext) : SettableRadius RadiusReserve Empty where
  storageRadius state := state.radius
  count state := .ok state.reserve.entryCount
  capacity state := state.reserve.capacity
  countIn state po := .ok (state.reserve.countIn po.toUInt8)
  evictFromBin state bin max :=
    let evicted := state.reserve.evictFromBin ctx bin.toUInt8 max
    .ok (evicted.1, ⟨evicted.2, state.radius⟩)
  setStorageRadius state radius := ⟨state.reserve, radius⟩

theorem Bin.toNat_toUInt8 (bin : Bin) : bin.toUInt8.toNat = bin.val :=
  UInt8.toNat_ofNat_of_lt' (lt_of_lt_of_le bin.is_lt (by norm_num [maxPo]))

theorem Bin.toUInt8_inj {bin bin' : Bin} : bin.toUInt8 = bin'.toUInt8 ↔ bin = bin' := by
  refine ⟨fun h ↦ Fin.ext ?_, fun h ↦ h ▸ rfl⟩
  rw [← Bin.toNat_toUInt8 bin, ← Bin.toNat_toUInt8 bin', h]

/-- `DbReserve` is lawful over its representation invariant. -/
theorem RadiusReserve.sheds (ctx : ReserveContext) :
    (RadiusReserve.verbs ctx).Sheds (fun state ↦ ReserveInv ctx state.reserve) where
  evictFromBin {state state' bin max evicted} hinv h := by
    simp only [RadiusReserve.verbs, Except.ok.injEq, Prod.mk.injEq] at h
    obtain ⟨-, rfl⟩ := h
    refine ⟨hinv.evictFromBin _ _, fun b ↦ ?_⟩
    by_cases hb : b = bin
    · subst hb
      simp [RadiusReserve.verbs, Except.map, hinv.countIn_evictFromBin]
    · simp [RadiusReserve.verbs, Except.map, hinv.countIn_evictFromBin, Bin.toUInt8_inj, hb]
  setStorageRadius _ hinv := hinv
  count_setStorageRadius _ _ := rfl
  countIn_setStorageRadius _ _ _ := rfl
  storageRadius_setStorageRadius _ _ := rfl

/-- Over capacity below the deepest bin, `apply` on a `DbReserve` reads an occupancy of its count,
capacity and radius and takes the grow path. -/
theorem RadiusReserve.grow_of_over (ctx : ReserveContext) (controller : RadiusController)
    (state : RadiusReserve) (syncingIdle : Bool)
    (hover : state.reserve.capacity.toNat < state.reserve.entryCount) (hceil : state.radius.val < maxPo) :
    ∃ occ next, occupancyOf (RadiusReserve.verbs ctx) state = .ok occ ∧
      controller.decide occ syncingIdle = .grow next ∧ occ.radius = state.radius ∧
      occ.capacity = state.reserve.capacity := by
  cases hocc : occupancyOf (RadiusReserve.verbs ctx) state with
  | error e => exact e.elim
  | ok occ =>
    obtain ⟨hcount, hradius, hcapacity⟩ := occupancyOf_eq_ok hocc
    have htotal : occ.total = state.reserve.entryCount := (Except.ok.inj hcount).symm
    obtain ⟨next, hnext⟩ := stepUp_of_lt (hradius ▸ hceil : occ.radius.val < maxPo)
    refine ⟨occ, next, rfl, ?_, hradius, hcapacity⟩
    rw [RadiusController.decide, deriveRadius_eq_grow_iff]
    exact ⟨by rw [htotal, hcapacity]; exact hover, hnext⟩

theorem radius_grow_sheds_passed_bins (ctx : ReserveContext) (controller : RadiusController)
    (state : RadiusReserve) (syncingIdle : Bool) (hinv : ReserveInv ctx state.reserve)
    (hover : state.reserve.capacity.toNat < state.reserve.entryCount)
    (hceil : state.radius.val < maxPo) :
    ∃ radius, (controller.apply (RadiusReserve.verbs ctx) state syncingIdle).1 = .ok radius ∧
      state.radius < radius ∧
      ((controller.apply (RadiusReserve.verbs ctx) state syncingIdle).2.reserve.entryCount ≤
          state.reserve.capacity.toNat ∨ radius.val = maxPo) ∧
      ∀ b : Bin, (controller.apply (RadiusReserve.verbs ctx) state syncingIdle).2.reserve.countIn
          b.toUInt8 = shedCount state.radius radius b (state.reserve.countIn b.toUInt8) := by
  obtain ⟨occ, next, hocc, hgrow, hradius, hcapacity⟩ :=
    RadiusReserve.grow_of_over ctx controller state syncingIdle hover hceil
  cases hresult : (controller.apply (RadiusReserve.verbs ctx) state syncingIdle).1 with
  | error e => exact e.elim
  | ok radius =>
    obtain ⟨-, -, hlt, ⟨total, hcount, hdone⟩, hcounts⟩ :=
      apply_of_grow (RadiusReserve.sheds ctx) controller hinv hocc hgrow hresult
    rw [hradius, hcapacity] at *
    refine ⟨radius, rfl, hlt, ?_, fun b ↦ Except.ok.inj (hcounts b)⟩
    -- the count the grow read last is the count it left
    rw [← Except.ok.inj hcount] at hdone
    exact hdone

/-- A reserve of two entries in bin zero, over its capacity of one. -/
def twoEntries : RadiusReserve := ⟨batchFill (FixedBytes.ofNat 32 1) 2 1, 0⟩

theorem radius_grow_sheds_passed_bins_of_twoEntries :
    ReserveInv flatContext twoEntries.reserve ∧
      twoEntries.reserve.capacity.toNat < twoEntries.reserve.entryCount ∧
      twoEntries.radius.val < maxPo ∧
      ∃ radius, ((⟨0⟩ : RadiusController).apply (RadiusReserve.verbs flatContext) twoEntries true).1 =
          .ok radius ∧ twoEntries.radius < radius ∧
        (((⟨0⟩ : RadiusController).apply (RadiusReserve.verbs flatContext) twoEntries true).2.reserve.entryCount ≤
            twoEntries.reserve.capacity.toNat ∨ radius.val = maxPo) ∧
        ∀ b : Bin, ((⟨0⟩ : RadiusController).apply (RadiusReserve.verbs flatContext) twoEntries
            true).2.reserve.countIn b.toUInt8 =
          shedCount twoEntries.radius radius b (twoEntries.reserve.countIn b.toUInt8) := by
  obtain ⟨hinv, hcount, -, -⟩ := batchFill_spec (FixedBytes.ofNat 32 1) 2 (by norm_num) 1
  have hover : twoEntries.reserve.capacity.toNat < twoEntries.reserve.entryCount := by
    rw [twoEntries, hcount, batchFill_capacity]
    decide
  have hceil : twoEntries.radius.val < maxPo := by decide
  exact ⟨hinv, hover, hceil,
    radius_grow_sheds_passed_bins flatContext ⟨0⟩ twoEntries true hinv hover hceil⟩

/-- A reserve of `BIN_EVICT_MAX + 1` entries, all in bin zero, over its capacity of one. -/
def overfullBin : RadiusReserve := ⟨batchFill (FixedBytes.ofNat 32 1) 10001 1, 0⟩

theorem bin_left_behind_of_overfullBin :
    ∃ radius, ((⟨0⟩ : RadiusController).apply (RadiusReserve.verbs flatContext) overfullBin true).1 =
        .ok radius ∧ overfullBin.radius < radius ∧
      ((⟨0⟩ : RadiusController).apply (RadiusReserve.verbs flatContext) overfullBin
        true).2.reserve.countIn (0 : Bin).toUInt8 = 1 := by
  -- name the filled reserve, so that no check unfolds its ten thousand puts
  have hreserve : batchFill (FixedBytes.ofNat 32 1) 10001 1 = overfullBin.reserve := by
    simp only [overfullBin]
  have hfill := batchFill_spec (FixedBytes.ofNat 32 1) 10001 (by norm_num) 1
  have hcapacity := batchFill_capacity (FixedBytes.ofNat 32 1) 10001 1
  rw [hreserve] at hfill hcapacity
  obtain ⟨hinv, hcount, hbin, -⟩ := hfill
  have hover : overfullBin.reserve.capacity.toNat < overfullBin.reserve.entryCount := by
    rw [hcount, hcapacity]
    decide
  obtain ⟨occ, next, hocc, hgrow, hradius, -⟩ :=
    RadiusReserve.grow_of_over flatContext ⟨0⟩ overfullBin true hover (by decide)
  cases hresult : ((⟨0⟩ : RadiusController).apply (RadiusReserve.verbs flatContext) overfullBin true).1 with
  | error e => exact e.elim
  | ok radius =>
    obtain ⟨-, -, hlt, -, hcounts⟩ :=
      apply_of_grow (RadiusReserve.sheds flatContext) ⟨0⟩ hinv hocc hgrow hresult
    rw [hradius] at hlt hcounts
    refine ⟨radius, rfl, hlt, ?_⟩
    -- bin zero was passed, and lost only `BIN_EVICT_MAX` of its entries
    have hzero := Except.ok.inj (hcounts 0)
    have hbinZero : (0 : Bin).toUInt8 = 0 := rfl
    have hmax : binEvictMax.toNat = 10000 := rfl
    rw [hzero, shedCount, if_pos ⟨le_rfl, hlt⟩, hbinZero, hmax, hbin]
    norm_num

end VertexSwarm.Storer
