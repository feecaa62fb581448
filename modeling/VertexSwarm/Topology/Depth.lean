import VertexSwarm.Topology.Limits

/-!
# Publishing the neighbourhood depth

`topology/src/kademlia/routing.rs`, `KademliaRouting::publish_depth_at`.  Every connect, disconnect
and tick recomputes the depth from a snapshot of the connected bin sizes and folds it into the
published depth.  A deeper or equal depth is published at once and clears a pending lowering.
A shallower one is published at once only when the bins below the published depth lack more than
`DEPTH_LOWER_DEFICIT_TOLERANCE` peers to saturation; otherwise the first such call starts the
stability window, and the lower depth is published once a call finds the window elapsed.

The recomputation (`recalc_depth` over nectar's `recompute_neighborhood_depth`) is a parameter.
Instants are nanoseconds and `duration_since` saturates at zero, as ℕ subtraction does.

`pendingJustified_run` is the invariant the hysteresis rests on: a pending lowering started at
`since` stands for an unbroken run of calls, the first at `since`, each of which found the
recomputed depth below a published depth that has not moved since before the run.  From it,
`publish_depth_hysteresis` says what every call does after any history.
-/

namespace VertexSwarm.Topology

open Saturating Storer

/-- `DEPTH_LOWER_DEFICIT_TOLERANCE`. -/
def depthLowerDeficitTolerance : UInt64 := 1

/-- What `publish_depth_at` reads of the routing table's configuration. -/
structure DepthConfig where
  limits : DepthAwareLimits
  /-- `max_bin()`. -/
  maxBin : Bin
  /-- `depth_lower_window`, in nanoseconds. -/
  depthLowerWindow : ℕ

/-- The published depth and the pending lowering (`depth`, `pending_depth_lower`). -/
structure DepthState where
  depth : NeighborhoodDepth
  pendingDepthLower : Option ℕ
deriving DecidableEq

/-- One call: the clock and the connected bin sizes it snapshots. -/
structure DepthCall where
  now : ℕ
  sizes : List UInt64

section Publish

variable (recalcDepth : List UInt64 → NeighborhoodDepth) (config : DepthConfig)

/-- `saturation_deficit_below`: the peers the bins below the depth lack to saturation. -/
def saturationDeficitBelow (depth : NeighborhoodDepth) (sizes : List UInt64) : UInt64 :=
  (((allBins config.maxBin).filter fun bin ↦ !depth.contains bin).map fun bin ↦
    saturatingSubU64 config.limits.saturation (sizes.getD bin.val 0)).sum

/-- `publish_depth_at`: whether the published depth moved, and the new state. -/
def publishDepthAt (s : DepthState) (sizes : List UInt64) (now : ℕ) : Bool × DepthState :=
  let raw := recalcDepth sizes
  let published := s.depth
  if published.bin ≤ raw.bin then (raw != published, ⟨raw, none⟩)
  else if depthLowerDeficitTolerance < saturationDeficitBelow config published sizes then
    (true, ⟨raw, none⟩)
  else
    match s.pendingDepthLower with
    | none => (false, ⟨published, some now⟩)
    | some since =>
      if config.depthLowerWindow ≤ now - since then (true, ⟨raw, none⟩) else (false, s)

/-- The state after a history of calls. -/
def runDepth (s : DepthState) (history : List DepthCall) : DepthState :=
  history.foldl (fun s call ↦ (publishDepthAt recalcDepth config s call.sizes call.now).2) s

theorem runDepth_append_singleton (s : DepthState) (history : List DepthCall) (call : DepthCall) :
    runDepth recalcDepth config s (history ++ [call]) =
      (publishDepthAt recalcDepth config (runDepth recalcDepth config s history) call.sizes
        call.now).2 := by
  rw [runDepth, List.foldl_append]
  rfl

theorem publishDepthAt_cases (s : DepthState) (sizes : List UInt64) (now : ℕ) :
    let raw := recalcDepth sizes
    let result := publishDepthAt recalcDepth config s sizes now
    -- deeper or equal: published, pending cleared
    (s.depth.bin ≤ raw.bin ∧ result = (raw != s.depth, ⟨raw, none⟩)) ∨
    -- shallower with a real deficit: published at once
    (raw.bin < s.depth.bin ∧
      depthLowerDeficitTolerance < saturationDeficitBelow config s.depth sizes ∧
      result = (true, ⟨raw, none⟩)) ∨
    -- shallower, marginal deficit, no window yet: the window starts
    (raw.bin < s.depth.bin ∧ s.pendingDepthLower = none ∧
      result = (false, ⟨s.depth, some now⟩)) ∨
    -- shallower, marginal deficit, the window has elapsed: published
    (raw.bin < s.depth.bin ∧ ∃ since, s.pendingDepthLower = some since ∧
      config.depthLowerWindow ≤ now - since ∧ result = (true, ⟨raw, none⟩)) ∨
    -- shallower, marginal deficit, inside the window: held
    (raw.bin < s.depth.bin ∧ (∃ since, s.pendingDepthLower = some since) ∧
      result = (false, s)) := by
  intro raw result
  unfold result publishDepthAt
  dsimp only
  by_cases hraise : s.depth.bin ≤ raw.bin
  · exact .inl ⟨hraise, by rw [if_pos hraise]⟩
  have hlower : raw.bin < s.depth.bin := lt_of_not_ge hraise
  rw [if_neg hraise]
  by_cases hdeficit : depthLowerDeficitTolerance < saturationDeficitBelow config s.depth sizes
  · exact .inr (.inl ⟨hlower, hdeficit, by rw [if_pos hdeficit]⟩)
  rw [if_neg hdeficit]
  cases hpending : s.pendingDepthLower with
  | none => exact .inr (.inr (.inl ⟨hlower, rfl, rfl⟩))
  | some since =>
    by_cases hwindow : config.depthLowerWindow ≤ now - since
    · exact .inr (.inr (.inr (.inl ⟨hlower, since, rfl, hwindow, by simp [hwindow, raw]⟩)))
    · exact .inr (.inr (.inr (.inr ⟨hlower, ⟨since, rfl⟩, by simp [hwindow]⟩)))

/-- A pending lowering started at `since` stands for the last calls of the history: an unbroken
run, its first call at `since`, each finding the recomputed depth below the published one, which
has not moved since before the run. -/
def PendingJustified (s₀ : DepthState) (history : List DepthCall) (s : DepthState) : Prop :=
  ∀ since, s.pendingDepthLower = some since →
    ∃ earlier window first, history = earlier ++ window ∧ window.head? = some first ∧
      first.now = since ∧ (∀ call ∈ window, (recalcDepth call.sizes).bin < s.depth.bin) ∧
      (runDepth recalcDepth config s₀ earlier).depth = s.depth

/-- Every run from a state with nothing pending keeps its pending lowering justified.  By
induction on the history, one case per branch of a call. -/
theorem pendingJustified_run (s₀ : DepthState) (h₀ : s₀.pendingDepthLower = none)
    (history : List DepthCall) :
    PendingJustified recalcDepth config s₀ history (runDepth recalcDepth config s₀ history) := by
  induction history using List.reverseRecOn with
  | nil =>
    intro since hsince
    rw [runDepth, List.foldl_nil, h₀] at hsince
    cases hsince
  | append_singleton history call ih =>
    intro since hsince
    rw [runDepth_append_singleton] at hsince ⊢
    set s := runDepth recalcDepth config s₀ history
    rcases publishDepthAt_cases recalcDepth config s call.sizes call.now with
      ⟨-, hresult⟩ | ⟨-, -, hresult⟩ | ⟨hlower, -, hresult⟩ | ⟨-, -, -, -, hresult⟩ |
        ⟨hlower, -, hresult⟩
    · rw [hresult] at hsince
      cases hsince
    · rw [hresult] at hsince
      cases hsince
    · -- the window starts with this call
      rw [hresult] at hsince ⊢
      cases hsince
      refine ⟨history, [call], call, rfl, rfl, rfl, ?_, rfl⟩
      intro call' hcall'
      rw [List.mem_singleton.mp hcall']
      exact hlower
    · rw [hresult] at hsince
      cases hsince
    · -- held: the run grows by this call
      rw [hresult] at hsince ⊢
      obtain ⟨earlier, window, first, hhistory, hhead, hfirst, hbelow, hdepth⟩ := ih since hsince
      refine ⟨earlier, window ++ [call], first, by rw [hhistory, List.append_assoc], ?_, hfirst,
        ?_, hdepth⟩
      · rw [List.head?_append, hhead]
        rfl
      · intro call' hcall'
        rcases List.mem_append.mp hcall' with hmem | hmem
        · exact hbelow call' hmem
        · rw [List.mem_singleton.mp hmem]
          exact hlower

theorem publish_depth_hysteresis (initial : NeighborhoodDepth) (history : List DepthCall)
    (call : DepthCall) :
    let before := runDepth recalcDepth config ⟨initial, none⟩ history
    let result := publishDepthAt recalcDepth config before call.sizes call.now
    let raw := recalcDepth call.sizes
    raw.bin ≤ result.2.depth.bin ∧
      (before.depth.bin ≤ raw.bin → result.2.depth = raw) ∧
      (result.2.depth.bin < before.depth.bin → result.2.depth = raw ∧
        (depthLowerDeficitTolerance < saturationDeficitBelow config before.depth call.sizes ∨
          ∃ earlier window first, history = earlier ++ window ∧ window.head? = some first ∧
            config.depthLowerWindow ≤ call.now - first.now ∧
            (∀ call' ∈ window ++ [call], (recalcDepth call'.sizes).bin < before.depth.bin) ∧
            (runDepth recalcDepth config ⟨initial, none⟩ earlier).depth = before.depth)) ∧
      (¬ before.depth.bin ≤ raw.bin → ¬ result.2.depth.bin < before.depth.bin →
        result.2.depth = before.depth) ∧
      (result.1 = true ↔ result.2.depth ≠ before.depth) := by
  intro before result raw
  have hjustified := pendingJustified_run recalcDepth config ⟨initial, none⟩ rfl history
  rcases publishDepthAt_cases recalcDepth config before call.sizes call.now with
    ⟨hraise, hresult⟩ | ⟨hlower, hdeficit, hresult⟩ | ⟨hlower, -, hresult⟩ |
      ⟨hlower, since, hpending, hwindow, hresult⟩ | ⟨hlower, -, hresult⟩
  · -- deeper or equal: the recomputed depth is published
    rw [show result = _ from hresult]
    refine ⟨le_rfl, fun _ ↦ rfl, fun hlt ↦ absurd hraise (not_le.mpr hlt), fun h ↦ absurd hraise h,
      bne_iff_ne⟩
  · rw [show result = _ from hresult]
    refine ⟨le_rfl, fun hle ↦ absurd hle (not_le.mpr hlower), fun _ ↦ ⟨rfl, .inl hdeficit⟩,
      fun _ hnot ↦ absurd hlower hnot, ?_⟩
    exact ⟨fun _ heq ↦ (ne_of_lt hlower) (congrArg NeighborhoodDepth.bin heq), fun _ ↦ rfl⟩
  · -- the window starts: the published depth is held
    rw [show result = _ from hresult]
    exact ⟨hlower.le, fun hle ↦ absurd hle (not_le.mpr hlower), fun hlt ↦ absurd hlt (lt_irrefl _),
      fun _ _ ↦ rfl, by simp⟩
  · -- the window has elapsed: the run that started it spans it
    rw [show result = _ from hresult]
    obtain ⟨earlier, window, first, hhistory, hhead, hfirst, hbelow, hdepth⟩ :=
      hjustified since hpending
    refine ⟨le_rfl, fun hle ↦ absurd hle (not_le.mpr hlower), fun _ ↦ ⟨rfl, .inr ?_⟩,
      fun _ hnot ↦ absurd hlower hnot, ?_⟩
    · refine ⟨earlier, window, first, hhistory, hhead, hfirst ▸ hwindow, ?_, hdepth⟩
      intro call' hcall'
      rcases List.mem_append.mp hcall' with hmem | hmem
      · exact hbelow call' hmem
      · rw [List.mem_singleton.mp hmem]
        exact hlower
    · exact ⟨fun _ heq ↦ (ne_of_lt hlower) (congrArg NeighborhoodDepth.bin heq), fun _ ↦ rfl⟩
  · -- inside the window: held
    rw [show result = _ from hresult]
    exact ⟨hlower.le, fun hle ↦ absurd hle (not_le.mpr hlower), fun hlt ↦ absurd hlt (lt_irrefl _),
      fun _ _ ↦ rfl, by simp⟩

end Publish

end VertexSwarm.Topology
