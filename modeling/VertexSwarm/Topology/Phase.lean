import VertexSwarm.Topology.Limits
import VertexSwarm.Lib.Projection

/-!
# The topology phase machine

`topology/src/kademlia/phase.rs`, `PhaseTracker`.  The routing layer calls `evaluate` with the
published depth, whether the neighbourhood is saturated and the time, at every connect,
disconnect and connection-evaluator tick.  The phase is `Bootstrap` at depth zero; otherwise
`Converging` while the neighbourhood is unsaturated or the depth moved within the stability
window; otherwise `Stable`.  A change of phase is reported as a `PhaseTransition` with the time
spent in the phase left.  Instants are nanoseconds, and `duration_since` saturates at zero, as
ℕ subtraction does.

Over every run whose clock does not go back (`phase_history_of_run`): the reported transitions
link up into one history that starts at `Bootstrap` and ends at the current phase, each a real
change; the times they report add up to the time from the start to the last transition; the
phase is `Bootstrap` exactly when the last depth seen is zero; and it is `Stable` exactly when
the last evaluation saw a saturated neighbourhood and a non-zero depth that every evaluation of
the last stability window, and one at least a window earlier, saw too.  The invariant `PhaseInv`
carries all of this along the run, one evaluation at a time.
-/

namespace VertexSwarm.Topology

open Projection

/-- `TopologyPhase`. -/
inductive TopologyPhase where
  | bootstrap
  | converging
  | stable
deriving DecidableEq

/-- `PhaseTransition`: the phases before and after, the depth observed, and the time spent in
the phase left. -/
structure PhaseTransition where
  fromPhase : TopologyPhase
  toPhase : TopologyPhase
  depth : NeighborhoodDepth
  timeInPhase : ℕ

/-- `PhaseTracker`. -/
structure PhaseTracker where
  phase : TopologyPhase
  enteredAt : ℕ
  stabilityWindow : ℕ
  lastDepth : NeighborhoodDepth
  lastDepthChange : ℕ

/-- The phase `evaluate` derives (`next`) from the depth, the saturation, and the time since the
depth last moved. -/
def derivePhase (depth : NeighborhoodDepth) (neighborhoodSaturated : Bool)
    (sinceChange stabilityWindow : ℕ) : TopologyPhase :=
  if depth = .zero then .bootstrap
  else if !neighborhoodSaturated || sinceChange < stabilityWindow then .converging
  else .stable

namespace PhaseTracker

/-- `PhaseTracker::new`: `Bootstrap` at `now`, with depth zero last seen at `now`. -/
def new (stabilityWindow now : ℕ) : PhaseTracker := ⟨.bootstrap, now, stabilityWindow, .zero, now⟩

/-- `time_in_phase`. -/
def timeInPhase (tracker : PhaseTracker) (now : ℕ) : ℕ := now - tracker.enteredAt

/-- `evaluate`: timestamp a depth move, derive the phase, and commit and report a change. -/
def evaluate (tracker : PhaseTracker) (depth : NeighborhoodDepth) (neighborhoodSaturated : Bool)
    (now : ℕ) : Option PhaseTransition × PhaseTracker :=
  let tracker := if depth ≠ tracker.lastDepth then
      { tracker with lastDepth := depth, lastDepthChange := now }
    else tracker
  let next := derivePhase depth neighborhoodSaturated (now - tracker.lastDepthChange)
    tracker.stabilityWindow
  if next = tracker.phase then (none, tracker)
  else
    (some ⟨tracker.phase, next, depth, tracker.timeInPhase now⟩,
      { tracker with phase := next, enteredAt := now })

end PhaseTracker

/-- The arguments of one `evaluate` call. -/
structure Observation where
  depth : NeighborhoodDepth
  neighborhoodSaturated : Bool
  now : ℕ

namespace PhaseTracker

/-- One evaluation. -/
def step (tracker : PhaseTracker) (observation : Observation) :
    Option PhaseTransition × PhaseTracker :=
  tracker.evaluate observation.depth observation.neighborhoodSaturated observation.now

/-- A run of evaluations: each observation with the transition it reported, and the tracker
after them. -/
def run (tracker : PhaseTracker) (observations : List Observation) :
    List (Observation × Option PhaseTransition) × PhaseTracker :=
  runLog step tracker observations

end PhaseTracker

/-- The transitions a run reported, in order. -/
def transitions (log : List (Observation × Option PhaseTransition)) : List PhaseTransition :=
  log.filterMap Prod.snd

/-- The clock reading of the last evaluation, or the start. -/
def lastNow (start : ℕ) (observations : List Observation) : ℕ :=
  (observations.getLast?.map Observation.now).getD start

/-! ## One evaluation -/

theorem derivePhase_eq_bootstrap_iff {depth : NeighborhoodDepth} {saturated : Bool}
    {sinceChange window : ℕ} :
    derivePhase depth saturated sinceChange window = .bootstrap ↔ depth = .zero := by
  unfold derivePhase
  split_ifs <;> simp_all

theorem derivePhase_eq_stable_iff {depth : NeighborhoodDepth} {saturated : Bool}
    {sinceChange window : ℕ} :
    derivePhase depth saturated sinceChange window = .stable ↔
      depth ≠ .zero ∧ saturated = true ∧ window ≤ sinceChange := by
  unfold derivePhase
  by_cases hzero : depth = .zero
  · simp [hzero]
  · cases saturated <;> by_cases hwait : sinceChange < window <;> simp [hzero, hwait]
    omega

/-- Everything one evaluation does: it records the depth, timestamping a move, commits the
derived phase, and reports a transition exactly when the phase changes, with the time spent in
the phase left. -/
theorem evaluate_spec (tracker : PhaseTracker) (depth : NeighborhoodDepth) (saturated : Bool)
    (now : ℕ) :
    let after := tracker.evaluate depth saturated now
    after.2.stabilityWindow = tracker.stabilityWindow ∧ after.2.lastDepth = depth ∧
      after.2.lastDepthChange =
        (if depth = tracker.lastDepth then tracker.lastDepthChange else now) ∧
      after.2.phase = derivePhase depth saturated (now - after.2.lastDepthChange)
        tracker.stabilityWindow ∧
      (after.1 = none ∧ after.2.phase = tracker.phase ∧ after.2.enteredAt = tracker.enteredAt ∨
        after.1 = some ⟨tracker.phase, after.2.phase, depth, now - tracker.enteredAt⟩ ∧
          after.2.phase ≠ tracker.phase ∧ after.2.enteredAt = now) := by
  unfold PhaseTracker.evaluate PhaseTracker.timeInPhase
  by_cases hmoved : depth = tracker.lastDepth
  · simp only [hmoved, ne_eq, not_true_eq_false, if_false, if_true]
    split_ifs with hsame
    · exact ⟨rfl, rfl, rfl, hsame.symm, .inl ⟨rfl, rfl, rfl⟩⟩
    · exact ⟨rfl, rfl, rfl, rfl, .inr ⟨rfl, hsame, rfl⟩⟩
  · simp only [hmoved, ne_eq, not_false_eq_true, if_true, if_false]
    split_ifs with hsame
    · exact ⟨rfl, rfl, rfl, hsame.symm, .inl ⟨rfl, rfl, rfl⟩⟩
    · exact ⟨rfl, rfl, rfl, rfl, .inr ⟨rfl, hsame, rfl⟩⟩

/-! ## Whole runs -/

/-- A split of `l ++ [x]` before an element is the split of `l` with `x` appended, or puts the
element at `x`. -/
theorem split_append_singleton {α : Type*} {l before after : List α} {x o : α}
    (h : l ++ [x] = before ++ o :: after) :
    (after = [] ∧ o = x ∧ before = l) ∨ ∃ after', after = after' ++ [x] ∧ l = before ++ o :: after' := by
  rcases List.eq_nil_or_concat' after with rfl | ⟨after', y, rfl⟩
  · have h' : l ++ [x] = before ++ [o] := h
    obtain ⟨hl, hx⟩ := List.append_inj' h' rfl
    exact .inl ⟨rfl, (List.singleton_inj.mp hx).symm, hl.symm⟩
  · have h' : l ++ [x] = (before ++ o :: after') ++ [y] := by simpa using h
    obtain ⟨hl, hx⟩ := List.append_inj' h' rfl
    obtain rfl := (List.singleton_inj.mp hx).symm
    exact .inr ⟨after', rfl, hl⟩

/-- What a run of evaluations from `new window start` keeps while the clock does not go back:
the reported transitions chain from `Bootstrap` to the phase, each a change, their times add up
to the time of the last one; the last depth and phase are those of the last observation; and
the depth has been steady since the last move, and since no later time. -/
structure PhaseInv (window start : ℕ) (observations : List Observation)
    (log : List (Observation × Option PhaseTransition)) (tracker : PhaseTracker) : Prop where
  window_eq : tracker.stabilityWindow = window
  chain : (transitions log).map PhaseTransition.fromPhase ++ [tracker.phase] =
    .bootstrap :: (transitions log).map PhaseTransition.toPhase
  changes : ∀ transition ∈ transitions log, transition.fromPhase ≠ transition.toPhase
  time_sum : ((transitions log).map PhaseTransition.timeInPhase).sum = tracker.enteredAt - start
  start_le_enteredAt : start ≤ tracker.enteredAt
  enteredAt_le : tracker.enteredAt ≤ lastNow start observations
  lastDepth_eq : tracker.lastDepth = (observations.getLast?.map Observation.depth).getD .zero
  phase_eq : tracker.phase = match observations.getLast? with
    | none => .bootstrap
    | some last => derivePhase last.depth last.neighborhoodSaturated
        (last.now - tracker.lastDepthChange) window
  lastDepthChange_le : tracker.lastDepthChange ≤ lastNow start observations
  steady_since : (tracker.lastDepthChange = start ∧ ∀ o ∈ observations, o.depth = .zero) ∨
    ∃ before o after, observations = before ++ o :: after ∧ o.now = tracker.lastDepthChange ∧
      ∀ o' ∈ o :: after, o'.depth = tracker.lastDepth
  lastDepthChange_le_steady : ∀ before o after, observations = before ++ o :: after →
    (∀ o' ∈ o :: after, o'.depth = tracker.lastDepth) → tracker.lastDepthChange ≤ o.now

theorem PhaseInv.new (window start : ℕ) : PhaseInv window start [] [] (.new window start) where
  window_eq := rfl
  chain := rfl
  changes := nofun
  time_sum := by simp [transitions, PhaseTracker.new]
  start_le_enteredAt := le_rfl
  enteredAt_le := le_rfl
  lastDepth_eq := rfl
  phase_eq := rfl
  lastDepthChange_le := le_rfl
  steady_since := .inl ⟨rfl, nofun⟩
  lastDepthChange_le_steady _ _ _ h := absurd h.symm (by simp)

theorem lastNow_append_singleton (start : ℕ) (observations : List Observation) (x : Observation) :
    lastNow start (observations ++ [x]) = x.now := by
  simp [lastNow]

theorem transitions_append_singleton (log : List (Observation × Option PhaseTransition))
    (x : Observation) (reported : Option PhaseTransition) :
    transitions (log ++ [(x, reported)]) = transitions log ++ reported.toList := by
  cases reported <;> simp [transitions]

/-- One evaluation, at a time no earlier than the last, keeps `PhaseInv`. -/
theorem PhaseInv.step {window start : ℕ} {observations : List Observation}
    {log : List (Observation × Option PhaseTransition)} {tracker : PhaseTracker}
    (h : PhaseInv window start observations log tracker) (x : Observation)
    (hx : lastNow start observations ≤ x.now) :
    PhaseInv window start (observations ++ [x]) (log ++ [(x, (tracker.step x).1)])
      (tracker.step x).2 := by
  obtain ⟨hwindow, hdepth, hchange, hphase, hreport⟩ :=
    evaluate_spec tracker x.depth x.neighborhoodSaturated x.now
  have hentered := h.enteredAt_le
  have hstart := h.start_le_enteredAt
  have hchange_le := h.lastDepthChange_le
  have hlast : (observations ++ [x]).getLast? = some x := List.getLast?_concat
  refine
    { window_eq := hwindow.trans h.window_eq
      chain := ?_
      changes := ?_
      time_sum := ?_
      start_le_enteredAt := ?_
      enteredAt_le := ?_
      lastDepth_eq := by rw [hlast]; exact hdepth
      phase_eq := by rw [hlast, ← h.window_eq]; exact hphase
      lastDepthChange_le := ?_
      steady_since := ?_
      lastDepthChange_le_steady := ?_ }
  -- the history: a reported transition leaves the old phase for the new one
  · rcases hreport with ⟨hnone, hsame, -⟩ | ⟨hsome, -, -⟩
    · rw [transitions_append_singleton, show (tracker.step x).1 = none from hnone,
        show (tracker.step x).2.phase = tracker.phase from hsame]
      simpa using h.chain
    · rw [transitions_append_singleton, show (tracker.step x).1 = _ from hsome]
      simp only [Option.toList_some, List.map_append, List.map_cons, List.map_nil]
      rw [h.chain]
      rfl
  · intro transition htransition
    rw [transitions_append_singleton] at htransition
    rcases List.mem_append.mp htransition with hold | hnew
    · exact h.changes transition hold
    · rcases hreport with ⟨hnone, -, -⟩ | ⟨hsome, hne, -⟩
      · rw [show (tracker.step x).1 = none from hnone] at hnew
        cases hnew
      · rw [show (tracker.step x).1 = _ from hsome, Option.toList_some,
          List.mem_singleton] at hnew
        subst hnew
        exact hne.symm
  -- the times: each transition reports the time since the previous one
  · rw [transitions_append_singleton]
    rcases hreport with ⟨hnone, -, hsame⟩ | ⟨hsome, -, hnow⟩
    · rw [show (tracker.step x).1 = none from hnone, show (tracker.step x).2.enteredAt = _ from hsame]
      simpa using h.time_sum
    · rw [show (tracker.step x).1 = _ from hsome, show (tracker.step x).2.enteredAt = _ from hnow]
      simp only [Option.toList_some, List.map_append, List.map_cons, List.map_nil, List.sum_append,
        List.sum_cons, List.sum_nil, h.time_sum]
      omega
  · rcases hreport with ⟨-, -, hsame⟩ | ⟨-, -, hnow⟩
    · rw [show (tracker.step x).2.enteredAt = _ from hsame]
      exact hstart
    · rw [show (tracker.step x).2.enteredAt = _ from hnow]
      omega
  · rw [lastNow_append_singleton]
    rcases hreport with ⟨-, -, hsame⟩ | ⟨-, -, hnow⟩
    · rw [show (tracker.step x).2.enteredAt = _ from hsame]
      omega
    · exact le_of_eq hnow
  · rw [lastNow_append_singleton, show (tracker.step x).2.lastDepthChange = _ from hchange]
    split_ifs <;> omega
  -- the steady stretch: a move starts a new one at this observation, else it grows by it
  · rw [show (tracker.step x).2.lastDepthChange = _ from hchange,
      show (tracker.step x).2.lastDepth = _ from hdepth]
    by_cases hmoved : x.depth = tracker.lastDepth
    · rw [if_pos hmoved]
      rcases h.steady_since with ⟨hat, hzero⟩ | ⟨before, o, after, hsplit, hnow, hsteady⟩
      · refine .inl ⟨hat, fun o ho ↦ ?_⟩
        rcases List.mem_append.mp ho with hold | hnew
        · exact hzero o hold
        · rw [List.mem_singleton.mp hnew, hmoved, h.lastDepth_eq]
          cases hget : observations.getLast? with
          | none => rfl
          | some last => exact hzero last (List.mem_of_getLast? hget)
      · refine .inr ⟨before, o, after ++ [x], by rw [hsplit]; simp, hnow, fun o' ho' ↦ ?_⟩
        have ho'' : o' ∈ o :: after ∨ o' = x := by simpa [or_assoc] using ho'
        rcases ho'' with hold | rfl
        · rw [hsteady o' hold, hmoved]
        · rfl
    · rw [if_neg hmoved]
      exact .inr ⟨observations, x, [], rfl, rfl, fun o' ho' ↦ by rw [List.mem_singleton.mp ho']⟩
  · intro before o after hsplit hsteady
    rw [show (tracker.step x).2.lastDepthChange = _ from hchange]
    rw [show (tracker.step x).2.lastDepth = _ from hdepth] at hsteady
    rcases split_append_singleton hsplit with ⟨rfl, rfl, rfl⟩ | ⟨after', rfl, hsplit'⟩
    · -- the steady stretch is this observation alone
      split_ifs <;> omega
    · -- the steady stretch started earlier, so this observation did not move the depth
      have hsub : o :: after' ⊆ o :: (after' ++ [x]) :=
        ((List.sublist_append_left after' [x]).cons_cons o).subset
      have hprev : x.depth = tracker.lastDepth := by
        obtain ⟨y, hy⟩ := Option.ne_none_iff_exists'.mp
          (by simp : (o :: after').getLast? ≠ none)
        rw [h.lastDepth_eq, hsplit', List.getLast?_append_cons, hy, Option.map_some,
          Option.getD_some]
        exact (hsteady y (hsub (List.mem_of_getLast? hy))).symm
      rw [if_pos hprev]
      refine h.lastDepthChange_le_steady before o after' hsplit' fun o' ho' ↦ ?_
      rw [← hprev]
      exact hsteady o' (hsub ho')

/-- Every run of evaluations from `new window start`, its clock never going back, keeps
`PhaseInv`.  By induction on the run from its end. -/
theorem phaseInv_run (window start : ℕ) (observations : List Observation)
    (htimes : (start :: observations.map Observation.now).Pairwise (· ≤ ·)) :
    PhaseInv window start observations ((PhaseTracker.new window start).run observations).1
      ((PhaseTracker.new window start).run observations).2 := by
  induction observations using List.reverseRecOn with
  | nil => exact PhaseInv.new window start
  | append_singleton observations x ih =>
    have htimes' : (start :: (observations.map Observation.now ++ [x.now])).Pairwise (· ≤ ·) := by
      simpa using htimes
    rw [← List.cons_append, List.pairwise_append] at htimes'
    obtain ⟨hbefore, -, hlater⟩ := htimes'
    -- the last clock reading so far is one of those before `x`
    have hx : lastNow start observations ≤ x.now := by
      refine hlater _ ?_ x.now (List.mem_singleton_self _)
      cases hget : observations.getLast? with
      | none => simp [lastNow, hget]
      | some last =>
        simp only [lastNow, hget, Option.map_some, Option.getD_some]
        exact List.mem_cons_of_mem _ (List.mem_map_of_mem (List.mem_of_getLast? hget))
    rw [PhaseTracker.run, runLog_append_singleton]
    exact (ih hbefore).step x hx

/-- The history a phase tracker reports, over every run whose clock does not go back: the
transitions chain from `Bootstrap` to the current phase, each a change of phase; the times in
phase they report add up to the time from the start to the last transition; the phase is
`Bootstrap` exactly when the last depth seen is zero; and it is `Stable` exactly when the last
evaluation saw a saturated neighbourhood at a non-zero depth that every evaluation since one at
least a stability window earlier saw too. -/
theorem phase_history_of_run (window start : ℕ) (observations : List Observation)
    (htimes : (start :: observations.map Observation.now).Pairwise (· ≤ ·)) :
    let result := (PhaseTracker.new window start).run observations
    (transitions result.1).map PhaseTransition.fromPhase ++ [result.2.phase] =
        .bootstrap :: (transitions result.1).map PhaseTransition.toPhase ∧
      (∀ transition ∈ transitions result.1, transition.fromPhase ≠ transition.toPhase) ∧
      ((transitions result.1).map PhaseTransition.timeInPhase).sum = result.2.enteredAt - start ∧
      (result.2.phase = .bootstrap ↔
        ∀ last, observations.getLast? = some last → last.depth = .zero) ∧
      (result.2.phase = .stable ↔ ∃ before o after last, observations = before ++ o :: after ∧
        (o :: after).getLast? = some last ∧ last.depth ≠ .zero ∧
        last.neighborhoodSaturated = true ∧ o.now + window ≤ last.now ∧
        ∀ o' ∈ o :: after, o'.depth = last.depth) := by
  intro result
  have h : PhaseInv window start observations result.1 result.2 :=
    phaseInv_run window start observations htimes
  refine ⟨h.chain, h.changes, h.time_sum, ?_, ?_⟩
  · rw [h.phase_eq]
    cases hget : observations.getLast? with
    | none => simp
    | some last => simp [derivePhase_eq_bootstrap_iff]
  · rw [h.phase_eq]
    cases hget : observations.getLast? with
    | none =>
      -- no evaluation yet: still `Bootstrap`, and there is no last observation
      refine ⟨nofun, ?_⟩
      rintro ⟨before, o, after, -, hsplit, -⟩
      rw [hsplit, List.getLast?_append_cons] at hget
      simp at hget
    | some last =>
      have hdepth : result.2.lastDepth = last.depth := by rw [h.lastDepth_eq, hget]; rfl
      have hchange : result.2.lastDepthChange ≤ last.now := by
        simpa [lastNow, hget] using h.lastDepthChange_le
      dsimp only
      rw [derivePhase_eq_stable_iff]
      constructor
      · -- the steady stretch the tracker timed is the witness
        rintro ⟨hnonzero, hsaturated, hwindow⟩
        rcases h.steady_since with ⟨-, hzero⟩ | ⟨before, o, after, hsplit, hnow, hsteady⟩
        · exact absurd (hzero last (List.mem_of_getLast? hget)) hnonzero
        · refine ⟨before, o, after, last, hsplit, ?_, hnonzero, hsaturated, by omega, ?_⟩
          · rw [← List.getLast?_append_cons before, ← hsplit, hget]
          · intro o' ho'
            rw [hsteady o' ho', hdepth]
      · -- any steady stretch started no earlier than the one the tracker timed
        rintro ⟨before, o, after, last', hsplit, hlast, hnonzero, hsaturated, hwindow, hsteady⟩
        have hsame : last' = last := by
          rw [hsplit, List.getLast?_append_cons, hlast] at hget
          exact Option.some.inj hget
        subst hsame
        have hsince := h.lastDepthChange_le_steady before o after hsplit fun o' ho' ↦ by
          rw [hsteady o' ho', hdepth]
        exact ⟨hnonzero, hsaturated, by omega⟩

/-- Depth two, saturated, seen at the start and again one window later. -/
def settlingObservations : List Observation :=
  [⟨⟨⟨2, by decide⟩⟩, true, 0⟩, ⟨⟨⟨2, by decide⟩⟩, true, 60⟩]

theorem phase_history_of_run_settling :
    (0 :: settlingObservations.map Observation.now).Pairwise (· ≤ ·) ∧
      (transitions ((PhaseTracker.new 60 0).run settlingObservations).1).map
          PhaseTransition.fromPhase ++ [((PhaseTracker.new 60 0).run settlingObservations).2.phase] =
        .bootstrap :: (transitions ((PhaseTracker.new 60 0).run settlingObservations).1).map
          PhaseTransition.toPhase :=
  ⟨by decide, (phase_history_of_run 60 0 settlingObservations (by decide)).1⟩

end VertexSwarm.Topology
