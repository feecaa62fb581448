import Mathlib
import VertexSwarm.Lib.Run

/-!
# The staggered candidate race

`swarm/node/src/staggered_race.rs`.  `race` offers the candidates in order to the `attempt`
closure, which may decline one (it is then used up without spending the budget); the first attempt
starts at once, each stagger tick adds one while fewer than `max_in_flight` are in flight, and a
failed attempt is replaced at once.  The race returns the first success, `AllFailed` with the
failure that left nothing to wait for, or at the deadline `AllFailed` with the last failure or
`TimedOut` if none failed.

The select loop is a step per wakeup: an attempt in flight completing, the stagger tick while it
is armed, the deadline if there is one.  Timing is left to the order of the wakeups, so every
pattern of completion times is one list of wakeups.  Attempts are known by the order they were
dispatched in, and `launched` lists the candidates dispatched, in order.
-/

namespace VertexSwarm.StaggeredRace

/-- `RaceFailure`. -/
inductive RaceFailure (E : Type)
  | noCandidates
  | allFailed (error : E)
  | timedOut
deriving DecidableEq

/-- `usize::MAX`. -/
def usizeMax : ℕ := 2 ^ 64 - 1

/-- The race between two wakeups of its select loop: the rest of the candidate source, the
attempts in flight with their dispatch numbers, how many were dispatched, the last failure, and
whether the stagger tick is armed; `launched` lists the candidates dispatched, in order. -/
structure Race (C F E : Type) where
  candidates : List C
  inFlight : List (ℕ × F)
  dispatched : ℕ
  lastError : Option E
  staggerArmed : Bool
  launched : List C

/-- What wakes the select loop: an attempt in flight completing, the stagger tick, the deadline. -/
inductive Wakeup (T E : Type)
  | completed (attempt : ℕ) (result : Except E T)
  | stagger
  | deadline

/-- The race running, or returned with its result. -/
inductive Progress (C F E T : Type)
  | running (race : Race C F E)
  | returned (result : Except (RaceFailure E) T)

/-- The first candidate the closure takes, with its attempt and the source after it; the ones it
declines before it are used up. -/
def nextTaken {C F : Type} (attempt : C → Option F) : List C → Option (C × F × List C)
  | [] => none
  | candidate :: rest =>
    match attempt candidate with
    | some future => some (candidate, future, rest)
    | none => nextTaken attempt rest

section Race

variable {C F E T : Type} (budget maxInFlight : ℕ) (hasDeadline : Bool) (attempt : C → Option F)

/-- `dispatch_next`: unless the budget is spent, push an attempt for the next candidate the
closure takes, and say whether one was pushed; the declined candidates are used up either way. -/
def dispatchNext (race : Race C F E) : Bool × Race C F E :=
  if budget ≤ race.dispatched then (false, race)
  else
    match nextTaken attempt race.candidates with
    | some (candidate, future, rest) =>
      (true, { race with candidates := rest, inFlight := race.inFlight ++ [(race.dispatched, future)],
                         dispatched := race.dispatched + 1, launched := race.launched ++ [candidate] })
    | none => (false, { race with candidates := [] })

/-- One wakeup of the select loop. -/
def step (race : Race C F E) : Wakeup T E → Progress C F E T
  | .completed k result =>
    if k ∈ race.inFlight.map Prod.fst then
      let race := { race with inFlight := race.inFlight.filter fun entry ↦ entry.1 ≠ k }
      match result with
      | .ok value => .returned (.ok value)
      | .error error =>
        -- a failed attempt frees its slot: dispatch the next candidate at once
        let next := dispatchNext budget attempt race
        if !next.1 && next.2.inFlight.isEmpty then .returned (.error (.allFailed error))
        else .running { next.2 with lastError := some error }
    else .running race
  | .stagger =>
    if race.staggerArmed then
      if maxInFlight ≤ race.inFlight.length then .running race
      else
        -- a stagger tick that dispatches nothing lapses for good
        let next := dispatchNext budget attempt race
        .running { next.2 with staggerArmed := next.1 }
    else .running race
  | .deadline =>
    if hasDeadline then
      .returned (.error (match race.lastError with
        | some error => .allFailed error
        | none => .timedOut))
    else .running race

/-- The first dispatch, before the select loop. -/
def start (candidates : List C) : Progress C F E T :=
  let next := dispatchNext budget attempt ⟨candidates, [], 0, none, true, []⟩
  if next.1 then .running next.2 else .returned (.error .noCandidates)

/-- A wakeup of the race, which after returning stays returned. -/
def wake : Progress C F E T → Wakeup T E → Progress C F E T
  | .running race, wakeup => step budget maxInFlight hasDeadline attempt race wakeup
  | .returned result, _ => .returned result

/-- The wakeups a running race can receive: a completion of an attempt in flight, the stagger
tick while it is armed, the deadline when there is one. -/
def Enabled (race : Race C F E) : Wakeup T E → Prop
  | .completed k _ => k ∈ race.inFlight.map Prod.fst
  | .stagger => race.staggerArmed = true
  | .deadline => hasDeadline = true

/-- A returned race receives anything, to no effect. -/
def Progress.Enabled : Progress C F E T → Wakeup T E → Prop
  | .running race, wakeup => StaggeredRace.Enabled hasDeadline race wakeup
  | .returned _, _ => True

/-- `race`, over the wakeups it receives. -/
def race (candidates : List C) (wakeups : List (Wakeup T E)) : Progress C F E T :=
  wakeups.foldl (wake budget maxInFlight hasDeadline attempt) (start budget attempt candidates)

end Race

/-- `race_candidates`: no budget, no width cap, no deadline, and no candidate declined. -/
def raceCandidates {C F E T : Type} (candidates : List C) (attempt : C → F)
    (wakeups : List (Wakeup T E)) : Progress C F E T :=
  race usizeMax usizeMax false (fun candidate ↦ some (attempt candidate)) candidates wakeups

/-- `race_with_refill`: at most `budget` attempts, `max_in_flight` at a time, and a deadline. -/
def raceWithRefill {C F E T : Type} (candidates : List C) (budget maxInFlight : ℕ)
    (attempt : C → Option F) (wakeups : List (Wakeup T E)) : Progress C F E T :=
  race budget maxInFlight true attempt candidates wakeups

section Dispatch

variable {C F E T : Type} {budget maxInFlight : ℕ} {hasDeadline : Bool} {attempt : C → Option F}

theorem nextTaken_eq_some {l : List C} {candidate : C} {future : F} {rest : List C}
    (h : nextTaken attempt l = some (candidate, future, rest)) :
    ∃ declined, l = declined ++ candidate :: rest ∧ (∀ c ∈ declined, attempt c = none) ∧
      attempt candidate = some future := by
  induction l with
  | nil => cases h
  | cons c l ih =>
    unfold nextTaken at h
    cases hc : attempt c with
    | some f =>
      rw [hc] at h
      cases h
      exact ⟨[], rfl, by simp, hc⟩
    | none =>
      rw [hc] at h
      obtain ⟨declined, rfl, hdeclined, htaken⟩ := ih h
      refine ⟨c :: declined, rfl, fun c' hc' ↦ ?_, htaken⟩
      rcases List.mem_cons.mp hc' with rfl | hmem
      · exact hc
      · exact hdeclined c' hmem

theorem nextTaken_eq_none {l : List C} (h : nextTaken attempt l = none) :
    ∀ c ∈ l, attempt c = none := by
  induction l with
  | nil => simp
  | cons c l ih =>
    unfold nextTaken at h
    cases hc : attempt c with
    | some f => rw [hc] at h; cases h
    | none =>
      rw [hc] at h
      intro c' hc'
      rcases List.mem_cons.mp hc' with rfl | hmem
      · exact hc
      · exact ih h c' hmem

/-- What `dispatch_next` can do: nothing with the budget spent; use up a source the closure
declines throughout; or push an attempt for the first candidate the closure takes, after using up
those it declines. -/
theorem dispatchNext_cases (budget : ℕ) (attempt : C → Option F) (race : Race C F E) :
    (budget ≤ race.dispatched ∧ dispatchNext budget attempt race = (false, race)) ∨
    (race.dispatched < budget ∧ (∀ c ∈ race.candidates, attempt c = none) ∧
      dispatchNext budget attempt race = (false, { race with candidates := [] })) ∨
    ∃ declined candidate future rest, race.dispatched < budget ∧
      race.candidates = declined ++ candidate :: rest ∧ (∀ c ∈ declined, attempt c = none) ∧
      attempt candidate = some future ∧
      dispatchNext budget attempt race =
        (true, { race with candidates := rest,
                           inFlight := race.inFlight ++ [(race.dispatched, future)],
                           dispatched := race.dispatched + 1,
                           launched := race.launched ++ [candidate] }) := by
  unfold dispatchNext
  by_cases hbudget : budget ≤ race.dispatched
  · exact .inl ⟨hbudget, if_pos hbudget⟩
  · rw [if_neg hbudget]
    have hlt : race.dispatched < budget := Nat.lt_of_not_le hbudget
    cases htaken : nextTaken attempt race.candidates with
    | none => exact .inr (.inl ⟨hlt, nextTaken_eq_none htaken, rfl⟩)
    | some taken =>
      obtain ⟨candidate, future, rest⟩ := taken
      obtain ⟨declined, hsplit, hdeclined, hcandidate⟩ := nextTaken_eq_some htaken
      exact .inr (.inr ⟨declined, candidate, future, rest, hlt, hsplit, hdeclined, hcandidate, rfl⟩)

end Dispatch

section Invariant

variable {C F E T : Type} (budget maxInFlight : ℕ) (attempt : C → Option F)

/-- What a running race keeps, for the candidates it was given: at most `max_in_flight`
attempts in flight, at most `budget` dispatched, every attempt in flight among those dispatched,
and the dispatched candidates are, in order, those the closure took from the part of the source
used up. -/
structure Wf (candidates : List C) (race : Race C F E) : Prop where
  width : race.inFlight.length ≤ maxInFlight
  within_budget : race.dispatched ≤ budget
  launched_length : race.launched.length = race.dispatched
  in_order : ∃ used, candidates = used ++ race.candidates ∧
    race.launched = used.filter fun c ↦ (attempt c).isSome
  in_flight_lt : ∀ entry ∈ race.inFlight, entry.1 < race.dispatched

variable {budget maxInFlight attempt} {candidates : List C} {race : Race C F E}

theorem filter_isSome_eq_nil {l : List C} (h : ∀ c ∈ l, attempt c = none) :
    l.filter (fun c ↦ (attempt c).isSome) = [] :=
  List.filter_eq_nil_iff.mpr fun c hc ↦ by simp [h c hc]

theorem Wf.dispatchNext (h : Wf budget maxInFlight attempt candidates race)
    (hroom : race.inFlight.length < maxInFlight) :
    Wf budget maxInFlight attempt candidates (dispatchNext budget attempt race).2 := by
  obtain ⟨used, hused, hlaunched⟩ := h.in_order
  rcases dispatchNext_cases budget attempt race with ⟨-, heq⟩ | ⟨-, hdeclined, heq⟩ |
    ⟨declined, candidate, future, rest, hlt, hsplit, hdeclined, hcandidate, heq⟩ <;> rw [heq]
  · exact h
  · -- the whole rest of the source is declined, and used up
    exact ⟨h.width, h.within_budget, h.launched_length,
      ⟨used ++ race.candidates, by simp [hused], by simp [hlaunched, filter_isSome_eq_nil hdeclined]⟩,
      h.in_flight_lt⟩
  · -- the declined candidates and the taken one are used up, and the taken one is launched
    refine ⟨?_, hlt, by simp [h.launched_length],
      ⟨used ++ declined ++ [candidate], by simp [hused, hsplit], ?_⟩, ?_⟩
    · simp only [List.length_append, List.length_singleton]
      omega
    · simp [hlaunched, filter_isSome_eq_nil hdeclined, hcandidate]
    · intro entry hentry
      rcases List.mem_append.mp hentry with hold | hnew
      · exact Nat.lt_succ_of_lt (h.in_flight_lt entry hold)
      · rw [List.mem_singleton.mp hnew]
        exact Nat.lt_succ_self _

theorem Wf.remove (h : Wf budget maxInFlight attempt candidates race) (k : ℕ) :
    Wf budget maxInFlight attempt candidates
      { race with inFlight := race.inFlight.filter fun entry ↦ entry.1 ≠ k } :=
  ⟨(List.length_filter_le _ _).trans h.width, h.within_budget, h.launched_length, h.in_order,
    fun entry hentry ↦ h.in_flight_lt entry (List.mem_of_mem_filter hentry)⟩

theorem Wf.setFlags (h : Wf budget maxInFlight attempt candidates race) (lastError : Option E)
    (staggerArmed : Bool) :
    Wf budget maxInFlight attempt candidates { race with lastError, staggerArmed } :=
  ⟨h.width, h.within_budget, h.launched_length, h.in_order, h.in_flight_lt⟩

/-- With nothing left in flight once `k` is taken out, `k` was all that was in flight. -/
theorem forall_eq_of_filter_ne_eq_nil {inFlight : List (ℕ × F)} {k : ℕ}
    (h : (inFlight.filter fun entry ↦ entry.1 ≠ k) = []) : ∀ entry ∈ inFlight, entry.1 = k := by
  intro entry hentry
  by_contra hne
  exact absurd (List.filter_eq_nil_iff.mp h entry hentry) (by simpa using hne)

theorem length_filter_lt_of_mem {inFlight : List (ℕ × F)} {k : ℕ} (hk : k ∈ inFlight.map Prod.fst) :
    (inFlight.filter fun entry ↦ entry.1 ≠ k).length < inFlight.length := by
  obtain ⟨entry, hentry, rfl⟩ := List.mem_map.mp hk
  exact List.length_filter_lt_length_iff_exists.mpr ⟨entry, hentry, by simp⟩

theorem dispatchNext_frame (budget : ℕ) (attempt : C → Option F) (race : Race C F E) :
    (dispatchNext budget attempt race).2.lastError = race.lastError ∧
      (dispatchNext budget attempt race).2.staggerArmed = race.staggerArmed ∧
      race.dispatched ≤ (dispatchNext budget attempt race).2.dispatched := by
  rcases dispatchNext_cases budget attempt race with ⟨-, heq⟩ | ⟨-, -, heq⟩ |
    ⟨_, _, _, _, -, -, -, -, heq⟩ <;> rw [heq] <;> simp

end Invariant

section Run

variable {C F E T : Type} {budget maxInFlight : ℕ} {hasDeadline : Bool} {attempt : C → Option F}
  {candidates : List C}

/-- The failure a running race holds is one it received from a dispatched attempt, and it holds
none while it has received none. -/
structure Failures (wakeups : List (Wakeup T E)) (race : Race C F E) : Prop where
  last_mem : ∀ error, race.lastError = some error →
    ∃ k < race.dispatched, Wakeup.completed k (.error error) ∈ wakeups
  none_received : race.lastError = none → ∀ k error, Wakeup.completed k (.error error) ∉ wakeups

theorem Failures.of_frame {wakeups : List (Wakeup T E)} {race race' : Race C F E}
    {wakeup : Wakeup T E} (h : Failures wakeups race) (herror : race'.lastError = race.lastError)
    (hdispatched : race.dispatched ≤ race'.dispatched)
    (hwakeup : ∀ k error, wakeup ≠ .completed k (.error error)) :
    Failures (wakeups ++ [wakeup]) race' := by
  refine ⟨fun error he ↦ ?_, fun hnone k error hmem ↦ ?_⟩
  · obtain ⟨k, hk, hmem⟩ := h.last_mem error (herror ▸ he)
    exact ⟨k, by omega, List.mem_append_left _ hmem⟩
  · rcases List.mem_append.mp hmem with hold | hnew
    · exact h.none_received (herror ▸ hnone) k error hold
    · exact hwakeup k error (List.mem_singleton.mp hnew).symm

theorem step_running {wakeups : List (Wakeup T E)} {race race' : Race C F E}
    {wakeup : Wakeup T E} (hwf : Wf budget maxInFlight attempt candidates race)
    (hfail : Failures wakeups race) (henabled : Enabled hasDeadline race wakeup)
    (h : step budget maxInFlight hasDeadline attempt race wakeup = .running race') :
    Wf budget maxInFlight attempt candidates race' ∧ Failures (wakeups ++ [wakeup]) race' := by
  cases wakeup with
  | completed k result =>
    -- only a failure keeps the race running; its slot is refilled
    simp only [Enabled] at henabled
    simp only [step, if_pos henabled] at h
    cases result with
    | ok value => cases h
    | error error =>
      dsimp only at h
      split_ifs at h
      cases h
      have hremoved := hwf.remove k
      have hroom := (length_filter_lt_of_mem henabled).trans_le hwf.width
      obtain ⟨-, -, hmono⟩ := dispatchNext_frame budget attempt
        { race with inFlight := race.inFlight.filter fun entry ↦ entry.1 ≠ k }
      refine ⟨(hremoved.dispatchNext hroom).setFlags (some error) _, fun e he ↦ ?_,
        fun hnone ↦ by cases hnone⟩
      cases he
      obtain ⟨entry, hentry, rfl⟩ := List.mem_map.mp henabled
      exact ⟨entry.1, (hwf.in_flight_lt entry hentry).trans_le hmono, by simp⟩
  | stagger =>
    simp only [Enabled] at henabled
    simp only [step, if_pos henabled] at h
    split_ifs at h with hfull
    · cases h
      exact ⟨hwf, hfail.of_frame rfl le_rfl fun _ _ h ↦ by cases h⟩
    · cases h
      obtain ⟨herror, -, hmono⟩ := dispatchNext_frame budget attempt race
      exact ⟨(hwf.dispatchNext (Nat.lt_of_not_le hfull)).setFlags _ _,
        hfail.of_frame herror hmono fun _ _ h ↦ by cases h⟩
  | deadline =>
    simp only [Enabled] at henabled
    simp only [step, if_pos henabled] at h
    cases h

/-- The start of a race with room for one attempt: `NoCandidates` when the budget is zero or the
closure declines every candidate, else running with one attempt in flight and nothing received. -/
theorem start_cases (hwidth : 1 ≤ maxInFlight) (candidates : List C) :
    (start budget attempt candidates = (.returned (.error .noCandidates) : Progress C F E T) ∧
      (budget = 0 ∨ ∀ c ∈ candidates, attempt c = none)) ∨
    ∃ race, start budget attempt candidates = (.running race : Progress C F E T) ∧
      Wf budget maxInFlight attempt candidates race ∧ Failures ([] : List (Wakeup T E)) race ∧
      ¬(budget = 0 ∨ ∀ c ∈ candidates, attempt c = none) := by
  have hinit : Wf budget maxInFlight attempt candidates
      (⟨candidates, [], 0, none, true, []⟩ : Race C F E) :=
    ⟨Nat.zero_le _, Nat.zero_le _, rfl, ⟨[], rfl, rfl⟩, by simp⟩
  have hwf := hinit.dispatchNext hwidth
  unfold start
  rcases dispatchNext_cases budget attempt (⟨candidates, [], 0, none, true, []⟩ : Race C F E) with
    ⟨hbudget, heq⟩ | ⟨-, hdeclined, heq⟩ |
    ⟨declined, candidate, future, rest, hlt, hsplit, -, hcandidate, heq⟩ <;> rw [heq] at hwf ⊢
  · exact .inl ⟨rfl, .inl (Nat.le_zero.mp hbudget)⟩
  · exact .inl ⟨rfl, .inr hdeclined⟩
  · refine .inr ⟨_, rfl, hwf, ⟨fun _ h ↦ (by cases h), fun _ _ _ h ↦ by cases h⟩, ?_⟩
    rintro (hzero | hall)
    · exact absurd hlt (by simp [hzero])
    · have hmem : candidate ∈ candidates := by simp [show candidates = _ from hsplit]
      simp [hall candidate hmem] at hcandidate

/-- Every running state of an allowed run keeps the invariant and the account of the failures
received so far. -/
theorem running_of_allowed (hwidth : 1 ≤ maxInFlight) {wakeups : List (Wakeup T E)}
    (hallowed : Run.Allowed (wake budget maxInFlight hasDeadline attempt)
      (Progress.Enabled hasDeadline) (start budget attempt candidates) wakeups)
    {race : Race C F E}
    (h : wakeups.foldl (wake budget maxInFlight hasDeadline attempt)
      (start budget attempt candidates) = .running race) :
    Wf budget maxInFlight attempt candidates race ∧ Failures wakeups race := by
  induction wakeups using List.reverseRecOn generalizing race with
  | nil =>
    rcases start_cases (T := T) hwidth candidates with ⟨hstart, -⟩ | ⟨race₀, hstart, hwf, hfail, -⟩
    · rw [List.foldl_nil, hstart] at h
      cases h
    · rw [List.foldl_nil, hstart] at h
      cases h
      exact ⟨hwf, hfail⟩
  | append_singleton wakeups wakeup ih =>
    rw [Run.allowed_append] at hallowed
    rw [List.foldl_append, List.foldl_cons, List.foldl_nil] at h
    cases hprev : wakeups.foldl (wake budget maxInFlight hasDeadline attempt)
        (start budget attempt candidates) with
    | returned result =>
      rw [hprev] at h
      cases h
    | running race₀ =>
      rw [hprev] at h hallowed
      obtain ⟨hwf, hfail⟩ := ih hallowed.1 hprev
      exact step_running hwf hfail hallowed.2.1 h

theorem foldl_wake_returned (result : Except (RaceFailure E) T) (wakeups : List (Wakeup T E)) :
    wakeups.foldl (wake budget maxInFlight hasDeadline attempt)
      (.returned result : Progress C F E T) = .returned result := by
  induction wakeups with
  | nil => rfl
  | cons wakeup wakeups ih => exact ih

/-- A run that returned did so before its first wakeup, or at one wakeup of a running race. -/
theorem foldl_wake_eq_returned {wakeups : List (Wakeup T E)} {progress : Progress C F E T}
    {result : Except (RaceFailure E) T}
    (h : wakeups.foldl (wake budget maxInFlight hasDeadline attempt) progress = .returned result) :
    progress = .returned result ∨ ∃ pre wakeup post running, wakeups = pre ++ wakeup :: post ∧
      pre.foldl (wake budget maxInFlight hasDeadline attempt) progress = .running running ∧
      step budget maxInFlight hasDeadline attempt running wakeup = .returned result := by
  induction wakeups generalizing progress with
  | nil => exact .inl h
  | cons wakeup wakeups ih =>
    cases progress with
    | returned result' =>
      rw [List.foldl_cons, wake, foldl_wake_returned] at h
      exact .inl h
    | running running =>
      rcases ih h with hnow | ⟨pre, wakeup', post, running', hsplit, hpre, hstep⟩
      · exact .inr ⟨[], wakeup, wakeups, running, rfl, rfl, hnow⟩
      · exact .inr ⟨wakeup :: pre, wakeup', post, running', by rw [hsplit, List.cons_append], hpre,
          hstep⟩

variable (budget hasDeadline attempt) in
/-- How one wakeup ends a running race: a success of an attempt in flight returns its value; a
failure of the last attempt in flight, with the budget spent or every candidate left declined,
returns `AllFailed` with its error; the deadline returns `AllFailed` with the last failure, or
`TimedOut` when there was none. -/
def Ends (running : Race C F E) : Wakeup T E → Except (RaceFailure E) T → Prop
  | .completed k (.ok value), result => k ∈ running.inFlight.map Prod.fst ∧ result = .ok value
  | .completed k (.error error), result =>
    k ∈ running.inFlight.map Prod.fst ∧ (∀ entry ∈ running.inFlight, entry.1 = k) ∧
      (budget ≤ running.dispatched ∨ ∀ c ∈ running.candidates, attempt c = none) ∧
      result = .error (.allFailed error)
  | .stagger, _ => False
  | .deadline, result => hasDeadline = true ∧
    ((∃ error, running.lastError = some error ∧ result = .error (.allFailed error)) ∨
      (running.lastError = none ∧ result = .error .timedOut))

theorem step_completed_ok {running : Race C F E} {k : ℕ} (hk : k ∈ running.inFlight.map Prod.fst)
    (value : T) :
    step budget maxInFlight hasDeadline attempt running (.completed k (.ok value)) =
      .returned (.ok value) := by
  simp only [step, if_pos hk]

theorem step_returned {running : Race C F E} {wakeup : Wakeup T E}
    {result : Except (RaceFailure E) T}
    (h : step budget maxInFlight hasDeadline attempt running wakeup = .returned result) :
    Ends budget hasDeadline attempt running wakeup result := by
  cases wakeup with
  | completed k outcome =>
    by_cases hk : k ∈ running.inFlight.map Prod.fst
    · simp only [step, if_pos hk] at h
      cases outcome with
      | ok value =>
        cases h
        exact ⟨hk, rfl⟩
      | error error =>
        dsimp only at h
        split_ifs at h with hstop
        cases h
        simp only [Bool.and_eq_true, Bool.not_eq_true', List.isEmpty_iff] at hstop
        rcases dispatchNext_cases budget attempt
            { running with inFlight := running.inFlight.filter fun entry ↦ entry.1 ≠ k } with
          ⟨hbudget, heq⟩ | ⟨-, hdeclined, heq⟩ | ⟨_, _, _, _, -, -, -, -, heq⟩ <;>
          rw [heq] at hstop
        · exact ⟨hk, forall_eq_of_filter_ne_eq_nil hstop.2, .inl hbudget, rfl⟩
        · exact ⟨hk, forall_eq_of_filter_ne_eq_nil hstop.2, .inr hdeclined, rfl⟩
        · cases hstop.1
    · simp only [step, if_neg hk] at h
      cases h
  | stagger =>
    simp only [step] at h
    split_ifs at h
  | deadline =>
    simp only [step] at h
    split_ifs at h with hdeadline
    cases h
    refine ⟨hdeadline, ?_⟩
    cases running.lastError with
    | some error => exact .inl ⟨error, rfl, rfl⟩
    | none => exact .inr ⟨rfl, rfl⟩

/-- Over every candidate list, budget, width of at least one, deadline or none, and every allowed
run of wakeups: the race reports `NoCandidates` exactly when no first attempt can be dispatched;
while it runs it keeps at most `max_in_flight` attempts in flight and at most `budget`
dispatched, the dispatched candidates being, in order, those the closure took from the part of
the source used up, and the failure it holds is one it received from a dispatched attempt; a
success of an attempt in flight ends it with that value; and it ends in no other way than
`NoCandidates` at the start or one of the ways `Ends` lists. -/
theorem race_keeps_bounds_and_first_success (candidates : List C) (hwidth : 1 ≤ maxInFlight)
    (wakeups : List (Wakeup T E))
    (hallowed : Run.Allowed (wake budget maxInFlight hasDeadline attempt)
      (Progress.Enabled hasDeadline) (start budget attempt candidates) wakeups) :
    (start budget attempt candidates = (.returned (.error .noCandidates) : Progress C F E T) ↔
      budget = 0 ∨ ∀ c ∈ candidates, attempt c = none) ∧
    (∀ pre running, pre <+: wakeups →
      pre.foldl (wake budget maxInFlight hasDeadline attempt) (start budget attempt candidates) =
        .running running →
      Wf budget maxInFlight attempt candidates running ∧ Failures pre running) ∧
    (∀ pre k value post running, wakeups = pre ++ .completed k (.ok value) :: post →
      pre.foldl (wake budget maxInFlight hasDeadline attempt) (start budget attempt candidates) =
        .running running →
      race budget maxInFlight hasDeadline attempt candidates wakeups = .returned (.ok value)) ∧
    ∀ result, race budget maxInFlight hasDeadline attempt candidates wakeups = .returned result →
      (start budget attempt candidates = (.returned result : Progress C F E T) ∧
        result = .error .noCandidates) ∨
      ∃ pre wakeup post running, wakeups = pre ++ wakeup :: post ∧
        pre.foldl (wake budget maxInFlight hasDeadline attempt) (start budget attempt candidates) =
          .running running ∧
        Failures pre running ∧ Ends budget hasDeadline attempt running wakeup result := by
  have hprior : ∀ pre, pre <+: wakeups → Run.Allowed (wake budget maxInFlight hasDeadline attempt)
      (Progress.Enabled hasDeadline) (start budget attempt candidates) pre := by
    rintro pre ⟨post, rfl⟩
    exact (Run.allowed_append.mp hallowed).1
  refine ⟨⟨fun hstart ↦ ?_, fun hnone ↦ ?_⟩, fun pre running hpre h ↦
    running_of_allowed hwidth (hprior pre hpre) h, ?_, fun result h ↦ ?_⟩
  · rcases start_cases (T := T) hwidth candidates with ⟨-, hnone⟩ | ⟨_, hrunning, -, -, -⟩
    · exact hnone
    · rw [hrunning] at hstart
      cases hstart
  · rcases start_cases (T := T) hwidth candidates with ⟨hstart, -⟩ | ⟨_, -, -, -, hsome⟩
    · exact hstart
    · exact absurd hnone hsome
  · -- the success reaches a running race, where its attempt is in flight
    rintro pre k value post running rfl hpre
    have hat := (Run.allowed_append.mp hallowed).2
    rw [hpre] at hat
    rw [race, List.foldl_append, hpre, List.foldl_cons, wake,
      step_completed_ok (hat.1 : k ∈ running.inFlight.map Prod.fst), foldl_wake_returned]
  · rcases foldl_wake_eq_returned h with hstart | ⟨pre, wakeup, post, running, hsplit, hpre, hstep⟩
    · rcases start_cases (T := T) hwidth candidates with ⟨hnone, -⟩ | ⟨_, hrunning, -, -, -⟩
      · rw [hnone] at hstart
        cases hstart
        exact .inl ⟨hnone, rfl⟩
      · rw [hrunning] at hstart
        cases hstart
    · have hfail := (running_of_allowed hwidth (hprior pre ⟨wakeup :: post, hsplit.symm⟩) hpre).2
      exact .inr ⟨pre, wakeup, post, running, hsplit, hpre, hfail, step_returned hstep⟩

end Run

/-- A closure that declines candidate 1 and takes every other, its attempt known by the
candidate. -/
def declineOne (candidate : ℕ) : Option ℕ := if candidate = 1 then none else some candidate

/-- Five candidates, a budget of three, two in flight at a time: the stagger tick dispatches
candidate 2 past the declined 1, ticks again at full width to no effect, the failure of the
first attempt is refilled with candidate 3, and the deadline then returns that failure. -/
def refillWakeups : List (Wakeup ℕ ℕ) := [.stagger, .stagger, .completed 0 (.error 5), .deadline]

theorem race_keeps_bounds_of_refill :
    1 ≤ 2 ∧
    Run.Allowed (wake 3 2 true declineOne) (Progress.Enabled true)
      (start 3 declineOne [0, 1, 2, 3, 4] : Progress ℕ ℕ ℕ ℕ) refillWakeups ∧
    race 3 2 true declineOne [0, 1, 2, 3, 4] refillWakeups =
      (.returned (.error (.allFailed 5)) : Progress ℕ ℕ ℕ ℕ) ∧
    (∀ pre running, pre <+: refillWakeups →
      pre.foldl (wake 3 2 true declineOne) (start 3 declineOne [0, 1, 2, 3, 4]) = .running running →
      Wf 3 2 declineOne [0, 1, 2, 3, 4] running ∧ Failures pre running) ∧
    ∃ pre wakeup post running, refillWakeups = pre ++ wakeup :: post ∧
      pre.foldl (wake 3 2 true declineOne) (start 3 declineOne [0, 1, 2, 3, 4]) = .running running ∧
      Failures pre running ∧ Ends 3 true declineOne running wakeup (.error (.allFailed 5)) := by
  have hallowed : Run.Allowed (wake 3 2 true declineOne) (Progress.Enabled true)
      (start 3 declineOne [0, 1, 2, 3, 4] : Progress ℕ ℕ ℕ ℕ) refillWakeups :=
    ⟨rfl, rfl, show (0 : ℕ) ∈ [0, 1] from List.mem_cons_self, rfl, trivial⟩
  have hrace : race 3 2 true declineOne [0, 1, 2, 3, 4] refillWakeups =
      (.returned (.error (.allFailed 5)) : Progress ℕ ℕ ℕ ℕ) := rfl
  have hsound := race_keeps_bounds_and_first_success [0, 1, 2, 3, 4] (by decide) refillWakeups
    hallowed
  refine ⟨by decide, hallowed, hrace, hsound.2.1, ?_⟩
  rcases hsound.2.2.2 _ hrace with ⟨-, hnone⟩ | hends
  · cases hnone
  · exact hends

end VertexSwarm.StaggeredRace
