import VertexSwarm.Lib.Projection

/-!
# Fixed-window admission counters

A fixed-window counter admits at most `limit` requests per window of length `span`.  It keeps
when its window started and how many it admitted in it; a request that comes at least `span`
after the window started opens a new window at its own time, and is admitted when the window
has admitted fewer than `limit`.  A counter not started yet starts at its first request.

Windows start at least `span` apart, so any span of length `span` meets at most two of them,
and a counter admits at most `2 * limit` requests within any span (`admitted_within_span_le`),
over every run whose clock does not go back.  The proof carries what the current window accounts
for (`Accounts`): the admissions since it started, which it counts, those of the `span` before
it, which a full window covered, and that none lies a span after its start.
-/

namespace VertexSwarm.FixedWindow

open Projection

/-- A window: when it started, and how many requests it admitted. -/
structure Window where
  start : ℕ
  admitted : ℕ

variable (span limit : ℕ)

/-- The window a request at `now` is counted in: a window at least `span` old restarts at `now`,
and a counter not started yet starts there. -/
def renew (window : Option Window) (now : ℕ) : Window :=
  let window := window.getD ⟨now, 0⟩
  if span ≤ now - window.start then ⟨now, 0⟩ else window

/-- A request at `now`: whether it is admitted, and the window after it. -/
def request (window : Option Window) (now : ℕ) : Bool × Window :=
  let window := renew span window now
  if limit ≤ window.admitted then (false, window) else (true, ⟨window.start, window.admitted + 1⟩)

/-- One request, as a step of a run. -/
def step (window : Option Window) (now : ℕ) : Bool × Option Window :=
  ((request span limit window now).1, some (request span limit window now).2)

/-- The times of the requests a run admitted. -/
def admittedTimes (log : List (ℕ × Bool)) : List ℕ := (log.filter (·.2)).map (·.1)

@[simp]
theorem admittedTimes_nil : admittedTimes [] = [] := rfl

@[simp]
theorem admittedTimes_append (log log' : List (ℕ × Bool)) :
    admittedTimes (log ++ log') = admittedTimes log ++ admittedTimes log' := by
  simp [admittedTimes]

@[simp]
theorem admittedTimes_singleton (now : ℕ) (admitted : Bool) :
    admittedTimes [(now, admitted)] = if admitted then [now] else [] := by
  cases admitted <;> rfl

/-- What a window accounts for, of the admitted times, at `clock`: the admissions since it
started, at most its count; those of the span before it, at most a full window; and none a span
or more after its start. -/
structure Accounts (clock : ℕ) (window : Window) (admitted : List ℕ) : Prop where
  start_le : window.start ≤ clock
  admitted_le : window.admitted ≤ limit
  current : admitted.countP (fun t ↦ window.start ≤ t) ≤ window.admitted
  previous : admitted.countP (fun t ↦ window.start - span ≤ t ∧ t < window.start) ≤ limit
  within : ∀ t ∈ admitted, t < window.start + span

/-- The invariant of a run up to `clock`: every admission lies at or before it, the window
accounts for them, and every span holds at most twice the limit. -/
structure Inv (clock : ℕ) (window : Option Window) (admitted : List ℕ) : Prop where
  le_clock : ∀ t ∈ admitted, t ≤ clock
  not_started : window = none → admitted = []
  accounts : ∀ w, window = some w → Accounts span limit clock w admitted
  bound : ∀ a, admitted.countP (fun t ↦ a ≤ t ∧ t < a + span) ≤ 2 * limit

variable {span limit}

theorem countP_le_add {α : Type*} {p q r : α → Bool} :
    ∀ {l : List α}, (∀ x ∈ l, p x → q x ∨ r x) → l.countP p ≤ l.countP q + l.countP r
  | [], _ => Nat.zero_le _
  | x :: l, h => by
    have ih := countP_le_add fun y hy ↦ h y (List.mem_cons_of_mem x hy)
    have hx := h x List.mem_cons_self
    simp only [List.countP_cons]
    split_ifs <;> simp_all <;> omega

/-- A window that accounts for the admissions bounds every span reaching past `clock` by twice
the limit: such a span starts after the previous window did, so it meets only that window and
the current one. -/
theorem Accounts.bound {clock : ℕ} {window : Window} {admitted : List ℕ}
    (h : Accounts span limit clock window admitted) {a : ℕ} (ha : clock < a + span) :
    admitted.countP (fun t ↦ a ≤ t ∧ t < a + span) ≤ 2 * limit := by
  have hsplit := countP_le_add (l := admitted) (p := fun t ↦ a ≤ t ∧ t < a + span)
    (q := fun t ↦ window.start - span ≤ t ∧ t < window.start) (r := fun t ↦ window.start ≤ t)
    fun t _ ht ↦ by
      have := h.start_le
      simp only [decide_eq_true_eq] at ht ⊢
      omega
  have := h.current
  have := h.previous
  have := h.admitted_le
  omega

theorem Inv.new : Inv span limit 0 none [] where
  le_clock _ ht := absurd ht List.not_mem_nil
  not_started _ := rfl
  accounts _ hw := by cases hw
  bound _ := by simp

theorem Inv.mono {clock clock' : ℕ} {window : Option Window} {admitted : List ℕ}
    (h : Inv span limit clock window admitted) (hclock : clock ≤ clock') :
    Inv span limit clock' window admitted where
  le_clock t ht := (h.le_clock t ht).trans hclock
  not_started := h.not_started
  accounts w hw :=
    let hw := h.accounts w hw
    ⟨hw.start_le.trans hclock, hw.admitted_le, hw.current, hw.previous, hw.within⟩
  bound := h.bound

theorem Inv.accounts_renew (hspan : 0 < span) {clock now : ℕ} {window : Option Window}
    {admitted : List ℕ} (h : Inv span limit clock window admitted) (hnow : clock ≤ now) :
    Accounts span limit now (renew span window now) admitted ∧
      now - (renew span window now).start < span := by
  cases window with
  | none =>
    have hrenew : renew span none now = ⟨now, 0⟩ := by simp [FixedWindow.renew]
    rw [hrenew, h.not_started rfl]
    exact ⟨⟨le_rfl, Nat.zero_le _, by simp, by simp, by simp⟩, by simpa using hspan⟩
  | some w =>
    have hw := h.accounts w rfl
    by_cases hreset : span ≤ now - w.start
    · -- a new window: the old one's admissions all came before it
      have hrenew : renew span (some w) now = ⟨now, 0⟩ := by simp [FixedWindow.renew, hreset]
      rw [hrenew]
      have hbefore : ∀ t ∈ admitted, t < now := fun t ht ↦ by
        have := hw.within t ht
        omega
      refine ⟨⟨le_rfl, Nat.zero_le _, ?_, ?_, fun t ht ↦ ?_⟩, by simpa using hspan⟩
      · rw [Nat.le_zero, List.countP_eq_zero]
        intro t ht
        simpa using hbefore t ht
      · calc admitted.countP (fun t ↦ now - span ≤ t ∧ t < now)
            ≤ admitted.countP (fun t ↦ w.start ≤ t) :=
              List.countP_mono_left fun t _ ht ↦ by simp only [decide_eq_true_eq] at ht ⊢; omega
          _ ≤ limit := hw.current.trans hw.admitted_le
      · have := hbefore t ht
        show t < now + span
        omega
    · have hrenew : renew span (some w) now = w := by simp [FixedWindow.renew, hreset]
      rw [hrenew]
      exact ⟨⟨hw.start_le.trans hnow, hw.admitted_le, hw.current, hw.previous, hw.within⟩,
        by omega⟩

theorem Inv.after_request (hspan : 0 < span) {clock now : ℕ} {window : Option Window}
    {admitted : List ℕ} (h : Inv span limit clock window admitted) (hnow : clock ≤ now) :
    Inv span limit now (some (request span limit window now).2)
      (admitted ++ if (request span limit window now).1 then [now] else []) := by
  obtain ⟨hw, hfresh⟩ := h.accounts_renew hspan hnow
  set w := renew span window now with hw_def
  have hclock : ∀ t ∈ admitted, t ≤ now := fun t ht ↦ (h.le_clock t ht).trans hnow
  by_cases hfull : limit ≤ w.admitted
  · -- refused: nothing is admitted, and the renewed window is kept
    have hreq : request span limit window now = (false, w) := by simp [FixedWindow.request, ← hw_def, hfull]
    rw [hreq]
    simp only [Bool.false_eq_true, if_false, List.append_nil]
    exact ⟨hclock, fun h ↦ (by cases h), fun w' hw' ↦ (by cases hw'; exact hw), h.bound⟩
  · have hreq : request span limit window now = (true, ⟨w.start, w.admitted + 1⟩) := by
      simp [FixedWindow.request, ← hw_def, hfull]
    rw [hreq]
    simp only [if_true]
    -- the window counts the new admission, which lies within it
    have hw' : Accounts span limit now ⟨w.start, w.admitted + 1⟩ (admitted ++ [now]) := by
      refine ⟨hw.start_le, Nat.succ_le_of_lt (Nat.lt_of_not_le hfull), ?_, ?_, ?_⟩ <;> dsimp only
      · simp only [List.countP_append, List.countP_singleton, decide_eq_true_eq, hw.start_le,
          if_true]
        exact Nat.add_le_add_right hw.current 1
      · simp only [List.countP_append, List.countP_singleton, decide_eq_true_eq]
        rw [if_neg (by have := hw.start_le; omega)]
        exact hw.previous
      · simp only [List.mem_append, List.mem_singleton]
        rintro t (ht | rfl)
        · exact hw.within t ht
        · omega
    refine ⟨fun t ht ↦ ?_, fun h ↦ (by cases h), fun w' hw'' ↦ (by cases hw''; exact hw'), fun a ↦ ?_⟩
    · rcases List.mem_append.mp ht with ht | ht
      · exact hclock t ht
      · exact (List.mem_singleton.mp ht).le
    · by_cases hreach : now < a + span
      · exact hw'.bound hreach
      · -- a span that ends by `now` does not hold the new admission
        rw [List.countP_append, List.countP_singleton]
        simp only [decide_eq_true_eq]
        rw [if_neg (by omega), Nat.add_zero]
        exact h.bound a

theorem inv_run (hspan : 0 < span) (times : List ℕ) (htimes : times.Pairwise (· ≤ ·)) (clock : ℕ)
    (hclock : ∀ t ∈ times, t ≤ clock) :
    Inv span limit clock (runLog (step span limit) none times).2
      (admittedTimes (runLog (step span limit) none times).1) := by
  induction times using List.reverseRecOn generalizing clock with
  | nil => exact Inv.new.mono (Nat.zero_le _)
  | append_singleton times now ih =>
    rw [List.pairwise_append] at htimes
    obtain ⟨hsorted, -, hlater⟩ := htimes
    have hinv := ih hsorted now fun t ht ↦ hlater t ht now (List.mem_singleton_self _)
    rw [runLog_append_singleton, admittedTimes_append, admittedTimes_singleton]
    exact (hinv.after_request hspan le_rfl).mono (hclock now (by simp))

theorem admitted_within_span_le (times : List ℕ) (htimes : times.Pairwise (· ≤ ·)) (a : ℕ) :
    (admittedTimes (runLog (step span limit) none times).1).countP
      (fun t ↦ a ≤ t ∧ t < a + span) ≤ 2 * limit := by
  rcases Nat.eq_zero_or_pos span with rfl | hspan
  · -- a span of length zero holds nothing
    rw [List.countP_eq_zero.mpr fun t _ ↦ by simp only [decide_eq_true_eq]; omega]
    exact Nat.zero_le _
  · exact (inv_run hspan times htimes _ fun t ht ↦ List.le_sum_of_mem ht).bound a

end VertexSwarm.FixedWindow
