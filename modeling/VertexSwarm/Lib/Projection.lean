import Mathlib

/-!
# Runs that log their answers, and their projections

A state machine whose steps answer: `runLog step s actions` lists every action with its answer,
in order, beside the state the run ends in.  Where the state falls into parts, each action
acting on some parts and leaving the others as they are, one part's history is told by the
actions on it alone: the run restricted to those actions logs the same answers for them and
ends in a state that agrees on the part (`runLog_filter`).  This is non-interference between
the parts: whatever the other actions are, and however they interleave with the part's own, the
part sees only its own actions.
-/

namespace VertexSwarm.Projection

variable {σ α ω : Type*} (step : σ → α → ω × σ)

/-- The run of `step` from `s`: every action with its answer, in order, and the state after. -/
def runLog : σ → List α → List (α × ω) × σ
  | s, [] => ([], s)
  | s, a :: actions =>
    let rest := runLog (step s a).2 actions
    ((a, (step s a).1) :: rest.1, rest.2)

@[simp]
theorem runLog_nil (s : σ) : runLog step s [] = ([], s) := rfl

@[simp]
theorem runLog_cons (s : σ) (a : α) (actions : List α) :
    runLog step s (a :: actions) =
      ((a, (step s a).1) :: (runLog step (step s a).2 actions).1,
        (runLog step (step s a).2 actions).2) := rfl

theorem runLog_append (s : σ) (actions actions' : List α) :
    runLog step s (actions ++ actions') =
      ((runLog step s actions).1 ++ (runLog step (runLog step s actions).2 actions').1,
        (runLog step (runLog step s actions).2 actions').2) := by
  induction actions generalizing s with
  | nil => rfl
  | cons a actions ih => simp [ih]

theorem runLog_append_singleton (s : σ) (actions : List α) (a : α) :
    runLog step s (actions ++ [a]) =
      ((runLog step s actions).1 ++ [(a, (step (runLog step s actions).2 a).1)],
        (step (runLog step s actions).2 a).2) := by
  rw [runLog_append]
  rfl

@[simp]
theorem map_fst_runLog (s : σ) (actions : List α) : (runLog step s actions).1.map Prod.fst = actions := by
  induction actions generalizing s with
  | nil => rfl
  | cons a actions ih => simp [ih]

section Filter

variable {step} {Agree : σ → σ → Prop} {relevant : α → Bool}

/-- Non-interference.  When an action off the part keeps a state agreeing with another, and an
action on the part answers agreeing states alike and leaves them agreeing, the run and its
restriction to the part's actions log the same answers to those actions and end agreeing.  By
induction on the actions, carrying the agreement of the full run's state with the restricted
run's. -/
theorem runLog_filter
    (hskip : ∀ s s' a, relevant a = false → Agree s s' → Agree (step s a).2 s')
    (hsync : ∀ s s' a, relevant a = true → Agree s s' →
      (step s a).1 = (step s' a).1 ∧ Agree (step s a).2 (step s' a).2)
    {s s' : σ} (hagree : Agree s s') (actions : List α) :
    (runLog step s actions).1.filter (fun entry ↦ relevant entry.1) =
        (runLog step s' (actions.filter relevant)).1 ∧
      Agree (runLog step s actions).2 (runLog step s' (actions.filter relevant)).2 := by
  induction actions generalizing s s' with
  | nil => exact ⟨rfl, hagree⟩
  | cons a actions ih =>
    cases ha : relevant a with
    | true =>
      obtain ⟨hanswer, hagree'⟩ := hsync s s' a ha hagree
      obtain ⟨hlog, hend⟩ := ih hagree'
      simp only [runLog_cons, List.filter_cons, ha, if_true]
      exact ⟨by rw [hanswer, hlog], hend⟩
    | false =>
      obtain ⟨hlog, hend⟩ := ih (hskip s s' a ha hagree)
      simp only [runLog_cons, List.filter_cons, ha, Bool.false_eq_true, if_false]
      exact ⟨hlog, hend⟩

end Filter

section Separation

variable {step} {P : σ → Prop} {E : α × ω → Prop}

theorem length_runLog (s : σ) (actions : List α) : (runLog step s actions).1.length = actions.length := by
  rw [← List.length_map Prod.fst, map_fst_runLog]

theorem runLog_fst_eq_append {s : σ} {actions : List α} {pre post : List (α × ω)}
    (h : (runLog step s actions).1 = pre ++ post) :
    (runLog step s (pre.map Prod.fst)).1 = pre ∧
      (runLog step (runLog step s (pre.map Prod.fst)).2 (post.map Prod.fst)).1 = post := by
  have hactions : actions = pre.map Prod.fst ++ post.map Prod.fst := by
    rw [← map_fst_runLog step s actions, h, List.map_append]
  rw [hactions, runLog_append] at h
  exact List.append_inj h (by rw [length_runLog, List.length_map])

theorem runLog_stable {I : σ → Prop} (hinv : ∀ s a, I s → I (step s a).2)
    (hstep : ∀ s a, I s → P s → ¬E (a, (step s a).1) → P (step s a).2)
    {s : σ} (hs : I s) (hp : P s) (actions : List α)
    (hlog : ∀ e ∈ (runLog step s actions).1, ¬E e) :
    I (runLog step s actions).2 ∧ P (runLog step s actions).2 := by
  induction actions generalizing s with
  | nil => exact ⟨hs, hp⟩
  | cons a actions ih =>
    simp only [runLog_cons, List.mem_cons, forall_eq_or_imp] at hlog
    exact ih (hinv s a hs) (hstep s a hs hp hlog.1) hlog.2

theorem inv_runLog {I : σ → Prop} (hinv : ∀ s a, I s → I (step s a).2) {s : σ} (hs : I s)
    (actions : List α) : I (runLog step s actions).2 :=
  (runLog_stable (P := fun _ ↦ True) (E := fun _ ↦ False) hinv (fun _ _ _ _ _ ↦ trivial) hs
    trivial actions fun _ _ h ↦ h).1

/-- Separation.  Along a run that keeps an invariant: when an entry of kind `A` leaves `P`
holding, an entry of kind `B` needs `P` to fail before it, and only an escape gives `P` up, then
between an `A` entry of the run and a later `B` entry lies an escape. -/
theorem runLog_separated {I : σ → Prop} {A B : α × ω → Prop}
    (hinv : ∀ s a, I s → I (step s a).2)
    (hstep : ∀ s a, I s → P s → ¬E (a, (step s a).1) → P (step s a).2)
    (hA : ∀ s a, I s → A (a, (step s a).1) → P (step s a).2)
    (hB : ∀ s a, I s → B (a, (step s a).1) → ¬P s)
    {s : σ} (hs : I s) {actions : List α} {pre mid post : List (α × ω)} {x y : α × ω}
    (hlog : (runLog step s actions).1 = pre ++ x :: (mid ++ y :: post)) (hx : A x) (hy : B y) :
    ∃ e ∈ mid, E e := by
  by_contra hnone
  -- cut the log before `x`, then after `x`, then before `y`
  obtain ⟨-, hrest⟩ := runLog_fst_eq_append hlog
  set before := (runLog step s (pre.map Prod.fst)).2
  have hbefore : I before := inv_runLog hinv hs _
  rw [List.map_cons, runLog_cons] at hrest
  obtain ⟨hxeq, hrest⟩ := List.cons.inj hrest
  obtain ⟨hmid, hlast⟩ := runLog_fst_eq_append hrest
  set after := (runLog step (step before x.1).2 (mid.map Prod.fst)).2
  rw [List.map_cons, runLog_cons] at hlast
  have hyeq := (List.cons.inj hlast).1
  obtain ⟨hafter, hp⟩ := runLog_stable hinv hstep (hinv before x.1 hbefore)
    (hA before x.1 hbefore (hxeq ▸ hx)) _ fun e he hescape ↦ hnone ⟨e, hmid ▸ he, hescape⟩
  exact hB after y.1 hafter (hyeq ▸ hy) hp

end Separation

end VertexSwarm.Projection
