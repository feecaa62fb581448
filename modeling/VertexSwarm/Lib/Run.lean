import Mathlib.Logic.Basic
import Mathlib.Data.List.Chain

/-!
# Runs of a step function

A run folds a step function over a list of calls; `List.scanl` lists every state it passes
through, the start first and the end last.  The induction rule here carries an invariant along
a run when each step keeps it under two side conditions, one on the call and one on the state
the step leads to (a range the caller promises to stay in, say), and concludes it at every
state of the run.  Where the side condition on a call depends on the state it is made from, the
run is `Allowed` and the invariant is carried by `foldl_induction_of_allowed`.
-/

namespace VertexSwarm.Run

variable {σ α : Type*} (f : σ → α → σ)

theorem mem_scanl_self (b : σ) (l : List α) : b ∈ List.scanl f b l := by
  cases l <;> simp [List.scanl_cons, List.scanl_nil]

theorem foldl_mem_scanl (b : σ) (l : List α) : l.foldl f b ∈ List.scanl f b l := by
  induction l generalizing b with
  | nil => simp [List.scanl_nil]
  | cons a l ih =>
    rw [List.scanl_cons, List.foldl_cons]
    exact List.mem_cons_of_mem _ (ih (f b a))

theorem exists_prefix_of_mem_scanl {b s : σ} {l : List α} (hs : s ∈ List.scanl f b l) :
    ∃ pre, pre <+: l ∧ s = pre.foldl f b := by
  induction l generalizing b with
  | nil =>
    rw [List.scanl_nil, List.mem_singleton] at hs
    exact ⟨[], List.nil_prefix, hs⟩
  | cons a l ih =>
    rw [List.scanl_cons] at hs
    rcases List.mem_cons.mp hs with rfl | htail
    · exact ⟨[], List.nil_prefix, rfl⟩
    · obtain ⟨pre, hpre, rfl⟩ := ih htail
      exact ⟨a :: pre, List.cons_prefix_cons.mpr ⟨rfl, hpre⟩, rfl⟩

variable {f} {P Q : σ → Prop} {R : α → Prop}

/-- Run induction: an invariant that every step keeps, for a call satisfying `R` and a result
satisfying `Q`, holds at every state of a run whose calls satisfy `R` and whose states satisfy
`Q`. -/
theorem scanl_induction (hstep : ∀ s a, P s → R a → Q (f s a) → P (f s a)) {b : σ} (hb : P b)
    {l : List α} (hl : ∀ a ∈ l, R a) (hQ : ∀ s ∈ List.scanl f b l, Q s) :
    ∀ s ∈ List.scanl f b l, P s := by
  induction l generalizing b with
  | nil =>
    intro s hs
    rw [List.scanl_nil, List.mem_singleton] at hs
    exact hs ▸ hb
  | cons a l ih =>
    rw [List.scanl_cons] at hQ ⊢
    -- the step from `b` keeps the invariant, and the rest of the run starts there
    have hnext : P (f b a) :=
      hstep b a hb (hl a List.mem_cons_self) (hQ _ (List.mem_cons_of_mem _ (mem_scanl_self f _ l)))
    intro s hs
    rcases List.mem_cons.mp hs with rfl | htail
    · exact hb
    · exact ih hnext (fun a' ha' ↦ hl a' (List.mem_cons_of_mem _ ha'))
        (fun s' hs' ↦ hQ s' (List.mem_cons_of_mem _ hs')) s htail

theorem foldl_induction (hstep : ∀ s a, P s → R a → Q (f s a) → P (f s a)) {b : σ} (hb : P b)
    {l : List α} (hl : ∀ a ∈ l, R a) (hQ : ∀ s ∈ List.scanl f b l, Q s) : P (l.foldl f b) :=
  scanl_induction hstep hb hl hQ _ (foldl_mem_scanl f b l)

variable (f) in
/-- Every call of a run is allowed at the state it is made from. -/
def Allowed (ok : σ → α → Prop) : σ → List α → Prop
  | _, [] => True
  | s, a :: l => ok s a ∧ Allowed ok (f s a) l

theorem allowed_of_forall {ok : σ → α → Prop} {l : List α} (h : ∀ s, ∀ a ∈ l, ok s a) (b : σ) :
    Allowed f ok b l := by
  induction l generalizing b with
  | nil => trivial
  | cons a l ih =>
    exact ⟨h b a List.mem_cons_self, ih (fun s a' ha' ↦ h s a' (List.mem_cons_of_mem a ha')) _⟩

theorem allowed_append {ok : σ → α → Prop} {b : σ} {l l' : List α} :
    Allowed f ok b (l ++ l') ↔ Allowed f ok b l ∧ Allowed f ok (l.foldl f b) l' := by
  induction l generalizing b with
  | nil => simp [Allowed]
  | cons a l ih => simp [Allowed, ih, and_assoc]

theorem foldl_induction_of_allowed {ok : σ → α → Prop} (hstep : ∀ s a, P s → ok s a → P (f s a))
    {b : σ} (hb : P b) {l : List α} (hl : Allowed f ok b l) : P (l.foldl f b) := by
  induction l generalizing b with
  | nil => exact hb
  | cons a l ih => exact ih (hstep b a hb hl.1) hl.2

end VertexSwarm.Run
