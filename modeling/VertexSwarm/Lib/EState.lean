import Mathlib.Logic.Basic

/-!
# Stateful calls that may fail

A call in `EStateM ε σ` runs from a state and either returns a value or fails with an error,
leaving a state either way.  `state` names the state a call leaves; the bind lemmas say how a
sequence of calls runs once the outcome of its first call is known, so a proof about a composed
call takes its steps one at a time, citing each step's own lemma, without unfolding the monad.
-/

namespace VertexSwarm.EState

universe u

variable {ε σ α β : Type u}

/-- The state a call leaves, whether it returned or failed. -/
def state : EStateM.Result ε σ α → σ
  | .ok _ s => s
  | .error _ s => s

@[simp]
theorem state_ok (a : α) (s : σ) : state (.ok a s : EStateM.Result ε σ α) = s := rfl

@[simp]
theorem state_error (e : ε) (s : σ) : state (.error e s : EStateM.Result ε σ α) = s := rfl

@[simp]
theorem pure_apply (a : α) (s : σ) : (pure a : EStateM ε σ α) s = .ok a s := rfl

@[simp]
theorem throw_apply (e : ε) (s : σ) : (throw e : EStateM ε σ α) s = .error e s := rfl

@[simp]
theorem get_apply (s : σ) : (get : EStateM ε σ σ) s = .ok s s := rfl

@[simp]
theorem modify_apply (f : σ → σ) (s : σ) : (modify f : EStateM ε σ PUnit) s = .ok ⟨⟩ (f s) := rfl

variable {x : EStateM ε σ α} {f : α → EStateM ε σ β} {s s' : σ}

theorem bind_of_ok {a : α} (h : x s = .ok a s') : (x >>= f) s = f a s' := by
  show EStateM.bind x f s = _
  simp only [EStateM.bind, h]

theorem bind_of_error {e : ε} (h : x s = .error e s') : (x >>= f) s = .error e s' := by
  show EStateM.bind x f s = _
  simp only [EStateM.bind, h]

/-- A call that failed settles what is claimed of its failures by the one it made, and whatever is
claimed of its returns, since it made none. -/
theorem outcomes_of_error {P : ε → σ → Prop} {Q : σ → Prop} {e : ε} {a : α}
    (h : x s = .error e s') (hP : P e s') :
    (∀ e' s'', x s = .error e' s'' → P e' s'') ∧ ∀ s'', x s = .ok a s'' → Q s'' := by
  refine ⟨fun e' s'' h' ↦ ?_, fun s'' h' ↦ ?_⟩
  · rw [h] at h'
    cases h'
    exact hP
  · rw [h] at h'
    cases h'

end VertexSwarm.EState
