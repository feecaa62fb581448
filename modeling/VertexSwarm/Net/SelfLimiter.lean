import VertexSwarm.Net.PerKey

/-!
# The outbound self-limiter

`net/ratelimiter/src/self_limiter.rs`, `SelfRateLimiter`.  A keyed limiter throttles what we
send to each peer; a request its bucket cannot admit yet is parked on the key's FIFO and
surfaced later by `poll_ready`, already charged.  `enqueue` hands a request straight back when
its cost can never fit, issues it at once when nothing is parked for the key and the bucket
admits it, and parks it otherwise, behind whatever is parked already.  `poll_ready` drains the
head of a key whose timer fired: the charge is admitted and the head surfaces, or it is too soon
and the head waits, or the head is too large for the key's bucket and is dropped.  The timers are
the scheduler's: a poll names the key whose timer fired, and which one fires first is free.

Over every run (`parked_requests_surface_in_order`), for each key, the values handed out to be
issued, followed by those still parked, are the values the key accepted, in order, with some
left out: nothing is reordered or surfaced twice.  A value is left out only by `clear`, or by a
`set_quota` that shrank the bucket below a parked cost; without either on the key, every
accepted value is handed out or still parked.  The proof says once what a call can do to a
key's custody (`Moves`) and carries the custody along the run.
-/

namespace VertexSwarm.Net

open Saturating Projection

/-- `Item`: a parked request, the cost to charge and the value to surface. -/
structure Item (T : Type) where
  cost : UInt32
  value : T

/-- `SelfRateLimiter`: the keyed limiter and the keys' parked queues.  The head timers are left
to the scheduler. -/
structure SelfRateLimiter (κ T : Type) where
  limiter : KeyedRateLimiter κ
  parked : κ → Option (List (Item T))

/-- A cost within a cell's capacity: `check` never answers `TooLarge` to it. -/
def Fits (cell : Cell) (cost : UInt32) : Prop :=
  ¬cell.tauNanos < saturatingMulU64 cell.tNanos cost.toUInt64

namespace KeyedRateLimiter

variable {κ : Type} [DecidableEq κ]

theorem cell_stateOf_tryConsumeN (limiter : KeyedRateLimiter κ) (key key' : κ) (now : UInt64)
    (n : UInt32) :
    ((limiter.tryConsumeN key now n).2.stateOf key').cell = (limiter.stateOf key').cell := by
  by_cases hkey : key' = key
  · subst hkey
    unfold tryConsumeN
    dsimp only
    split <;> rw [stateOf_update_self]
  · exact congrArg KeyState.cell (AgreeOn.stateOf_eq
      ⟨cell_tryConsumeN limiter key now n, statePerKey_tryConsumeN_of_ne limiter hkey now n⟩)

theorem tryConsumeN_eq_tooLarge_iff (limiter : KeyedRateLimiter κ) (key : κ) (now : UInt64)
    (n : UInt32) :
    (limiter.tryConsumeN key now n).1 = .error .tooLarge ↔ ¬Fits (limiter.stateOf key).cell n := by
  rw [Fits, not_not, ← check_eq_tooLarge_iff _ (limiter.stateOf key).tatNanos now]
  unfold tryConsumeN
  dsimp only
  split <;> simp_all

theorem cell_stateOf_setKeyQuota_of_ne (limiter : KeyedRateLimiter κ) {key key' : κ}
    (hne : key' ≠ key) (quota : Quota) (now : UInt64) :
    ((limiter.setKeyQuota key quota now).stateOf key').cell = (limiter.stateOf key').cell :=
  congrArg KeyState.cell (AgreeOn.stateOf_eq
    ⟨cell_setKeyQuota limiter key quota now, statePerKey_setKeyQuota_of_ne limiter hne quota now⟩)

theorem cell_stateOf_clear_of_ne (limiter : KeyedRateLimiter κ) {key key' : κ}
    (hne : key' ≠ key) : ((limiter.clear key).stateOf key').cell = (limiter.stateOf key').cell :=
  congrArg KeyState.cell (AgreeOn.stateOf_eq
    ⟨cell_clear limiter key, Function.update_of_ne hne _ _⟩)

end KeyedRateLimiter

namespace SelfRateLimiter

variable {κ T : Type} [DecidableEq κ]

/-- `SelfRateLimiter::new`. -/
def new (quota : Quota) : SelfRateLimiter κ T := ⟨.new quota, fun _ ↦ none⟩

/-- `try_send`: charge without parking; on refusal the wait hint, or the key's whole replenish
interval for a cost that never fits. -/
def trySend (self : SelfRateLimiter κ T) (key : κ) (cost : UInt32) (now : UInt64) :
    Except UInt64 Unit × SelfRateLimiter κ T :=
  let charged := self.limiter.tryConsumeN key now cost
  match charged.1 with
  | .ok () => (.ok (), { self with limiter := charged.2 })
  | .error (.tooSoon wait) => (.error wait, { self with limiter := charged.2 })
  | .error .tooLarge =>
    (.error (charged.2.replenishAllEveryFor key), { self with limiter := charged.2 })

/-- `cost_exceeds_capacity`. -/
def costExceedsCapacity (self : SelfRateLimiter κ T) (key : κ) (cost : UInt32) (now : UInt64) :
    Bool :=
  match self.limiter.tryPeek key now cost with
  | .error .tooLarge => true
  | _ => false

/-- `enqueue`: hand back a value that never fits; park behind a non-empty queue; otherwise charge
now, issuing the value on admission and parking it when too soon. -/
def enqueue (self : SelfRateLimiter κ T) (key : κ) (cost : UInt32) (value : T) (now : UInt64) :
    Except T (Option T) × SelfRateLimiter κ T :=
  if self.costExceedsCapacity key cost now then (.error value, self)
  else
    match self.parked key with
    | some queue =>
      (.ok none,
        { self with parked := Function.update self.parked key (some (queue ++ [⟨cost, value⟩])) })
    | none =>
      let charged := self.limiter.tryConsumeN key now cost
      match charged.1 with
      | .ok () => (.ok (some value), { self with limiter := charged.2 })
      | .error (.tooSoon _) =>
        (.ok none, ⟨charged.2, Function.update self.parked key (some [⟨cost, value⟩])⟩)
      | .error .tooLarge => (.error value, { self with limiter := charged.2 })

/-- `set_quota`. -/
def setQuota (self : SelfRateLimiter κ T) (key : κ) (quota : Quota) (now : UInt64) :
    SelfRateLimiter κ T :=
  { self with limiter := self.limiter.setKeyQuota key quota now }

/-- `clear`: drop the key's queue and bucket. -/
def clear (self : SelfRateLimiter κ T) (key : κ) : SelfRateLimiter κ T :=
  ⟨self.limiter.clear key, Function.update self.parked key none⟩

/-- The queues once the key's head has left: the key is dropped when its queue drained
(`rearm_or_remove`; the timer it re-arms is the scheduler's). -/
def afterHead (self : SelfRateLimiter κ T) (key : κ) (rest : List (Item T)) :
    κ → Option (List (Item T)) :=
  Function.update self.parked key (if rest.isEmpty then none else some rest)

/-- `poll_ready` when the timer of `key` has fired: charge the head, and surface it on
admission, keep it when too soon, drop it when it can never fit. -/
def pollReady (self : SelfRateLimiter κ T) (key : κ) (now : UInt64) :
    Option (κ × T) × SelfRateLimiter κ T :=
  match self.parked key with
  | none => (none, self)
  | some [] => (none, { self with parked := Function.update self.parked key none })
  | some (item :: rest) =>
    let charged := self.limiter.tryConsumeN key now item.cost
    match charged.1 with
    | .ok () => (some (key, item.value), ⟨charged.2, self.afterHead key rest⟩)
    | .error (.tooSoon _) => (none, { self with limiter := charged.2 })
    | .error .tooLarge => (none, ⟨charged.2, self.afterHead key rest⟩)

/-- A call on the self-limiter, with the clock reading it takes. -/
inductive Call (κ T : Type) where
  | trySend (key : κ) (cost : UInt32) (now : UInt64)
  | enqueue (key : κ) (cost : UInt32) (value : T) (now : UInt64)
  | setQuota (key : κ) (quota : Quota) (now : UInt64)
  | clear (key : κ)
  | pollReady (key : κ) (now : UInt64)

/-- What a call answers. -/
inductive Answer (κ T : Type) where
  | sent (result : Except UInt64 Unit)
  | enqueued (result : Except T (Option T))
  | polled (result : Option (κ × T))
  | done

/-- One call. -/
def step (self : SelfRateLimiter κ T) : Call κ T → Answer κ T × SelfRateLimiter κ T
  | .trySend key cost now => (.sent (self.trySend key cost now).1, (self.trySend key cost now).2)
  | .enqueue key cost value now =>
    (.enqueued (self.enqueue key cost value now).1, (self.enqueue key cost value now).2)
  | .setQuota key quota now => (.done, self.setQuota key quota now)
  | .clear key => (.done, self.clear key)
  | .pollReady key now => (.polled (self.pollReady key now).1, (self.pollReady key now).2)

/-- A run of calls: each with its answer, and the self-limiter after them. -/
def run (self : SelfRateLimiter κ T) (calls : List (Call κ T)) :
    List (Call κ T × Answer κ T) × SelfRateLimiter κ T :=
  runLog step self calls

/-! ## The key's custody -/

/-- The value a logged call took into the key's custody: an enqueue not handed back. -/
def acceptedBy (key : κ) : Call κ T × Answer κ T → List T
  | (.enqueue key' _ value _, .enqueued (.ok _)) => if key' = key then [value] else []
  | _ => []

/-- The value a logged call handed out to be issued for the key: an enqueue admitted at once,
or a drained head. -/
def surfacedBy (key : κ) : Call κ T × Answer κ T → List T
  | (.enqueue key' _ _ _, .enqueued (.ok (some value))) => if key' = key then [value] else []
  | (_, .polled (some (key', value))) => if key' = key then [value] else []
  | _ => []

/-- The values a run accepted for the key, in order. -/
def accepted (key : κ) (log : List (Call κ T × Answer κ T)) : List T := log.flatMap (acceptedBy key)

/-- The values a run handed out for the key, in order. -/
def surfaced (key : κ) (log : List (Call κ T × Answer κ T)) : List T :=
  log.flatMap (surfacedBy key)

/-- The values parked for the key, head first. -/
def parkedValues (self : SelfRateLimiter κ T) (key : κ) : List T :=
  ((self.parked key).getD []).map Item.value

/-- Whether a call re-quotas or clears the key. -/
def Call.resets (key : κ) : Call κ T → Bool
  | .setQuota key' _ _ | .clear key' => key' = key
  | _ => false

/-- Every parked cost of the key fits the key's bucket. -/
def FitsAll (key : κ) (self : SelfRateLimiter κ T) : Prop :=
  ∀ item ∈ (self.parked key).getD [], Fits (self.limiter.stateOf key).cell item.cost

/-- How one call moves the key's custody: what it hands out, what it takes in, and the parked
values before and after.  Only a lossy move drops values: a head too large for a resized bucket,
or a clear. -/
inductive Moves : Bool → List T → List T → List T → List T → Prop
  | stay (exact : Bool) (parked : List T) : Moves exact [] [] parked parked
  | park (exact : Bool) (parked : List T) (value : T) :
      Moves exact [] [value] parked (parked ++ [value])
  | direct (exact : Bool) (value : T) : Moves exact [value] [value] [] []
  | drain (exact : Bool) (value : T) (parked : List T) : Moves exact [value] [] (value :: parked) parked
  | drop (value : T) (parked : List T) : Moves false [] [] (value :: parked) parked
  | clear (parked : List T) : Moves false [] [] parked []

omit [DecidableEq κ] in
theorem Moves.sublist {exact : Bool} {out taken parked parked' surfaced accepted : List T}
    (h : Moves exact out taken parked parked') (hcustody : (surfaced ++ parked).Sublist accepted) :
    (surfaced ++ out ++ parked').Sublist (accepted ++ taken) := by
  cases h with
  | stay => simpa using hcustody
  | park => simpa using hcustody.append_right _
  | direct _ value => simpa using hcustody.append_right [value]
  | drain => simpa using hcustody
  | drop => simpa using (List.sublist_cons_self _ _).append_left surfaced |>.trans hcustody
  | clear => simpa using (List.sublist_append_left surfaced _).trans hcustody

omit [DecidableEq κ] in
theorem Moves.eq {out taken parked parked' surfaced accepted : List T}
    (h : Moves true out taken parked parked') (hcustody : surfaced ++ parked = accepted) :
    surfaced ++ out ++ parked' = accepted ++ taken := by
  cases h with
  | stay => simpa using hcustody
  | park => simp [← hcustody]
  | direct => simpa using hcustody
  | drain => simpa using hcustody

/-! ## What each call does -/

/-- A retained queue is never empty. -/
def Retains (self : SelfRateLimiter κ T) : Prop := ∀ k queue, self.parked k = some queue → queue ≠ []

omit [DecidableEq κ] in
theorem FitsAll.of_sub {key : κ} {self self' : SelfRateLimiter κ T} (h : FitsAll key self)
    (hcell : (self'.limiter.stateOf key).cell = (self.limiter.stateOf key).cell)
    (hparked : ∀ item ∈ (self'.parked key).getD [],
      item ∈ (self.parked key).getD [] ∨ Fits (self.limiter.stateOf key).cell item.cost) :
    FitsAll key self' := by
  intro item hitem
  rw [hcell]
  rcases hparked item hitem with hold | hfits
  · exact h item hold
  · exact hfits

theorem mem_parked_update {parked : κ → Option (List (Item T))} {key key' : κ}
    {queue : Option (List (Item T))} {item : Item T}
    (h : item ∈ (Function.update parked key' queue key).getD []) :
    key = key' ∧ item ∈ queue.getD [] ∨ item ∈ (parked key).getD [] := by
  by_cases hkey : key = key'
  · subst hkey
    exact .inl ⟨rfl, by simpa using h⟩
  · rw [Function.update_of_ne hkey] at h
    exact .inr h

omit [DecidableEq κ] in
theorem getD_rest (rest : List (Item T)) :
    (if rest.isEmpty then none else some rest).getD [] = rest := by
  cases rest <;> rfl

theorem Retains.update {self : SelfRateLimiter κ T} (h : Retains self) (limiter : KeyedRateLimiter κ)
    (key' : κ) {queue : Option (List (Item T))} (hqueue : ∀ q, queue = some q → q ≠ []) :
    Retains (⟨limiter, Function.update self.parked key' queue⟩ : SelfRateLimiter κ T) := by
  intro k q hk
  change Function.update self.parked key' queue k = some q at hk
  by_cases hkey : k = key'
  · subst hkey
    exact hqueue q (by simpa using hk)
  · rw [Function.update_of_ne hkey] at hk
    exact h k q hk

theorem parkedValues_update (self : SelfRateLimiter κ T) (limiter : KeyedRateLimiter κ)
    (key key' : κ) (queue : Option (List (Item T))) :
    (⟨limiter, Function.update self.parked key' queue⟩ : SelfRateLimiter κ T).parkedValues key =
      if key = key' then (queue.getD []).map Item.value else self.parkedValues key := by
  by_cases hkey : key = key'
  · subst hkey
    simp [parkedValues]
  · rw [if_neg hkey]
    simp [parkedValues, Function.update_of_ne hkey]

theorem fits_of_costExceedsCapacity (self : SelfRateLimiter κ T) {key : κ} {cost : UInt32}
    {now : UInt64} (h : self.costExceedsCapacity key cost now = false) :
    Fits (self.limiter.stateOf key).cell cost := by
  rw [← not_not (a := Fits _ _), ← KeyedRateLimiter.tryConsumeN_eq_tooLarge_iff _ key now,
    ← KeyedRateLimiter.tryPeek_eq]
  intro hlarge
  rw [costExceedsCapacity, hlarge] at h
  cases h

theorem trySend_snd (self : SelfRateLimiter κ T) (key : κ) (cost : UInt32) (now : UInt64) :
    (self.trySend key cost now).2 = { self with limiter := (self.limiter.tryConsumeN key now cost).2 } := by
  unfold trySend
  dsimp only
  split <;> rfl

/-- The outcomes of `enqueue`. -/
theorem enqueue_cases (self : SelfRateLimiter κ T) (key : κ) (cost : UInt32) (value : T)
    (now : UInt64) :
    -- handed back before anything is charged
    (self.costExceedsCapacity key cost now = true ∧
      self.enqueue key cost value now = (.error value, self)) ∨
    -- parked behind the key's queue
    (self.costExceedsCapacity key cost now = false ∧ ∃ queue, self.parked key = some queue ∧
      self.enqueue key cost value now = (.ok none,
        { self with parked := Function.update self.parked key (some (queue ++ [⟨cost, value⟩])) })) ∨
    -- admitted at once
    (self.parked key = none ∧ (self.limiter.tryConsumeN key now cost).1 = .ok () ∧
      self.enqueue key cost value now =
        (.ok (some value), { self with limiter := (self.limiter.tryConsumeN key now cost).2 })) ∨
    -- parked alone
    (self.costExceedsCapacity key cost now = false ∧ self.parked key = none ∧
      (∃ wait, (self.limiter.tryConsumeN key now cost).1 = .error (.tooSoon wait)) ∧
      self.enqueue key cost value now = (.ok none, ⟨(self.limiter.tryConsumeN key now cost).2,
        Function.update self.parked key (some [⟨cost, value⟩])⟩)) ∨
    -- handed back by the charge
    (self.parked key = none ∧ (self.limiter.tryConsumeN key now cost).1 = .error .tooLarge ∧
      self.enqueue key cost value now =
        (.error value, { self with limiter := (self.limiter.tryConsumeN key now cost).2 })) := by
  cases hexceeds : self.costExceedsCapacity key cost now with
  | true => exact .inl ⟨rfl, by simp [enqueue, hexceeds]⟩
  | false =>
    cases hparked : self.parked key with
    | some queue => exact .inr (.inl ⟨rfl, queue, rfl, by simp [enqueue, hexceeds, hparked]⟩)
    | none =>
      rcases hcharge : (self.limiter.tryConsumeN key now cost).1 with (_ | wait) | _
      · exact .inr (.inr (.inr (.inr ⟨rfl, rfl, by simp [enqueue, hexceeds, hparked, hcharge]⟩)))
      · exact .inr (.inr (.inr (.inl ⟨rfl, rfl, ⟨wait, rfl⟩,
          by simp [enqueue, hexceeds, hparked, hcharge]⟩)))
      · exact .inr (.inr (.inl ⟨rfl, rfl, by simp [enqueue, hexceeds, hparked, hcharge]⟩))

/-- The outcomes of `poll_ready` for the key whose timer fired. -/
theorem pollReady_cases (self : SelfRateLimiter κ T) (key : κ) (now : UInt64) :
    (self.parked key = none ∧ self.pollReady key now = (none, self)) ∨
    (self.parked key = some [] ∧
      self.pollReady key now = (none, { self with parked := Function.update self.parked key none })) ∨
    ∃ item rest, self.parked key = some (item :: rest) ∧
      -- the head surfaces
      ((self.limiter.tryConsumeN key now item.cost).1 = .ok () ∧
        self.pollReady key now = (some (key, item.value),
          ⟨(self.limiter.tryConsumeN key now item.cost).2, self.afterHead key rest⟩) ∨
      -- the head waits
      (∃ wait, (self.limiter.tryConsumeN key now item.cost).1 = .error (.tooSoon wait) ∧
        self.pollReady key now =
          (none, { self with limiter := (self.limiter.tryConsumeN key now item.cost).2 })) ∨
      -- the head is dropped
      ((self.limiter.tryConsumeN key now item.cost).1 = .error .tooLarge ∧
        self.pollReady key now =
          (none, ⟨(self.limiter.tryConsumeN key now item.cost).2, self.afterHead key rest⟩))) := by
  cases hparked : self.parked key with
  | none => exact .inl ⟨rfl, by simp [pollReady, hparked]⟩
  | some queue =>
    cases queue with
    | nil => exact .inr (.inl ⟨rfl, by simp [pollReady, hparked]⟩)
    | cons item rest =>
      refine .inr (.inr ⟨item, rest, rfl, ?_⟩)
      rcases hcharge : (self.limiter.tryConsumeN key now item.cost).1 with (_ | wait) | _
      · exact .inr (.inr ⟨rfl, by simp [pollReady, hparked, hcharge]⟩)
      · exact .inr (.inl ⟨wait, rfl, by simp [pollReady, hparked, hcharge]⟩)
      · exact .inl ⟨rfl, by simp [pollReady, hparked, hcharge]⟩

omit [DecidableEq κ] in
theorem parkedValues_of_parked {self : SelfRateLimiter κ T} {key : κ} {queue : List (Item T)}
    (h : self.parked key = some queue) : self.parkedValues key = queue.map Item.value := by
  simp [parkedValues, h]

omit [DecidableEq κ] in
theorem parkedValues_of_vacant {self : SelfRateLimiter κ T} {key : κ}
    (h : self.parked key = none) : self.parkedValues key = [] := by
  simp [parkedValues, h]

omit [DecidableEq κ] in
@[simp]
theorem parkedValues_limiter (self : SelfRateLimiter κ T) (limiter : KeyedRateLimiter κ)
    (key : κ) : (⟨limiter, self.parked⟩ : SelfRateLimiter κ T).parkedValues key =
      self.parkedValues key := rfl

theorem parkedValues_afterHead (self : SelfRateLimiter κ T) (limiter : KeyedRateLimiter κ)
    (key key' : κ) (rest : List (Item T)) :
    (⟨limiter, self.afterHead key' rest⟩ : SelfRateLimiter κ T).parkedValues key =
      if key = key' then rest.map Item.value else self.parkedValues key := by
  rw [afterHead, parkedValues_update]
  cases rest <;> rfl

/-! ### Custody moves -/

section Moves

variable (self : SelfRateLimiter κ T) (key : κ) (exact : Bool)

theorem moves_trySend (key' : κ) (cost : UInt32) (now : UInt64) (result : Except UInt64 Unit) :
    Moves exact (surfacedBy key (.trySend key' cost now, .sent result))
      (acceptedBy key (.trySend key' cost now, .sent result))
      (self.parkedValues key) ((self.trySend key' cost now).2.parkedValues key) := by
  rw [trySend_snd]
  exact .stay exact _

theorem moves_enqueue (key' : κ) (cost : UInt32) (value : T) (now : UInt64) :
    Moves exact (surfacedBy key (.enqueue key' cost value now,
        .enqueued (self.enqueue key' cost value now).1))
      (acceptedBy key (.enqueue key' cost value now, .enqueued (self.enqueue key' cost value now).1))
      (self.parkedValues key) ((self.enqueue key' cost value now).2.parkedValues key) := by
  rcases enqueue_cases self key' cost value now with
    ⟨-, henq⟩ | ⟨-, queue, hparked, henq⟩ | ⟨hparked, -, henq⟩ | ⟨-, hparked, -, henq⟩ |
      ⟨-, -, henq⟩ <;> rw [henq]
  case inl => exact .stay exact _
  case inr.inr.inr.inr => exact .stay exact _
  all_goals by_cases hkey : key' = key
  all_goals try (simpa [surfacedBy, acceptedBy, hkey, Ne.symm hkey, parkedValues_update]
    using Moves.stay exact (self.parkedValues key))
  all_goals subst hkey
  · -- parked behind the key's queue
    simpa [surfacedBy, acceptedBy, parkedValues_update, parkedValues_of_parked hparked]
      using Moves.park exact (queue.map Item.value) value
  · -- admitted at once, nothing parked before it
    simpa [surfacedBy, acceptedBy, parkedValues_of_vacant hparked] using Moves.direct exact value
  · -- parked alone
    simpa [surfacedBy, acceptedBy, parkedValues_update, parkedValues_of_vacant hparked]
      using Moves.park exact [] value

theorem moves_setQuota (key' : κ) (quota : Quota) (now : UInt64) :
    Moves exact (surfacedBy key (.setQuota key' quota now, .done))
      (acceptedBy key (.setQuota key' quota now, .done))
      (self.parkedValues key) ((self.setQuota key' quota now).parkedValues key) :=
  .stay exact _

theorem moves_clear (key' : κ) (hexact : exact = true → key' ≠ key) :
    Moves exact (surfacedBy key (.clear key', .done)) (acceptedBy key (.clear key', .done))
      (self.parkedValues key) ((self.clear key').parkedValues key) := by
  by_cases hkey : key' = key
  · subst hkey
    cases exact with
    | true => exact absurd rfl (hexact rfl)
    | false =>
      simpa [surfacedBy, acceptedBy, clear, parkedValues_update]
        using Moves.clear (self.parkedValues key')
  · simpa [surfacedBy, acceptedBy, clear, parkedValues_update, Ne.symm hkey] using Moves.stay exact (self.parkedValues key)

theorem moves_pollReady (key' : κ) (now : UInt64) (hexact : exact = true → FitsAll key self) :
    Moves exact (surfacedBy key (.pollReady key' now, .polled (self.pollReady key' now).1))
      (acceptedBy key (.pollReady key' now, .polled (self.pollReady key' now).1))
      (self.parkedValues key) ((self.pollReady key' now).2.parkedValues key) := by
  rcases pollReady_cases self key' now with
    ⟨-, hpoll⟩ | ⟨hparked, hpoll⟩ | ⟨item, rest, hparked, ⟨-, hpoll⟩ | ⟨-, -, hpoll⟩ | ⟨hlarge, hpoll⟩⟩ <;>
    rw [hpoll]
  case inl => exact .stay exact _
  case inr.inr.inr.inl => exact .stay exact _
  all_goals by_cases hkey : key' = key
  all_goals try (simpa [surfacedBy, acceptedBy, hkey, Ne.symm hkey, parkedValues_update,
    parkedValues_afterHead] using Moves.stay exact (self.parkedValues key))
  all_goals subst hkey
  · -- an empty queue is dropped
    simpa [surfacedBy, acceptedBy, parkedValues_update, parkedValues_of_parked hparked]
      using Moves.stay exact []
  · -- the head surfaces
    simpa [surfacedBy, acceptedBy, parkedValues_afterHead, parkedValues_of_parked hparked]
      using Moves.drain exact item.value (rest.map Item.value)
  · -- the head is dropped: it cannot fit, so the move is lossy
    cases exact with
    | true =>
      have hfits := hexact rfl item (by simp [hparked])
      exact absurd hlarge
        ((KeyedRateLimiter.tryConsumeN_eq_tooLarge_iff _ _ _ _).not.mpr (not_not.mpr hfits))
    | false =>
      simpa [surfacedBy, acceptedBy, parkedValues_afterHead, parkedValues_of_parked hparked]
        using Moves.drop item.value (rest.map Item.value)

theorem moves_step (call : Call κ T)
    (hexact : exact = true → call.resets key = false ∧ FitsAll key self) :
    Moves exact (surfacedBy key (call, (self.step call).1)) (acceptedBy key (call, (self.step call).1))
      (self.parkedValues key) ((self.step call).2.parkedValues key) := by
  cases call with
  | trySend key' cost now => exact moves_trySend self key exact key' cost now _
  | enqueue key' cost value now => exact moves_enqueue self key exact key' cost value now
  | setQuota key' quota now => exact moves_setQuota self key exact key' quota now
  | clear key' =>
    refine moves_clear self key exact key' fun h ↦ ?_
    simpa [Call.resets] using (hexact h).1
  | pollReady key' now => exact moves_pollReady self key exact key' now fun h ↦ (hexact h).2

end Moves

/-! ### The invariants each call keeps -/

/-- A call that does not reset the key keeps every parked cost of the key within its bucket: the
cell is kept, and a cost is parked only once it was seen to fit. -/
theorem fitsAll_step (self : SelfRateLimiter κ T) (key : κ) (call : Call κ T)
    (hreset : call.resets key = false) (h : FitsAll key self) : FitsAll key (self.step call).2 := by
  cases call with
  | trySend key' cost now =>
    rw [step, trySend_snd]
    exact h.of_sub (KeyedRateLimiter.cell_stateOf_tryConsumeN _ _ _ _ _) fun _ hitem ↦ .inl hitem
  | enqueue key' cost value now =>
    rcases enqueue_cases self key' cost value now with
      ⟨-, henq⟩ | ⟨hexceeds, queue, hparked, henq⟩ | ⟨-, -, henq⟩ | ⟨hexceeds, -, -, henq⟩ |
        ⟨-, -, henq⟩ <;> simp only [step, henq]
    · exact h
    · -- the new item was seen to fit before it joined the queue
      refine h.of_sub rfl fun item hitem ↦ ?_
      rcases mem_parked_update hitem with ⟨rfl, hnew⟩ | hold
      · simp only [Option.getD_some, List.mem_append, List.mem_singleton] at hnew
        rcases hnew with hold | rfl
        · exact .inl (by simpa [hparked] using hold)
        · exact .inr (fits_of_costExceedsCapacity self hexceeds)
      · exact .inl hold
    · exact h.of_sub (KeyedRateLimiter.cell_stateOf_tryConsumeN _ _ _ _ _) fun _ hitem ↦ .inl hitem
    · refine h.of_sub (KeyedRateLimiter.cell_stateOf_tryConsumeN _ _ _ _ _) fun item hitem ↦ ?_
      rcases mem_parked_update hitem with ⟨rfl, hnew⟩ | hold
      · obtain rfl : item = ⟨cost, value⟩ := by simpa using hnew
        exact .inr (fits_of_costExceedsCapacity self hexceeds)
      · exact .inl hold
    · exact h.of_sub (KeyedRateLimiter.cell_stateOf_tryConsumeN _ _ _ _ _) fun _ hitem ↦ .inl hitem
  | setQuota key' quota now =>
    have hne : key ≠ key' := fun hkey ↦ by simp [Call.resets, hkey] at hreset
    exact h.of_sub (KeyedRateLimiter.cell_stateOf_setKeyQuota_of_ne _ hne _ _) fun _ hitem ↦ .inl hitem
  | clear key' =>
    have hne : key ≠ key' := fun hkey ↦ by simp [Call.resets, hkey] at hreset
    refine h.of_sub (KeyedRateLimiter.cell_stateOf_clear_of_ne _ hne) fun item hitem ↦ ?_
    rcases mem_parked_update hitem with ⟨hkey, -⟩ | hold
    · exact absurd hkey hne
    · exact .inl hold
  | pollReady key' now =>
    rcases pollReady_cases self key' now with
      ⟨-, hpoll⟩ | ⟨-, hpoll⟩ | ⟨item, rest, hparked, ⟨-, hpoll⟩ | ⟨-, -, hpoll⟩ | ⟨-, hpoll⟩⟩ <;>
      simp only [step, hpoll]
    · exact h
    all_goals
      refine h.of_sub (by first | rfl | exact KeyedRateLimiter.cell_stateOf_tryConsumeN _ _ _ _ _)
        fun entry hentry ↦ .inl ?_
    · -- the empty queue leaves
      rcases mem_parked_update hentry with ⟨-, hnone⟩ | hold
      · simp at hnone
      · exact hold
    -- what is left of the queue once its head is gone
    · rcases mem_parked_update hentry with ⟨rfl, hrest⟩ | hold
      · rw [getD_rest] at hrest
        simp [hparked, hrest]
      · exact hold
    · exact hentry
    · rcases mem_parked_update hentry with ⟨rfl, hrest⟩ | hold
      · rw [getD_rest] at hrest
        simp [hparked, hrest]
      · exact hold

/-- Every call keeps the retained queues non-empty: a queue is dropped when its last item
leaves. -/
theorem retains_step (self : SelfRateLimiter κ T) (h : Retains self) (call : Call κ T) :
    Retains (self.step call).2 := by
  cases call with
  | trySend key' cost now =>
    rw [step, trySend_snd]
    exact h
  | enqueue key' cost value now =>
    rcases enqueue_cases self key' cost value now with
      ⟨-, henq⟩ | ⟨-, queue, -, henq⟩ | ⟨-, -, henq⟩ | ⟨-, -, -, henq⟩ | ⟨-, -, henq⟩ <;>
      simp only [step, henq]
    · exact h
    · exact h.update _ _ (by simp)
    · exact h
    · exact h.update _ _ (by simp)
    · exact h
  | setQuota key' quota now => exact h
  | clear key' => exact h.update _ _ (by simp)
  | pollReady key' now =>
    rcases pollReady_cases self key' now with
      ⟨-, hpoll⟩ | ⟨-, hpoll⟩ | ⟨item, rest, -, ⟨-, hpoll⟩ | ⟨-, -, hpoll⟩ | ⟨-, hpoll⟩⟩ <;>
      simp only [step, hpoll]
    · exact h
    · exact h.update _ _ (by simp)
    · exact h.update _ _ (by cases rest <;> simp)
    · exact h
    · exact h.update _ _ (by cases rest <;> simp)

/-! ### Whole runs -/

@[simp]
theorem surfaced_append (key : κ) (log log' : List (Call κ T × Answer κ T)) :
    surfaced key (log ++ log') = surfaced key log ++ surfaced key log' :=
  List.flatMap_append

@[simp]
theorem accepted_append (key : κ) (log log' : List (Call κ T × Answer κ T)) :
    accepted key (log ++ log') = accepted key log ++ accepted key log' :=
  List.flatMap_append

theorem retains_run (self : SelfRateLimiter κ T) (h : Retains self) (calls : List (Call κ T)) :
    Retains (self.run calls).2 := by
  induction calls using List.reverseRecOn with
  | nil => exact h
  | append_singleton calls call ih =>
    simp only [run] at ih ⊢
    rw [runLog_append_singleton]
    exact retains_step _ ih call

/-- Over every run, the values handed out for the key, then those parked at the end, are a
sublist of those parked at the start followed by those the run accepted.  By induction on the
run, each call a lossy move. -/
theorem custody_sublist_run (self : SelfRateLimiter κ T) (key : κ) (calls : List (Call κ T)) :
    (surfaced key (self.run calls).1 ++ (self.run calls).2.parkedValues key).Sublist
      (self.parkedValues key ++ accepted key (self.run calls).1) := by
  induction calls using List.reverseRecOn with
  | nil => simp [run, surfaced, accepted]
  | append_singleton calls call ih =>
    simp only [run] at ih ⊢
    rw [runLog_append_singleton]
    have hmove := moves_step (runLog step self calls).2 key false call (by simp)
    simpa [surfaced, accepted] using hmove.sublist ih

/-- While no call resets the key and the parked costs fit, nothing is lost: the values handed
out, then those parked, are exactly those parked at the start followed by those accepted, and
the parked costs still fit.  By induction on the run, each call a move that drops nothing. -/
theorem custody_eq_run (self : SelfRateLimiter κ T) (key : κ) (calls : List (Call κ T))
    (hreset : ∀ call ∈ calls, call.resets key = false) (hfits : FitsAll key self) :
    surfaced key (self.run calls).1 ++ (self.run calls).2.parkedValues key =
        self.parkedValues key ++ accepted key (self.run calls).1 ∧
      FitsAll key (self.run calls).2 := by
  induction calls using List.reverseRecOn with
  | nil => simp [run, surfaced, accepted, hfits]
  | append_singleton calls call ih =>
    obtain ⟨hcustody, hfits'⟩ := ih fun c hc ↦ hreset c (List.mem_append_left _ hc)
    have hcall : call.resets key = false := hreset call (by simp)
    simp only [run] at hcustody hfits' ⊢
    rw [runLog_append_singleton]
    have hmove := moves_step (runLog step self calls).2 key true call fun _ ↦ ⟨hcall, hfits'⟩
    refine ⟨?_, fitsAll_step _ key call hcall hfits'⟩
    simpa [surfaced, accepted] using hmove.eq hcustody

/-- The outbound queue neither reorders, repeats nor invents requests.  Over every run from a
fresh self-limiter, whatever the calls and whichever timers fire, for each key: the values
handed out to be issued, followed by those still parked, are the values the key accepted, in
order, with some perhaps left out; no retained queue is empty; and while no call re-quotas or
clears the key, none is left out. -/
theorem parked_requests_surface_in_order (quota : Quota) (calls : List (Call κ T)) (key : κ) :
    let result := (new quota : SelfRateLimiter κ T).run calls
    (surfaced key result.1 ++ result.2.parkedValues key).Sublist (accepted key result.1) ∧
    (∀ k queue, result.2.parked k = some queue → queue ≠ []) ∧
    ((∀ call ∈ calls, call.resets key = false) →
      surfaced key result.1 ++ result.2.parkedValues key = accepted key result.1) := by
  have hvacant : (new quota : SelfRateLimiter κ T).parkedValues key = [] := rfl
  refine ⟨?_, retains_run _ (fun _ _ h ↦ by cases h) calls, fun hreset ↦ ?_⟩
  · simpa [hvacant] using custody_sublist_run (new quota) key calls
  · simpa [hvacant] using (custody_eq_run (new quota) key calls hreset (fun _ h ↦ by cases h)).1

/-- One token, replenished every nanosecond. -/
def oneTokenQuota : Quota := ⟨1, by decide, 1⟩

/-- Key 0 takes three values at one instant: the first is issued at once and the other two are
parked; its timer then fires and surfaces the head, and key 1 is cleared. -/
def parkDrainClear : List (Call ℕ ℕ) :=
  [.enqueue 0 1 10 0, .enqueue 0 1 11 0, .enqueue 0 1 12 0, .pollReady 0 5, .clear 1]

theorem parked_requests_surface_in_order_of_parkDrainClear :
    (∀ call ∈ parkDrainClear, call.resets 0 = false) ∧
      surfaced 0 ((new oneTokenQuota : SelfRateLimiter ℕ ℕ).run parkDrainClear).1 = [10, 11] ∧
      ((new oneTokenQuota : SelfRateLimiter ℕ ℕ).run parkDrainClear).2.parkedValues 0 = [12] ∧
      surfaced 0 ((new oneTokenQuota : SelfRateLimiter ℕ ℕ).run parkDrainClear).1 ++
          ((new oneTokenQuota : SelfRateLimiter ℕ ℕ).run parkDrainClear).2.parkedValues 0 =
        accepted 0 ((new oneTokenQuota : SelfRateLimiter ℕ ℕ).run parkDrainClear).1 := by
  have hreset : ∀ call ∈ parkDrainClear, call.resets 0 = false := by decide
  exact ⟨hreset, by decide +kernel, by decide +kernel,
    (parked_requests_surface_in_order oneTokenQuota parkDrainClear 0).2.2 hreset⟩

end SelfRateLimiter

end VertexSwarm.Net
