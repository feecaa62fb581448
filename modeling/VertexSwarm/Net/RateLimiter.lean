import Mathlib.Data.List.Induction
import VertexSwarm.Lib.Saturating

/-!
# GCRA rate limiting

`net/ratelimiter/src/lib.rs`.  A bucket keeps one theoretical arrival time (TAT), in nanoseconds
since the limiter was made.  A quota of `N` tokens every `tau` nanoseconds becomes a cell of
`tau` and the emission interval `t = tau / N`, both saturated into a `u64`.  A charge of `n`
tokens costs `n * t` (saturating): more than `tau` is `TooLarge`; otherwise it is admitted once
the clock reaches `TAT + cost - tau` and moves the TAT to `max(now, TAT) + cost`, and before
that it is `TooSoon` with the exact wait.  `RateLimiter` is one bucket; `KeyedRateLimiter`
keeps one per key, each with the limiter's cell unless `set_key_quota` gave it its own.

A clock reading is a `u64` of nanoseconds, and a `Duration` is its nanoseconds.

What holds: `TooLarge` depends on the cost only (`check_eq_tooLarge_iff`), a refusal changes no
bucket (`tryConsumeN_of_error`), `TooSoon` names the exact wait (`check_tooSoon_exact`),
`set_key_quota` keeps the TAT within the new capacity (`tatNanos_setKeyQuota_le`), and over any
window of `L` nanoseconds the tokens granted cost at most `L + tau` (`tNanos_mul_granted_le`).
That is `N + L / t` tokens only when `t` divides `tau` evenly: the truncated emission interval
lets a bucket grant more than `N` tokens at one instant, and none at all is refused once
`tau < N` (`quota_burst_exceeds_max_tokens`).
-/

namespace VertexSwarm.Net

open Saturating

/-- `RateLimitedErr`. -/
inductive RateLimitedErr where
  /-- The cost exceeds the bucket's capacity. -/
  | tooLarge
  /-- The earliest retry that would succeed, in nanoseconds from now. -/
  | tooSoon (wait : UInt64)
deriving DecidableEq

/-- `Quota`: at most `max_tokens` every `replenish_all_every` nanoseconds. -/
structure Quota where
  maxTokens : UInt32
  maxTokens_ne_zero : maxTokens ≠ 0
  replenishAllEvery : ℕ

/-- `Cell`: the capacity `tau` and the emission interval `t`, in nanoseconds. -/
structure Cell where
  tauNanos : UInt64
  tNanos : UInt64
deriving DecidableEq

/-- `Cell::from_quota`: `t = tau / N`, both saturated into a `u64`. -/
def Cell.fromQuota (quota : Quota) : Cell :=
  let tau := quota.replenishAllEvery
  let t := tau / quota.maxTokens.toNat
  ⟨UInt64.ofNat (min tau (2 ^ 64 - 1)), UInt64.ofNat (min t (2 ^ 64 - 1))⟩

/-- `check`: the new TAT of an admitted charge of `n` tokens, or why it is refused. -/
def check (cell : Cell) (tat now : UInt64) (n : UInt32) : Except RateLimitedErr UInt64 :=
  let cost := saturatingMulU64 cell.tNanos n.toUInt64
  if cell.tauNanos < cost then .error .tooLarge
  else
    let earliestAdmit := saturatingSubU64 (saturatingAddU64 tat cost) cell.tauNanos
    if now < earliestAdmit then .error (.tooSoon (saturatingSubU64 earliestAdmit now))
    else .ok (saturatingAddU64 (max now tat) cost)

theorem check_eq_tooLarge_iff (cell : Cell) (tat now : UInt64) (n : UInt32) :
    check cell tat now n = .error .tooLarge ↔
      cell.tauNanos < saturatingMulU64 cell.tNanos n.toUInt64 := by
  unfold check
  dsimp only
  split_ifs with hlarge hsoon <;> simp [hlarge]

/-- Below the saturated capacity, `TooLarge` is exactly a cost `n * t` above `tau`, whatever the
TAT and the clock. -/
theorem check_eq_tooLarge_iff_of_lt (cell : Cell) (tat now : UInt64) (n : UInt32)
    (htau : cell.tauNanos.toNat < 2 ^ 64 - 1) :
    check cell tat now n = .error .tooLarge ↔ cell.tauNanos.toNat < cell.tNanos.toNat * n.toNat := by
  rw [check_eq_tooLarge_iff, UInt64.lt_iff_toNat_lt, toNat_saturatingMulU64,
    UInt32.toNat_toUInt64]
  omega

/-- What an admitted charge did, while `now + tau` stays below the saturated clock: it cost
`n * t` exactly, at most `tau`, and moved the TAT to `max(now, TAT) + cost`, at most
`now + tau`. -/
theorem check_eq_ok {cell : Cell} {tat now newTat : UInt64} {n : UInt32}
    (h : check cell tat now n = .ok newTat)
    (hfit : now.toNat + cell.tauNanos.toNat < 2 ^ 64 - 1) :
    cell.tNanos.toNat * n.toNat ≤ cell.tauNanos.toNat ∧
      tat.toNat + cell.tNanos.toNat * n.toNat ≤ now.toNat + cell.tauNanos.toNat ∧
      newTat.toNat = max now.toNat tat.toNat + cell.tNanos.toNat * n.toNat := by
  unfold check at h
  dsimp only at h
  split_ifs at h with hlarge hsoon
  cases h
  rw [UInt64.lt_iff_toNat_lt, toNat_saturatingMulU64, UInt32.toNat_toUInt64] at hlarge
  rw [UInt64.lt_iff_toNat_lt, toNat_saturatingSubU64, toNat_saturatingAddU64,
    toNat_saturatingMulU64, UInt32.toNat_toUInt64] at hsoon
  have hcost : cell.tNanos.toNat * n.toNat ≤ cell.tauNanos.toNat := by omega
  have hmul : min (cell.tNanos.toNat * n.toNat) (2 ^ 64 - 1) = cell.tNanos.toNat * n.toNat := by
    omega
  rw [hmul] at hsoon
  -- a saturated `TAT + cost` would put the earliest admission past the clock
  have hdue : tat.toNat + cell.tNanos.toNat * n.toNat ≤ now.toNat + cell.tauNanos.toNat := by
    omega
  refine ⟨hcost, hdue, ?_⟩
  rw [toNat_saturatingAddU64, toNat_saturatingMulU64, UInt64.toNat_max, UInt32.toNat_toUInt64,
    hmul]
  omega

/-- `TooSoon` names the exact wait: with the bucket as it is, the charge is admitted after it and
refused at every earlier reading. -/
theorem check_tooSoon_exact {cell : Cell} {tat now wait : UInt64} {n : UInt32}
    (h : check cell tat now n = .error (.tooSoon wait)) :
    (∃ newTat, check cell tat (now + wait) n = .ok newTat) ∧
      ∀ now', now' < now + wait → ∃ wait', check cell tat now' n = .error (.tooSoon wait') := by
  unfold check at h ⊢
  dsimp only at h ⊢
  split_ifs at h with hlarge hsoon
  · cases h
  simp only [Except.error.injEq, RateLimitedErr.tooSoon.injEq] at h
  subst h
  -- the wait ends exactly at the earliest admission
  have hend : now + saturatingSubU64 (saturatingSubU64 (saturatingAddU64 tat
      (saturatingMulU64 cell.tNanos n.toUInt64)) cell.tauNanos) now =
      saturatingSubU64 (saturatingAddU64 tat (saturatingMulU64 cell.tNanos n.toUInt64))
        cell.tauNanos := by
    apply UInt64.toNat_inj.mp
    rw [UInt64.lt_iff_toNat_lt] at hsoon
    rw [UInt64.toNat_add, toNat_saturatingSubU64, Nat.add_sub_cancel' hsoon.le,
      Nat.mod_eq_of_lt (UInt64.toNat_lt _)]
  simp only [hend, if_neg hlarge]
  exact ⟨⟨_, if_neg (UInt64.lt_irrefl _)⟩, fun now' hnow' ↦ ⟨_, if_pos hnow'⟩⟩

/-! ## One bucket -/

/-- `RateLimiter`: one bucket. -/
structure RateLimiter where
  cell : Cell
  tatNanos : UInt64

/-- `RateLimiter::new`: the bucket starts full. -/
def RateLimiter.new (quota : Quota) : RateLimiter := ⟨Cell.fromQuota quota, 0⟩

/-- `RateLimiter::try_consume_n` at the clock reading `now`. -/
def RateLimiter.tryConsumeN (limiter : RateLimiter) (now : UInt64) (n : UInt32) :
    Except RateLimitedErr Unit × RateLimiter :=
  match check limiter.cell limiter.tatNanos now n with
  | .ok newTat => (.ok (), { limiter with tatNanos := newTat })
  | .error e => (.error e, limiter)

/-- A run of charges `(now, n)`: the bucket after them and the tokens they were granted. -/
def RateLimiter.consumeAll (limiter : RateLimiter) (calls : List (UInt64 × UInt32)) :
    RateLimiter × ℕ :=
  calls.foldl (fun acc call ↦
    match acc.1.tryConsumeN call.1 call.2 with
    | (.ok (), limiter') => (limiter', acc.2 + call.2.toNat)
    | (.error _, limiter') => (limiter', acc.2)) (limiter, 0)

namespace RateLimiter

theorem tryConsumeN_of_error {limiter : RateLimiter} {now : UInt64} {n : UInt32}
    {e : RateLimitedErr} (h : (limiter.tryConsumeN now n).1 = .error e) :
    (limiter.tryConsumeN now n).2 = limiter := by
  unfold tryConsumeN at h ⊢
  split
  · next heq => rw [heq] at h; cases h
  · rfl

/-- A charge is admitted with the new TAT `check` computes, or refused with the bucket kept. -/
theorem tryConsumeN_cases (limiter : RateLimiter) (now : UInt64) (n : UInt32) :
    (∃ newTat, check limiter.cell limiter.tatNanos now n = .ok newTat ∧
        limiter.tryConsumeN now n = (.ok (), { limiter with tatNanos := newTat })) ∨
      ∃ e, check limiter.cell limiter.tatNanos now n = .error e ∧
        limiter.tryConsumeN now n = (.error e, limiter) := by
  unfold tryConsumeN
  cases hcheck : check limiter.cell limiter.tatNanos now n with
  | ok newTat => exact .inl ⟨newTat, rfl, rfl⟩
  | error e => exact .inr ⟨e, rfl, rfl⟩

theorem consumeAll_append_singleton (limiter : RateLimiter) (calls : List (UInt64 × UInt32))
    (call : UInt64 × UInt32) :
    limiter.consumeAll (calls ++ [call]) =
      match (limiter.consumeAll calls).1.tryConsumeN call.1 call.2 with
      | (.ok (), limiter') => (limiter', (limiter.consumeAll calls).2 + call.2.toNat)
      | (.error _, limiter') => (limiter', (limiter.consumeAll calls).2) := by
  rw [consumeAll, List.foldl_append]
  rfl

/-- What a run inside the window `[a, a + L]` keeps: the cell, and either nothing granted with
the TAT untouched, or a TAT at least `a` plus the cost granted and at most `a + L + tau`. -/
def BurstInv (a L : ℕ) (limiter₀ : RateLimiter) (acc : RateLimiter × ℕ) : Prop :=
  acc.1.cell = limiter₀.cell ∧
    (acc.2 = 0 ∧ acc.1.tatNanos = limiter₀.tatNanos ∨
      a + limiter₀.cell.tNanos.toNat * acc.2 ≤ acc.1.tatNanos.toNat ∧
        acc.1.tatNanos.toNat ≤ a + L + limiter₀.cell.tauNanos.toNat)

/-- One charge inside the window keeps `BurstInv`. -/
theorem BurstInv.step {a L : ℕ} {limiter₀ : RateLimiter} {acc : RateLimiter × ℕ}
    (hinv : BurstInv a L limiter₀ acc) {now : UInt64} {n : UInt32}
    (hwindow : a ≤ now.toNat ∧ now.toNat ≤ a + L)
    (hfit : a + L + limiter₀.cell.tauNanos.toNat < 2 ^ 64 - 1) :
    BurstInv a L limiter₀ (match acc.1.tryConsumeN now n with
      | (.ok (), limiter') => (limiter', acc.2 + n.toNat)
      | (.error _, limiter') => (limiter', acc.2)) := by
  obtain ⟨hcell, hgranted⟩ := hinv
  rcases tryConsumeN_cases acc.1 now n with ⟨newTat, hcheck, hresult⟩ | ⟨e, -, hresult⟩
  · rw [hresult]
    rw [hcell] at hcheck
    obtain ⟨hcost, hdue, htat⟩ := check_eq_ok hcheck (by omega)
    refine ⟨hcell, .inr ⟨?_, ?_⟩⟩
    · -- the new TAT is past the old one, or past `now ≥ a`, by the cost just granted
      change a + _ * (acc.2 + n.toNat) ≤ newTat.toNat
      have hnow := le_max_left now.toNat acc.1.tatNanos.toNat
      have htat' := le_max_right now.toNat acc.1.tatNanos.toNat
      rw [htat, Nat.mul_add]
      rcases hgranted with ⟨hzero, -⟩ | ⟨hlow, -⟩
      · rw [hzero, Nat.mul_zero]
        omega
      · omega
    · -- admitted, so `TAT + cost ≤ now + tau`
      change newTat.toNat ≤ _
      rw [htat, Nat.max_def]
      split <;> omega
  · rw [hresult]
    exact ⟨hcell, hgranted⟩

/-- Over a window of `L` nanoseconds, the tokens granted cost at most `L + tau`: at most
`(L + tau) / t` tokens, while the clock stays below saturation.  By induction over the charges,
carrying `BurstInv`. -/
theorem tNanos_mul_granted_le (limiter : RateLimiter) (a L : ℕ) (calls : List (UInt64 × UInt32))
    (hwindow : ∀ call ∈ calls, a ≤ call.1.toNat ∧ call.1.toNat ≤ a + L)
    (hfit : a + L + limiter.cell.tauNanos.toNat < 2 ^ 64 - 1) :
    limiter.cell.tNanos.toNat * (limiter.consumeAll calls).2 ≤ L + limiter.cell.tauNanos.toNat := by
  have hinv : BurstInv a L limiter (limiter.consumeAll calls) := by
    induction calls using List.reverseRecOn with
    | nil => exact ⟨rfl, .inl ⟨rfl, rfl⟩⟩
    | append_singleton calls call ih =>
      rw [consumeAll_append_singleton]
      exact (ih fun c hc ↦ hwindow c (List.mem_append_left _ hc)).step
        (hwindow call (List.mem_append_right _ List.mem_cons_self)) hfit
  rcases hinv.2 with ⟨hzero, -⟩ | ⟨hlow, hhigh⟩
  · rw [hzero, Nat.mul_zero]
    exact Nat.zero_le _
  · omega

end RateLimiter

/-! ## Per-key buckets -/

/-- `KeyState`: a key's TAT and cell. -/
structure KeyState where
  tatNanos : UInt64
  cell : Cell
deriving DecidableEq

/-- `KeyedRateLimiter`: the default cell and the buckets of the keys seen. -/
structure KeyedRateLimiter (κ : Type) where
  cell : Cell
  statePerKey : κ → Option KeyState

namespace KeyedRateLimiter

variable {κ : Type} [DecidableEq κ]

/-- `KeyedRateLimiter::new`: no key has a bucket yet. -/
def new (quota : Quota) : KeyedRateLimiter κ := ⟨Cell.fromQuota quota, fun _ ↦ none⟩

/-- The bucket a key is charged against: its own, or a full one with the default cell. -/
def stateOf (limiter : KeyedRateLimiter κ) (key : κ) : KeyState :=
  (limiter.statePerKey key).getD ⟨0, limiter.cell⟩

/-- `try_consume_n`: the key's bucket is inserted on first use, charged or not. -/
def tryConsumeN (limiter : KeyedRateLimiter κ) (key : κ) (now : UInt64) (n : UInt32) :
    Except RateLimitedErr Unit × KeyedRateLimiter κ :=
  let state := limiter.stateOf key
  match check state.cell state.tatNanos now n with
  | .ok newTat =>
    let charged := { state with tatNanos := newTat }
    (.ok (), { limiter with statePerKey := Function.update limiter.statePerKey key (some charged) })
  | .error e =>
    (.error e, { limiter with statePerKey := Function.update limiter.statePerKey key (some state) })

/-- `try_peek`: the verdict a charge would get, with no bucket touched. -/
def tryPeek (limiter : KeyedRateLimiter κ) (key : κ) (now : UInt64) (n : UInt32) :
    Except RateLimitedErr Unit :=
  let state := limiter.stateOf key
  (check state.cell state.tatNanos now n).map fun _ ↦ ()

/-- `set_key_quota`: an unchanged cell leaves the bucket as it is; a changed one replaces the
cell and clamps the TAT to `now + tau`; a new key gets a full bucket with the cell. -/
def setKeyQuota (limiter : KeyedRateLimiter κ) (key : κ) (quota : Quota) (now : UInt64) :
    KeyedRateLimiter κ :=
  let newCell := Cell.fromQuota quota
  match limiter.statePerKey key with
  | some state =>
    if state.cell.tauNanos = newCell.tauNanos ∧ state.cell.tNanos = newCell.tNanos then limiter
    else
      let ceiling := saturatingAddU64 now newCell.tauNanos
      let clamped : KeyState := ⟨min state.tatNanos ceiling, newCell⟩
      { limiter with statePerKey := Function.update limiter.statePerKey key (some clamped) }
  | none => { limiter with statePerKey := Function.update limiter.statePerKey key (some ⟨0, newCell⟩) }

/-- `clear`. -/
def clear (limiter : KeyedRateLimiter κ) (key : κ) : KeyedRateLimiter κ :=
  { limiter with statePerKey := Function.update limiter.statePerKey key none }

/-- `retain_recent`: drop every bucket already full again. -/
def retainRecent (limiter : KeyedRateLimiter κ) (now : UInt64) : KeyedRateLimiter κ :=
  { limiter with statePerKey := fun key ↦
      (limiter.statePerKey key).filter fun state ↦ now < state.tatNanos }

/-- `replenish_all_every`: the default cell's `tau`. -/
def replenishAllEvery (limiter : KeyedRateLimiter κ) : UInt64 := limiter.cell.tauNanos

/-- `replenish_all_every_for`: the key's own `tau`, or the default one. -/
def replenishAllEveryFor (limiter : KeyedRateLimiter κ) (key : κ) : UInt64 :=
  ((limiter.statePerKey key).map fun state ↦ state.cell.tauNanos).getD limiter.cell.tauNanos

theorem stateOf_update_self (limiter : KeyedRateLimiter κ) (key : κ) (state : KeyState) :
    ({ limiter with statePerKey := Function.update limiter.statePerKey key (some state) } :
      KeyedRateLimiter κ).stateOf key = state := by
  simp [stateOf]

theorem stateOf_update_of_ne (limiter : KeyedRateLimiter κ) {key key' : κ}
    (state : Option KeyState) (hne : key' ≠ key) :
    ({ limiter with statePerKey := Function.update limiter.statePerKey key state } :
      KeyedRateLimiter κ).stateOf key' = limiter.stateOf key' := by
  simp [stateOf, Function.update_of_ne hne]

/-- `try_peek` gives the verdict the charge would get. -/
theorem tryPeek_eq (limiter : KeyedRateLimiter κ) (key : κ) (now : UInt64) (n : UInt32) :
    limiter.tryPeek key now n = (limiter.tryConsumeN key now n).1 := by
  unfold tryPeek tryConsumeN
  dsimp only
  cases check (limiter.stateOf key).cell (limiter.stateOf key).tatNanos now n <;> rfl

/-- A refused charge changes no key's bucket: it only records the charged key's, as it was. -/
theorem stateOf_tryConsumeN_of_error {limiter : KeyedRateLimiter κ} {key : κ} {now : UInt64}
    {n : UInt32} {e : RateLimitedErr} (h : (limiter.tryConsumeN key now n).1 = .error e)
    (key' : κ) : (limiter.tryConsumeN key now n).2.stateOf key' = limiter.stateOf key' := by
  unfold tryConsumeN at h ⊢
  dsimp only at h ⊢
  split
  · next heq => rw [heq] at h; cases h
  · by_cases hkey : key' = key
    · rw [hkey, stateOf_update_self]
    · exact stateOf_update_of_ne limiter _ hkey

theorem setKeyQuota_of_cell_eq {limiter : KeyedRateLimiter κ} {key : κ} {quota : Quota}
    {state : KeyState} (h : limiter.statePerKey key = some state)
    (hcell : state.cell = Cell.fromQuota quota) (now : UInt64) :
    limiter.setKeyQuota key quota now = limiter := by
  rw [setKeyQuota]
  simp only [h, hcell, and_self, if_true]

/-- Otherwise the key's bucket takes the new cell, its TAT within `now + tau` of the new cell;
no other key's bucket changes. -/
theorem setKeyQuota_of_cell_ne {limiter : KeyedRateLimiter κ} {key : κ} {quota : Quota}
    (hchanged : ∀ state, limiter.statePerKey key = some state → state.cell ≠ Cell.fromQuota quota)
    (now : UInt64) :
    ((limiter.setKeyQuota key quota now).stateOf key).cell = Cell.fromQuota quota ∧
      ((limiter.setKeyQuota key quota now).stateOf key).tatNanos.toNat ≤
        now.toNat + (Cell.fromQuota quota).tauNanos.toNat ∧
      ∀ key', key' ≠ key → (limiter.setKeyQuota key quota now).stateOf key' = limiter.stateOf key' := by
  rw [setKeyQuota]
  cases hstate : limiter.statePerKey key with
  | none =>
    dsimp only
    rw [stateOf_update_self]
    exact ⟨rfl, Nat.zero_le _, fun key' hne ↦ stateOf_update_of_ne limiter _ hne⟩
  | some state =>
    have hne : ¬(state.cell.tauNanos = (Cell.fromQuota quota).tauNanos ∧
        state.cell.tNanos = (Cell.fromQuota quota).tNanos) := by
      rintro ⟨htau, ht⟩
      exact hchanged state hstate (by cases hcell : state.cell; cases hcell ▸ htau; simp_all)
    dsimp only
    rw [if_neg hne, stateOf_update_self]
    refine ⟨rfl, ?_, fun key' hne ↦ stateOf_update_of_ne limiter _ hne⟩
    -- the TAT is clamped to the saturated `now + tau`
    change (min state.tatNanos _).toNat ≤ _
    rw [UInt64.toNat_min, toNat_saturatingAddU64]
    omega

end KeyedRateLimiter

/-! ## Quotas that do not divide

Four tokens every 10 ns truncate the emission interval to 2 ns, so a full bucket holds five
charges of one token at one instant.  Four tokens every 3 ns truncate it to zero: every charge
costs nothing and is admitted. -/

/-- `Quota::n_every(4, 10 ns)`. -/
def burstQuota : Quota := ⟨4, by decide, 10⟩

/-- `Quota::n_every(4, 3 ns)`. -/
def freeQuota : Quota := ⟨4, by decide, 3⟩

theorem consumeAll_freeQuota (k : ℕ) :
    (RateLimiter.new freeQuota).consumeAll (List.replicate k (0, 1)) =
      (RateLimiter.new freeQuota, k) := by
  induction k with
  | zero => rfl
  | succ k ih =>
    rw [List.replicate_succ', RateLimiter.consumeAll_append_singleton, ih]
    rfl

theorem quota_burst_exceeds_max_tokens :
    ((RateLimiter.new burstQuota).consumeAll (List.replicate 5 (100, 1))).2 = 5 ∧
      ∀ k, ((RateLimiter.new freeQuota).consumeAll (List.replicate k (0, 1))).2 = k := by
  refine ⟨by decide, fun k ↦ ?_⟩
  rw [consumeAll_freeQuota]

end VertexSwarm.Net
