import VertexSwarm.Net.RateLimiter
import VertexSwarm.Lib.Projection

/-!
# The keyed rate limiter over whole runs

`net/ratelimiter/src/lib.rs`, `KeyedRateLimiter`.  One limiter serves every connection of a
protocol (the hive and storer behaviours key theirs by peer id), so the calls on different keys
interleave in any order, and `retain_recent` sweeps all keys at once.  A run is a list of calls,
each at the clock reading it takes; a charge and a peek answer with a verdict.

Two things hold over every run.  The keys do not interfere: the verdicts of the calls that can
touch a key, and the key's bucket at the end, are those of the run of these calls alone
(`run_keys_isolated`, from the projection lemma `Projection.runLog_filter`).  And while the
clock does not go back and no call re-quotas or clears the key, the key is charged exactly as a
lone `RateLimiter` is charged by the key's own charges: a sweep drops only a bucket whose TAT
has passed, and such a bucket admits as a fresh one does (`check_of_tat_le`).  So the window
bound of one bucket holds for each key, whatever the other keys do
(`keyed_charges_refine_lone_bucket`).
-/

namespace VertexSwarm.Net

open Saturating Projection

/-- A bucket whose TAT has passed admits as a fresh one: the verdict and the new TAT are those
of a TAT of zero. -/
theorem check_of_tat_le {cell : Cell} {tat now : UInt64} {n : UInt32} (h : tat ≤ now) :
    check cell tat now n = check cell 0 now n := by
  unfold check
  dsimp only
  by_cases hlarge : cell.tauNanos < saturatingMulU64 cell.tNanos n.toUInt64
  · rw [if_pos hlarge, if_pos hlarge]
  rw [if_neg hlarge, if_neg hlarge]
  rw [UInt64.lt_iff_toNat_lt, toNat_saturatingMulU64] at hlarge
  rw [UInt64.le_iff_toNat_le] at h
  -- with the cost within the capacity, a passed TAT never makes the charge wait
  have hsoon : ∀ tat' : UInt64, tat'.toNat ≤ now.toNat →
      ¬now < saturatingSubU64 (saturatingAddU64 tat' (saturatingMulU64 cell.tNanos n.toUInt64))
        cell.tauNanos := by
    intro tat' htat'
    rw [UInt64.lt_iff_toNat_lt, toNat_saturatingSubU64, toNat_saturatingAddU64,
      toNat_saturatingMulU64]
    omega
  have hmax : max now tat = max now 0 := by
    apply UInt64.toNat_inj.mp
    rw [UInt64.toNat_max, UInt64.toNat_max, UInt64.toNat_zero]
    omega
  rw [if_neg (hsoon tat h), if_neg (hsoon 0 (by simp)), hmax]

/-- Two TATs that no charge from the clock reading `c` on can tell apart: equal, or both
passed. -/
def Interchangeable (c tat tat' : UInt64) : Prop := tat = tat' ∨ tat ≤ c ∧ tat' ≤ c

theorem Interchangeable.mono {c c' tat tat' : UInt64} (h : Interchangeable c tat tat')
    (hc : c ≤ c') : Interchangeable c' tat tat' :=
  h.imp_right fun ⟨htat, htat'⟩ ↦ ⟨UInt64.le_trans htat hc, UInt64.le_trans htat' hc⟩

theorem Interchangeable.check_eq {c tat tat' now : UInt64} (h : Interchangeable c tat tat')
    (hnow : c ≤ now) (cell : Cell) (n : UInt32) : check cell tat now n = check cell tat' now n := by
  rcases h with rfl | ⟨htat, htat'⟩
  · rfl
  · rw [check_of_tat_le (UInt64.le_trans htat hnow), check_of_tat_le (UInt64.le_trans htat' hnow)]

theorem RateLimiter.consumeAll_append (limiter : RateLimiter) (calls calls' : List (UInt64 × UInt32)) :
    limiter.consumeAll (calls ++ calls') =
      (((limiter.consumeAll calls).1.consumeAll calls').1,
        (limiter.consumeAll calls).2 + ((limiter.consumeAll calls).1.consumeAll calls').2) := by
  induction calls' using List.reverseRecOn with
  | nil =>
    rw [List.append_nil]
    rfl
  | append_singleton calls' call ih =>
    rw [← List.append_assoc, consumeAll_append_singleton, ih, consumeAll_append_singleton]
    rcases tryConsumeN_cases ((limiter.consumeAll calls).1.consumeAll calls').1 call.1 call.2 with
      ⟨_, -, hresult⟩ | ⟨_, -, hresult⟩
    · rw [hresult, Nat.add_assoc]
    · rw [hresult]

namespace KeyedRateLimiter

variable {κ : Type} [DecidableEq κ]

/-! ## Calls and runs -/

/-- A call on the limiter, with the clock reading it takes (`init.elapsed()` in nanoseconds).
`try_consume` is `try_consume_n` of one token. -/
inductive Op (κ : Type) where
  | tryConsumeN (key : κ) (now : UInt64) (n : UInt32)
  | tryPeek (key : κ) (now : UInt64) (n : UInt32)
  | setKeyQuota (key : κ) (quota : Quota) (now : UInt64)
  | clear (key : κ)
  | retainRecent (now : UInt64)

namespace Op

/-- The key a call names; the sweep names none. -/
def key? : Op κ → Option κ
  | tryConsumeN key _ _ | tryPeek key _ _ | setKeyQuota key _ _ | clear key => some key
  | retainRecent _ => none

/-- The clock reading a call takes; `clear` reads no clock. -/
def now? : Op κ → Option UInt64
  | tryConsumeN _ now _ | tryPeek _ now _ | setKeyQuota _ _ now | retainRecent now => some now
  | clear _ => none

/-- Whether a call can touch the key's bucket: a call on the key, or the sweep. -/
def touches (key : κ) (op : Op κ) : Bool := op.key?.all (· = key)

/-- Whether a call replaces or drops the key's bucket by name. -/
def reshapes (key : κ) : Op κ → Bool
  | setKeyQuota key' _ _ | clear key' => key' = key
  | _ => false

end Op

/-- One call: the verdict of a charge or a peek, and the limiter after the call. -/
def step (limiter : KeyedRateLimiter κ) :
    Op κ → Option (Except RateLimitedErr Unit) × KeyedRateLimiter κ
  | .tryConsumeN key now n =>
    (some (limiter.tryConsumeN key now n).1, (limiter.tryConsumeN key now n).2)
  | .tryPeek key now n => (some (limiter.tryPeek key now n), limiter)
  | .setKeyQuota key quota now => (none, limiter.setKeyQuota key quota now)
  | .clear key => (none, limiter.clear key)
  | .retainRecent now => (none, limiter.retainRecent now)

/-- A run of calls: each call with its verdict, and the limiter after them. -/
def run (limiter : KeyedRateLimiter κ) (ops : List (Op κ)) :
    List (Op κ × Option (Except RateLimitedErr Unit)) × KeyedRateLimiter κ :=
  runLog step limiter ops

/-! ## Frame lemmas -/

@[simp]
theorem cell_tryConsumeN (limiter : KeyedRateLimiter κ) (key : κ) (now : UInt64) (n : UInt32) :
    (limiter.tryConsumeN key now n).2.cell = limiter.cell := by
  unfold tryConsumeN
  dsimp only
  split <;> rfl

@[simp]
theorem cell_setKeyQuota (limiter : KeyedRateLimiter κ) (key : κ) (quota : Quota) (now : UInt64) :
    (limiter.setKeyQuota key quota now).cell = limiter.cell := by
  unfold setKeyQuota
  dsimp only
  split
  · split_ifs <;> rfl
  · rfl

@[simp]
theorem cell_clear (limiter : KeyedRateLimiter κ) (key : κ) : (limiter.clear key).cell = limiter.cell :=
  rfl

omit [DecidableEq κ] in
@[simp]
theorem cell_retainRecent (limiter : KeyedRateLimiter κ) (now : UInt64) :
    (limiter.retainRecent now).cell = limiter.cell := rfl

@[simp]
theorem statePerKey_clear_self (limiter : KeyedRateLimiter κ) (key : κ) :
    (limiter.clear key).statePerKey key = none := by
  simp [clear]

omit [DecidableEq κ] in
@[simp]
theorem statePerKey_retainRecent (limiter : KeyedRateLimiter κ) (now : UInt64) (key : κ) :
    (limiter.retainRecent now).statePerKey key =
      (limiter.statePerKey key).filter fun state ↦ now < state.tatNanos := rfl

theorem cell_step (limiter : KeyedRateLimiter κ) (op : Op κ) :
    (step limiter op).2.cell = limiter.cell := by
  cases op <;> simp [step]

theorem statePerKey_tryConsumeN_of_ne (limiter : KeyedRateLimiter κ) {key key' : κ}
    (hne : key' ≠ key) (now : UInt64) (n : UInt32) :
    (limiter.tryConsumeN key now n).2.statePerKey key' = limiter.statePerKey key' := by
  unfold tryConsumeN
  dsimp only
  split <;> exact Function.update_of_ne hne _ _

theorem statePerKey_setKeyQuota_of_ne (limiter : KeyedRateLimiter κ) {key key' : κ}
    (hne : key' ≠ key) (quota : Quota) (now : UInt64) :
    (limiter.setKeyQuota key quota now).statePerKey key' = limiter.statePerKey key' := by
  unfold setKeyQuota
  dsimp only
  split
  · split_ifs
    · rfl
    · exact Function.update_of_ne hne _ _
  · exact Function.update_of_ne hne _ _

/-- Two limiters agree on a key: one default cell, and one bucket for the key. -/
def AgreeOn (key : κ) (limiter limiter' : KeyedRateLimiter κ) : Prop :=
  limiter.cell = limiter'.cell ∧ limiter.statePerKey key = limiter'.statePerKey key

omit [DecidableEq κ] in
theorem AgreeOn.stateOf_eq {key : κ} {limiter limiter' : KeyedRateLimiter κ}
    (h : AgreeOn key limiter limiter') : limiter.stateOf key = limiter'.stateOf key := by
  simp [stateOf, h.1, h.2]

theorem agreeOn_step_of_touches_eq_false {key : κ} (limiter : KeyedRateLimiter κ) {op : Op κ}
    (hop : op.touches key = false) : AgreeOn key (step limiter op).2 limiter := by
  refine ⟨cell_step limiter op, ?_⟩
  cases op with
  | tryConsumeN key' now n =>
    exact statePerKey_tryConsumeN_of_ne limiter (Ne.symm (by simpa [Op.touches, Op.key?] using hop))
      now n
  | tryPeek key' now n => rfl
  | setKeyQuota key' quota now =>
    exact statePerKey_setKeyQuota_of_ne limiter
      (Ne.symm (by simpa [Op.touches, Op.key?] using hop)) quota now
  | clear key' =>
    exact Function.update_of_ne (Ne.symm (by simpa [Op.touches, Op.key?] using hop)) _ _
  | retainRecent now => simp [Op.touches, Op.key?] at hop

theorem AgreeOn.step_of_touches_eq_false {key : κ} {limiter limiter' : KeyedRateLimiter κ}
    (h : AgreeOn key limiter limiter') {op : Op κ} (hop : op.touches key = false) :
    AgreeOn key (step limiter op).2 limiter' :=
  ⟨(cell_step limiter op).trans h.1, (agreeOn_step_of_touches_eq_false limiter hop).2.trans h.2⟩

theorem AgreeOn.step_of_touches_eq_true {key : κ} {limiter limiter' : KeyedRateLimiter κ}
    (h : AgreeOn key limiter limiter') {op : Op κ} (hop : op.touches key = true) :
    (step limiter op).1 = (step limiter' op).1 ∧
      AgreeOn key (step limiter op).2 (step limiter' op).2 := by
  cases op with
  | tryConsumeN key' now n =>
    obtain rfl : key' = key := by simpa [Op.touches, Op.key?] using hop
    simp only [step]
    unfold tryConsumeN
    rw [h.stateOf_eq]
    dsimp only
    split <;> exact ⟨rfl, h.1, by simp⟩
  | tryPeek key' now n =>
    obtain rfl : key' = key := by simpa [Op.touches, Op.key?] using hop
    refine ⟨?_, h⟩
    simp only [step, tryPeek, h.stateOf_eq]
  | setKeyQuota key' quota now =>
    obtain rfl : key = key' := (by simpa [Op.touches, Op.key?] using hop : key' = key).symm
    refine ⟨rfl, ?_⟩
    show AgreeOn key (limiter.setKeyQuota key quota now) (limiter'.setKeyQuota key quota now)
    unfold setKeyQuota
    rw [h.2]
    dsimp only
    split
    · split_ifs
      · exact h
      · exact ⟨h.1, by simp⟩
    · exact ⟨h.1, by simp⟩
  | clear key' =>
    obtain rfl : key' = key := by simpa [Op.touches, Op.key?] using hop
    exact ⟨rfl, h.1, by simp [step]⟩
  | retainRecent now => exact ⟨rfl, h.1, by simp [step, h.2]⟩

/-- The keys do not interfere.  In every run, the calls that can touch a key (the calls on it
and the sweeps) get the verdicts they would get if they were the only calls made, and the key's
bucket ends as it would then. -/
theorem run_keys_isolated (limiter : KeyedRateLimiter κ) (ops : List (Op κ)) (key : κ) :
    (limiter.run ops).1.filter (fun entry ↦ entry.1.touches key) =
        (limiter.run (ops.filter (Op.touches key))).1 ∧
      (limiter.run ops).2.statePerKey key =
        (limiter.run (ops.filter (Op.touches key))).2.statePerKey key := by
  have hrefl : AgreeOn key limiter limiter := ⟨rfl, rfl⟩
  exact (runLog_filter (fun _ _ _ hop h ↦ h.step_of_touches_eq_false hop)
    (fun _ _ _ hop h ↦ h.step_of_touches_eq_true hop) hrefl ops).imp_right And.right

/-! ## Each key against a lone bucket -/

/-- The tokens one logged call granted to the key. -/
def grantedBy (key : κ) : Op κ × Option (Except RateLimitedErr Unit) → ℕ
  | (.tryConsumeN key' _ n, some (.ok ())) => if key' = key then n.toNat else 0
  | _ => 0

/-- The tokens a run granted to the key: its admitted charges. -/
def grantedTo (key : κ) (log : List (Op κ × Option (Except RateLimitedErr Unit))) : ℕ :=
  (log.map (grantedBy key)).sum

/-- The key's charges among the calls, as `(now, n)`. -/
def chargesOf (key : κ) (ops : List (Op κ)) : List (UInt64 × UInt32) :=
  ops.filterMap fun op ↦ match op with
    | .tryConsumeN key' now n => if key' = key then some (now, n) else none
    | _ => none

/-- The lone bucket standing for the key: the default cell and the key's TAT. -/
def loneBucket (limiter : KeyedRateLimiter κ) (key : κ) : RateLimiter :=
  ⟨limiter.cell, (limiter.stateOf key).tatNanos⟩

/-- From the clock reading `c` on, the key's bucket stands for the lone bucket: both have the
default cell, and their TATs are interchangeable. -/
def Tracks (key : κ) (c : UInt64) (limiter : KeyedRateLimiter κ) (bucket : RateLimiter) : Prop :=
  bucket.cell = limiter.cell ∧ (limiter.stateOf key).cell = limiter.cell ∧
    Interchangeable c (limiter.stateOf key).tatNanos bucket.tatNanos

theorem grantedBy_tryConsumeN_of_ne {key key' : κ} (hne : key' ≠ key) (now : UInt64) (n : UInt32)
    (verdict : Option (Except RateLimitedErr Unit)) :
    grantedBy key (.tryConsumeN key' now n, verdict) = 0 :=
  match verdict with
  | none => rfl
  | some (.error _) => rfl
  | some (.ok ()) => if_neg hne

theorem grantedTo_run_cons (limiter : KeyedRateLimiter κ) (key : κ) (op : Op κ)
    (ops : List (Op κ)) :
    grantedTo key (limiter.run (op :: ops)).1 =
      grantedBy key (op, (step limiter op).1) + grantedTo key ((step limiter op).2.run ops).1 := by
  simp [run, grantedTo]

theorem chargesOf_cons (key : κ) (op : Op κ) (ops : List (Op κ)) :
    chargesOf key (op :: ops) = chargesOf key [op] ++ chargesOf key ops := by
  simp only [chargesOf, List.filterMap_cons, List.filterMap_nil]
  split <;> rfl

omit [DecidableEq κ] in
theorem Tracks.of_agreeOn {key : κ} {c c' : UInt64} {limiter limiter' : KeyedRateLimiter κ}
    {bucket : RateLimiter} (h : Tracks key c limiter bucket) (hc : c ≤ c')
    (hagree : AgreeOn key limiter' limiter) : Tracks key c' limiter' bucket := by
  obtain ⟨hbucket, hcell, htat⟩ := h
  refine ⟨hbucket.trans hagree.1.symm, ?_, ?_⟩
  · rw [hagree.stateOf_eq, hagree.1]
    exact hcell
  · rw [hagree.stateOf_eq]
    exact htat.mono hc

theorem Tracks.tryConsumeN {key : κ} {c now : UInt64} {limiter : KeyedRateLimiter κ}
    {bucket : RateLimiter} (h : Tracks key c limiter bucket) (hnow : c ≤ now) (n : UInt32) :
    (limiter.tryConsumeN key now n).1 = (bucket.tryConsumeN now n).1 ∧
      Tracks key now (limiter.tryConsumeN key now n).2 (bucket.tryConsumeN now n).2 := by
  obtain ⟨hbucket, hcell, htat⟩ := h
  have hcheck : check (limiter.stateOf key).cell (limiter.stateOf key).tatNanos now n =
      check bucket.cell bucket.tatNanos now n := by
    rw [hcell, ← hbucket]
    exact htat.check_eq hnow _ n
  unfold KeyedRateLimiter.tryConsumeN RateLimiter.tryConsumeN
  dsimp only
  rw [hcheck]
  split
  · -- admitted: both TATs move to the one new TAT
    refine ⟨rfl, hbucket, ?_, ?_⟩ <;> rw [stateOf_update_self]
    · exact hcell
    · exact .inl rfl
  · -- refused: the key's bucket is recorded as it was
    refine ⟨rfl, hbucket, ?_, ?_⟩ <;> rw [stateOf_update_self]
    · exact hcell
    · exact htat.mono hnow

omit [DecidableEq κ] in
/-- A sweep keeps the key's bucket standing for the lone bucket: it drops the bucket only when its
TAT has passed, and a fresh bucket is then interchangeable with it. -/
theorem Tracks.retainRecent {key : κ} {c now : UInt64} {limiter : KeyedRateLimiter κ}
    {bucket : RateLimiter} (h : Tracks key c limiter bucket) (hnow : c ≤ now) :
    Tracks key now (limiter.retainRecent now) bucket := by
  cases hstate : limiter.statePerKey key with
  | none => exact h.of_agreeOn hnow ⟨rfl, by simp [hstate]⟩
  | some state =>
    by_cases hkept : now < state.tatNanos
    · exact h.of_agreeOn hnow ⟨rfl, by simp [hstate, hkept]⟩
    · obtain ⟨hbucket, hcell, htat⟩ := h
      have hdropped : (limiter.retainRecent now).stateOf key = ⟨0, limiter.cell⟩ := by
        rw [stateOf, statePerKey_retainRecent, hstate, Option.filter_some,
          if_neg (by simpa using hkept)]
        rfl
      have hpassed : (limiter.stateOf key).tatNanos ≤ now := by
        simpa [stateOf, hstate] using UInt64.not_lt.mp hkept
      refine ⟨hbucket, by rw [hdropped]; rfl, ?_⟩
      rw [hdropped]
      refine .inr ⟨UInt64.zero_le, ?_⟩
      rcases htat with heq | ⟨-, hle⟩
      · exact heq ▸ hpassed
      · exact UInt64.le_trans hle hnow

theorem Tracks.step {key : κ} {c : UInt64} {limiter : KeyedRateLimiter κ} {bucket : RateLimiter}
    (h : Tracks key c limiter bucket) {op : Op κ} (hop : op.reshapes key = false)
    (hnow : ∀ t, op.now? = some t → c ≤ t) :
    grantedBy key (op, (KeyedRateLimiter.step limiter op).1) =
        (bucket.consumeAll (chargesOf key [op])).2 ∧
      Tracks key (op.now?.getD c) (KeyedRateLimiter.step limiter op).2
        (bucket.consumeAll (chargesOf key [op])).1 := by
  cases op with
  | tryConsumeN key' now n =>
    by_cases hkey : key' = key
    · subst hkey
      obtain ⟨hverdict, htracks⟩ := h.tryConsumeN (hnow now rfl) n
      have hcharges : chargesOf key' [.tryConsumeN key' now n] = [(now, n)] := by
        simp [chargesOf]
      rw [hcharges]
      -- the lone bucket's run of the one charge
      rcases RateLimiter.tryConsumeN_cases bucket now n with
        ⟨newTat, -, hresult⟩ | ⟨e, -, hresult⟩
      · rw [hresult] at hverdict htracks
        refine ⟨?_, ?_⟩
        · simp [KeyedRateLimiter.step, hverdict, grantedBy, RateLimiter.consumeAll, hresult]
        · simpa [KeyedRateLimiter.step, Op.now?, RateLimiter.consumeAll, hresult] using htracks
      · rw [hresult] at hverdict htracks
        refine ⟨?_, ?_⟩
        · simp [KeyedRateLimiter.step, hverdict, grantedBy, RateLimiter.consumeAll, hresult]
        · simpa [KeyedRateLimiter.step, Op.now?, RateLimiter.consumeAll, hresult] using htracks
    · have hcharges : chargesOf key [.tryConsumeN key' now n] = [] := by simp [chargesOf, hkey]
      have hagree := agreeOn_step_of_touches_eq_false limiter
        (show (Op.tryConsumeN key' now n : Op κ).touches key = false by
          simp [Op.touches, Op.key?, hkey])
      rw [hcharges]
      exact ⟨grantedBy_tryConsumeN_of_ne hkey now n _, h.of_agreeOn (hnow now rfl) hagree⟩
  | tryPeek key' now n => exact ⟨rfl, h.of_agreeOn (hnow now rfl) ⟨rfl, rfl⟩⟩
  | setKeyQuota key' quota now =>
    have hkey : key' ≠ key := by simpa [Op.reshapes] using hop
    have hagree := agreeOn_step_of_touches_eq_false limiter
      (show (Op.setKeyQuota key' quota now : Op κ).touches key = false by
        simp [Op.touches, Op.key?, hkey])
    exact ⟨rfl, h.of_agreeOn (hnow now rfl) hagree⟩
  | clear key' =>
    have hkey : key' ≠ key := by simpa [Op.reshapes] using hop
    have hagree := agreeOn_step_of_touches_eq_false limiter
      (show (Op.clear key' : Op κ).touches key = false by simp [Op.touches, Op.key?, hkey])
    exact ⟨rfl, h.of_agreeOn (UInt64.le_refl c) hagree⟩
  | retainRecent now => exact ⟨rfl, h.retainRecent (hnow now rfl)⟩

/-- Over a run whose clock does not go back and that never reshapes the key's bucket, the key is
granted what the lone bucket grants the key's charges.  By induction on the run, carrying
`Tracks` from each call's clock reading on. -/
theorem grantedTo_run_of_tracks {key : κ} :
    ∀ {ops : List (Op κ)} {limiter : KeyedRateLimiter κ} {bucket : RateLimiter} {c : UInt64},
      Tracks key c limiter bucket → (∀ op ∈ ops, op.reshapes key = false) →
      (∀ t ∈ ops.filterMap Op.now?, c ≤ t) → (ops.filterMap Op.now?).Pairwise (· ≤ ·) →
      grantedTo key (limiter.run ops).1 = (bucket.consumeAll (chargesOf key ops)).2
  | [], _, _, _, _, _, _, _ => rfl
  | op :: ops, limiter, bucket, c, h, hkept, hafter, hclock => by
    obtain ⟨hgranted, htracks⟩ := h.step (hkept op List.mem_cons_self)
      (fun t ht ↦ hafter t (by simp [ht]))
    -- the rest of the run reads the clock no earlier than this call
    have hrest : (∀ t ∈ ops.filterMap Op.now?, op.now?.getD c ≤ t) ∧
        (ops.filterMap Op.now?).Pairwise (· ≤ ·) := by
      cases hop : op.now? with
      | none =>
        simp only [List.filterMap_cons, hop] at hafter hclock
        exact ⟨hafter, hclock⟩
      | some t =>
        simp only [List.filterMap_cons, hop, List.pairwise_cons] at hclock
        exact hclock
    have ih := grantedTo_run_of_tracks htracks (fun op' hop' ↦ hkept op' (List.mem_cons_of_mem _ hop'))
      hrest.1 hrest.2
    rw [grantedTo_run_cons, chargesOf_cons, RateLimiter.consumeAll_append, hgranted, ih]

/-- Each key is charged as a lone bucket.  Over every run whose clock does not go back and that
never re-quotas or clears the key, from a limiter in which the key has the default cell, the
key is granted exactly the tokens a lone `RateLimiter` with the key's TAT grants the key's
own charges, whatever the other keys' calls and the sweeps in between.  So in any window of
`L` nanoseconds the key's grants cost at most `L + tau`. -/
theorem keyed_charges_refine_lone_bucket (limiter : KeyedRateLimiter κ) (key : κ)
    (ops : List (Op κ)) (hcell : (limiter.stateOf key).cell = limiter.cell)
    (hkept : ∀ op ∈ ops, op.reshapes key = false)
    (hclock : (ops.filterMap Op.now?).Pairwise (· ≤ ·)) :
    grantedTo key (limiter.run ops).1 =
        ((limiter.loneBucket key).consumeAll (chargesOf key ops)).2 ∧
      ∀ a L, (∀ call ∈ chargesOf key ops, a ≤ call.1.toNat ∧ call.1.toNat ≤ a + L) →
        a + L + limiter.cell.tauNanos.toNat < 2 ^ 64 - 1 →
        limiter.cell.tNanos.toNat * grantedTo key (limiter.run ops).1 ≤
          L + limiter.cell.tauNanos.toNat := by
  have htracks : Tracks key 0 limiter (limiter.loneBucket key) := ⟨rfl, hcell, .inl rfl⟩
  have hgranted := grantedTo_run_of_tracks htracks hkept (fun _ _ ↦ UInt64.zero_le) hclock
  refine ⟨hgranted, fun a L hwindow hfit ↦ ?_⟩
  rw [hgranted]
  exact RateLimiter.tNanos_mul_granted_le (limiter.loneBucket key) a L _ hwindow hfit

/-- Two peers under `Quota::n_every(4, 10 ns)`, with a sweep between their calls. -/
def twoPeerCalls : List (Op ℕ) :=
  [.tryConsumeN 0 100 1, .tryConsumeN 1 100 2, .retainRecent 150, .tryConsumeN 0 200 1,
    .tryPeek 1 250 1, .tryConsumeN 1 250 3, .tryConsumeN 0 300 1]

theorem keyed_charges_refine_lone_bucket_of_two_peers :
    ((new burstQuota : KeyedRateLimiter ℕ).stateOf 0).cell = (new burstQuota : KeyedRateLimiter ℕ).cell ∧
      (∀ op ∈ twoPeerCalls, op.reshapes 0 = false) ∧
      (twoPeerCalls.filterMap Op.now?).Pairwise (· ≤ ·) ∧
      grantedTo 0 ((new burstQuota : KeyedRateLimiter ℕ).run twoPeerCalls).1 =
        (((new burstQuota : KeyedRateLimiter ℕ).loneBucket 0).consumeAll
          (chargesOf 0 twoPeerCalls)).2 :=
  ⟨rfl, by decide, by decide,
    (keyed_charges_refine_lone_bucket (new burstQuota) 0 twoPeerCalls rfl (by decide)
      (by decide)).1⟩

end KeyedRateLimiter

end VertexSwarm.Net
