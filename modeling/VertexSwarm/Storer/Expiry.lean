import VertexSwarm.Storer.Radius

/-!
# Batch expiry

`storer/src/expiry.rs`.  A batch is expired once its value is at most the postage context's total
amount, and its stamped entries must leave the reserve.  Two paths evict them through
`evict_batch(batch, None, EVICT_BATCH_MAX)`: the `Expired` event (`on_expired_event`: evict, then
run `acknowledge`, the batch store's removal) and the reconciliation sweep (`run`: evict every
expired batch still in the store).

The sweep is sound: against an unchanged store, `k` sweeps take `k * EVICT_BATCH_MAX` entries from
each expired batch and touch no other (`sweeps_batchCount`).  The event path is not: it evicts once,
capped, and then acknowledges, so a batch holding more than `EVICT_BATCH_MAX` entries leaves the
store with entries still in the reserve, where no sweep will see them again.
-/

namespace VertexSwarm.Storer

open BigEndian Postage Saturating

/-- `EVICT_BATCH_MAX`: the most entries one `evict_batch` call of the sweep evicts from a batch. -/
def evictBatchMax : UInt64 := 10000

/-- `expired_batches`: the ids of the batches whose value is at most the total amount, in order. -/
def expiredBatches (batches : List (BatchId × ℕ)) (totalAmount : ℕ) : List BatchId :=
  (batches.filter (fun pair ↦ pair.2 ≤ totalAmount)).map Prod.fst

/-- `SweepReport`. -/
structure SweepReport where
  evictedBatches : List BatchId
  evictedEntries : ℕ
deriving DecidableEq

/-- What the sweep reads of the batch store: the total amount of its postage context, its batch
ids in iteration order, and the value of the batch under an id.  Backend errors are not
modelled. -/
structure BatchStore where
  totalAmount : ℕ
  batchIds : List BatchId
  get : BatchId → Option ℕ

/-- The store without a batch, as a removal leaves it. -/
def BatchStore.remove (store : BatchStore) (batch : BatchId) : BatchStore :=
  ⟨store.totalAmount, store.batchIds.filter (· ≠ batch),
    fun id ↦ if id = batch then none else store.get id⟩

/-- The reserve verb the sweep calls, `evict_batch`, over a reserve state `σ` with errors `ε`.  A
call that fails leaves no state behind. -/
structure ReserveStore (σ ε : Type) where
  evictBatch : σ → BatchId → Option Bin → UInt64 → Except ε (ℕ × σ)

/-- `DbReserve`'s `evict_batch`; its backend is infallible here. -/
def DbReserve.reserveStore (ctx : ReserveContext) : ReserveStore DbReserve Empty :=
  ⟨fun reserve batch upToBin max ↦ .ok (reserve.evictBatch ctx batch (upToBin.map Bin.toUInt8) max)⟩

section Sweep

variable {σ ε β : Type}

/-- The loop of `run` over the expired ids: evict the first `EVICT_BATCH_MAX` entries of each,
reporting a batch that shed any; an eviction error ends the sweep, the evictions before it
committed. -/
def sweepExpired (reserve : ReserveStore σ ε) :
    List BatchId → SweepReport → σ → Except ε SweepReport × σ
  | [], report, state => (.ok report, state)
  | id :: ids, report, state =>
    match reserve.evictBatch state id none evictBatchMax with
    | .error e => (.error e, state)
    | .ok (removed, state') =>
      sweepExpired reserve ids
        (if 0 < removed then
          ⟨report.evictedBatches ++ [id], saturatingAddNat report.evictedEntries removed⟩
        else report) state'

/-- The expired ids a sweep visits: the store's batches, in order, whose value is at most the
total amount. -/
def BatchStore.expiredIds (store : BatchStore) : List BatchId :=
  expiredBatches (store.batchIds.filterMap (fun id ↦ (store.get id).map (fun value ↦ (id, value))))
    store.totalAmount

/-- `ExpirySweep::run`: the reconciliation sweep. -/
def ExpirySweep.run (batches : BatchStore) (reserve : ReserveStore σ ε) (state : σ) :
    Except ε SweepReport × σ :=
  sweepExpired reserve batches.expiredIds ⟨[], 0⟩ state

/-- `ExpirySweep::evict_expired_batch`: one capped eviction of the whole batch. -/
def ExpirySweep.evictExpiredBatch (reserve : ReserveStore σ ε) (state : σ) (batch : BatchId) :
    Except ε (ℕ × σ) :=
  reserve.evictBatch state batch none evictBatchMax

/-- `ExpirySweep::on_expired_event`: evict the batch, then run `acknowledge`, the batch store's
removal (a move of the store state `β`), only once the eviction succeeded.  Returns the result, the
store and the reserve. -/
def ExpirySweep.onExpiredEvent (reserve : ReserveStore σ ε) (acknowledge : β → Except ε β)
    (store : β) (state : σ) (batch : BatchId) : Except ε ℕ × β × σ :=
  match ExpirySweep.evictExpiredBatch reserve state batch with
  | .error e => (.error e, store, state)
  | .ok (removed, state') =>
    match acknowledge store with
    | .error e => (.error e, store, state')
    | .ok store' => (.ok removed, store', state')

end Sweep

/-! ## Sweeping a `DbReserve` -/

section DbSweep

variable (ctx : ReserveContext)

/-- One turn of the sweep loop over a `DbReserve`: evict the head batch, then sweep the rest. -/
theorem sweepExpired_cons (id : BatchId) (ids : List BatchId) (report : SweepReport)
    (reserve : DbReserve) :
    ∃ report', sweepExpired (DbReserve.reserveStore ctx) (id :: ids) report reserve =
      sweepExpired (DbReserve.reserveStore ctx) ids report'
        (reserve.evictBatch ctx id none evictBatchMax).2 :=
  ⟨_, rfl⟩

/-- The sweep loop keeps the invariant and takes `EVICT_BATCH_MAX` entries from a batch per
listing, and nothing from an unlisted one.  By induction over the ids. -/
theorem sweepExpired_batchCount (ids : List BatchId) :
    ∀ (report : SweepReport) (reserve : DbReserve), ReserveInv ctx reserve →
      ReserveInv ctx (sweepExpired (DbReserve.reserveStore ctx) ids report reserve).2 ∧
        ∀ batch, (sweepExpired (DbReserve.reserveStore ctx) ids report reserve).2.batchCount batch =
          reserve.batchCount batch -
            min (reserve.batchCount batch) (evictBatchMax.toNat * ids.count batch) := by
  induction ids with
  | nil => exact fun _ _ inv ↦ ⟨inv, fun batch ↦ by simp [sweepExpired]⟩
  | cons id ids ih =>
    intro report reserve inv
    obtain ⟨report', hcons⟩ := sweepExpired_cons ctx id ids report reserve
    obtain ⟨-, hcounts⟩ := inv.evictBatch_none id evictBatchMax
    obtain ⟨hinv', hcounts'⟩ := ih report' _ (inv.evictBatch id none evictBatchMax)
    rw [hcons]
    refine ⟨hinv', fun batch ↦ ?_⟩
    rw [hcounts', hcounts batch, List.count_cons]
    by_cases hbatch : batch = id
    · -- the listed batch lost its first cap here and the rest in the tail
      subst hbatch
      simp only [beq_self_eq_true, ↓reduceIte]
      rw [Nat.mul_add, Nat.mul_one]
      omega
    · simp [hbatch, Ne.symm hbatch]

/-- `k` sweeps against one store. -/
def sweeps (batches : BatchStore) (k : ℕ) (reserve : DbReserve) : DbReserve :=
  (fun reserve ↦ (ExpirySweep.run batches (DbReserve.reserveStore ctx) reserve).2)^[k] reserve

/-- Sweeps against an unchanged store take, per sweep, `EVICT_BATCH_MAX` entries from each batch it
lists as expired and still held, and nothing from any other batch: after `k` sweeps a batch listed
`m` times has lost `min(its count, k * m * EVICT_BATCH_MAX)` entries.  By induction over the
sweeps. -/
theorem sweeps_batchCount (batches : BatchStore) (k : ℕ) (reserve : DbReserve)
    (inv : ReserveInv ctx reserve) :
    ReserveInv ctx (sweeps ctx batches k reserve) ∧
      ∀ batch, (sweeps ctx batches k reserve).batchCount batch =
        reserve.batchCount batch -
          min (reserve.batchCount batch) (k * evictBatchMax.toNat * batches.expiredIds.count batch) := by
  induction k with
  | zero => exact ⟨inv, fun batch ↦ by simp [sweeps]⟩
  | succ k ih =>
    obtain ⟨hinv, hcounts⟩ := ih
    obtain ⟨hinv', hcounts'⟩ := sweepExpired_batchCount ctx batches.expiredIds ⟨[], 0⟩ _ hinv
    have hstep : sweeps ctx batches (k + 1) reserve =
        (sweepExpired (DbReserve.reserveStore ctx) batches.expiredIds ⟨[], 0⟩
          (sweeps ctx batches k reserve)).2 := by
      rw [sweeps, Function.iterate_succ_apply']
      rfl
    refine ⟨hstep ▸ hinv', fun batch ↦ ?_⟩
    rw [hstep, hcounts', hcounts batch, Nat.add_mul, Nat.add_mul, Nat.one_mul]
    omega

end DbSweep

/-! ## The event path -/

section Event

variable (ctx : ReserveContext) {β : Type}

/-- On a `DbReserve`, an `Expired` event evicts once, capped at `EVICT_BATCH_MAX`, and then
acknowledges. -/
theorem onExpiredEvent_reserveStore (acknowledge : β → Except Empty β) (store : β) {store' : β}
    (hack : acknowledge store = .ok store') (reserve : DbReserve) (batch : BatchId) :
    ExpirySweep.onExpiredEvent (DbReserve.reserveStore ctx) acknowledge store reserve batch =
      (.ok (reserve.evictBatch ctx batch none evictBatchMax).1, store',
        (reserve.evictBatch ctx batch none evictBatchMax).2) := by
  simp [ExpirySweep.onExpiredEvent, ExpirySweep.evictExpiredBatch, DbReserve.reserveStore, hack]

/-- An `Expired` event for a batch holding more than `EVICT_BATCH_MAX` entries acknowledges the
store's removal with `count - EVICT_BATCH_MAX` of them still in the reserve. -/
theorem onExpiredEvent_leaves (acknowledge : β → Except Empty β) (store : β) {store' : β}
    (hack : acknowledge store = .ok store') {reserve : DbReserve} (inv : ReserveInv ctx reserve)
    (batch : BatchId) :
    (ExpirySweep.onExpiredEvent (DbReserve.reserveStore ctx) acknowledge store reserve batch).1 =
        .ok (min (reserve.batchCount batch) evictBatchMax.toNat) ∧
      (ExpirySweep.onExpiredEvent (DbReserve.reserveStore ctx) acknowledge store reserve batch).2.1 =
        store' ∧
      (ExpirySweep.onExpiredEvent (DbReserve.reserveStore ctx) acknowledge store reserve
        batch).2.2.batchCount batch =
          reserve.batchCount batch - min (reserve.batchCount batch) evictBatchMax.toNat ∧
      ReserveInv ctx
        (ExpirySweep.onExpiredEvent (DbReserve.reserveStore ctx) acknowledge store reserve batch).2.2 := by
  obtain ⟨hevicted, hcounts⟩ := inv.evictBatch_none batch evictBatchMax
  rw [onExpiredEvent_reserveStore ctx acknowledge store hack]
  exact ⟨by rw [hevicted], rfl, by rw [hcounts batch, if_pos rfl], inv.evictBatch _ _ _⟩

end Event

/-- The batch the failing input expires. -/
def expiringBatch : BatchId := FixedBytes.ofNat 32 1

/-- A store holding only `expiringBatch`, whose value 0 is at most the total amount 0. -/
def expiringStore : BatchStore :=
  ⟨0, [expiringBatch], fun id ↦ if id = expiringBatch then some 0 else none⟩

/-- A reserve holding `EVICT_BATCH_MAX + 1` entries of `expiringBatch`. -/
def overfullBatch : DbReserve := batchFill expiringBatch 10001 20000

theorem expired_event_orphans_of_overfullBatch :
    (ExpirySweep.onExpiredEvent (DbReserve.reserveStore flatContext)
        (fun store ↦ .ok (store.remove expiringBatch)) expiringStore overfullBatch expiringBatch).1 =
      .ok 10000 ∧
    (ExpirySweep.onExpiredEvent (DbReserve.reserveStore flatContext)
        (fun store ↦ .ok (store.remove expiringBatch)) expiringStore overfullBatch
        expiringBatch).2.1 = expiringStore.remove expiringBatch ∧
    (expiringStore.remove expiringBatch).get expiringBatch = none ∧
    (ExpirySweep.onExpiredEvent (DbReserve.reserveStore flatContext)
        (fun store ↦ .ok (store.remove expiringBatch)) expiringStore overfullBatch
        expiringBatch).2.2.batchCount expiringBatch = 1 ∧
    ∀ k, (sweeps flatContext (expiringStore.remove expiringBatch) k
      (ExpirySweep.onExpiredEvent (DbReserve.reserveStore flatContext)
        (fun store ↦ .ok (store.remove expiringBatch)) expiringStore overfullBatch
        expiringBatch).2.2).batchCount expiringBatch = 1 := by
  -- name the filled reserve, so that no check unfolds its ten thousand puts
  have hreserve : batchFill expiringBatch 10001 20000 = overfullBatch := by
    unfold overfullBatch
    rfl
  have hfill := batchFill_spec expiringBatch 10001 (by norm_num) 20000
  rw [hreserve] at hfill
  obtain ⟨inv, -, -, hcount⟩ := hfill
  obtain ⟨hresult, hstore, hleft, hinv⟩ := onExpiredEvent_leaves flatContext
    (fun store ↦ .ok (store.remove expiringBatch)) expiringStore rfl inv expiringBatch
  have hevicted : min (10001 : ℕ) evictBatchMax.toNat = 10000 := rfl
  rw [hcount, hevicted] at hresult hleft
  refine ⟨hresult, hstore, by simp [BatchStore.remove], hleft, fun k ↦ ?_⟩
  -- the removed batch is no longer listed, so no sweep against the store evicts it
  have hunlisted : (expiringStore.remove expiringBatch).expiredIds = [] := by
    simp [BatchStore.expiredIds, BatchStore.remove, expiredBatches, expiringStore]
  obtain ⟨-, hsweeps⟩ := sweeps_batchCount flatContext (expiringStore.remove expiringBatch) k _ hinv
  rw [hsweeps, hunlisted, List.count_nil, Nat.mul_zero, Nat.min_zero, Nat.sub_zero]
  exact hleft

end VertexSwarm.Storer
