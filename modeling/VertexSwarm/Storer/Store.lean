import VertexSwarm.Lib.Checked
import VertexSwarm.Lib.NewestWins
import VertexSwarm.Storer.Tx

/-!
# The `DbReserve` store

`storer/src/db_reserve/store.rs`.  The reserve's state is its six tables, the in-memory size
counter of its `Reserve` and the configured capacity.  Every verb commits in one transaction,
so a verb is a function from state to state; a verb that fails aborts its transaction and
leaves the tables as they were.

`put` validates the stamp against its batch, arbitrates the `(batch, stampIndex)` slot
newest-wins, deletes a displaced entry's rows, assigns the next sequence of the bin and writes
the new entry's six rows.  The eviction verbs collect targets with a cursor over `Entry` or
`BatchGroup` and delete them through `evict_entries`.

The batch store and the admission validator are the postage crate's; `put` sees them through
`Admission`.  Backend (`redb`) errors are not modelled: the database is infallible here.
-/

namespace VertexSwarm.Storer

open BigEndian Postage Checked

/-- What `put` asks the postage crate: the batch a stamp references, and whether the stamp passes
validate-on-ingest for the address under that batch. -/
structure Admission (β ε : Type) where
  loadBatch : BatchId → Option β
  validate : Stamp → ChunkAddress → β → Except ε Unit

/-- The `reason` of a `SwarmError::InvalidChunk` that `put` raises. -/
inductive InvalidReason (ε : Type) where
  /-- "reserve put requires a stamp; a stampless put is invalid" -/
  | stampless
  /-- "stamp references unknown batch {batch}" -/
  | unknownBatch (batch : BatchId)
  /-- "stamp failed admission: {error}" -/
  | failedAdmission (error : ε)
deriving DecidableEq

/-- The errors of the reserve verbs. -/
inductive SwarmError (ε : Type) where
  | invalidChunk (address : Option ChunkAddress) (reason : InvalidReason ε)
  /-- "bin counter for bin {bin} exhausted u64::MAX", aborting the put's transaction. -/
  | binCounterExhausted (bin : UInt8)
deriving DecidableEq

/-- The verdict of a put's transaction. -/
inductive PutOutcome where
  | admitted
  | restamped
  | rejected
deriving DecidableEq

/-- A `DbReserve`: its tables, the in-memory size counter and the capacity. -/
structure DbReserve where
  tables : Tables
  count : ℕ
  capacity : UInt64

namespace DbReserve

variable (ctx : ReserveContext)

/-- `DbReserve::new`: the in-memory size starts at the persisted `Entry` count. -/
def new (tables : Tables) (capacity : UInt64) : DbReserve :=
  ⟨tables, tables.entry.count, capacity⟩

/-! ## Put -/

/-- The arbiter presentation of a stamped chunk. -/
def incomingOf (stamp : Stamp) (address : ChunkAddress) : IncomingStamp :=
  ⟨stamp.batch, stamp.stampIndex, stamp.timestampBytes, ctx.stampHash stamp, address⟩

/-- The tables after a displaced entry's rows are gone: its index rows and payload reference
are deleted under the displaced address's own proximity; the slot is left to be overwritten. -/
def dropDisplaced (tables : Tables) (batch : BatchId) : Option DisplacedEntry → Tables
  | some d => (deleteEntryRowsInTx tables (ctx.proximity d.address) ⟨batch, d.stampHash, d.address⟩).1
  | none => tables

/-- The writes of an admitted put once the next sequence `next` of the bin is known:
`BinCounter`, `Replay`, `Entry`, `BatchGroup`, the payload and the slot. -/
def writeAdmitted (tables : Tables) (stamp : Stamp) (chunk : AnyChunk) (next : UInt64) : Tables :=
  let hash := ctx.stampHash stamp
  let po := ctx.proximity chunk.address
  let bin := ctx.bin chunk.address
  { binCounter := tables.binCounter.put ⟨bin⟩ next
    replay := tables.replay.put ⟨bin, next⟩ ⟨chunk.address, stamp.batch, hash, chunk.chunkType⟩
    entry := tables.entry.put ⟨po, stamp.batch, hash, chunk.address⟩ ⟨bin, next, stamp⟩
    batchGroup := tables.batchGroup.put ⟨stamp.batch, po, chunk.address, hash⟩ ()
    payload := bumpOrInsertPayload tables.payload chunk.address chunk.typedBytes
    stampIndex := tables.stampIndex.put stamp.slot (incomingOf ctx stamp chunk.address).entry }

/-- The sequence the bin of `address` hands out next, or `none` once `u64::MAX` is spent. -/
def nextBinid (tables : Tables) (address : ChunkAddress) : Option UInt64 :=
  checkedAdd ((tables.binCounter.get ⟨ctx.bin address⟩).getD 0) 1

/-- The write transaction of `put`: newest-wins arbitration of the slot inside the
transaction, then on admission the displaced rows' deletion and the six writes. -/
def putTx (tables : Tables) (stamp : Stamp) (chunk : AnyChunk) :
    Except UInt8 (PutOutcome × Tables) :=
  let incoming := incomingOf ctx stamp chunk.address
  match Postage.decide (tables.stampIndex.get incoming.slot) incoming with
  | .rejected _ => .ok (.rejected, tables)
  | .admitted displaced =>
    let cleaned := dropDisplaced ctx tables incoming.batchId displaced
    match nextBinid ctx cleaned chunk.address with
    | none => .error (ctx.bin chunk.address)
    | some next =>
      .ok (if displaced.isSome then .restamped else .admitted, writeAdmitted ctx cleaned stamp chunk next)

variable {β ε : Type} (admission : Admission β ε)

/-- The part of `SwarmLocalStore::put` up to its commit: reject a stampless chunk, an unknown
batch and a stamp failing admission before any write, then run the write transaction. -/
def putCommit (reserve : DbReserve) (chunk : CachedChunk) :
    Except (SwarmError ε) (PutOutcome × Tables) :=
  let address := chunk.chunk.address
  match chunk.stamp with
  | none => .error (.invalidChunk (some address) .stampless)
  | some stamp =>
    match admission.loadBatch stamp.batch with
    | none => .error (.invalidChunk (some address) (.unknownBatch stamp.batch))
    | some batch =>
      match admission.validate stamp address batch with
      | .error e => .error (.invalidChunk (some address) (.failedAdmission e))
      | .ok () =>
        match putTx ctx reserve.tables stamp chunk.chunk with
        | .error bin => .error (.binCounterExhausted bin)
        | .ok result => .ok result

/-- `SwarmLocalStore::put`: commit, then count an admitted entry.  A restamp is size-neutral and
a rejected re-presentation writes nothing; a refused put or an aborted transaction leaves the
reserve as it was. -/
def put (reserve : DbReserve) (chunk : CachedChunk) : Except (SwarmError ε) Unit × DbReserve :=
  match putCommit ctx admission reserve chunk with
  | .error e => (.error e, reserve)
  | .ok (outcome, tables) =>
    (.ok (), { reserve with
      tables
      count := if outcome = .admitted then reserve.count + 1 else reserve.count })

/-! ## Reads -/

/-- The `Entry` rows at one proximity order: seek to `(po, 0, 0, 0)` and walk while the po stays
(the zero batch, hash and address are the least keys of the prefix). -/
def entriesAt (entry : OrderedTable EntryKey EntryValue) (po : UInt8) : List (EntryKey × EntryValue) :=
  (entry.seek ⟨po, ⊥, ⊥, ⊥⟩).takeWhile (fun row ↦ row.1.po = po)

/-- `contains`: present iff a payload row exists. -/
def contains (reserve : DbReserve) (address : ChunkAddress) : Bool :=
  (reserve.tables.payload.get address).isSome

/-- `get`: the payload body with the newest stamp among the address's entries (the first of the
greatest timestamp in key order); a payload with no entry reads as absent.  Decoding the body
into a chunk is the primitives crate's and is left out. -/
def get (reserve : DbReserve) (address : ChunkAddress) : Option (List UInt8 × Stamp) := do
  let payload ← reserve.tables.payload.get address
  let best ← NewestWins.newest (fun stamp : Stamp ↦ stamp.timestamp.toNat)
    (((entriesAt reserve.tables.entry (ctx.proximity address)).filter
      (fun row ↦ row.1.addr = address)).map (fun row ↦ row.2.stamp))
  pure (payload.typedBytes, best)

/-- `ReserveStore::count`: the authoritative `Entry` count. -/
def entryCount (reserve : DbReserve) : ℕ := reserve.tables.entry.count

/-- `count_in`: the entries at one proximity order. -/
def countIn (reserve : DbReserve) (po : UInt8) : ℕ := (entriesAt reserve.tables.entry po).length

/-- `bin_cursor`: the last sequence a bin handed out, 0 for a bin never written. -/
def binCursor (reserve : DbReserve) (bin : UInt8) : UInt64 :=
  (reserve.tables.binCounter.get ⟨bin⟩).getD 0

/-- One item of a bin scan. -/
structure BinScanItem where
  seq : UInt64
  address : ChunkAddress
  batchId : BatchId
  stampHash : B256
deriving DecidableEq

/-- `scan_bin_from`: seek `Replay` to `(bin, start_seq)` and stream forward while the key's bin
stays equal. -/
def scanBinFrom (reserve : DbReserve) (bin : UInt8) (startSeq : UInt64) : List BinScanItem :=
  ((reserve.tables.replay.seek ⟨bin, startSeq⟩).takeWhile (fun row ↦ row.1.bin = bin)).map
    (fun row ↦ ⟨row.1.binid, row.2.address, row.2.batchId, row.2.stampHash⟩)

/-! ## Eviction -/

/-- The eviction target of an `Entry` key. -/
def targetOfEntry (key : EntryKey) : EvictTarget := ⟨key.batch, key.stampHash, key.addr⟩

/-- The eviction target of a `BatchGroup` key. -/
def targetOfGroup (key : BatchGroupKey) : EvictTarget := ⟨key.batch, key.stampHash, key.addr⟩

/-- One turn of `evict_entries`'s loop: delete a target, counting it if it existed. -/
def deleteStep (acc : Tables × ℕ) (target : EvictTarget) : Tables × ℕ :=
  let deleted := deleteEntryInTx ctx acc.1 target
  (deleted.1, if deleted.2 then acc.2 + 1 else acc.2)

/-- The loop of `evict_entries`: delete each target in turn, counting those that existed. -/
def deleteEntriesInTx (tables : Tables) (targets : List EvictTarget) : Tables × ℕ :=
  targets.foldl (deleteStep ctx) (tables, 0)

/-- `evict_entries`: delete the targets in one transaction and lower the in-memory size by the
number removed (`on_removed_n`, saturating). -/
def evictEntries (reserve : DbReserve) (targets : List EvictTarget) : ℕ × DbReserve :=
  if targets.isEmpty then (0, reserve)
  else
    let deleted := deleteEntriesInTx ctx reserve.tables targets
    (deleted.2, { reserve with tables := deleted.1, count := reserve.count - deleted.2 })

/-- `evict_to_capacity`: evict the overflow over capacity from the front of `Entry` (the
furthest entries). -/
def evictToCapacity (reserve : DbReserve) : ℕ × DbReserve :=
  let overflow := reserve.count - reserve.capacity.toNat
  if overflow = 0 then (0, reserve)
  else
    let targets := (reserve.tables.entry.rows.take overflow).map (fun row ↦ targetOfEntry row.1)
    if targets.isEmpty then (0, reserve) else evictEntries ctx reserve targets

/-- `evict_furthest`: evict the first `Entry` row, the one of smallest proximity. -/
def evictFurthest (reserve : DbReserve) : Option ChunkAddress × DbReserve :=
  match reserve.tables.entry.first with
  | some row => (some row.1.addr, (evictEntries ctx reserve [targetOfEntry row.1]).2)
  | none => (none, reserve)

/-- `evict_from_bin`: evict up to `max` entries at the bin's proximity order. -/
def evictFromBin (reserve : DbReserve) (bin : UInt8) (max : UInt64) : ℕ × DbReserve :=
  if max = 0 then (0, reserve)
  else
    evictEntries ctx reserve
      (((entriesAt reserve.tables.entry bin).take max.toNat).map (fun row ↦ targetOfEntry row.1))

/-- The `BatchGroup` rows of a batch, walked from `(batch, 0, 0, 0)` and stopping at the first
po at or past the bound. -/
def batchRows (batchGroup : OrderedTable BatchGroupKey Unit) (batch : BatchId)
    (bound : Option UInt8) : List (BatchGroupKey × Unit) :=
  (batchGroup.seek ⟨batch, 0, ⊥, ⊥⟩).takeWhile
    (fun row ↦ row.1.batch = batch && !bound.any (fun b ↦ b ≤ row.1.po))

/-- `evict_batch`: evict up to `max` of a batch's entries, only those in bins shallower than
`up_to_bin` when it is given. -/
def evictBatch (reserve : DbReserve) (batch : BatchId) (upToBin : Option UInt8) (max : UInt64) :
    ℕ × DbReserve :=
  if max = 0 then (0, reserve)
  else
    evictEntries ctx reserve
      (((batchRows reserve.tables.batchGroup batch upToBin).take max.toNat).map
        (fun row ↦ targetOfGroup row.1))

/-- `entries_for_address`: every stamped entry of an address, within its po prefix. -/
def entriesForAddress (reserve : DbReserve) (address : ChunkAddress) : List EvictTarget :=
  ((entriesAt reserve.tables.entry (ctx.proximity address)).filter
    (fun row ↦ row.1.addr = address)).map (fun row ↦ targetOfEntry row.1)

/-- `remove`: evict every stamped entry of the address. -/
def remove (reserve : DbReserve) (address : ChunkAddress) : DbReserve :=
  (evictEntries ctx reserve (entriesForAddress ctx reserve address)).2

/-! ## What each verb can do -/

theorem incomingOf_slot (stamp : Stamp) (address : ChunkAddress) :
    (incomingOf ctx stamp address).slot = stamp.slot := rfl

theorem incomingOf_timestamp (stamp : Stamp) (address : ChunkAddress) :
    (incomingOf ctx stamp address).timestamp = stamp.timestampBytes := rfl

theorem incomingOf_batchId (stamp : Stamp) (address : ChunkAddress) :
    (incomingOf ctx stamp address).batchId = stamp.batch := rfl

/-- Everything a committed put transaction can do: reject and write nothing, admit into an
empty slot, or displace the slot's strictly older occupant. -/
theorem putTx_cases {tables tables' : Tables} {stamp : Stamp} {chunk : AnyChunk}
    {outcome : PutOutcome} (h : putTx ctx tables stamp chunk = .ok (outcome, tables')) :
    (outcome = .rejected ∧ tables' = tables) ∨
    (tables.stampIndex.get stamp.slot = none ∧ outcome = .admitted ∧
      ∃ next, nextBinid ctx tables chunk.address = some next ∧
        tables' = writeAdmitted ctx tables stamp chunk next) ∨
    (∃ occupant, tables.stampIndex.get stamp.slot = some occupant ∧
      occupant.timestamp.toNat < stamp.timestampBytes.toNat ∧ outcome = .restamped ∧
      ∃ next,
        nextBinid ctx (dropDisplaced ctx tables stamp.batch (some (displacedOf occupant)))
          chunk.address = some next ∧
        tables' = writeAdmitted ctx (dropDisplaced ctx tables stamp.batch (some (displacedOf occupant)))
          stamp chunk next) := by
  simp only [putTx, incomingOf_slot] at h
  cases hslot : tables.stampIndex.get stamp.slot with
  | none =>
    rw [hslot, decide_none] at h
    simp only at h
    split at h
    · cases h
    · next next hnext =>
      simp only [Option.isSome_none, Bool.false_eq_true, ↓reduceIte, Except.ok.injEq,
        Prod.mk.injEq] at h
      exact Or.inr (Or.inl ⟨rfl, h.1.symm, next, hnext, h.2.symm⟩)
  | some occupant =>
    rw [hslot, decide_some, incomingOf_timestamp, incomingOf_batchId] at h
    by_cases hnewer : stamp.timestampBytes.toNat ≤ occupant.timestamp.toNat
    · -- a re-presentation no newer than the occupant writes nothing
      simp only [if_pos hnewer, Except.ok.injEq, Prod.mk.injEq] at h
      exact Or.inl ⟨h.1.symm, h.2.symm⟩
    · simp only [if_neg hnewer] at h
      split at h
      · cases h
      · next next hnext =>
        simp only [Option.isSome_some, ↓reduceIte, Except.ok.injEq, Prod.mk.injEq] at h
        exact Or.inr (Or.inr ⟨occupant, rfl, not_le.mp hnewer, h.1.symm, next, hnext, h.2.symm⟩)

variable {β ε : Type} (admission : Admission β ε) in
theorem putCommit_eq_ok {reserve : DbReserve} {chunk : CachedChunk} {result : PutOutcome × Tables}
    (h : putCommit ctx admission reserve chunk = .ok result) :
    ∃ stamp, chunk.stamp = some stamp ∧ putTx ctx reserve.tables stamp chunk.chunk = .ok result := by
  cases hstamp : chunk.stamp with
  | none => simp [putCommit, hstamp] at h
  | some stamp =>
    refine ⟨stamp, rfl, ?_⟩
    cases hbatch : admission.loadBatch stamp.batch with
    | none => simp [putCommit, hstamp, hbatch] at h
    | some batch =>
      cases hvalid : admission.validate stamp chunk.chunk.address batch with
      | error e => simp [putCommit, hstamp, hbatch, hvalid] at h
      | ok u =>
        cases htx : putTx ctx reserve.tables stamp chunk.chunk with
        | error bin => simp [putCommit, hstamp, hbatch, hvalid, htx] at h
        | ok result' => simpa [putCommit, hstamp, hbatch, hvalid, htx] using h

variable {β ε : Type} (admission : Admission β ε) in
theorem put_cases (reserve : DbReserve) (chunk : CachedChunk) :
    (reserve.put ctx admission chunk).2 = reserve ∨
    ∃ stamp outcome tables, chunk.stamp = some stamp ∧
      putTx ctx reserve.tables stamp chunk.chunk = .ok (outcome, tables) ∧
      (reserve.put ctx admission chunk).2 =
        { reserve with tables, count := if outcome = .admitted then reserve.count + 1 else reserve.count } := by
  cases hcommit : putCommit ctx admission reserve chunk with
  | error e => exact Or.inl (by simp [put, hcommit])
  | ok result =>
    obtain ⟨stamp, hstamp, htx⟩ := putCommit_eq_ok ctx admission hcommit
    exact Or.inr ⟨stamp, result.1, result.2, hstamp, htx, by simp [put, hcommit]⟩

theorem dropDisplaced_binCounter (tables : Tables) (batch : BatchId)
    (displaced : Option DisplacedEntry) :
    (dropDisplaced ctx tables batch displaced).binCounter = tables.binCounter := by
  cases displaced with
  | none => rfl
  | some d => exact deleteEntryRowsInTx_binCounter _ _ _

/-- Eviction never touches a bin's counter, so a pull-sync cursor resumes across it. -/
theorem evictEntries_binCounter (reserve : DbReserve) (targets : List EvictTarget) :
    (reserve.evictEntries ctx targets).2.tables.binCounter = reserve.tables.binCounter := by
  have hfold : ∀ (targets : List EvictTarget) (acc : Tables × ℕ),
      (targets.foldl (deleteStep ctx) acc).1.binCounter = acc.1.binCounter := by
    intro targets
    induction targets with
    | nil => exact fun _ ↦ rfl
    | cons target targets ih =>
      intro acc
      rw [List.foldl_cons, ih]
      exact deleteEntryInTx_binCounter ctx acc.1 target
  unfold evictEntries
  split
  · rfl
  · exact hfold targets (reserve.tables, 0)

/-- Every eviction verb deletes a list of targets through `evict_entries`, or does nothing. -/
theorem evictEntries_of_evictToCapacity (reserve : DbReserve) :
    (reserve.evictToCapacity ctx).2 = reserve ∨
    ∃ targets, (reserve.evictToCapacity ctx).2 = (reserve.evictEntries ctx targets).2 := by
  unfold evictToCapacity
  dsimp only
  split_ifs
  · exact Or.inl rfl
  · exact Or.inl rfl
  · exact Or.inr ⟨_, rfl⟩

end DbReserve

/-! ## Runs -/

/-- The state-changing verbs of a reserve. -/
inductive ReserveOp where
  | put (chunk : CachedChunk)
  | remove (address : ChunkAddress)
  | evictFurthest
  | evictFromBin (bin : UInt8) (max : UInt64)
  | evictBatch (batch : BatchId) (upToBin : Option UInt8) (max : UInt64)
  | evictToCapacity

namespace ReserveOp

variable (ctx : ReserveContext) {β ε : Type} (admission : Admission β ε)

/-- The committed state after one verb. -/
def apply (reserve : DbReserve) : ReserveOp → DbReserve
  | put chunk => (reserve.put ctx admission chunk).2
  | remove address => reserve.remove ctx address
  | evictFurthest => (reserve.evictFurthest ctx).2
  | evictFromBin bin max => (reserve.evictFromBin ctx bin max).2
  | evictBatch batch upToBin max => (reserve.evictBatch ctx batch upToBin max).2
  | evictToCapacity => (reserve.evictToCapacity ctx).2

/-- The committed state after verbs run one after another. -/
def run (reserve : DbReserve) (ops : List ReserveOp) : DbReserve :=
  ops.foldl (apply ctx admission) reserve

/-- Every verb but `put` deletes some targets through `evict_entries`, or does nothing. -/
theorem apply_eq_evictEntries (reserve : DbReserve) {op : ReserveOp}
    (hop : ∀ chunk, op ≠ put chunk) :
    apply ctx admission reserve op = reserve ∨
    ∃ targets, apply ctx admission reserve op = (reserve.evictEntries ctx targets).2 := by
  cases op with
  | put chunk => exact absurd rfl (hop chunk)
  | remove address => exact Or.inr ⟨_, rfl⟩
  | evictFurthest =>
    simp only [apply, DbReserve.evictFurthest]
    split
    · exact Or.inr ⟨_, rfl⟩
    · exact Or.inl rfl
  | evictFromBin bin max =>
    simp only [apply, DbReserve.evictFromBin]
    split
    · exact Or.inl rfl
    · exact Or.inr ⟨_, rfl⟩
  | evictBatch batch upToBin max =>
    simp only [apply, DbReserve.evictBatch]
    split
    · exact Or.inl rfl
    · exact Or.inr ⟨_, rfl⟩
  | evictToCapacity => exact DbReserve.evictEntries_of_evictToCapacity ctx reserve

@[simp]
theorem run_nil (reserve : DbReserve) : run ctx admission reserve [] = reserve := rfl

@[simp]
theorem run_append_singleton (reserve : DbReserve) (ops : List ReserveOp) (op : ReserveOp) :
    run ctx admission reserve (ops ++ [op]) = apply ctx admission (run ctx admission reserve ops) op := by
  simp [run]

end ReserveOp

end VertexSwarm.Storer
