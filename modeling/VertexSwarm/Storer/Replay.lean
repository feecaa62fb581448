import VertexSwarm.Storer.Reachable

/-!
# Pull-sync replay over the reserve

A pull-syncer resumes a bin from a sequence number: `scan_bin_from(bin, s)` walks `Replay` from
`(bin, s)`.  This is sound because every admission into a bin takes the bin's counter plus one as
its sequence, the counter never goes down (eviction leaves it alone), and `Replay` holds exactly
one row per live entry at that entry's `(bin, binid)`.

`ReserveOp.assigned` names the sequence a verb hands out; `ReserveOp.assignments` lists those of a
run.  A run never hands out a `(bin, binid)` twice, and a scan yields exactly the live entries of
its bin from its start, in ascending sequence.
-/

namespace VertexSwarm.Storer

open BigEndian Postage OrderedTable DbReserve

/-- The `(bin, binid)` a verb hands out: that of the entry a committed, admitting put writes
(the bin's counter after the put). -/
def ReserveOp.assigned (ctx : ReserveContext) {β ε : Type} (admission : Admission β ε)
    (reserve : DbReserve) : ReserveOp → Option ReplayKey
  | .put chunk =>
    match reserve.putCommit ctx admission chunk with
    | .ok (.rejected, _) => none
    | .ok (_, tables) =>
      some ⟨ctx.bin chunk.chunk.address, (tables.binCounter.get ⟨ctx.bin chunk.chunk.address⟩).getD 0⟩
    | .error _ => none
  | _ => none

/-- The sequences a run hands out, in order. -/
def ReserveOp.assignments (ctx : ReserveContext) {β ε : Type} (admission : Admission β ε) :
    DbReserve → List ReserveOp → List ReplayKey
  | _, [] => []
  | reserve, op :: ops =>
    (ReserveOp.assigned ctx admission reserve op).toList ++
      ReserveOp.assignments ctx admission (ReserveOp.apply ctx admission reserve op) ops

/-- What one verb does to the bin sequences: no bin's counter goes down, and a verb that hands
out `(bin, binid)` admitted an entry at it, with `binid` one past the bin's previous counter,
which becomes the counter. -/
structure SequenceStep (ctx : ReserveContext) {β ε : Type} (admission : Admission β ε)
    (reserve : DbReserve) (op : ReserveOp) : Prop where
  cursor_le : ∀ bin,
    (reserve.binCursor bin).toNat ≤ ((ReserveOp.apply ctx admission reserve op).binCursor bin).toNat
  assigned_next : ∀ {key}, ReserveOp.assigned ctx admission reserve op = some key →
    key.binid.toNat = (reserve.binCursor key.bin).toNat + 1 ∧
      (ReserveOp.apply ctx admission reserve op).binCursor key.bin = key.binid ∧
      ∃ chunk stamp, op = .put chunk ∧ chunk.stamp = some stamp ∧
        key.bin = ctx.bin chunk.chunk.address ∧
        (ReserveOp.apply ctx admission reserve op).tables.entry.get (admittedKey ctx stamp chunk.chunk) =
          some ⟨key.bin, key.binid, stamp⟩

section Step

variable (ctx : ReserveContext) {β ε : Type} (admission : Admission β ε)

theorem putTx_admits {ctx : ReserveContext} {tables tables' : Tables} {stamp : Stamp} {chunk : AnyChunk}
    {outcome : PutOutcome} (htx : putTx ctx tables stamp chunk = .ok (outcome, tables'))
    (hnotRejected : outcome ≠ .rejected) :
    ∃ next, next.toNat = ((tables.binCounter.get ⟨ctx.bin chunk.address⟩).getD 0).toNat + 1 ∧
      tables'.binCounter = tables.binCounter.put ⟨ctx.bin chunk.address⟩ next ∧
      tables'.entry.get (admittedKey ctx stamp chunk) = some ⟨ctx.bin chunk.address, next, stamp⟩ := by
  rcases putTx_cases ctx htx with ⟨rfl, -⟩ | ⟨-, -, next, hnext, rfl⟩ |
      ⟨occupant, -, -, -, next, hnext, rfl⟩
  · exact absurd rfl hnotRejected
  · exact ⟨next, toNat_of_nextBinid hnext, rfl, by simp [writeAdmitted_entry_get]⟩
  · -- the displaced rows' deletion leaves the counters as they were
    refine ⟨next, ?_, ?_, by simp [writeAdmitted_entry_get]⟩
    · rw [toNat_of_nextBinid hnext, dropDisplaced_binCounter]
    · rw [writeAdmitted_binCounter, dropDisplaced_binCounter]

theorem put_sequence (reserve : DbReserve) (chunk : CachedChunk) :
    (ReserveOp.assigned ctx admission reserve (.put chunk) = none ∧
      (reserve.put ctx admission chunk).2.tables.binCounter = reserve.tables.binCounter) ∨
    ∃ stamp next, chunk.stamp = some stamp ∧
      ReserveOp.assigned ctx admission reserve (.put chunk) = some ⟨ctx.bin chunk.chunk.address, next⟩ ∧
      next.toNat = (reserve.binCursor (ctx.bin chunk.chunk.address)).toNat + 1 ∧
      (reserve.put ctx admission chunk).2.tables.binCounter =
        reserve.tables.binCounter.put ⟨ctx.bin chunk.chunk.address⟩ next ∧
      (reserve.put ctx admission chunk).2.tables.entry.get (admittedKey ctx stamp chunk.chunk) =
        some ⟨ctx.bin chunk.chunk.address, next, stamp⟩ := by
  cases hcommit : putCommit ctx admission reserve chunk with
  | error e => exact Or.inl ⟨by simp [ReserveOp.assigned, hcommit], by simp [DbReserve.put, hcommit]⟩
  | ok result =>
    obtain ⟨outcome, tables⟩ := result
    obtain ⟨stamp, hstamp, htx⟩ := putCommit_eq_ok ctx admission hcommit
    by_cases hrejected : outcome = .rejected
    · -- a rejection writes nothing
      subst hrejected
      have htables : tables = reserve.tables := by
        rcases putTx_cases ctx htx with ⟨-, h⟩ | ⟨-, h, -⟩ | ⟨-, -, -, h, -⟩
        · exact h
        · cases h
        · cases h
      exact Or.inl ⟨by simp [ReserveOp.assigned, hcommit], by simp [DbReserve.put, hcommit, htables]⟩
    · obtain ⟨next, hnext, hcounter, hentry⟩ := putTx_admits htx hrejected
      refine Or.inr ⟨stamp, next, hstamp, ?_, hnext, by simp [DbReserve.put, hcommit, hcounter],
        by simp [DbReserve.put, hcommit, hentry]⟩
      cases outcome with
      | rejected => exact absurd rfl hrejected
      | admitted => simp [ReserveOp.assigned, hcommit, hcounter]
      | restamped => simp [ReserveOp.assigned, hcommit, hcounter]

/-- Every verb but `put` hands out nothing and leaves the counters. -/
theorem evict_sequence (reserve : DbReserve) {op : ReserveOp} (hop : ∀ chunk, op ≠ .put chunk) :
    ReserveOp.assigned ctx admission reserve op = none ∧
      (ReserveOp.apply ctx admission reserve op).tables.binCounter = reserve.tables.binCounter := by
  refine ⟨?_, ?_⟩
  · cases op with
    | put chunk => exact absurd rfl (hop chunk)
    | _ => rfl
  · rcases ReserveOp.apply_eq_evictEntries ctx admission reserve hop with hsame | ⟨targets, hevict⟩
    · rw [hsame]
    · rw [hevict, evictEntries_binCounter]

theorem binCursor_put_counter {reserve reserve' : DbReserve} {bin : UInt8} {next : UInt64}
    (h : reserve'.tables.binCounter = reserve.tables.binCounter.put ⟨bin⟩ next) (bin' : UInt8) :
    reserve'.binCursor bin' = if bin' = bin then next else reserve.binCursor bin' := by
  unfold binCursor
  rw [h, get_put]
  split
  · next hbin =>
    rw [BinKey.mk.injEq] at hbin
    simp [hbin]
  · next hbin =>
    have hne : bin' ≠ bin := fun h ↦ hbin (by rw [h])
    simp [hne]

/-- Every verb, from every state, is a `SequenceStep`. -/
theorem sequenceStep (reserve : DbReserve) (op : ReserveOp) :
    SequenceStep ctx admission reserve op := by
  by_cases hput : ∃ chunk, op = .put chunk
  · obtain ⟨chunk, rfl⟩ := hput
    rcases put_sequence ctx admission reserve chunk with ⟨hnone, hcounter⟩ |
        ⟨stamp, next, hstamp, hassigned, hnext, hcounter, hentry⟩
    · refine ⟨fun bin ↦ ?_, fun h ↦ by rw [hnone] at h; cases h⟩
      simp only [ReserveOp.apply, binCursor, hcounter, le_refl]
    · refine ⟨fun bin ↦ ?_, fun h ↦ ?_⟩
      · simp only [ReserveOp.apply, binCursor_put_counter hcounter bin]
        split
        · next hbin => subst hbin; omega
        · exact le_refl _
      · rw [hassigned, Option.some.injEq] at h
        subst h
        refine ⟨hnext, ?_, chunk, stamp, rfl, hstamp, rfl, hentry⟩
        simp [ReserveOp.apply, binCursor_put_counter hcounter]
  · have hop : ∀ chunk, op ≠ .put chunk := fun chunk h ↦ hput ⟨chunk, h⟩
    obtain ⟨hnone, hcounter⟩ := evict_sequence ctx admission reserve hop
    refine ⟨fun bin ↦ ?_, fun h ↦ by rw [hnone] at h; cases h⟩
    simp only [binCursor, hcounter, le_refl]

theorem binCursor_le_run :
    ∀ (ops : List ReserveOp) (reserve : DbReserve) (bin : UInt8),
      (reserve.binCursor bin).toNat ≤ ((ReserveOp.run ctx admission reserve ops).binCursor bin).toNat
  | [], _, _ => le_refl _
  | op :: ops, reserve, bin =>
    ((sequenceStep ctx admission reserve op).cursor_le bin).trans (binCursor_le_run ops _ bin)

theorem assignments_bounds :
    ∀ (ops : List ReserveOp) (reserve : DbReserve), ∀ key ∈ ReserveOp.assignments ctx admission reserve ops,
      (reserve.binCursor key.bin).toNat < key.binid.toNat ∧
        key.binid.toNat ≤ ((ReserveOp.run ctx admission reserve ops).binCursor key.bin).toNat
  | [], _, key, hkey => by simp [ReserveOp.assignments] at hkey
  | op :: ops, reserve, key, hkey => by
    have hstep := sequenceStep ctx admission reserve op
    rw [ReserveOp.assignments, List.mem_append] at hkey
    rcases hkey with hfirst | hrest
    · -- handed out by this verb: one past the counter, which it becomes
      rw [Option.mem_toList] at hfirst
      obtain ⟨hnext, hcursor, -⟩ := hstep.assigned_next hfirst
      refine ⟨by omega, ?_⟩
      have hlater := binCursor_le_run ctx admission ops (ReserveOp.apply ctx admission reserve op) key.bin
      rw [hcursor] at hlater
      exact hlater
    · obtain ⟨hlow, hhigh⟩ := assignments_bounds ops _ key hrest
      exact ⟨lt_of_le_of_lt (hstep.cursor_le key.bin) hlow, hhigh⟩

/-- No `(bin, binid)` is handed out twice over a run, evictions included. -/
theorem assignments_nodup :
    ∀ (ops : List ReserveOp) (reserve : DbReserve),
      (ReserveOp.assignments ctx admission reserve ops).Nodup
  | [], _ => List.nodup_nil
  | op :: ops, reserve => by
    rw [ReserveOp.assignments]
    cases hassigned : ReserveOp.assigned ctx admission reserve op with
    | none => exact assignments_nodup ops _
    | some key =>
      have hstep := sequenceStep ctx admission reserve op
      obtain ⟨-, hcursor, -⟩ := hstep.assigned_next hassigned
      refine List.nodup_cons.mpr ⟨fun hmem ↦ ?_, assignments_nodup ops _⟩
      -- every later sequence of this bin is past the counter this one left
      have hlater := (assignments_bounds ctx admission ops _ key hmem).1
      rw [hcursor] at hlater
      exact lt_irrefl _ hlater

end Step

/-! ## Scanning a bin -/

/-- The item a scan reports for a `Replay` row. -/
def BinScanItem.ofRow (row : ReplayKey × ReplayValue) : BinScanItem :=
  ⟨row.1.binid, row.2.address, row.2.batchId, row.2.stampHash⟩

/-- A scan walks exactly the `Replay` rows of its bin from its start, in key order: the seek
lands on `(bin, start)` and past it the bin byte only grows. -/
theorem scanBinFrom_eq_filter (reserve : DbReserve) (bin : UInt8) (startSeq : UInt64) :
    reserve.scanBinFrom bin startSeq =
      (reserve.tables.replay.rows.filter
        (fun row ↦ row.1.bin = bin ∧ startSeq ≤ row.1.binid)).map BinScanItem.ofRow := by
  unfold scanBinFrom
  rw [seek_takeWhile_eq_filter]
  · congr 1
    apply List.filter_congr
    intro row _
    rw [Bool.eq_iff_iff]
    simp only [ReplayKey.le_iff, decide_eq_true_eq]
    constructor
    · rintro ⟨hlt | ⟨hbin, hle⟩, hbin'⟩
      · rw [UInt8.lt_iff_toNat_lt, hbin'] at hlt
        exact absurd hlt (lt_irrefl _)
      · exact ⟨hbin', hle⟩
    · rintro ⟨hbin, hle⟩
      exact ⟨Or.inr ⟨hbin.symm, hle⟩, hbin⟩
  · -- past the seek key, a row of a later bin is followed only by rows of later bins
    intro a b hseek hab ha
    simp only [decide_eq_false_iff_not] at ha ⊢
    rw [ReplayKey.le_iff] at hseek
    rw [ReplayKey.lt_iff] at hab
    have habove : bin < a.1.bin := by
      rcases hseek with hlt | ⟨hbin, -⟩
      · exact hlt
      · exact absurd hbin.symm ha
    intro hb
    rw [UInt8.lt_iff_toNat_lt] at habove hab
    rcases hab with hlt | ⟨hbin, -⟩
    · rw [hb] at hlt
      omega
    · rw [hb] at hbin
      exact ha hbin

/-- Over the invariant, a scan yields exactly the live entries of its bin from its start
sequence, in strictly ascending sequence (so each once). -/
theorem TablesInv.scanBinFrom {ctx : ReserveContext} {reserve : DbReserve}
    (inv : TablesInv ctx reserve.tables) (bin : UInt8) (startSeq : UInt64) :
    ((reserve.scanBinFrom bin startSeq).map BinScanItem.seq).Pairwise (· < ·) ∧
      ∀ item, item ∈ reserve.scanBinFrom bin startSeq ↔
        ∃ key value, reserve.tables.entry.get key = some value ∧ value.bin = bin ∧
          startSeq ≤ value.binid ∧ item = ⟨value.binid, key.addr, key.batch, key.stampHash⟩ := by
  rw [scanBinFrom_eq_filter]
  constructor
  · -- the rows come sorted by key, and within one bin the key order is the sequence order
    rw [List.map_map, List.pairwise_map]
    refine (reserve.tables.replay.sorted.filter _).imp_of_mem (fun ha hb hab ↦ ?_)
    simp only [List.mem_filter, decide_eq_true_eq] at ha hb
    rw [ReplayKey.lt_iff, ha.2.1, hb.2.1] at hab
    rcases hab with hlt | ⟨-, hlt⟩
    · exact absurd hlt (UInt8.lt_irrefl _)
    · exact hlt
  · intro item
    simp only [List.mem_map, List.mem_filter, decide_eq_true_eq]
    constructor
    · rintro ⟨⟨replayKey, row⟩, ⟨hrow, hbin, hstart⟩, rfl⟩
      obtain ⟨key, value, hentry, hnamed⟩ := inv.entry_of_replay (get_eq_some_iff.mpr hrow)
      obtain ⟨chunkType, hreplay⟩ := inv.replay_of_entry hentry
      rw [hnamed, get_eq_some_iff.mpr hrow, Option.some.injEq] at hreplay
      subst hnamed hreplay
      exact ⟨key, value, hentry, hbin, hstart, rfl⟩
    · rintro ⟨key, value, hentry, hbin, hstart, rfl⟩
      obtain ⟨chunkType, hreplay⟩ := inv.replay_of_entry hentry
      exact ⟨(value.replayKey, ⟨key.addr, key.batch, key.stampHash, chunkType⟩),
        ⟨get_eq_some_iff.mp hreplay, hbin, hstart⟩, rfl⟩

/-- Pull-sync replay over every run from freshly created tables: each verb raises no counter
but that of the bin it admits into, to exactly the sequence it hands out, one past the old
counter; no `(bin, binid)` is handed out twice; every `Replay` sequence lies within its bin's
counter; and `scan_bin_from(bin, s)` yields exactly the live entries of `bin` with sequence at
least `s`, in strictly ascending sequence. -/
theorem replay_sequences_of_run (ctx : ReserveContext) {β ε : Type} (admission : Admission β ε)
    (capacity : UInt64) (ops : List ReserveOp) (hsep : HashSeparates ctx (ReserveOp.stamps ops)) :
    (∀ pre op post, ops = pre ++ op :: post →
      SequenceStep ctx admission (ReserveOp.run ctx admission (DbReserve.new Tables.empty capacity) pre) op) ∧
    (ReserveOp.assignments ctx admission (DbReserve.new Tables.empty capacity) ops).Nodup ∧
    (∀ replayKey row,
      (ReserveOp.run ctx admission (DbReserve.new Tables.empty capacity) ops).tables.replay.get replayKey =
        some row →
      1 ≤ replayKey.binid.toNat ∧ replayKey.binid.toNat ≤
        ((ReserveOp.run ctx admission (DbReserve.new Tables.empty capacity) ops).binCursor
          replayKey.bin).toNat) ∧
    ∀ bin startSeq,
      (((ReserveOp.run ctx admission (DbReserve.new Tables.empty capacity) ops).scanBinFrom bin
        startSeq).map BinScanItem.seq).Pairwise (· < ·) ∧
      ∀ item, item ∈ (ReserveOp.run ctx admission (DbReserve.new Tables.empty capacity) ops).scanBinFrom
          bin startSeq ↔
        ∃ key value,
          (ReserveOp.run ctx admission (DbReserve.new Tables.empty capacity) ops).tables.entry.get key =
            some value ∧ value.bin = bin ∧ startSeq ≤ value.binid ∧
          item = ⟨value.binid, key.addr, key.batch, key.stampHash⟩ := by
  have inv := (reserveInv_of_run ctx admission capacity ops hsep).tables
  refine ⟨fun pre op _ _ ↦ sequenceStep ctx admission _ op, assignments_nodup ctx admission ops _,
    fun replayKey row h ↦ inv.binid_bounds h, fun bin startSeq ↦ inv.scanBinFrom bin startSeq⟩

theorem replay_sequences_of_restampRun :
    HashSeparates batchHashContext (ReserveOp.stamps restampRun) ∧
      (ReserveOp.assignments batchHashContext openAdmission (DbReserve.new Tables.empty 1)
        restampRun).Nodup :=
  ⟨restampRun_separates,
    (replay_sequences_of_run batchHashContext openAdmission 1 restampRun restampRun_separates).2.1⟩

end VertexSwarm.Storer
