import VertexSwarm.Storer.Footprint

/-!
# What each eviction verb removes

Every eviction verb collects distinct live `Entry` keys and deletes their targets through
`evict_entries`.  Such a deletion removes exactly the `Entry` rows under the collected keys,
reports their number and keeps the representation invariant (`ReserveInv.evicts`); every other
entry then keeps its row, and through the invariant its `BatchGroup`, `Replay`, payload and
stamp-index rows (`Evicts.kept`).

What is left per verb is which keys it collects, read off the sorted tables: the first `max`
keys of a bin (`evict_from_bin`), the first `max` keys of a batch's group walk, bounded below a
bin or not (`evict_batch`), the smallest `count - capacity` keys (`evict_to_capacity`), the
smallest key (`evict_furthest`), and every key of an address (`remove`).
-/

namespace VertexSwarm.Storer

open BigEndian Postage OrderedTable DbReserve

variable {ctx : ReserveContext} {tables : Tables} {reserve : DbReserve}

/-! ## Deleting distinct live entries -/

/-- A verb's result removes exactly the `Entry` rows under `keys`, reports their number, and
keeps the representation invariant. -/
structure Evicts (ctx : ReserveContext) (reserve : DbReserve) (keys : List EntryKey)
    (result : ℕ × DbReserve) : Prop where
  count_eq : result.1 = keys.length
  get_entry : ∀ key, result.2.tables.entry.get key =
    if key ∈ keys then none else reserve.tables.entry.get key
  inv : ReserveInv ctx result.2

/-- Deleting the targets of distinct live entries deletes exactly their `Entry` rows.  By
induction over the keys, each erase leaving the later keys live. -/
theorem TablesInv.foldl_deleteStep_entry (keys : List EntryKey) :
    ∀ (tables : Tables) (count : ℕ), TablesInv ctx tables → keys.Nodup →
      (∀ key ∈ keys, (tables.entry.get key).isSome) →
      ((keys.map targetOfEntry).foldl (DbReserve.deleteStep ctx) (tables, count)).1.entry =
        keys.foldl (fun entry key ↦ entry.delete key) tables.entry := by
  induction keys with
  | nil => simp
  | cons key keys ih =>
    intro tables count inv hnodup hlive
    obtain ⟨value, hget⟩ := Option.isSome_iff_exists.mp (hlive key List.mem_cons_self)
    have hlive' := tables.live_of_erase value hnodup hlive
    rw [List.nodup_cons] at hnodup
    rw [List.map_cons, List.foldl_cons, inv.deleteStep_targetOfEntry hget, List.foldl_cons,
      ih (tables.erase key value) (count + 1) (inv.erase hget) hnodup.2 hlive', Tables.erase_entry]

/-- `evict_entries` over the targets of distinct live entries evicts exactly those entries. -/
theorem ReserveInv.evicts (inv : ReserveInv ctx reserve) {keys : List EntryKey}
    (hnodup : keys.Nodup) (hlive : ∀ key ∈ keys, (reserve.tables.entry.get key).isSome) :
    Evicts ctx reserve keys (reserve.evictEntries ctx (keys.map targetOfEntry)) := by
  refine ⟨(inv.evictEntries_countP hnodup hlive fun _ ↦ true).1, fun key ↦ ?_,
    (inv.evictEntries _).1⟩
  unfold DbReserve.evictEntries
  split
  · next hempty =>
    have hnil : keys = [] := by simpa using hempty
    simp [hnil]
  · simp only [DbReserve.deleteEntriesInTx]
    rw [inv.tables.foldl_deleteStep_entry keys reserve.tables 0 hnodup hlive, get_foldl_delete]

/-- An entry a verb did not collect keeps its `Entry` row, and with it its `BatchGroup` row, its
`Replay` row, its payload row and its stamp's slot. -/
theorem Evicts.kept {keys : List EntryKey} {result : ℕ × DbReserve} (h : Evicts ctx reserve keys result)
    {key : EntryKey} {value : EntryValue} (hkey : key ∉ keys)
    (hget : reserve.tables.entry.get key = some value) :
    result.2.tables.entry.get key = some value ∧
      (result.2.tables.batchGroup.get key.groupKey).isSome ∧
      (∃ chunkType, result.2.tables.replay.get value.replayKey =
        some ⟨key.addr, key.batch, key.stampHash, chunkType⟩) ∧
      (result.2.tables.payload.get key.addr).isSome ∧
      result.2.tables.stampIndex.get value.stamp.slot =
        some ⟨value.stamp.timestampBytes, key.stampHash, key.addr⟩ := by
  have hkept : result.2.tables.entry.get key = some value := by
    rw [h.get_entry, if_neg hkey, hget]
  have hpayload : refcntView result.2.tables.payload key.addr =
      some (entriesOf result.2.tables.entry key.addr) := by
    rw [h.inv.tables.refcnt, expectedRefcnt,
      if_neg (Nat.one_le_iff_ne_zero.mp (one_le_entriesOf hkept))]
  refine ⟨hkept, (h.inv.tables.group_iff key).mpr (by simp [hkept]),
    h.inv.tables.replay_of_entry hkept, ?_, h.inv.tables.slot_of_entry hkept⟩
  simpa [refcntView] using congrArg Option.isSome hpayload

/-! ## The keys each verb collects -/

theorem BatchGroupKey.po_le_of_le {key key' : BatchGroupKey} (h : key ≤ key')
    (hbatch : key.batch = key'.batch) : key.po.toNat ≤ key'.po.toNat := by
  have hfields : key.fields ≤ key'.fields := h
  rw [BatchGroupKey.fields, BatchGroupKey.fields, Prod.Lex.toLex_le_toLex, hbatch] at hfields
  rcases hfields with hlt | ⟨-, hrest⟩
  · exact absurd hlt (lt_irrefl _)
  · exact Prod.Lex.monotone_fst _ _ hrest

theorem batchRows_some_eq_filter (batchGroup : OrderedTable BatchGroupKey Unit) (batch : BatchId)
    (bound : UInt8) :
    batchRows batchGroup batch (some bound) =
      batchGroup.rows.filter (fun row ↦ row.1.batch = batch ∧ row.1.po < bound) := by
  unfold batchRows
  rw [seek_takeWhile_eq_filter]
  · apply List.filter_congr
    intro row _
    by_cases hbatch : row.1.batch = batch
    · have hle : (⟨batch, 0, ⊥, ⊥⟩ : BatchGroupKey) ≤ row.1 :=
        hbatch ▸ BatchGroupKey.seekKey_le row.1
      simp [hbatch, hle]
    · simp [hbatch]
  · -- past the seek key, a row of a later batch or a deeper bin is followed only by such rows
    intro a b hseek hab ha
    by_cases hb : b.1.batch = batch
    · -- then `a` is of the batch too, in a bin no deeper than `b`'s
      have hfrom : batch.toNat ≤ a.1.batch.toNat := BatchGroupKey.batch_le_of_le hseek
      have hgrow : a.1.batch.toNat ≤ b.1.batch.toNat := BatchGroupKey.batch_le_of_le hab.le
      have ha' : a.1.batch = batch := FixedBytes.toNat_injective (by rw [hb] at hgrow; omega)
      have hpo := BatchGroupKey.po_le_of_le hab.le (ha'.trans hb.symm)
      simp [ha'] at ha
      simp [hb]
      rw [UInt8.le_iff_toNat_le] at ha ⊢
      omega
    · simp [hb]

/-- The keys `evict_to_capacity` collects: the first `count - capacity` `Entry` keys. -/
def capacityTargets (reserve : DbReserve) : List EntryKey :=
  (reserve.tables.entry.rows.take (reserve.count - reserve.capacity.toNat)).map Prod.fst

/-- The keys `remove` collects: the entries of the address within its proximity's rows. -/
def addressKeys (ctx : ReserveContext) (reserve : DbReserve) (address : ChunkAddress) :
    List EntryKey :=
  ((entriesAt reserve.tables.entry (ctx.proximity address)).filter
    (fun row ↦ row.1.addr = address)).map Prod.fst

theorem evictToCapacity_eq_evictEntries (ctx : ReserveContext) (reserve : DbReserve) :
    reserve.evictToCapacity ctx =
      reserve.evictEntries ctx ((capacityTargets reserve).map targetOfEntry) := by
  unfold DbReserve.evictToCapacity capacityTargets
  dsimp only
  rw [List.map_map]
  split_ifs with hzero hempty
  · -- no overflow: the first zero rows collect nothing
    simp [hzero, DbReserve.evictEntries]
  · simp only [DbReserve.evictEntries, Function.comp_def]
    rw [if_pos hempty]
  · rfl

theorem remove_eq_evictEntries (ctx : ReserveContext) (reserve : DbReserve) (address : ChunkAddress) :
    reserve.remove ctx address =
      (reserve.evictEntries ctx ((addressKeys ctx reserve address).map targetOfEntry)).2 := by
  rw [DbReserve.remove, DbReserve.entriesForAddress, addressKeys, List.map_map]
  rfl

/-! ## The collected keys read off the sorted tables -/

/-- `evict_from_bin` collects the first `max` keys of the bin, in key order. -/
theorem binTargets_eq_take (entry : OrderedTable EntryKey EntryValue) (bin : UInt8) (max : UInt64) :
    binTargets entry bin max = ((entry.rows.map Prod.fst).filter (fun key ↦ key.po = bin)).take max.toNat := by
  rw [binTargets, entriesAt_eq_filter, List.map_take, List.filter_map]
  rfl

/-- `evict_batch` with a bin bound collects the first `max` keys of the batch in shallower bins,
in `(po, addr, stampHash)` order. -/
theorem batchTargets_some_eq_take (batchGroup : OrderedTable BatchGroupKey Unit) (batch : BatchId)
    (bound : UInt8) (max : UInt64) :
    batchTargets batchGroup batch (some bound) max =
      (((batchGroup.rows.map Prod.fst).filter
        (fun key ↦ key.batch = batch ∧ key.po < bound)).take max.toNat).map BatchGroupKey.entryKey := by
  rw [batchTargets, batchRows_some_eq_filter, List.map_take, List.filter_map]
  rfl

/-- `evict_batch` without a bound collects the first `max` keys of the batch. -/
theorem batchTargets_none_eq_take (batchGroup : OrderedTable BatchGroupKey Unit) (batch : BatchId)
    (max : UInt64) :
    batchTargets batchGroup batch none max =
      (((batchGroup.rows.map Prod.fst).filter (fun key ↦ key.batch = batch)).take max.toNat).map
        BatchGroupKey.entryKey := by
  rw [batchTargets, batchRows_none_eq_filter, List.map_take, List.filter_map]
  rfl

/-- The overflow `evict_to_capacity` collects: none within capacity, otherwise as many keys as
the overflow, or every key when the table holds fewer. -/
theorem length_capacityTargets (reserve : DbReserve) :
    (capacityTargets reserve).length = min (reserve.count - reserve.capacity.toNat) reserve.entryCount := by
  rw [capacityTargets, List.length_map, List.length_take, entryCount, OrderedTable.count]

/-- The keys `evict_to_capacity` collects are the smallest: below every key it leaves. -/
theorem lt_of_mem_capacityTargets (reserve : DbReserve) {key key' : EntryKey}
    (hkey : key ∈ capacityTargets reserve) (hlive : (reserve.tables.entry.get key').isSome)
    (hleft : key' ∉ capacityTargets reserve) : key < key' := by
  obtain ⟨row, hrow, rfl⟩ := List.mem_map.mp hkey
  obtain ⟨value, hget⟩ := Option.isSome_iff_exists.mp hlive
  have hpast : (key', value) ∉ reserve.tables.entry.rows.take (reserve.count - reserve.capacity.toNat) :=
    fun hmem ↦ hleft (List.mem_map.mpr ⟨_, hmem, rfl⟩)
  exact lt_of_mem_take hrow (get_eq_some_iff.mp hget) hpast

section Verbs

variable (inv : ReserveInv ctx reserve)
include inv

/-- `evict_batch` with a bin bound collects `min(max, n)` keys, `n` the batch's entries in
shallower bins. -/
theorem ReserveInv.length_batchTargets_some (batch : BatchId) (bound : UInt8) (max : UInt64) :
    (batchTargets reserve.tables.batchGroup batch (some bound) max).length =
      min (reserve.tables.entry.rows.countP (fun row ↦ row.1.batch = batch ∧ row.1.po < bound))
        max.toNat := by
  have hcount := inv.tables.countP_batchGroup (fun key ↦ key.batch = batch ∧ key.po < bound)
  rw [batchTargets, List.length_map, List.length_map, List.length_take, batchRows_some_eq_filter,
    ← List.countP_eq_length_filter, hcount, Nat.min_comm]
  rfl

theorem ReserveInv.evicts_evictFromBin (bin : UInt8) (max : UInt64) :
    Evicts ctx reserve (binTargets reserve.tables.entry bin max) (reserve.evictFromBin ctx bin max) := by
  obtain ⟨hnodup, hlive⟩ := binTargets_keys reserve.tables.entry bin max
  rw [evictFromBin_eq_evictEntries]
  exact inv.evicts hnodup hlive

theorem ReserveInv.evicts_evictBatch (batch : BatchId) (upToBin : Option UInt8) (max : UInt64) :
    Evicts ctx reserve (batchTargets reserve.tables.batchGroup batch upToBin max)
      (reserve.evictBatch ctx batch upToBin max) := by
  obtain ⟨hnodup, hlive⟩ := inv.tables.batchTargets batch upToBin max
  rw [evictBatch_eq_evictEntries]
  exact inv.evicts hnodup hlive

theorem ReserveInv.evicts_evictToCapacity :
    Evicts ctx reserve (capacityTargets reserve) (reserve.evictToCapacity ctx) := by
  obtain ⟨hnodup, hlive⟩ := keys_of_sublist (List.take_sublist (reserve.count -
    reserve.capacity.toNat) reserve.tables.entry.rows)
  rw [evictToCapacity_eq_evictEntries]
  exact inv.evicts hnodup hlive

/-- `evict_furthest` on a non-empty reserve evicts the first `Entry` row, of the least
proximity. -/
theorem ReserveInv.evicts_evictFurthest {row : EntryKey × EntryValue}
    (hfirst : reserve.tables.entry.first = some row) :
    (reserve.evictFurthest ctx).1 = some row.1.addr ∧
      Evicts ctx reserve [row.1] (1, (reserve.evictFurthest ctx).2) ∧
      ∀ other ∈ reserve.tables.entry.rows, row.1.po.toNat ≤ other.1.po.toNat := by
  obtain ⟨hmem, hleast⟩ := first_eq_some hfirst
  have hevicts := inv.evicts (List.nodup_singleton row.1)
    (fun key hkey ↦ by rw [List.mem_singleton.mp hkey, get_eq_some_iff.mpr hmem]; rfl)
  have hresult : reserve.evictFurthest ctx =
      (some row.1.addr, (reserve.evictEntries ctx [targetOfEntry row.1]).2) := by
    rw [DbReserve.evictFurthest, hfirst]
  refine ⟨by rw [hresult], ?_, fun other hother ↦ EntryKey.po_le_of_le (hleast other hother)⟩
  rw [hresult]
  exact ⟨rfl, hevicts.get_entry, hevicts.inv⟩

/-- The keys `remove` collects are every live entry of the address: an entry's proximity is
its address's. -/
theorem ReserveInv.mem_addressKeys (address : ChunkAddress) (key : EntryKey) :
    key ∈ addressKeys ctx reserve address ↔
      key.addr = address ∧ (reserve.tables.entry.get key).isSome := by
  simp only [addressKeys, entriesAt_eq_filter, List.filter_filter, List.mem_map, List.mem_filter,
    Bool.and_eq_true, decide_eq_true_eq]
  constructor
  · rintro ⟨row, ⟨hrow, haddr, -⟩, rfl⟩
    exact ⟨haddr, by rw [get_eq_some_iff.mpr hrow]; rfl⟩
  · rintro ⟨haddr, hlive⟩
    obtain ⟨value, hget⟩ := Option.isSome_iff_exists.mp hlive
    have hpo : key.po = ctx.proximity address := haddr ▸ (inv.tables.entry_key hget).1
    exact ⟨(key, value), ⟨get_eq_some_iff.mp hget, haddr, hpo⟩, rfl⟩

theorem ReserveInv.evicts_remove (address : ChunkAddress) :
    Evicts ctx reserve (addressKeys ctx reserve address)
      ((addressKeys ctx reserve address).length, reserve.remove ctx address) := by
  obtain ⟨hnodup, hlive⟩ := keys_of_sublist (List.filter_sublist.trans
    (by rw [entriesAt_eq_filter]; exact List.filter_sublist) :
      ((entriesAt reserve.tables.entry (ctx.proximity address)).filter
        (fun row ↦ row.1.addr = address)).Sublist reserve.tables.entry.rows)
  have hevicts := inv.evicts hnodup hlive
  rw [remove_eq_evictEntries]
  exact ⟨rfl, hevicts.get_entry, hevicts.inv⟩

end Verbs

/-- The reserve's eviction verbs remove exactly what they name, on every reserve that keeps the
representation invariant: `count_in` counts a bin's entries; `evict_from_bin` evicts the first
`max` keys of the bin; `evict_batch` the first `max` keys of the batch's group walk, in bins
below the bound if one is given; `evict_to_capacity` the smallest `count - capacity` keys, or
nothing within capacity; `evict_furthest` the smallest key, of the least proximity; `remove`
every key of the address.  Each reports what it evicted, keeps the invariant, and every entry
it did not collect keeps its rows. -/
theorem eviction_verbs_remove_what_they_name (inv : ReserveInv ctx reserve) :
    (∀ po, reserve.countIn po = reserve.tables.entry.rows.countP (fun row ↦ row.1.po = po)) ∧
    (∀ bin max, Evicts ctx reserve (binTargets reserve.tables.entry bin max)
        (reserve.evictFromBin ctx bin max) ∧
      binTargets reserve.tables.entry bin max =
        ((reserve.tables.entry.rows.map Prod.fst).filter (fun key ↦ key.po = bin)).take max.toNat ∧
      (binTargets reserve.tables.entry bin max).length = min (reserve.countIn bin) max.toNat) ∧
    (∀ batch bound max, Evicts ctx reserve (batchTargets reserve.tables.batchGroup batch (some bound) max)
        (reserve.evictBatch ctx batch (some bound) max) ∧
      batchTargets reserve.tables.batchGroup batch (some bound) max =
        (((reserve.tables.batchGroup.rows.map Prod.fst).filter
          (fun key ↦ key.batch = batch ∧ key.po < bound)).take max.toNat).map BatchGroupKey.entryKey ∧
      (batchTargets reserve.tables.batchGroup batch (some bound) max).length =
        min (reserve.tables.entry.rows.countP (fun row ↦ row.1.batch = batch ∧ row.1.po < bound))
          max.toNat) ∧
    (∀ batch max, Evicts ctx reserve (batchTargets reserve.tables.batchGroup batch none max)
        (reserve.evictBatch ctx batch none max) ∧
      batchTargets reserve.tables.batchGroup batch none max =
        (((reserve.tables.batchGroup.rows.map Prod.fst).filter
          (fun key ↦ key.batch = batch)).take max.toNat).map BatchGroupKey.entryKey ∧
      (reserve.evictBatch ctx batch none max).1 = min (reserve.batchCount batch) max.toNat) ∧
    (Evicts ctx reserve (capacityTargets reserve) (reserve.evictToCapacity ctx) ∧
      (capacityTargets reserve).length =
        min (reserve.count - reserve.capacity.toNat) reserve.entryCount ∧
      ∀ key ∈ capacityTargets reserve, ∀ key', (reserve.tables.entry.get key').isSome →
        key' ∉ capacityTargets reserve → key < key') ∧
    (∀ row, reserve.tables.entry.first = some row →
      (reserve.evictFurthest ctx).1 = some row.1.addr ∧
        Evicts ctx reserve [row.1] (1, (reserve.evictFurthest ctx).2) ∧
        ∀ other ∈ reserve.tables.entry.rows, row.1.po.toNat ≤ other.1.po.toNat) ∧
    (∀ address, Evicts ctx reserve (addressKeys ctx reserve address)
        ((addressKeys ctx reserve address).length, reserve.remove ctx address) ∧
      ∀ key, key ∈ addressKeys ctx reserve address ↔
        key.addr = address ∧ (reserve.tables.entry.get key).isSome) ∧
    ∀ keys result, Evicts ctx reserve keys result → ∀ key value, key ∉ keys →
      reserve.tables.entry.get key = some value →
      result.2.tables.entry.get key = some value ∧
        (result.2.tables.batchGroup.get key.groupKey).isSome ∧
        (∃ chunkType, result.2.tables.replay.get value.replayKey =
          some ⟨key.addr, key.batch, key.stampHash, chunkType⟩) ∧
        (result.2.tables.payload.get key.addr).isSome ∧
        result.2.tables.stampIndex.get value.stamp.slot =
          some ⟨value.stamp.timestampBytes, key.stampHash, key.addr⟩ :=
  ⟨countIn_eq_countP reserve,
    fun bin max ↦ ⟨inv.evicts_evictFromBin bin max, binTargets_eq_take _ bin max,
      length_binTargets reserve bin max⟩,
    fun batch bound max ↦ ⟨inv.evicts_evictBatch batch (some bound) max,
      batchTargets_some_eq_take _ batch bound max, inv.length_batchTargets_some batch bound max⟩,
    fun batch max ↦ ⟨inv.evicts_evictBatch batch none max, batchTargets_none_eq_take _ batch max,
      (inv.evictBatch_none batch max).1⟩,
    ⟨inv.evicts_evictToCapacity, length_capacityTargets reserve,
      fun _ hkey _ hlive hleft ↦ lt_of_mem_capacityTargets reserve hkey hlive hleft⟩,
    fun _ hfirst ↦ inv.evicts_evictFurthest hfirst,
    fun address ↦ ⟨inv.evicts_remove address, inv.mem_addressKeys address⟩,
    fun _ _ h _ _ hkey hget ↦ h.kept hkey hget⟩

/-- A reserve context that files an address at the proximity and bin of its last byte, with the
batch id as stamp hash. -/
def lastByteContext : ReserveContext :=
  ⟨fun address ↦ UInt8.ofNat address.toNat, fun address ↦ UInt8.ofNat address.toNat,
    fun stamp ↦ stamp.batch⟩

/-- Chunks at addresses 1, 2 and 258 under three batches: one entry in bin 1, two in bin 2. -/
def twoBinRun : List ReserveOp :=
  [.put (stampedAt 1 7 1), .put (stampedAt 2 8 1), .put (stampedAt 258 9 1)]

/-- The reserve of capacity 4 the run reaches from freshly created tables. -/
def twoBinReserve : DbReserve :=
  ReserveOp.run lastByteContext openAdmission (DbReserve.new Tables.empty 4) twoBinRun

theorem eviction_verbs_remove_what_they_name_of_twoBinRun :
    ReserveInv lastByteContext twoBinReserve ∧ twoBinReserve.countIn 1 = 1 ∧
      twoBinReserve.countIn 2 = 2 ∧
      Evicts lastByteContext twoBinReserve (binTargets twoBinReserve.tables.entry 2 1)
        (twoBinReserve.evictFromBin lastByteContext 2 1) ∧
      (binTargets twoBinReserve.tables.entry 2 1).length = min (twoBinReserve.countIn 2) 1 := by
  have hsep : HashSeparates lastByteContext (ReserveOp.stamps twoBinRun) := by
    unfold HashSeparates
    decide
  have inv : ReserveInv lastByteContext twoBinReserve :=
    reserveInv_of_run lastByteContext openAdmission 4 twoBinRun hsep
  have hbin := (eviction_verbs_remove_what_they_name inv).2.1 2 1
  exact ⟨inv, by decide +kernel, by decide +kernel, hbin.1, hbin.2.2⟩

end VertexSwarm.Storer
