import VertexSwarm.Storer.Replay

/-!
# Footprints of bins and batches

What the reserve holds of one bin or of one batch, and what the verbs do to it.

`evict_from_bin` and `evict_batch` collect their targets with a cursor over a key prefix, so the
targets name distinct live entries.  Deleting such targets lowers every count over the `Entry`
rows by exactly the targets it covers (`ReserveInv.evictEntries_countP`); each verb's effect on
the footprints it touches follows, capped by its `max`.

In the other direction, puts of stamps for fresh slots are all admitted, so a run of them fills
the reserve one entry per put (`entryCount_run_fresh`).
-/

namespace VertexSwarm.Storer

open BigEndian Postage OrderedTable DbReserve

/-- The live entries stamped by a batch. -/
def DbReserve.batchCount (reserve : DbReserve) (batch : BatchId) : ℕ :=
  reserve.tables.entry.rows.countP (fun row ↦ row.1.batch = batch)

/-! ## Key prefixes -/

namespace EntryKey

theorem po_le_of_le {key key' : EntryKey} (h : key ≤ key') : key.po.toNat ≤ key'.po.toNat :=
  Prod.Lex.monotone_fst (fields key) (fields key') h

theorem seekKey_le (key : EntryKey) : (⟨key.po, ⊥, ⊥, ⊥⟩ : EntryKey) ≤ key := by
  change fields _ ≤ fields key
  exact Prod.Lex.toLex_mono ⟨le_rfl, Prod.Lex.toLex_mono ⟨(bot_le : (⊥ : BatchId) ≤ key.batch),
    Prod.Lex.toLex_mono ⟨(bot_le : (⊥ : B256) ≤ key.stampHash), (bot_le : (⊥ : ChunkAddress) ≤ key.addr)⟩⟩⟩

end EntryKey

namespace BatchGroupKey

theorem batch_le_of_le {key key' : BatchGroupKey} (h : key ≤ key') :
    key.batch.toNat ≤ key'.batch.toNat :=
  Prod.Lex.monotone_fst (fields key) (fields key') h

theorem seekKey_le (key : BatchGroupKey) : (⟨key.batch, 0, ⊥, ⊥⟩ : BatchGroupKey) ≤ key := by
  change fields _ ≤ fields key
  exact Prod.Lex.toLex_mono ⟨le_rfl, Prod.Lex.toLex_mono ⟨Nat.zero_le _,
    Prod.Lex.toLex_mono ⟨(bot_le : (⊥ : ChunkAddress) ≤ key.addr), (bot_le : (⊥ : B256) ≤ key.stampHash)⟩⟩⟩

theorem entryKey_injective : Function.Injective entryKey := by
  intro key key' h
  rw [← groupKey_entryKey key, ← groupKey_entryKey key', h]

end BatchGroupKey

/-- A cursor over `Entry` seeked to a proximity walks exactly that proximity's rows. -/
theorem entriesAt_eq_filter (entry : OrderedTable EntryKey EntryValue) (po : UInt8) :
    entriesAt entry po = entry.rows.filter (fun row ↦ row.1.po = po) := by
  unfold entriesAt
  rw [seek_takeWhile_eq_filter]
  · apply List.filter_congr
    intro row _
    by_cases hpo : row.1.po = po
    · have hle : (⟨po, ⊥, ⊥, ⊥⟩ : EntryKey) ≤ row.1 := hpo ▸ EntryKey.seekKey_le row.1
      simp [hpo, hle]
    · simp [hpo]
  · -- past the seek key, a row of a later proximity is followed only by later proximities
    intro a b hseek hab ha
    simp only [decide_eq_false_iff_not] at ha ⊢
    have hfrom : po.toNat ≤ a.1.po.toNat := EntryKey.po_le_of_le hseek
    have hgrow : a.1.po.toNat ≤ b.1.po.toNat := EntryKey.po_le_of_le hab.le
    have hne : a.1.po.toNat ≠ po.toNat := fun h ↦ ha (UInt8.toNat_inj.mp h)
    intro hb
    rw [hb] at hgrow
    omega

/-- A cursor over `BatchGroup` seeked to a batch, with no bin bound, walks exactly that batch's
rows. -/
theorem batchRows_none_eq_filter (batchGroup : OrderedTable BatchGroupKey Unit) (batch : BatchId) :
    batchRows batchGroup batch none = batchGroup.rows.filter (fun row ↦ row.1.batch = batch) := by
  unfold batchRows
  rw [seek_takeWhile_eq_filter]
  · apply List.filter_congr
    intro row _
    by_cases hbatch : row.1.batch = batch
    · have hle : (⟨batch, 0, ⊥, ⊥⟩ : BatchGroupKey) ≤ row.1 :=
        hbatch ▸ BatchGroupKey.seekKey_le row.1
      simp [hbatch, hle]
    · simp [hbatch]
  · -- past the seek key, a row of a later batch is followed only by later batches
    intro a b hseek hab ha
    simp only [Option.any_none, Bool.not_false, Bool.and_true, decide_eq_false_iff_not] at ha ⊢
    have hfrom : batch.toNat ≤ a.1.batch.toNat := BatchGroupKey.batch_le_of_le hseek
    have hgrow : a.1.batch.toNat ≤ b.1.batch.toNat := BatchGroupKey.batch_le_of_le hab.le
    have hne : a.1.batch.toNat ≠ batch.toNat := fun h ↦ ha (FixedBytes.toNat_injective h)
    intro hb
    rw [hb] at hgrow
    omega

theorem countIn_eq_countP (reserve : DbReserve) (po : UInt8) :
    reserve.countIn po = reserve.tables.entry.rows.countP (fun row ↦ row.1.po = po) := by
  rw [countIn, entriesAt_eq_filter, List.countP_eq_length_filter]

/-! ## Evicting distinct live entries -/

section Evict

variable {ctx : ReserveContext} {tables : Tables} {key : EntryKey} {value : EntryValue}

@[simp]
theorem Tables.erase_entry (tables : Tables) (key : EntryKey) (value : EntryValue) :
    (tables.erase key value).entry = tables.entry.delete key := rfl

theorem TablesInv.deleteStep_targetOfEntry (inv : TablesInv ctx tables)
    (h : tables.entry.get key = some value) (count : ℕ) :
    DbReserve.deleteStep ctx (tables, count) (targetOfEntry key) = (tables.erase key value, count + 1) := by
  have hkey : (targetOfEntry key).entryKey (ctx.proximity (targetOfEntry key).addr) = key := by
    obtain ⟨hpo, -⟩ := inv.entry_key h
    change (⟨ctx.proximity key.addr, key.batch, key.stampHash, key.addr⟩ : EntryKey) = key
    rw [← hpo]
  have hget : tables.entry.get ((targetOfEntry key).entryKey
      (ctx.proximity (targetOfEntry key).addr)) = some value := by
    rw [hkey]
    exact h
  simp only [DbReserve.deleteStep, inv.deleteEntryInTx_of_get hget, hkey, ↓reduceIte]

theorem Tables.live_of_erase (value : EntryValue) {keys : List EntryKey}
    (hnodup : (key :: keys).Nodup) (hlive : ∀ key' ∈ key :: keys, (tables.entry.get key').isSome) :
    ∀ key' ∈ keys, ((tables.erase key value).entry.get key').isSome := by
  intro key' hmem
  have hne : key' ≠ key := fun heq ↦ (List.nodup_cons.mp hnodup).1 (heq ▸ hmem)
  rw [Tables.erase_entry, get_delete_of_ne hne]
  exact hlive key' (List.mem_cons_of_mem _ hmem)

/-- Deleting the targets of distinct live entries removes exactly those entries: a count over the
`Entry` rows drops by the keys it covers, and the loop counts every target.  By induction over
the keys, each erase leaving the later keys live. -/
theorem TablesInv.foldl_deleteStep_countP (p : EntryKey → Bool) (keys : List EntryKey) :
    ∀ (tables : Tables) (count : ℕ), TablesInv ctx tables → keys.Nodup →
      (∀ key ∈ keys, (tables.entry.get key).isSome) →
      ((keys.map targetOfEntry).foldl (DbReserve.deleteStep ctx) (tables, count)).1.entry.rows.countP
          (fun row ↦ p row.1) + keys.countP p = tables.entry.rows.countP (fun row ↦ p row.1) ∧
        ((keys.map targetOfEntry).foldl (DbReserve.deleteStep ctx) (tables, count)).2 = count + keys.length := by
  induction keys with
  | nil => simp
  | cons key keys ih =>
    intro tables count inv hnodup hlive
    obtain ⟨value, hget⟩ := Option.isSome_iff_exists.mp (hlive key List.mem_cons_self)
    have hlive' := tables.live_of_erase value hnodup hlive
    rw [List.nodup_cons] at hnodup
    obtain ⟨hrows, hcount⟩ := ih (tables.erase key value) (count + 1) (inv.erase hget) hnodup.2 hlive'
    have hdelete : (tables.entry.delete key).rows.countP (fun row ↦ p row.1) +
        (if p key then 1 else 0) = tables.entry.rows.countP (fun row ↦ p row.1) :=
      countP_delete hget _
    rw [List.map_cons, List.foldl_cons, inv.deleteStep_targetOfEntry hget]
    refine ⟨?_, by rw [hcount, List.length_cons]; omega⟩
    rw [List.countP_cons]
    rw [Tables.erase_entry] at hrows
    omega

variable {reserve : DbReserve}

/-- `evict_entries` over the targets of distinct live entries removes exactly those entries and
reports their number. -/
theorem ReserveInv.evictEntries_countP (inv : ReserveInv ctx reserve) {keys : List EntryKey}
    (hnodup : keys.Nodup) (hlive : ∀ key ∈ keys, (reserve.tables.entry.get key).isSome)
    (p : EntryKey → Bool) :
    (reserve.evictEntries ctx (keys.map targetOfEntry)).1 = keys.length ∧
      (reserve.evictEntries ctx (keys.map targetOfEntry)).2.tables.entry.rows.countP
          (fun row ↦ p row.1) + keys.countP p =
        reserve.tables.entry.rows.countP (fun row ↦ p row.1) := by
  unfold DbReserve.evictEntries
  split
  · next hempty =>
    have hnil : keys = [] := by simpa using hempty
    subst hnil
    simp
  · obtain ⟨hrows, hcount⟩ := inv.tables.foldl_deleteStep_countP p keys reserve.tables 0 hnodup hlive
    exact ⟨by simpa [DbReserve.deleteEntriesInTx] using hcount,
      by simpa [DbReserve.deleteEntriesInTx] using hrows⟩

end Evict

/-! ## The bin and batch verbs -/

/-- The keys `evict_from_bin` collects: the first `max` entries of the bin, in key order. -/
def binTargets (entry : OrderedTable EntryKey EntryValue) (bin : UInt8) (max : UInt64) :
    List EntryKey :=
  ((entriesAt entry bin).take max.toNat).map Prod.fst

/-- The keys `evict_batch` collects: the entries of the first `max` rows of the batch's group
walk. -/
def batchTargets (batchGroup : OrderedTable BatchGroupKey Unit) (batch : BatchId)
    (upToBin : Option UInt8) (max : UInt64) : List EntryKey :=
  (((batchRows batchGroup batch upToBin).take max.toNat).map Prod.fst).map BatchGroupKey.entryKey

theorem evictFromBin_eq_evictEntries (ctx : ReserveContext) (reserve : DbReserve) (bin : UInt8)
    (max : UInt64) :
    reserve.evictFromBin ctx bin max =
      reserve.evictEntries ctx ((binTargets reserve.tables.entry bin max).map targetOfEntry) := by
  unfold DbReserve.evictFromBin
  split
  · next hzero =>
    subst hzero
    simp [binTargets, DbReserve.evictEntries]
  · rw [binTargets, List.map_map]
    rfl

theorem evictBatch_eq_evictEntries (ctx : ReserveContext) (reserve : DbReserve) (batch : BatchId)
    (upToBin : Option UInt8) (max : UInt64) :
    reserve.evictBatch ctx batch upToBin max =
      reserve.evictEntries ctx
        ((batchTargets reserve.tables.batchGroup batch upToBin max).map targetOfEntry) := by
  unfold DbReserve.evictBatch
  split
  · next hzero =>
    subst hzero
    simp [batchTargets, DbReserve.evictEntries]
  · rw [batchTargets, List.map_map, List.map_map]
    rfl

section Verbs

variable {ctx : ReserveContext} {tables : Tables} {reserve : DbReserve}

theorem binTargets_keys (entry : OrderedTable EntryKey EntryValue) (bin : UInt8) (max : UInt64) :
    (binTargets entry bin max).Nodup ∧ ∀ key ∈ binTargets entry bin max, (entry.get key).isSome :=
  keys_of_sublist ((List.take_sublist _ _).trans (by rw [entriesAt_eq_filter]; exact List.filter_sublist))

theorem TablesInv.batchTargets (inv : TablesInv ctx tables) (batch : BatchId) (upToBin : Option UInt8)
    (max : UInt64) :
    (batchTargets tables.batchGroup batch upToBin max).Nodup ∧
      ∀ key ∈ batchTargets tables.batchGroup batch upToBin max, (tables.entry.get key).isSome := by
  have hsub : ((batchRows tables.batchGroup batch upToBin).take max.toNat).Sublist tables.batchGroup.rows :=
    (List.take_sublist _ _).trans ((List.takeWhile_sublist _).trans (List.dropWhile_sublist _))
  obtain ⟨hnodup, hlive⟩ := keys_of_sublist hsub
  refine ⟨hnodup.map BatchGroupKey.entryKey_injective, fun key hkey ↦ ?_⟩
  obtain ⟨groupKey, hgroup, rfl⟩ := List.mem_map.mp hkey
  -- a `BatchGroup` row names a live entry
  rw [← inv.group_iff, BatchGroupKey.groupKey_entryKey]
  exact hlive groupKey hgroup

/-- The `BatchGroup` rows are the `Entry` keys regrouped, each once, so a count over them by a
property of the group key is the count over the entries. -/
theorem TablesInv.countP_batchGroup (inv : TablesInv ctx tables) (q : BatchGroupKey → Bool) :
    tables.batchGroup.rows.countP (fun row ↦ q row.1) =
      tables.entry.rows.countP (fun row ↦ q row.1.groupKey) := by
  have hentry := keys_of_sublist (List.Sublist.refl tables.entry.rows)
  have hgroup := keys_of_sublist (List.Sublist.refl tables.batchGroup.rows)
  have hnodup : ((tables.entry.rows.map Prod.fst).map EntryKey.groupKey).Nodup :=
    hentry.1.map (fun _ _ h ↦ EntryKey.groupKey_inj.mp h)
  have hperm : ((tables.entry.rows.map Prod.fst).map EntryKey.groupKey).Perm
      (tables.batchGroup.rows.map Prod.fst) := by
    rw [List.perm_ext_iff_of_nodup hnodup hgroup.1]
    intro key
    constructor
    · -- an entry's group row exists
      intro hkey
      obtain ⟨entryKey, hmem, rfl⟩ := List.mem_map.mp hkey
      have hsome := (inv.group_iff entryKey).mpr (hentry.2 entryKey hmem)
      obtain ⟨u, hu⟩ := Option.isSome_iff_exists.mp hsome
      exact List.mem_map.mpr ⟨(entryKey.groupKey, u), get_eq_some_iff.mp hu, rfl⟩
    · -- a group row names a live entry
      intro hkey
      have hsome := hgroup.2 key hkey
      rw [← BatchGroupKey.groupKey_entryKey key, inv.group_iff] at hsome
      obtain ⟨value, hvalue⟩ := Option.isSome_iff_exists.mp hsome
      refine List.mem_map.mpr ⟨key.entryKey, List.mem_map.mpr ⟨(key.entryKey, value),
        get_eq_some_iff.mp hvalue, rfl⟩, BatchGroupKey.groupKey_entryKey key⟩
  have hcount := hperm.countP_eq q
  rw [List.countP_map, List.countP_map, List.countP_map] at hcount
  exact hcount.symm

theorem TablesInv.length_batchRows_none (inv : TablesInv ctx tables) (batch : BatchId) :
    (batchRows tables.batchGroup batch none).length =
      tables.entry.rows.countP (fun row ↦ row.1.batch = batch) := by
  rw [batchRows_none_eq_filter, ← List.countP_eq_length_filter]
  exact inv.countP_batchGroup (fun key ↦ key.batch = batch)

theorem length_binTargets (reserve : DbReserve) (bin : UInt8) (max : UInt64) :
    (binTargets reserve.tables.entry bin max).length = min (reserve.countIn bin) max.toNat := by
  rw [binTargets, List.length_map, List.length_take, countIn, Nat.min_comm]

/-- `evict_from_bin` evicts the first `min(count_in(bin), max)` entries of the bin and reports
their number; every count over the `Entry` rows drops by the collected keys it covers. -/
theorem ReserveInv.evictFromBin_countP (inv : ReserveInv ctx reserve) (bin : UInt8) (max : UInt64)
    (p : EntryKey → Bool) :
    (reserve.evictFromBin ctx bin max).1 = min (reserve.countIn bin) max.toNat ∧
      (reserve.evictFromBin ctx bin max).2.tables.entry.rows.countP (fun row ↦ p row.1) +
          (binTargets reserve.tables.entry bin max).countP p =
        reserve.tables.entry.rows.countP (fun row ↦ p row.1) := by
  obtain ⟨hnodup, hlive⟩ := binTargets_keys reserve.tables.entry bin max
  rw [evictFromBin_eq_evictEntries, ← length_binTargets]
  exact inv.evictEntries_countP hnodup hlive p

/-- `evict_from_bin` empties its bin by `min(count_in(bin), max)` and leaves every other bin. -/
theorem ReserveInv.countIn_evictFromBin (inv : ReserveInv ctx reserve) (bin : UInt8) (max : UInt64)
    (po : UInt8) :
    (reserve.evictFromBin ctx bin max).2.countIn po =
      if po = bin then reserve.countIn bin - min (reserve.countIn bin) max.toNat
      else reserve.countIn po := by
  obtain ⟨-, hcount⟩ := inv.evictFromBin_countP bin max (fun key ↦ key.po = po)
  have hbin : ∀ key ∈ binTargets reserve.tables.entry bin max, key.po = bin := by
    intro key hkey
    obtain ⟨row, hrow, rfl⟩ := List.mem_map.mp hkey
    have hmem := (List.take_sublist _ _).subset hrow
    rw [entriesAt_eq_filter, List.mem_filter] at hmem
    simpa using hmem.2
  rw [← countIn_eq_countP, ← countIn_eq_countP] at hcount
  split
  · next hpo =>
    subst hpo
    rw [List.countP_eq_length.mpr (fun key hkey ↦ by simp [hbin key hkey]), length_binTargets] at hcount
    omega
  · next hpo =>
    rw [List.countP_eq_zero.mpr (fun key hkey ↦ by simp [hbin key hkey, Ne.symm hpo])] at hcount
    omega

/-- `evict_from_bin` lowers the entry count by what it evicts. -/
theorem ReserveInv.entryCount_evictFromBin (inv : ReserveInv ctx reserve) (bin : UInt8)
    (max : UInt64) :
    (reserve.evictFromBin ctx bin max).2.entryCount =
      reserve.entryCount - min (reserve.countIn bin) max.toNat := by
  obtain ⟨-, hcount⟩ := inv.evictFromBin_countP bin max (fun _ ↦ true)
  simp only [List.countP_true, length_binTargets] at hcount
  simp only [entryCount, OrderedTable.count]
  omega

theorem ReserveInv.evictFromBin (inv : ReserveInv ctx reserve) (bin : UInt8) (max : UInt64) :
    ReserveInv ctx (reserve.evictFromBin ctx bin max).2 := by
  rw [evictFromBin_eq_evictEntries]
  exact (inv.evictEntries _).1

/-- `evict_batch` evicts the first `max` entries of the batch's group walk, and every count over
the `Entry` rows drops by the collected keys it covers. -/
theorem ReserveInv.evictBatch_countP (inv : ReserveInv ctx reserve) (batch : BatchId)
    (upToBin : Option UInt8) (max : UInt64) (p : EntryKey → Bool) :
    (reserve.evictBatch ctx batch upToBin max).1 =
        min (batchRows reserve.tables.batchGroup batch upToBin).length max.toNat ∧
      (reserve.evictBatch ctx batch upToBin max).2.tables.entry.rows.countP (fun row ↦ p row.1) +
          (batchTargets reserve.tables.batchGroup batch upToBin max).countP p =
        reserve.tables.entry.rows.countP (fun row ↦ p row.1) := by
  obtain ⟨hnodup, hlive⟩ := inv.tables.batchTargets batch upToBin max
  have hlength : (batchTargets reserve.tables.batchGroup batch upToBin max).length =
      min (batchRows reserve.tables.batchGroup batch upToBin).length max.toNat := by
    rw [batchTargets, List.length_map, List.length_map, List.length_take, Nat.min_comm]
  rw [evictBatch_eq_evictEntries, ← hlength]
  exact inv.evictEntries_countP hnodup hlive p

/-- `evict_batch` removes at most `max` entries of its batch, and nothing of another batch. -/
theorem ReserveInv.batchCount_evictBatch (inv : ReserveInv ctx reserve) (batch : BatchId)
    (upToBin : Option UInt8) (max : UInt64) (batch' : BatchId) :
    (reserve.evictBatch ctx batch upToBin max).2.batchCount batch' +
        (if batch' = batch then (reserve.evictBatch ctx batch upToBin max).1 else 0) =
      reserve.batchCount batch' := by
  obtain ⟨hevicted, hcount⟩ := inv.evictBatch_countP batch upToBin max (fun key ↦ key.batch = batch')
  have hbatch : ∀ key ∈ batchTargets reserve.tables.batchGroup batch upToBin max, key.batch = batch := by
    intro key hkey
    obtain ⟨groupKey, hgroup, rfl⟩ := List.mem_map.mp hkey
    obtain ⟨row, hrow, rfl⟩ := List.mem_map.mp hgroup
    have hwalk := List.mem_takeWhile_imp ((List.take_sublist _ _).subset hrow)
    simp only [Bool.and_eq_true, decide_eq_true_eq] at hwalk
    exact hwalk.1
  have hlength : (batchTargets reserve.tables.batchGroup batch upToBin max).length =
      (reserve.evictBatch ctx batch upToBin max).1 := by
    rw [hevicted, batchTargets, List.length_map, List.length_map, List.length_take, Nat.min_comm]
  simp only [batchCount]
  split
  · next hbatch' =>
    have htargets : (batchTargets reserve.tables.batchGroup batch upToBin max).countP
        (fun key ↦ key.batch = batch') = (reserve.evictBatch ctx batch upToBin max).1 := by
      rw [List.countP_eq_length.mpr (fun key hkey ↦ by simp [hbatch key hkey, hbatch']), hlength]
    omega
  · next hbatch' =>
    have htargets : (batchTargets reserve.tables.batchGroup batch upToBin max).countP
        (fun key ↦ key.batch = batch') = 0 :=
      List.countP_eq_zero.mpr (fun key hkey ↦ by simp [hbatch key hkey, Ne.symm hbatch'])
    omega

/-- `evict_batch(batch, None, max)` evicts `min(batch_count, max)` entries of the batch and
nothing of another batch. -/
theorem ReserveInv.evictBatch_none (inv : ReserveInv ctx reserve) (batch : BatchId) (max : UInt64) :
    (reserve.evictBatch ctx batch none max).1 = min (reserve.batchCount batch) max.toNat ∧
      ∀ batch', (reserve.evictBatch ctx batch none max).2.batchCount batch' =
        if batch' = batch then reserve.batchCount batch - min (reserve.batchCount batch) max.toNat
        else reserve.batchCount batch' := by
  have hevicted : (reserve.evictBatch ctx batch none max).1 = min (reserve.batchCount batch) max.toNat := by
    rw [(inv.evictBatch_countP batch none max (fun _ ↦ true)).1, inv.tables.length_batchRows_none]
    rfl
  refine ⟨hevicted, fun batch' ↦ ?_⟩
  have hcount := inv.batchCount_evictBatch batch none max batch'
  split
  · next hbatch =>
    subst hbatch
    rw [if_pos rfl, hevicted] at hcount
    omega
  · next hbatch =>
    rw [if_neg hbatch] at hcount
    omega

theorem ReserveInv.evictBatch (inv : ReserveInv ctx reserve) (batch : BatchId) (upToBin : Option UInt8)
    (max : UInt64) : ReserveInv ctx (reserve.evictBatch ctx batch upToBin max).2 := by
  rw [evictBatch_eq_evictEntries]
  exact (inv.evictEntries _).1

end Verbs

/-! ## Filling -/

section Fill

variable {ctx : ReserveContext} {β ε : Type} {admission : Admission β ε}

theorem HashSeparates.mono {stamps stamps' : List Stamp} (hsep : HashSeparates ctx stamps)
    (hsub : ∀ stamp ∈ stamps', stamp ∈ stamps) : HashSeparates ctx stamps' :=
  fun stamp hstamp stamp' hstamp' ↦ hsep stamp (hsub stamp hstamp) stamp' (hsub stamp' hstamp')

/-- A put of a stamp for an empty slot that admission passes, with its bin's counter not spent, is
admitted: it writes one entry and advances no counter by more than one. -/
theorem ReserveInv.put_fresh {reserve : DbReserve} (inv : ReserveInv ctx reserve)
    {chunk : CachedChunk} {stamp : Stamp} {batch : β} (hstamp : chunk.stamp = some stamp)
    (hload : admission.loadBatch stamp.batch = some batch)
    (hvalid : admission.validate stamp chunk.chunk.address batch = .ok ())
    (hslot : reserve.tables.stampIndex.get stamp.slot = none)
    (hsep : ∀ key value, reserve.tables.entry.get key = some value →
      ctx.stampHash value.stamp = ctx.stampHash stamp → value.stamp.slot = stamp.slot)
    (hcounter : (reserve.binCursor (ctx.bin chunk.chunk.address)).toNat + 1 < 2 ^ 64) :
    (reserve.put ctx admission chunk).2.tables.entry.count = reserve.tables.entry.count + 1 ∧
      ∀ bin, ((reserve.put ctx admission chunk).2.binCursor bin).toNat ≤
        (reserve.binCursor bin).toNat + 1 := by
  set next := reserve.binCursor (ctx.bin chunk.chunk.address) + 1 with hnext_def
  have hnext : nextBinid ctx reserve.tables chunk.chunk.address = some next := by
    rw [nextBinid, Checked.checkedAdd_eq_some_iff]
    have hsum : next.toNat = (reserve.binCursor (ctx.bin chunk.chunk.address)).toNat + 1 := by
      rw [hnext_def, UInt64.toNat_add, UInt64.toNat_one, Nat.mod_eq_of_lt hcounter]
    exact ⟨hcounter, hsum⟩
  have htx : putTx ctx reserve.tables stamp chunk.chunk =
      .ok (.admitted, writeAdmitted ctx reserve.tables stamp chunk.chunk next) := by
    simp only [putTx, incomingOf_slot, hslot, decide_none, dropDisplaced, hnext,
      Option.isSome_none, Bool.false_eq_true, ↓reduceIte]
  have hput : (reserve.put ctx admission chunk).2 =
      ⟨writeAdmitted ctx reserve.tables stamp chunk.chunk next, reserve.count + 1, reserve.capacity⟩ := by
    simp [DbReserve.put, putCommit, hstamp, hload, hvalid, htx]
  have hfresh := inv.tables.admittedKey_fresh hslot chunk.chunk hsep
  refine ⟨by rw [hput, writeAdmitted_count hfresh], fun bin ↦ ?_⟩
  rw [binCursor_put_counter (by rw [hput]; rfl) bin]
  split
  · next hbin =>
    subst hbin
    rw [hnext_def, UInt64.toNat_add, UInt64.toNat_one, Nat.mod_eq_of_lt hcounter]
  · exact Nat.le_succ _

/-- Puts of stamps for pairwise distinct slots, which admission passes and the stamp hash
separates, are all admitted: from fresh tables a run of them holds one entry per put, and no bin
counter passes the number of puts.  By induction over the run's last put. -/
theorem fill_of_fresh (capacity : UInt64) (chunks : List CachedChunk)
    (hstamped : ∀ chunk ∈ chunks, ∃ stamp batch, chunk.stamp = some stamp ∧
      admission.loadBatch stamp.batch = some batch ∧
      admission.validate stamp chunk.chunk.address batch = .ok ())
    (hslots : ((ReserveOp.stamps (chunks.map .put)).map Stamp.slot).Nodup)
    (hsep : HashSeparates ctx (ReserveOp.stamps (chunks.map .put)))
    (hlength : chunks.length < 2 ^ 64) :
    (ReserveOp.run ctx admission (DbReserve.new Tables.empty capacity) (chunks.map .put)).tables.entry.count =
        chunks.length ∧
      ∀ bin, ((ReserveOp.run ctx admission (DbReserve.new Tables.empty capacity)
        (chunks.map .put)).binCursor bin).toNat ≤ chunks.length := by
  induction chunks using List.reverseRecOn with
  | nil => exact ⟨rfl, fun _ ↦ by simp [binCursor, DbReserve.new, Tables.empty, OrderedTable.get_empty]⟩
  | append_singleton chunks chunk ih =>
    obtain ⟨stamp, batch, hstamp, hload, hvalid⟩ := hstamped chunk (by simp)
    have hstamps : ReserveOp.stamps ((chunks ++ [chunk]).map .put) =
        ReserveOp.stamps (chunks.map .put) ++ [stamp] := by
      simp [ReserveOp.stamps, ReserveOp.stamp, hstamp]
    rw [hstamps, List.map_append, List.nodup_append] at hslots
    rw [hstamps] at hsep
    have hsep' : HashSeparates ctx (ReserveOp.stamps (chunks.map .put)) :=
      hsep.mono (fun s hs ↦ List.mem_append_left _ hs)
    obtain ⟨hcount, hcursor⟩ := ih (fun c hc ↦ hstamped c (List.mem_append_left _ hc)) hslots.1
      hsep' (by simp at hlength; omega)
    -- the prefix's state keeps the invariant, and its entries carry the prefix's stamps
    obtain ⟨inv, hamong⟩ := ReserveInv.run admission hsep' (chunks.map .put) (fun _ h ↦ h)
      (ReserveInv.new ctx capacity) (fun h ↦ by simp [DbReserve.new, Tables.empty] at h)
    set reserve := ReserveOp.run ctx admission (DbReserve.new Tables.empty capacity) (chunks.map .put)
    -- the new stamp's slot is empty: an occupant would be a prefix entry in that slot
    have hslot : reserve.tables.stampIndex.get stamp.slot = none := by
      cases hget : reserve.tables.stampIndex.get stamp.slot with
      | none => rfl
      | some occupant =>
        obtain ⟨value, hentry, hvslot⟩ := inv.tables.entry_of_slot hget
        have hmem : stamp.slot ∈ (ReserveOp.stamps (chunks.map .put)).map Stamp.slot :=
          List.mem_map.mpr ⟨value.stamp, hamong hentry, hvslot⟩
        exact absurd rfl (hslots.2.2 _ hmem stamp.slot (by simp))
    have hsepStamp : ∀ key value, reserve.tables.entry.get key = some value →
        ctx.stampHash value.stamp = ctx.stampHash stamp → value.stamp.slot = stamp.slot :=
      fun _ value h hhash ↦ hsep _ (List.mem_append_left _ (hamong h)) stamp (by simp) hhash
    have hroom : (reserve.binCursor (ctx.bin chunk.chunk.address)).toNat + 1 < 2 ^ 64 := by
      have := hcursor (ctx.bin chunk.chunk.address)
      simp at hlength
      omega
    obtain ⟨hcount', hcursor'⟩ := inv.put_fresh hstamp hload hvalid hslot hsepStamp hroom
    have hrun : ReserveOp.run ctx admission (DbReserve.new Tables.empty capacity)
        ((chunks ++ [chunk]).map .put) = (reserve.put ctx admission chunk).2 := by
      rw [List.map_append, List.map_singleton, ReserveOp.run_append_singleton]
      rfl
    rw [hrun, List.length_append, List.length_singleton]
    refine ⟨by rw [hcount', hcount], fun bin ↦ ?_⟩
    have := hcursor bin
    have := hcursor' bin
    omega

theorem ReserveOp.capacity_apply (reserve : DbReserve) (op : ReserveOp) :
    (ReserveOp.apply ctx admission reserve op).capacity = reserve.capacity := by
  by_cases hput : ∃ chunk, op = .put chunk
  · obtain ⟨chunk, rfl⟩ := hput
    rcases put_cases ctx admission reserve chunk with hsame | ⟨_, _, _, _, _, hput⟩
    · rw [ReserveOp.apply, hsame]
    · rw [ReserveOp.apply, hput]
  · rcases ReserveOp.apply_eq_evictEntries ctx admission reserve (fun chunk h ↦ hput ⟨chunk, h⟩)
      with hsame | ⟨targets, hevict⟩
    · rw [hsame]
    · rw [hevict]
      unfold DbReserve.evictEntries
      split <;> rfl

theorem ReserveOp.capacity_run (ops : List ReserveOp) (reserve : DbReserve) :
    (ReserveOp.run ctx admission reserve ops).capacity = reserve.capacity := by
  induction ops generalizing reserve with
  | nil => rfl
  | cons op ops ih =>
    change (ReserveOp.run ctx admission (ReserveOp.apply ctx admission reserve op) ops).capacity = _
    rw [ih, ReserveOp.capacity_apply]

/-- A reserve context under which every address is at proximity zero and in bin zero, with a stamp
hash that tells stamp indices apart. -/
def flatContext : ReserveContext :=
  ⟨fun _ ↦ 0, fun _ ↦ 0, fun stamp ↦ FixedBytes.ofNat 32 stamp.stampIndex.index.toNat⟩

/-- The stamp of `batch` at `index`. -/
def batchStamp (batch : BatchId) (index : ℕ) : Stamp :=
  ⟨batch, ⟨0, UInt32.ofNat index⟩, 1, FixedBytes.ofNat 65 0⟩

/-- The chunk at address `index`, stamped by `batch` at that index. -/
def batchChunk (batch : BatchId) (index : ℕ) : CachedChunk :=
  ⟨⟨FixedBytes.ofNat 32 index, 0, []⟩, some (batchStamp batch index)⟩

/-- A reserve filled with `n` chunks of one batch. -/
def batchFill (batch : BatchId) (n : ℕ) (capacity : UInt64) : DbReserve :=
  ReserveOp.run flatContext openAdmission (DbReserve.new Tables.empty capacity)
    (((List.range n).map (batchChunk batch)).map .put)

theorem batchFill_capacity (batch : BatchId) (n : ℕ) (capacity : UInt64) :
    (batchFill batch n capacity).capacity = capacity :=
  ReserveOp.capacity_run _ _

theorem stamps_batchFill (batch : BatchId) (n : ℕ) :
    ReserveOp.stamps (((List.range n).map (batchChunk batch)).map .put) =
      (List.range n).map (batchStamp batch) := by
  rw [ReserveOp.stamps, List.map_map, List.filterMap_map]
  exact congrFun (List.filterMap_eq_map :
    List.filterMap (some ∘ batchStamp batch) = List.map (batchStamp batch)) _

theorem batchStamp_index_inj (batch : BatchId) {index index' : ℕ} (h : index < 2 ^ 32)
    (h' : index' < 2 ^ 32)
    (heq : (batchStamp batch index).stampIndex.index = (batchStamp batch index').stampIndex.index) :
    index = index' := by
  have htoNat := congrArg UInt32.toNat heq
  rwa [batchStamp, batchStamp, UInt32.toNat_ofNat_of_lt' h, UInt32.toNat_ofNat_of_lt' h'] at htoNat

/-- Up to `2^32` chunks of one batch all land, all in bin zero: the filled reserve keeps the
invariant and holds `n` entries of the batch at proximity zero. -/
theorem batchFill_spec (batch : BatchId) (n : ℕ) (hn : n ≤ 2 ^ 32) (capacity : UInt64) :
    ReserveInv flatContext (batchFill batch n capacity) ∧
      (batchFill batch n capacity).entryCount = n ∧
      (batchFill batch n capacity).countIn 0 = n ∧
      (batchFill batch n capacity).batchCount batch = n := by
  have hstamps := stamps_batchFill batch n
  -- two of the stamps with one hash have one index, hence one slot
  have hsep : HashSeparates flatContext (ReserveOp.stamps (((List.range n).map (batchChunk batch)).map .put)) := by
    rw [hstamps]
    intro stamp hstamp stamp' hstamp' hhash
    obtain ⟨index, hindex, rfl⟩ := List.mem_map.mp hstamp
    obtain ⟨index', hindex', rfl⟩ := List.mem_map.mp hstamp'
    have hlt := List.mem_range.mp hindex
    have hlt' := List.mem_range.mp hindex'
    have hbound : ∀ stamp : Stamp, stamp.stampIndex.index.toNat < 256 ^ 32 :=
      fun stamp ↦ stamp.stampIndex.index.toNat_lt.trans (by norm_num)
    have hsame := congrArg FixedBytes.toNat hhash
    simp only [flatContext, FixedBytes.toNat_ofNat (hbound _)] at hsame
    rw [batchStamp_index_inj batch (by omega) (by omega) (UInt32.toNat_inj.mp hsame)]
  have hslots : ((ReserveOp.stamps (((List.range n).map (batchChunk batch)).map .put)).map
      Stamp.slot).Nodup := by
    rw [hstamps, List.map_map]
    refine List.Nodup.map_on (fun index hindex index' hindex' heq ↦ ?_) List.nodup_range
    have hslot := congrArg (fun slot : StampSlotKey ↦ slot.stampIndex.index) heq
    exact batchStamp_index_inj batch (by have := List.mem_range.mp hindex; omega)
      (by have := List.mem_range.mp hindex'; omega) hslot
  have hopen : ∀ chunk ∈ (List.range n).map (batchChunk batch), ∃ stamp, ∃ u : Unit,
      chunk.stamp = some stamp ∧ openAdmission.loadBatch stamp.batch = some u ∧
        openAdmission.validate stamp chunk.chunk.address u = .ok () := by
    intro chunk hchunk
    obtain ⟨index, -, rfl⟩ := List.mem_map.mp hchunk
    exact ⟨batchStamp batch index, (), rfl, rfl, rfl⟩
  obtain ⟨hcount, -⟩ := fill_of_fresh capacity _ hopen hslots hsep (by simp; omega)
  rw [List.length_map, List.length_range] at hcount
  have hrun := ReserveInv.run openAdmission hsep _ (fun _ h ↦ h) (ReserveInv.new flatContext capacity)
    (fun h ↦ by simp [DbReserve.new, Tables.empty] at h)
  have inv : ReserveInv flatContext (batchFill batch n capacity) := hrun.1
  have hamong : StampsAmong ((List.range n).map (batchStamp batch))
      (batchFill batch n capacity).tables := hstamps ▸ hrun.2
  -- every entry sits at proximity zero and carries a stamp of the batch
  have hentry : ∀ row ∈ (batchFill batch n capacity).tables.entry.rows,
      row.1.po = 0 ∧ row.1.batch = batch := by
    intro row hrow
    have hget : (batchFill batch n capacity).tables.entry.get row.1 = some row.2 :=
      get_eq_some_iff.mpr hrow
    obtain ⟨hpo, -, hbatch, -⟩ := inv.tables.entry_key hget
    obtain ⟨index, -, hstamp⟩ := List.mem_map.mp (hamong hget)
    refine ⟨hpo, ?_⟩
    rw [hbatch, ← hstamp]
    rfl
  refine ⟨inv, hcount, ?_, ?_⟩
  · rw [countIn_eq_countP, List.countP_eq_length.mpr (fun row hrow ↦ by simp [(hentry row hrow).1])]
    exact hcount
  · rw [DbReserve.batchCount, List.countP_eq_length.mpr (fun row hrow ↦ by simp [(hentry row hrow).2])]
    exact hcount

end Fill

end VertexSwarm.Storer
