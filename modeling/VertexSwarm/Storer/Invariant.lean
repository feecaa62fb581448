import VertexSwarm.Storer.Store

/-!
# The reserve representation invariant

The six tables of a reserve describe one set of stamped entries, each a row of `Entry`.  The
other tables are indexes over that set: `BatchGroup` holds exactly the entry keys reordered,
`Replay` holds one row per entry at the entry's `(bin, binid)`, `Payload` holds one body per
address with a refcount equal to the address's entry count, and the arbiter's
`StampIndexTable` holds one slot per entry, at the slot of the entry's stamp.  `TablesInv`
states this; `ReserveInv` adds that the in-memory size counter is the `Entry` count.

Every verb keeps the invariant.  A put either writes nothing, or admits into an empty slot
(`TablesInv.writeAdmitted`), or displaces the slot's occupant: the displaced rows are erased
(`TablesInv.erase`) and the new entry written over the slot.  Every eviction verb is a list of
full deletes (`TablesInv.deleteEntriesInTx`).

The stamp hash is keccak over the stamp's canonical bytes; the model only asks that the
stamps a run presents do not collide across slots (`HashSeparates`).
-/

namespace VertexSwarm.Storer

open BigEndian Postage OrderedTable

/-- The number of live entries of an address. -/
def entriesOf (entry : OrderedTable EntryKey EntryValue) (address : ChunkAddress) : ℕ :=
  entry.rows.countP (fun row ↦ row.1.addr = address)

/-- What the payload table records for an address with `n` live entries: no row at zero, the
refcount `n` otherwise. -/
def expectedRefcnt (n : ℕ) : Option ℕ := if n = 0 then none else some n

theorem expectedRefcnt_succ (n : ℕ) :
    some ((expectedRefcnt n).getD 0 + 1) = expectedRefcnt (n + 1) := by
  unfold expectedRefcnt
  split <;> simp_all

/-- `dec_payload`'s step on the refcount: the last reference removes the row. -/
theorem expectedRefcnt_pred {n : ℕ} (hn : 1 ≤ n) :
    (expectedRefcnt n).bind (fun r ↦ if r ≤ 1 then none else some (r - 1)) =
      expectedRefcnt (n - 1) := by
  have hpos : n ≠ 0 := by omega
  simp only [expectedRefcnt, hpos, ↓reduceIte, Option.bind_some]
  by_cases hone : n ≤ 1
  · rw [if_pos hone, if_pos (by omega)]
  · rw [if_neg hone, if_neg (by omega)]

/-- The representation invariant of the six tables, for a reserve with context `ctx`. -/
structure TablesInv (ctx : ReserveContext) (tables : Tables) : Prop where
  /-- An entry is keyed by its address's proximity, its stamp's batch and stamp hash, and
  lands in its address's bin. -/
  entry_key : ∀ {key value}, tables.entry.get key = some value →
    key.po = ctx.proximity key.addr ∧ value.bin = ctx.bin key.addr ∧
      key.batch = value.stamp.batch ∧ key.stampHash = ctx.stampHash value.stamp
  /-- `BatchGroup` rows are the `Entry` keys, reordered. -/
  group_iff : ∀ key : EntryKey,
    (tables.batchGroup.get key.groupKey).isSome ↔ (tables.entry.get key).isSome
  /-- Every entry's `(bin, binid)` names a `Replay` row with the entry's identity. -/
  replay_of_entry : ∀ {key value}, tables.entry.get key = some value →
    ∃ chunkType, tables.replay.get value.replayKey = some ⟨key.addr, key.batch, key.stampHash, chunkType⟩
  /-- Every `Replay` row is named by an entry. -/
  entry_of_replay : ∀ {replayKey row}, tables.replay.get replayKey = some row →
    ∃ key value, tables.entry.get key = some value ∧ value.replayKey = replayKey
  /-- No two entries name the same `Replay` row. -/
  replayKey_inj : ∀ {key key' value value'}, tables.entry.get key = some value →
    tables.entry.get key' = some value' → value.replayKey = value'.replayKey → key = key'
  /-- The payload row of an address exists iff it has entries, and counts them. -/
  refcnt : ∀ address,
    refcntView tables.payload address = expectedRefcnt (entriesOf tables.entry address)
  /-- Every entry occupies the slot of its stamp. -/
  slot_of_entry : ∀ {key value}, tables.entry.get key = some value →
    tables.stampIndex.get value.stamp.slot =
      some ⟨value.stamp.timestampBytes, key.stampHash, key.addr⟩
  /-- Every slot's occupant is a live entry stamped for that slot. -/
  entry_of_slot : ∀ {slot occupant}, tables.stampIndex.get slot = some occupant →
    ∃ value, tables.entry.get
        ⟨ctx.proximity occupant.address, slot.batchId, occupant.stampHash, occupant.address⟩ =
        some value ∧ value.stamp.slot = slot
  /-- Every `Replay` sequence of a bin lies in `1 ..= BinCounter[bin]`. -/
  binid_bounds : ∀ {replayKey row}, tables.replay.get replayKey = some row →
    1 ≤ replayKey.binid.toNat ∧
      replayKey.binid.toNat ≤ ((tables.binCounter.get ⟨replayKey.bin⟩).getD 0).toNat

/-- The representation invariant of a reserve: its tables', and the in-memory size counter
kept equal to the `Entry` count. -/
structure ReserveInv (ctx : ReserveContext) (reserve : DbReserve) : Prop where
  tables : TablesInv ctx reserve.tables
  count_eq : reserve.count = reserve.tables.entry.count

theorem TablesInv.empty (ctx : ReserveContext) : TablesInv ctx Tables.empty where
  entry_key h := by simp [Tables.empty] at h
  group_iff _ := by simp [Tables.empty]
  replay_of_entry h := by simp [Tables.empty] at h
  entry_of_replay h := by simp [Tables.empty] at h
  replayKey_inj h := by simp [Tables.empty] at h
  refcnt _ := by simp [Tables.empty, refcntView, entriesOf, expectedRefcnt]
  slot_of_entry h := by simp [Tables.empty] at h
  entry_of_slot h := by simp [Tables.empty] at h
  binid_bounds h := by simp [Tables.empty] at h

theorem ReserveInv.new (ctx : ReserveContext) (capacity : UInt64) :
    ReserveInv ctx (DbReserve.new Tables.empty capacity) :=
  ⟨TablesInv.empty ctx, rfl⟩

theorem EntryKey.groupKey_inj {key key' : EntryKey} : key.groupKey = key'.groupKey ↔ key = key' := by
  constructor
  · intro h
    rw [← key.entryKey_groupKey, h, key'.entryKey_groupKey]
  · rintro rfl
    rfl

section Consequences

variable {ctx : ReserveContext} {tables : Tables} (inv : TablesInv ctx tables)
include inv

/-- Two live entries stamped for the same slot are the same entry: the slot names the hash and
the address, and the stamp gives the batch and hence, with the address, the whole key. -/
theorem TablesInv.key_eq_of_slot_eq {key key' : EntryKey} {value value' : EntryValue}
    (h : tables.entry.get key = some value) (h' : tables.entry.get key' = some value')
    (hslot : value.stamp.slot = value'.stamp.slot) : key = key' := by
  have hoccupant := inv.slot_of_entry h
  rw [hslot, inv.slot_of_entry h'] at hoccupant
  simp only [Option.some.injEq, StampIndexEntry.mk.injEq] at hoccupant
  obtain ⟨-, hhash, haddr⟩ := hoccupant
  have hbatch : value.stamp.batch = value'.stamp.batch := congrArg StampSlotKey.batchId hslot
  obtain ⟨hpo, -, hkbatch, -⟩ := inv.entry_key h
  obtain ⟨hpo', -, hkbatch', -⟩ := inv.entry_key h'
  obtain ⟨po, batch, hash, addr⟩ := key
  obtain ⟨po', batch', hash', addr'⟩ := key'
  simp only at hhash haddr hpo hpo' hkbatch hkbatch'
  subst hhash haddr
  simp only [EntryKey.mk.injEq, and_true]
  exact ⟨hpo.trans hpo'.symm, hkbatch.trans (hbatch.trans hkbatch'.symm)⟩

end Consequences

theorem one_le_entriesOf {entry : OrderedTable EntryKey EntryValue} {key : EntryKey}
    {value : EntryValue} (h : entry.get key = some value) : 1 ≤ entriesOf entry key.addr :=
  List.countP_pos_iff.mpr ⟨(key, value), get_eq_some_iff.mp h, by simp⟩

/-! ## Erasing one entry -/

/-- The tables without one live entry: its index rows, its payload reference and its slot. -/
def Tables.erase (tables : Tables) (key : EntryKey) (value : EntryValue) : Tables :=
  { tables.eraseRows key value with stampIndex := tables.stampIndex.delete value.stamp.slot }

section Erase

variable {ctx : ReserveContext} {tables : Tables} {key : EntryKey} {value : EntryValue}

theorem Tables.erase_entry_get (tables : Tables) (key : EntryKey) (value : EntryValue)
    {key' : EntryKey} {value' : EntryValue} (h : (tables.erase key value).entry.get key' = some value') :
    key' ≠ key ∧ tables.entry.get key' = some value' := by
  simp only [Tables.erase, Tables.eraseRows, get_delete] at h
  split at h
  · cases h
  · next hne => exact ⟨hne, h⟩

theorem TablesInv.erase (inv : TablesInv ctx tables) (h : tables.entry.get key = some value) :
    TablesInv ctx (tables.erase key value) where
  entry_key h' := inv.entry_key (tables.erase_entry_get key value h').2
  group_iff key' := by
    simp only [Tables.erase, Tables.eraseRows, get_delete, EntryKey.groupKey_inj]
    split
    · simp
    · exact inv.group_iff key'
  replay_of_entry {key' value'} h' := by
    obtain ⟨hne, hold⟩ := tables.erase_entry_get key value h'
    obtain ⟨chunkType, hreplay⟩ := inv.replay_of_entry hold
    -- the erased entry's replay row is its own: no other entry names it
    have hrne : value'.replayKey ≠ value.replayKey := fun heq ↦ hne (inv.replayKey_inj hold h heq)
    exact ⟨chunkType, by simpa [Tables.erase, Tables.eraseRows, get_delete_of_ne hrne] using hreplay⟩
  entry_of_replay {replayKey row} h' := by
    simp only [Tables.erase, Tables.eraseRows, get_delete] at h'
    split at h'
    · cases h'
    · next hrne =>
      obtain ⟨key', value', hold, hnamed⟩ := inv.entry_of_replay h'
      have hne : key' ≠ key := by
        rintro rfl
        rw [h, Option.some.injEq] at hold
        exact hrne (hold ▸ hnamed.symm)
      exact ⟨key', value', by simpa [Tables.erase, Tables.eraseRows, get_delete_of_ne hne], hnamed⟩
  replayKey_inj h₁ h₂ heq :=
    inv.replayKey_inj (tables.erase_entry_get key value h₁).2 (tables.erase_entry_get key value h₂).2 heq
  refcnt address := by
    have hcount := countP_delete h (fun row ↦ row.1.addr = address)
    simp only [Tables.erase, Tables.eraseRows, refcntView_decPayload]
    split
    · next haddr =>
      subst haddr
      -- the last reference of the address goes with the entry
      simp only [decide_true, ↓reduceIte] at hcount
      rw [inv.refcnt, expectedRefcnt_pred (one_le_entriesOf h), entriesOf, entriesOf, ← hcount]
      simp
    · next haddr =>
      have hother : (key.addr = address) = False := propext ⟨fun h ↦ haddr h.symm, False.elim⟩
      simp only [hother, decide_false, Bool.false_eq_true, ↓reduceIte, add_zero] at hcount
      rw [inv.refcnt, entriesOf, entriesOf, hcount]
  slot_of_entry {key' value'} h' := by
    obtain ⟨hne, hold⟩ := tables.erase_entry_get key value h'
    have hsne : value'.stamp.slot ≠ value.stamp.slot := fun heq ↦ hne (inv.key_eq_of_slot_eq hold h heq)
    simpa [Tables.erase, get_delete_of_ne hsne] using inv.slot_of_entry hold
  entry_of_slot {slot occupant} h' := by
    simp only [Tables.erase, get_delete] at h'
    split at h'
    · cases h'
    · next hsne =>
      obtain ⟨value', hold, hslot⟩ := inv.entry_of_slot h'
      have hne : (⟨ctx.proximity occupant.address, slot.batchId, occupant.stampHash,
          occupant.address⟩ : EntryKey) ≠ key := by
        intro heq
        rw [heq, h, Option.some.injEq] at hold
        exact hsne (hold ▸ hslot.symm)
      exact ⟨value', by simpa [Tables.erase, Tables.eraseRows, get_delete_of_ne hne], hslot⟩
  binid_bounds {replayKey row} h' := by
    simp only [Tables.erase, Tables.eraseRows, get_delete] at h'
    split at h'
    · cases h'
    · exact inv.binid_bounds h'

theorem Tables.erase_count (h : tables.entry.get key = some value) :
    (tables.erase key value).entry.count + 1 = tables.entry.count :=
  count_delete h

/-- Under the invariant, `delete_entry_in_tx` of a live entry finds its slot still naming it
and erases the entry whole. -/
theorem TablesInv.deleteEntryInTx_of_get (inv : TablesInv ctx tables) {target : EvictTarget}
    (h : tables.entry.get (target.entryKey (ctx.proximity target.addr)) = some value) :
    deleteEntryInTx ctx tables target =
      (tables.erase (target.entryKey (ctx.proximity target.addr)) value, true) := by
  have hclear : clearSlotOf tables.stampIndex value.stamp.slot target.stampHash =
      tables.stampIndex.delete value.stamp.slot :=
    clearSlotOf_of_occupant (inv.slot_of_entry h)
  rw [Storer.deleteEntryInTx_of_get h, hclear]
  rfl

/-- `delete_entry_in_tx` under the invariant: a target with no entry changes nothing; a live
target is erased whole. -/
theorem TablesInv.deleteEntryInTx_cases (inv : TablesInv ctx tables) (target : EvictTarget) :
    deleteEntryInTx ctx tables target = (tables, false) ∨
    ∃ key value, tables.entry.get key = some value ∧
      deleteEntryInTx ctx tables target = (tables.erase key value, true) := by
  cases h : tables.entry.get (target.entryKey (ctx.proximity target.addr)) with
  | none => exact Or.inl (deleteEntryInTx_of_get_none h)
  | some value => exact Or.inr ⟨_, value, h, inv.deleteEntryInTx_of_get h⟩

end Erase

/-! ## Writing one admitted entry -/

/-- The `Entry` key an admitted put writes. -/
def admittedKey (ctx : ReserveContext) (stamp : Stamp) (chunk : AnyChunk) : EntryKey :=
  ⟨ctx.proximity chunk.address, stamp.batch, ctx.stampHash stamp, chunk.address⟩

@[simp]
theorem admittedKey_addr (ctx : ReserveContext) (stamp : Stamp) (chunk : AnyChunk) :
    (admittedKey ctx stamp chunk).addr = chunk.address := rfl

section Write

variable {ctx : ReserveContext} {tables : Tables} {stamp : Stamp} {chunk : AnyChunk}
  {next : UInt64}

open DbReserve

theorem writeAdmitted_entry :
    (writeAdmitted ctx tables stamp chunk next).entry =
      tables.entry.put (admittedKey ctx stamp chunk) ⟨ctx.bin chunk.address, next, stamp⟩ := rfl

theorem writeAdmitted_batchGroup :
    (writeAdmitted ctx tables stamp chunk next).batchGroup =
      tables.batchGroup.put (admittedKey ctx stamp chunk).groupKey () := rfl

theorem writeAdmitted_payload :
    (writeAdmitted ctx tables stamp chunk next).payload =
      bumpOrInsertPayload tables.payload chunk.address chunk.typedBytes := rfl

theorem writeAdmitted_binCounter :
    (writeAdmitted ctx tables stamp chunk next).binCounter =
      tables.binCounter.put ⟨ctx.bin chunk.address⟩ next := rfl

theorem writeAdmitted_binCounter_get (binKey : BinKey) :
    (writeAdmitted ctx tables stamp chunk next).binCounter.get binKey =
      if binKey = ⟨ctx.bin chunk.address⟩ then some next else tables.binCounter.get binKey :=
  get_put _ _ _ binKey

theorem writeAdmitted_entry_get (key : EntryKey) :
    (writeAdmitted ctx tables stamp chunk next).entry.get key =
      if key = admittedKey ctx stamp chunk then some ⟨ctx.bin chunk.address, next, stamp⟩
      else tables.entry.get key :=
  get_put _ _ _ key

theorem writeAdmitted_replay_get (replayKey : ReplayKey) :
    (writeAdmitted ctx tables stamp chunk next).replay.get replayKey =
      if replayKey = ⟨ctx.bin chunk.address, next⟩ then
        some ⟨chunk.address, stamp.batch, ctx.stampHash stamp, chunk.chunkType⟩
      else tables.replay.get replayKey :=
  get_put _ _ _ replayKey

theorem writeAdmitted_stampIndex_get (slot : StampSlotKey) :
    (writeAdmitted ctx tables stamp chunk next).stampIndex.get slot =
      if slot = stamp.slot then
        some ⟨stamp.timestampBytes, ctx.stampHash stamp, chunk.address⟩
      else tables.stampIndex.get slot :=
  get_put _ _ _ slot

theorem writeAdmitted_delete_slot :
    writeAdmitted ctx { tables with stampIndex := tables.stampIndex.delete stamp.slot } stamp chunk next =
      writeAdmitted ctx tables stamp chunk next := by
  simp only [writeAdmitted, put_delete_self]

theorem toNat_of_nextBinid (hnext : nextBinid ctx tables chunk.address = some next) :
    next.toNat = ((tables.binCounter.get ⟨ctx.bin chunk.address⟩).getD 0).toNat + 1 :=
  Checked.toNat_of_checkedAdd hnext

section Fresh

variable (inv : TablesInv ctx tables) (hslot : tables.stampIndex.get stamp.slot = none)
include inv hslot

theorem TablesInv.slot_ne_of_empty {key : EntryKey} {value : EntryValue}
    (h : tables.entry.get key = some value) : value.stamp.slot ≠ stamp.slot := by
  intro heq
  have hoccupied := inv.slot_of_entry h
  rw [heq, hslot] at hoccupied
  cases hoccupied

/-- The admitted key is fresh: an entry under it would carry the incoming stamp hash, hence
(without a hash collision) sit in the incoming slot, which is empty. -/
theorem TablesInv.admittedKey_fresh (chunk : AnyChunk)
    (hsep : ∀ key value, tables.entry.get key = some value →
      ctx.stampHash value.stamp = ctx.stampHash stamp → value.stamp.slot = stamp.slot) :
    tables.entry.get (admittedKey ctx stamp chunk) = none := by
  cases h : tables.entry.get (admittedKey ctx stamp chunk) with
  | none => rfl
  | some value =>
    have hhash : ctx.stampHash stamp = ctx.stampHash value.stamp := (inv.entry_key h).2.2.2
    exact absurd (hsep _ value h hhash.symm) (inv.slot_ne_of_empty hslot h)

end Fresh

/-- The `Replay` row a new sequence lands on is free: every row of the bin is at most the
counter, and the new sequence is one past it. -/
theorem TablesInv.replay_fresh (inv : TablesInv ctx tables)
    (hnext : nextBinid ctx tables chunk.address = some next) :
    tables.replay.get ⟨ctx.bin chunk.address, next⟩ = none := by
  cases h : tables.replay.get ⟨ctx.bin chunk.address, next⟩ with
  | none => rfl
  | some row =>
    have hbound := (inv.binid_bounds h).2
    have hnext' := toNat_of_nextBinid hnext
    simp only at hbound
    omega

theorem TablesInv.replayKey_ne_of_fresh (inv : TablesInv ctx tables)
    (hnext : nextBinid ctx tables chunk.address = some next) {key : EntryKey} {value : EntryValue}
    (h : tables.entry.get key = some value) :
    value.replayKey ≠ ⟨ctx.bin chunk.address, next⟩ := by
  intro heq
  obtain ⟨chunkType, hreplay⟩ := inv.replay_of_entry h
  rw [heq, inv.replay_fresh hnext] at hreplay
  cases hreplay

theorem TablesInv.writeAdmitted (inv : TablesInv ctx tables)
    (hslot : tables.stampIndex.get stamp.slot = none)
    (hsep : ∀ key value, tables.entry.get key = some value →
      ctx.stampHash value.stamp = ctx.stampHash stamp → value.stamp.slot = stamp.slot)
    (hnext : nextBinid ctx tables chunk.address = some next) :
    TablesInv ctx (DbReserve.writeAdmitted ctx tables stamp chunk next) where
  entry_key {key value} h := by
    rw [writeAdmitted_entry_get] at h
    split at h
    · next hkey =>
      cases h
      subst hkey
      exact ⟨rfl, rfl, rfl, rfl⟩
    · exact inv.entry_key h
  group_iff key := by
    rw [writeAdmitted_batchGroup, get_put, writeAdmitted_entry_get]
    simp only [EntryKey.groupKey_inj]
    split
    · simp
    · exact inv.group_iff key
  replay_of_entry {key value} h := by
    rw [writeAdmitted_entry_get] at h
    split at h
    · next hkey =>
      cases h
      subst hkey
      exact ⟨chunk.chunkType, by simp [writeAdmitted_replay_get, EntryValue.replayKey, admittedKey]⟩
    · obtain ⟨chunkType, hreplay⟩ := inv.replay_of_entry h
      refine ⟨chunkType, ?_⟩
      rw [writeAdmitted_replay_get, if_neg (inv.replayKey_ne_of_fresh hnext h)]
      exact hreplay
  entry_of_replay {replayKey row} h := by
    rw [writeAdmitted_replay_get] at h
    split at h
    · next hkey =>
      refine ⟨admittedKey ctx stamp chunk, ⟨ctx.bin chunk.address, next, stamp⟩, ?_, hkey.symm⟩
      simp [writeAdmitted_entry_get]
    · obtain ⟨key, value, hentry, hnamed⟩ := inv.entry_of_replay h
      have hne : key ≠ admittedKey ctx stamp chunk := by
        rintro rfl
        rw [inv.admittedKey_fresh hslot chunk hsep] at hentry
        cases hentry
      refine ⟨key, value, ?_, hnamed⟩
      rw [writeAdmitted_entry_get, if_neg hne]
      exact hentry
  replayKey_inj {key key' value value'} h h' heq := by
    rw [writeAdmitted_entry_get] at h h'
    split at h <;> split at h'
    · next hkey hkey' => exact hkey.trans hkey'.symm
    · next hkey _ =>
      cases h
      exact absurd heq.symm (inv.replayKey_ne_of_fresh hnext h')
    · next _ hkey' =>
      cases h'
      exact absurd heq (inv.replayKey_ne_of_fresh hnext h)
    · exact inv.replayKey_inj h h' heq
  refcnt address := by
    have hcount := countP_put_of_get_none ⟨ctx.bin chunk.address, next, stamp⟩
      (inv.admittedKey_fresh hslot chunk hsep) (fun row ↦ row.1.addr = address)
    rw [writeAdmitted_payload, refcntView_bumpOrInsertPayload, writeAdmitted_entry]
    split
    · next haddr =>
      subst haddr
      -- the new entry adds one reference to its address
      simp only [admittedKey_addr, decide_true, ↓reduceIte] at hcount
      rw [inv.refcnt, expectedRefcnt_succ, entriesOf, entriesOf, hcount]
    · next haddr =>
      have hother : (chunk.address = address) = False := propext ⟨fun h ↦ haddr h.symm, False.elim⟩
      simp only [admittedKey_addr, hother, decide_false, Bool.false_eq_true, ↓reduceIte,
        add_zero] at hcount
      rw [inv.refcnt, entriesOf, entriesOf, hcount]
  slot_of_entry {key value} h := by
    rw [writeAdmitted_entry_get] at h
    split at h
    · next hkey =>
      cases h
      subst hkey
      simp [writeAdmitted_stampIndex_get, admittedKey]
    · rw [writeAdmitted_stampIndex_get, if_neg (inv.slot_ne_of_empty hslot h)]
      exact inv.slot_of_entry h
  entry_of_slot {slot occupant} h := by
    rw [writeAdmitted_stampIndex_get] at h
    split at h
    · next hslot' =>
      cases h
      subst hslot'
      exact ⟨⟨ctx.bin chunk.address, next, stamp⟩, by simp [writeAdmitted_entry_get, admittedKey, Stamp.slot], rfl⟩
    · obtain ⟨value, hentry, hvslot⟩ := inv.entry_of_slot h
      have hne : (⟨ctx.proximity occupant.address, slot.batchId, occupant.stampHash,
          occupant.address⟩ : EntryKey) ≠ admittedKey ctx stamp chunk := by
        intro heq
        rw [heq, inv.admittedKey_fresh hslot chunk hsep] at hentry
        cases hentry
      refine ⟨value, ?_, hvslot⟩
      rw [writeAdmitted_entry_get, if_neg hne]
      exact hentry
  binid_bounds {replayKey row} h := by
    have hnext' := toNat_of_nextBinid hnext
    rw [writeAdmitted_replay_get] at h
    rw [writeAdmitted_binCounter_get]
    split at h
    · next hkey =>
      subst hkey
      simp only [↓reduceIte, Option.getD_some]
      omega
    · have hold := inv.binid_bounds h
      split
      · next hbin =>
        -- another row of the same bin stays below the raised counter
        rw [BinKey.mk.injEq] at hbin
        rw [hbin] at hold
        simp only [Option.getD_some]
        omega
      · exact hold

theorem writeAdmitted_count (hfresh : tables.entry.get (admittedKey ctx stamp chunk) = none) :
    (DbReserve.writeAdmitted ctx tables stamp chunk next).entry.count = tables.entry.count + 1 := by
  rw [writeAdmitted_entry]
  exact count_put_of_get_none _ hfresh

end Write

end VertexSwarm.Storer
