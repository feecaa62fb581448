import VertexSwarm.Storer.Schema

/-!
# Per-entry transaction primitives

`storer/src/db_reserve/tx.rs`.  Refcount bump and decrement on the shared payload, deletion of
one stamped entry's index rows, and full deletion that also clears the entry's arbiter slot.
Each runs inside a caller's transaction, so here each is a function of the six tables.

Every primitive has one spec lemma that says what it does to the tables (`deleteEntryRowsInTx_of_get`,
`deleteEntryInTx_of_get`, ...); the proofs about the reserve use those and never unfold the
primitive.
-/

namespace VertexSwarm.Storer

open BigEndian Postage

/-- What the reserve knows about its node: overlay-relative proximity and bin of an address, and
the stamp hash (keccak over the canonical stamp bytes). -/
structure ReserveContext where
  proximity : ChunkAddress → UInt8
  bin : ChunkAddress → UInt8
  stampHash : Stamp → B256

/-- Identity of one stamped entry to evict. -/
structure EvictTarget where
  batch : BatchId
  stampHash : B256
  addr : ChunkAddress
deriving DecidableEq

/-- The `Entry` key of a target at a proximity order. -/
def EvictTarget.entryKey (target : EvictTarget) (po : UInt8) : EntryKey :=
  ⟨po, target.batch, target.stampHash, target.addr⟩

/-- `bump_or_insert_payload`: bump the refcount of an existing payload, or insert it with
refcount 1.  The body is never rewritten while present. -/
def bumpOrInsertPayload (payload : OrderedTable ChunkAddress PayloadValue) (address : ChunkAddress)
    (typedBytes : List UInt8) : OrderedTable ChunkAddress PayloadValue :=
  match payload.get address with
  | some p => payload.put address { p with refcnt := p.refcnt + 1 }
  | none => payload.put address ⟨1, typedBytes⟩

/-- `dec_payload`: decrement the refcount, deleting the body when the last reference goes. -/
def decPayload (payload : OrderedTable ChunkAddress PayloadValue) (address : ChunkAddress) :
    OrderedTable ChunkAddress PayloadValue :=
  match payload.get address with
  | some p =>
    if p.refcnt ≤ 1 then payload.delete address
    else payload.put address { p with refcnt := p.refcnt - 1 }
  | none => payload

/-- `delete_entry_rows_in_tx`: delete one stamped entry's `Entry`, `BatchGroup` and `Replay` rows
and decrement its payload, leaving the arbiter slot and `BinCounter` alone.  Reports whether the
entry existed. -/
def deleteEntryRowsInTx (tables : Tables) (po : UInt8) (target : EvictTarget) : Tables × Bool :=
  match tables.entry.get (target.entryKey po) with
  | none => (tables, false)
  | some value =>
    ({ tables with
        replay := tables.replay.delete value.replayKey
        batchGroup := tables.batchGroup.delete ⟨target.batch, po, target.addr, target.stampHash⟩
        entry := tables.entry.delete (target.entryKey po)
        payload := decPayload tables.payload target.addr }, true)

/-- The tables without one stored entry's index rows and payload reference, as
`delete_entry_rows_in_tx` leaves them; the slot is as it was. -/
def Tables.eraseRows (tables : Tables) (key : EntryKey) (value : EntryValue) : Tables :=
  { tables with
      replay := tables.replay.delete value.replayKey
      batchGroup := tables.batchGroup.delete key.groupKey
      entry := tables.entry.delete key
      payload := decPayload tables.payload key.addr }

/-- Clear `slot` only if it still points at the given stamp hash, so that a restamp's slot is not
clobbered. -/
def clearSlotOf (stampIndex : StampIndexTable) (slot : StampSlotKey) (stampHash : B256) :
    StampIndexTable :=
  match stampIndex.get slot with
  | some occupant => if occupant.stampHash = stampHash then stampIndex.delete slot else stampIndex
  | none => stampIndex

/-- `delete_entry_in_tx`: fully delete a stamped entry, its index rows, its payload reference and
its arbiter slot.  The slot is recovered from the stored stamp before the rows go. -/
def deleteEntryInTx (ctx : ReserveContext) (tables : Tables) (target : EvictTarget) :
    Tables × Bool :=
  let po := ctx.proximity target.addr
  let slot := (tables.entry.get (target.entryKey po)).map (fun value ↦ value.stamp.slot)
  let deleted := deleteEntryRowsInTx tables po target
  match deleted.2, slot with
  | true, some slot =>
    ({ deleted.1 with stampIndex := clearSlotOf deleted.1.stampIndex slot target.stampHash }, true)
  | removed, _ => (deleted.1, removed)

/-! ## Spec lemmas -/

/-- The refcount the payload table records for an address, `none` when it holds no body. -/
def refcntView (payload : OrderedTable ChunkAddress PayloadValue) (address : ChunkAddress) :
    Option ℕ :=
  (payload.get address).map PayloadValue.refcnt

theorem refcntView_bumpOrInsertPayload (payload : OrderedTable ChunkAddress PayloadValue)
    (address : ChunkAddress) (typedBytes : List UInt8) (other : ChunkAddress) :
    refcntView (bumpOrInsertPayload payload address typedBytes) other =
      if other = address then some ((refcntView payload address).getD 0 + 1)
      else refcntView payload other := by
  unfold bumpOrInsertPayload refcntView
  split
  · next p hp =>
    by_cases hother : other = address
    · simp [hother, hp]
    · simp [hother]
  · next hp =>
    by_cases hother : other = address
    · simp [hother, hp]
    · simp [hother]

theorem refcntView_decPayload (payload : OrderedTable ChunkAddress PayloadValue)
    (address other : ChunkAddress) :
    refcntView (decPayload payload address) other =
      if other = address then
        (refcntView payload address).bind (fun n ↦ if n ≤ 1 then none else some (n - 1))
      else refcntView payload other := by
  unfold decPayload refcntView
  split
  · next p hp =>
    by_cases hother : other = address
    · subst hother
      split <;> simp_all
    · split <;> simp [hother]
  · next hp =>
    by_cases hother : other = address
    · simp [hother, hp]
    · simp [hother]

/-- A target with no `Entry` row is left alone. -/
theorem deleteEntryRowsInTx_of_get_none {tables : Tables} {po : UInt8} {target : EvictTarget}
    (h : tables.entry.get (target.entryKey po) = none) :
    deleteEntryRowsInTx tables po target = (tables, false) := by
  unfold deleteEntryRowsInTx
  rw [h]

theorem deleteEntryRowsInTx_of_get {tables : Tables} {po : UInt8} {target : EvictTarget}
    {value : EntryValue} (h : tables.entry.get (target.entryKey po) = some value) :
    deleteEntryRowsInTx tables po target = (tables.eraseRows (target.entryKey po) value, true) := by
  unfold deleteEntryRowsInTx
  rw [h]
  rfl

theorem deleteEntryInTx_of_get_none {ctx : ReserveContext} {tables : Tables} {target : EvictTarget}
    (h : tables.entry.get (target.entryKey (ctx.proximity target.addr)) = none) :
    deleteEntryInTx ctx tables target = (tables, false) := by
  simp [deleteEntryInTx, deleteEntryRowsInTx_of_get_none h]

theorem deleteEntryInTx_of_get {ctx : ReserveContext} {tables : Tables} {target : EvictTarget}
    {value : EntryValue}
    (h : tables.entry.get (target.entryKey (ctx.proximity target.addr)) = some value) :
    deleteEntryInTx ctx tables target =
      ({ tables.eraseRows (target.entryKey (ctx.proximity target.addr)) value with
          stampIndex := clearSlotOf tables.stampIndex value.stamp.slot target.stampHash }, true) := by
  simp [deleteEntryInTx, deleteEntryRowsInTx_of_get h, h, Tables.eraseRows]

theorem deleteEntryRowsInTx_binCounter (tables : Tables) (po : UInt8) (target : EvictTarget) :
    (deleteEntryRowsInTx tables po target).1.binCounter = tables.binCounter := by
  cases h : tables.entry.get (target.entryKey po) with
  | none => rw [deleteEntryRowsInTx_of_get_none h]
  | some value => rw [deleteEntryRowsInTx_of_get h]; rfl

theorem deleteEntryInTx_binCounter (ctx : ReserveContext) (tables : Tables) (target : EvictTarget) :
    (deleteEntryInTx ctx tables target).1.binCounter = tables.binCounter := by
  cases h : tables.entry.get (target.entryKey (ctx.proximity target.addr)) with
  | none => rw [deleteEntryInTx_of_get_none h]
  | some value => rw [deleteEntryInTx_of_get h]; rfl

theorem clearSlotOf_of_occupant {stampIndex : StampIndexTable} {slot : StampSlotKey}
    {occupant : StampIndexEntry} (h : stampIndex.get slot = some occupant) :
    clearSlotOf stampIndex slot occupant.stampHash = stampIndex.delete slot := by
  simp [clearSlotOf, h]

end VertexSwarm.Storer
