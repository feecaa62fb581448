import VertexSwarm.Lib.BigEndian
import VertexSwarm.Lib.OrderedTable
import VertexSwarm.Lib.NewestWins

/-!
# The stamp-index arbiter

`postage/src/stampindex.rs`.  An issuer may re-use a `(batchID, stampIndex)` slot; the arbiter
keeps, per slot, the newest stamp seen.  The rule is consensus-observable: timestamps are compared
as raw 8-byte big-endian arrays, `prev >= curr` rejects (so an equal timestamp rejects), and the
comparison keys on the full 40-byte slot.

The slot table is an ordered table keyed by `StampSlotKey`, whose order is the byte order of its
40-byte encoding (`StampSlotKey.lt_iff_encode_lt`).  `arbitrate` is one read-then-conditional-write
transaction.  On a slot the arbiter is a newest-wins register over the `u64` timestamp
(`arbitrate_get_self`), so a whole run leaves each slot holding the earliest of its presentations
with the greatest timestamp (`arbitrateAll_get`).
-/

namespace VertexSwarm.Postage

open BigEndian

/-- A 32-byte value: a batch id, a chunk address, or a keccak hash. -/
abbrev B256 := FixedBytes 32

/-- A postage batch id. -/
abbrev BatchId := B256

/-- A content address. -/
abbrev ChunkAddress := B256

/-- A stamp index within a batch, `[bucket: 4][index: 4]` big-endian on the wire. -/
structure StampIndex where
  bucket : UInt32
  index : UInt32
deriving DecidableEq

/-- The 8-byte big-endian form of a stamp index. -/
def StampIndex.toBeBytes (stampIndex : StampIndex) : List UInt8 :=
  encode 4 stampIndex.bucket.toNat ++ encode 4 stampIndex.index.toNat

/-- `StampIndex::from_be_bytes`: the bucket and the index, four big-endian bytes each. -/
def StampIndex.fromBeBytes (bytes : FixedBytes 8) : StampIndex :=
  ⟨UInt32.ofNat (decode (bytes.bytes.take 4)), UInt32.ofNat (decode (bytes.bytes.drop 4))⟩

/-- Four bytes read as a `u32` and written back are the same bytes. -/
theorem encode_toNat_ofNat_decode {bytes : List UInt8} (h : bytes.length = 4) :
    encode 4 (UInt32.ofNat (decode bytes)).toNat = bytes := by
  rw [UInt32.toNat_ofNat_of_lt' ((decode_lt bytes).trans_eq (by rw [h]; rfl)),
    encode_decode_of_length h]

theorem StampIndex.toBeBytes_fromBeBytes (bytes : FixedBytes 8) :
    (fromBeBytes bytes).toBeBytes = bytes.bytes := by
  rw [fromBeBytes, toBeBytes, encode_toNat_ofNat_decode (by simp [bytes.length_bytes]),
    encode_toNat_ofNat_decode (by simp [bytes.length_bytes]), List.take_append_drop]

/-- The full per-slot key: a batch and a stamp index within it. -/
structure StampSlotKey where
  batchId : BatchId
  stampIndex : StampIndex
deriving DecidableEq

namespace StampSlotKey

/-- The 40-byte store key `[batch: 32][index_be8: 8]`. -/
def encode (key : StampSlotKey) : List UInt8 := key.batchId.bytes ++ key.stampIndex.toBeBytes

/-- The fields in the order the encoding lays them out. -/
def fields (key : StampSlotKey) : Lex (ℕ × Lex (ℕ × ℕ)) :=
  toLex (key.batchId.toNat, toLex (key.stampIndex.bucket.toNat, key.stampIndex.index.toNat))

theorem fields_injective : Function.Injective fields := by
  rintro ⟨batch, bucket, index⟩ ⟨batch', bucket', index'⟩ h
  simp only [fields, toLex_inj, Prod.mk.injEq] at h
  obtain ⟨hbatch, hbucket, hindex⟩ := h
  have hb : batch = batch' := FixedBytes.toNat_injective hbatch
  have hu : bucket = bucket' := UInt32.toNat_inj.mp hbucket
  have hi : index = index' := UInt32.toNat_inj.mp hindex
  subst hb hu hi
  rfl

instance : LinearOrder StampSlotKey := LinearOrder.lift' fields fields_injective

theorem lt_iff_fields_lt {key key' : StampSlotKey} : key < key' ↔ key.fields < key'.fields :=
  Iff.rfl

/-- The order of slot keys is the byte order of their 40-byte encodings, as `Ord` defines it. -/
theorem lt_iff_encode_lt {key key' : StampSlotKey} : key < key' ↔ key.encode < key'.encode := by
  have h32 : (2 : ℕ) ^ 32 = 256 ^ 4 := by norm_num
  have hbucket := h32 ▸ key.stampIndex.bucket.toNat_lt
  have hbucket' := h32 ▸ key'.stampIndex.bucket.toNat_lt
  have hindex := h32 ▸ key.stampIndex.index.toNat_lt
  have hindex' := h32 ▸ key'.stampIndex.index.toNat_lt
  rw [lt_iff_fields_lt]
  -- a 32-byte array, then the bucket and the index, four big-endian bytes each
  refine toLex_lt_toLex_iff_append_lt (by simp [FixedBytes.length_bytes]) FixedBytes.lt_iff_bytes_lt
    FixedBytes.toNat_eq_toNat_iff ?_
  exact toLex_lt_toLex_iff_append_lt (by simp) (encode_lt_encode_iff hbucket hbucket').symm
    ⟨congrArg (BigEndian.encode 4), BigEndian.encode_injective hbucket hbucket'⟩
    (encode_lt_encode_iff hindex hindex').symm

/-- Distinct slots have distinct 40-byte keys: the encoding separates batch and full index. -/
theorem encode_injective : Function.Injective encode := by
  rintro ⟨batch, bucket, index⟩ ⟨batch', bucket', index'⟩ h
  have h32 : (2 : ℕ) ^ 32 = 256 ^ 4 := by norm_num
  simp only [encode, StampIndex.toBeBytes] at h
  obtain ⟨hbatch, hrest⟩ := List.append_inj h (by rw [batch.length_bytes, batch'.length_bytes])
  obtain ⟨hbucket, hindex⟩ := List.append_inj hrest (by simp)
  have hb : batch = batch' := FixedBytes.ext_bytes hbatch
  have hu : bucket = bucket' := UInt32.toNat_inj.mp
    (BigEndian.encode_injective (h32 ▸ bucket.toNat_lt) (h32 ▸ bucket'.toNat_lt) hbucket)
  have hi : index = index' := UInt32.toNat_inj.mp
    (BigEndian.encode_injective (h32 ▸ index.toNat_lt) (h32 ▸ index'.toNat_lt) hindex)
  subst hb hu hi
  rfl

/-- `Decode for StampSlotKey`: exactly 40 bytes, the batch and the big-endian stamp index. -/
def decode (value : List UInt8) : Option StampSlotKey := do
  let bytes ← FixedBytes.tryFrom 40 value
  let batch ← FixedBytes.tryFrom 32 (bytes.bytes.take 32)
  let index ← FixedBytes.tryFrom 8 (bytes.bytes.drop 32)
  pure ⟨batch, StampIndex.fromBeBytes index⟩

theorem length_encode (key : StampSlotKey) : key.encode.length = 40 := by
  simp [encode, StampIndex.toBeBytes, FixedBytes.length_bytes]

theorem isSome_decode {value : List UInt8} (h : value.length = 40) : (decode value).isSome := by
  simp [decode, FixedBytes.tryFrom, h]

theorem encode_of_decode {value : List UInt8} {key : StampSlotKey} (h : decode value = some key) :
    key.encode = value := by
  simp only [decode, Option.bind_eq_bind, Option.bind_eq_some_iff, Option.pure_def,
    Option.some.injEq] at h
  obtain ⟨bytes, hbytes, batch, hbatch, index, hindex, rfl⟩ := h
  rw [FixedBytes.tryFrom_eq_some_iff] at hbytes hbatch hindex
  rw [encode, StampIndex.toBeBytes_fromBeBytes, hbatch, hindex, List.take_append_drop, hbytes]

theorem orderedCodec : OrderedCodec encode decode 40 :=
  .of_encode_decode length_encode (fun _ ↦ isSome_decode) encode_of_decode
    (fun _ _ ↦ lt_iff_encode_lt)

end StampSlotKey

/-- The occupant of a slot: the stamp version recorded for it. -/
structure StampIndexEntry where
  timestamp : FixedBytes 8
  stampHash : B256
  address : ChunkAddress
deriving DecidableEq

/-- The occupant's timestamp as the `u64` it encodes. -/
def StampIndexEntry.timestampU64 (entry : StampIndexEntry) : ℕ := entry.timestamp.toNat

/-- An incoming stamped-chunk presentation to arbitrate. -/
structure IncomingStamp where
  batchId : BatchId
  stampIndex : StampIndex
  timestamp : FixedBytes 8
  stampHash : B256
  address : ChunkAddress
deriving DecidableEq

namespace IncomingStamp

/-- The slot the presentation competes for. -/
def slot (incoming : IncomingStamp) : StampSlotKey := ⟨incoming.batchId, incoming.stampIndex⟩

/-- The record the stamp leaves in its slot if admitted. -/
def entry (incoming : IncomingStamp) : StampIndexEntry :=
  ⟨incoming.timestamp, incoming.stampHash, incoming.address⟩

end IncomingStamp

/-- The previous occupant of a slot, reported on admission. -/
structure DisplacedEntry where
  address : ChunkAddress
  stampHash : B256
  timestamp : FixedBytes 8
deriving DecidableEq

/-- Why an incoming stamp was rejected. -/
inductive RejectReason where
  | notNewer (stored incoming : FixedBytes 8)
deriving DecidableEq

/-- The arbiter's verdict. -/
inductive Arbitration where
  | admitted (displaced : Option DisplacedEntry)
  | rejected (reason : RejectReason)
deriving DecidableEq

/-- The report an admission makes about the occupant it displaces. -/
def displacedOf (prev : StampIndexEntry) : DisplacedEntry :=
  ⟨prev.address, prev.stampHash, prev.timestamp⟩

/-- The storage-free rule: raw big-endian compare of the timestamps, `prev >= curr` rejects. -/
def decide (stored : Option StampIndexEntry) (incoming : IncomingStamp) : Arbitration :=
  match stored with
  | none => .admitted none
  | some prev =>
    if prev.timestamp.bytes ≥ incoming.timestamp.bytes then
      .rejected (.notNewer prev.timestamp incoming.timestamp)
    else
      .admitted (some (displacedOf prev))

/-- The stamp-index table: `(batchID, stampIndex) -> (timestamp, stampHash, addr)`. -/
abbrev StampIndexTable := OrderedTable StampSlotKey StampIndexEntry

/-- `DbStampIndexArbiter::arbitrate`: read the slot, decide, and write the incoming entry on
admission, in one transaction. -/
def arbitrate (table : StampIndexTable) (incoming : IncomingStamp) :
    Arbitration × StampIndexTable :=
  match decide (table.get incoming.slot) incoming with
  | .admitted displaced => (.admitted displaced, table.put incoming.slot incoming.entry)
  | .rejected reason => (.rejected reason, table)

/-- The table after arbitrating each presentation in turn. -/
def arbitrateAll (table : StampIndexTable) (incomings : List IncomingStamp) : StampIndexTable :=
  incomings.foldl (fun table incoming ↦ (arbitrate table incoming).2) table

/-! ## One arbitration -/

/-- `prev >= curr` on the raw 8-byte arrays is `curr <= prev` on the `u64` they encode. -/
theorem bytes_ge_iff {prev curr : FixedBytes 8} :
    prev.bytes ≥ curr.bytes ↔ curr.toNat ≤ prev.toNat := by
  rw [ge_iff_le, List.le_iff_lt_or_eq, ← FixedBytes.lt_iff_bytes_lt, FixedBytes.lt_iff_toNat_lt]
  constructor
  · rintro (h | h)
    · exact h.le
    · rw [FixedBytes.ext_bytes h]
  · intro h
    rcases h.lt_or_eq with h | h
    · exact Or.inl h
    · exact Or.inr (by rw [FixedBytes.toNat_injective h])

theorem decide_none (incoming : IncomingStamp) : decide none incoming = .admitted none := rfl

theorem decide_some (prev : StampIndexEntry) (incoming : IncomingStamp) :
    decide (some prev) incoming =
      if incoming.timestamp.toNat ≤ prev.timestamp.toNat then
        .rejected (.notNewer prev.timestamp incoming.timestamp)
      else .admitted (some (displacedOf prev)) := by
  simp only [decide, bytes_ge_iff]

/-- The verdict of `arbitrate` is the verdict of `decide` on the slot's occupant. -/
theorem arbitrate_fst (table : StampIndexTable) (incoming : IncomingStamp) :
    (arbitrate table incoming).1 = decide (table.get incoming.slot) incoming := by
  unfold arbitrate
  split <;> simp_all

theorem arbitrate_rejected {table : StampIndexTable} {incoming : IncomingStamp} {reason : RejectReason}
    (h : (arbitrate table incoming).1 = .rejected reason) : (arbitrate table incoming).2 = table := by
  rw [arbitrate_fst] at h
  simp [arbitrate, h]

/-- An admission reports exactly the previous occupant (`none` iff the slot was empty) and
writes the incoming entry into the slot. -/
theorem arbitrate_admitted {table : StampIndexTable} {incoming : IncomingStamp}
    {displaced : Option DisplacedEntry} (h : (arbitrate table incoming).1 = .admitted displaced) :
    displaced = (table.get incoming.slot).map displacedOf ∧
      (arbitrate table incoming).2 = table.put incoming.slot incoming.entry := by
  rw [arbitrate_fst] at h
  refine ⟨?_, by simp [arbitrate, h]⟩
  cases hstored : table.get incoming.slot with
  | none =>
    rw [hstored, decide_none, Arbitration.admitted.injEq] at h
    exact h.symm
  | some prev =>
    rw [hstored, decide_some] at h
    split at h
    · exact absurd h (by simp)
    · rw [Arbitration.admitted.injEq] at h
      simp [h]

theorem arbitrate_get_of_ne {table : StampIndexTable} {incoming : IncomingStamp} {slot : StampSlotKey}
    (hne : slot ≠ incoming.slot) : (arbitrate table incoming).2.get slot = table.get slot := by
  unfold arbitrate
  split <;> simp [hne]

/-- On its own slot, the arbiter is a newest-wins register over the `u64` timestamp. -/
theorem arbitrate_get_self (table : StampIndexTable) (incoming : IncomingStamp) :
    (arbitrate table incoming).2.get incoming.slot =
      NewestWins.offer StampIndexEntry.timestampU64 (table.get incoming.slot) incoming.entry := by
  unfold arbitrate
  cases hstored : table.get incoming.slot with
  | none => simp [decide_none]
  | some prev =>
    rw [decide_some, NewestWins.offer_some]
    by_cases hle : incoming.timestamp.toNat ≤ prev.timestamp.toNat
    · have hnot : ¬ prev.timestampU64 < incoming.entry.timestampU64 := not_lt.mpr hle
      simp [hle, hnot, hstored]
    · have hlt : prev.timestampU64 < incoming.entry.timestampU64 := not_le.mp hle
      simp [hle, hlt]

/-! ## Runs -/

@[simp]
theorem arbitrateAll_nil (table : StampIndexTable) : arbitrateAll table [] = table := rfl

theorem arbitrateAll_append_singleton (table : StampIndexTable) (incomings : List IncomingStamp)
    (incoming : IncomingStamp) :
    arbitrateAll table (incomings ++ [incoming]) =
      (arbitrate (arbitrateAll table incomings) incoming).2 := by
  simp [arbitrateAll, List.foldl_append]

/-- The presentations of a run that compete for `slot`, in arrival order. -/
def presentedTo (slot : StampSlotKey) (incomings : List IncomingStamp) : List IncomingStamp :=
  incomings.filter (fun incoming ↦ incoming.slot = slot)

theorem arbitrateAll_get (table : StampIndexTable) (incomings : List IncomingStamp)
    (slot : StampSlotKey) :
    (arbitrateAll table incomings).get slot =
      NewestWins.feed StampIndexEntry.timestampU64 (table.get slot)
        ((presentedTo slot incomings).map IncomingStamp.entry) := by
  induction incomings using List.reverseRecOn with
  | nil => rfl
  | append_singleton incomings incoming ih =>
    rw [arbitrateAll_append_singleton, presentedTo, List.filter_append]
    by_cases hslot : incoming.slot = slot
    · subst hslot
      rw [arbitrate_get_self, ih, List.filter_singleton, decide_eq_true rfl, cond_true,
        List.map_append, List.map_singleton, NewestWins.feed_append_singleton, presentedTo]
    · rw [arbitrate_get_of_ne (Ne.symm hslot), ih, List.filter_singleton, decide_eq_false hslot,
        cond_false, List.append_nil, presentedTo]

theorem arbitrateAll_empty_get (incomings : List IncomingStamp) (slot : StampSlotKey) :
    (arbitrateAll .empty incomings).get slot =
      (NewestWins.newest (fun incoming : IncomingStamp ↦ incoming.timestamp.toNat)
        (presentedTo slot incomings)).map IncomingStamp.entry := by
  rw [arbitrateAll_get, OrderedTable.get_empty, NewestWins.newest]
  exact NewestWins.feed_map StampIndexEntry.timestampU64 IncomingStamp.entry none _

/-- Newest-wins per slot.  For every run of arbitrations from an empty table and every slot:
the final occupant is the entry of the earliest presentation to that slot whose timestamp, as the
`u64` its 8 big-endian bytes encode, is the greatest (and the slot is empty iff nothing was
presented to it); and at every step of the run, an admission reports exactly the previous
occupant, a rejection changes nothing, an occupant is only ever replaced by one with a strictly
greater timestamp, and no other slot changes. -/
theorem arbitrate_newest_wins (incomings : List IncomingStamp) (slot : StampSlotKey) :
    ((arbitrateAll .empty incomings).get slot = none ↔ presentedTo slot incomings = []) ∧
    (∀ occupant, (arbitrateAll .empty incomings).get slot = some occupant →
      ∃ winner, occupant = winner.entry ∧
        NewestWins.IsEarliestMax (fun incoming : IncomingStamp ↦ incoming.timestamp.toNat)
          (presentedTo slot incomings) winner) ∧
    ∀ before incoming after, incomings = before ++ incoming :: after →
      let table := arbitrateAll .empty before
      let step := arbitrate table incoming
      (∀ displaced, step.1 = .admitted displaced →
        displaced = (table.get incoming.slot).map displacedOf) ∧
      (∀ reason, step.1 = .rejected reason → step.2 = table) ∧
      (∀ old, table.get slot = some old → ∃ new, step.2.get slot = some new ∧
        (new = old ∨ old.timestampU64 < new.timestampU64)) ∧
      (slot ≠ incoming.slot → step.2.get slot = table.get slot) := by
  refine ⟨?_, ?_, ?_⟩
  · rw [arbitrateAll_empty_get, Option.map_eq_none_iff, NewestWins.newest_eq_none_iff]
  · intro occupant h
    rw [arbitrateAll_empty_get, Option.map_eq_some_iff] at h
    obtain ⟨winner, hwinner, hentry⟩ := h
    exact ⟨winner, hentry.symm, NewestWins.newest_isEarliestMax _ hwinner⟩
  · intro before incoming after _
    refine ⟨fun displaced h ↦ (arbitrate_admitted h).1, fun reason h ↦ arbitrate_rejected h, ?_,
      arbitrate_get_of_ne⟩
    intro old hold
    by_cases hslot : slot = incoming.slot
    · subst hslot
      rw [arbitrate_get_self, hold, NewestWins.offer_some]
      split
      · next hlt => exact ⟨incoming.entry, rfl, Or.inr hlt⟩
      · exact ⟨old, rfl, Or.inl rfl⟩
    · exact ⟨old, by rw [arbitrate_get_of_ne hslot, hold], Or.inl rfl⟩

end VertexSwarm.Postage
