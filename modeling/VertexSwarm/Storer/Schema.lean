import VertexSwarm.Postage.StampIndex

/-!
# The reserve schema

`storer/src/db_reserve/schema.rs`.  The per-stamped-entry reserve keeps six tables in one
database: `Payload` (refcounted content bodies), `Entry` (one row per stamped entry, keyed
proximity-major), `BatchGroup` (per-batch grouping), `Replay` (per-bin insertion order),
`BinCounter` (per-bin sequence) and the postage crate's `StampIndexTable`.

Compound keys are written big-endian, so the store's byte order of a key is the lexicographic
order of its fields.  Each key type below gets the field order as its `LinearOrder` and a theorem
`lt_iff_encode_lt` saying that this is the byte order of the key's `encode`, the order a store
cursor walks.

A stamp (the postage crate's `Stamp`) is carried as the record it decodes to: the entry value's
`stamp_bytes` is the canonical 113-byte encoding of it, which decodes back to the same stamp.
-/

namespace VertexSwarm.Storer

open BigEndian Postage

/-- A postage stamp: batch, index within the batch, issuer timestamp and signature. -/
structure Stamp where
  batch : BatchId
  stampIndex : StampIndex
  timestamp : UInt64
  signature : FixedBytes 65
deriving DecidableEq

/-- The `(batch, stampIndex)` slot a stamp occupies in the arbiter. -/
def Stamp.slot (stamp : Stamp) : StampSlotKey := ⟨stamp.batch, stamp.stampIndex⟩

/-- The raw 8-byte big-endian timestamp, as `u64::to_be_bytes` writes it. -/
def Stamp.timestampBytes (stamp : Stamp) : FixedBytes 8 := FixedBytes.ofNat 8 stamp.timestamp.toNat

/-- A content chunk with its type tag, as the reserve stores it: its address, its chunk type id
and its type-tagged bytes. -/
structure AnyChunk where
  address : ChunkAddress
  chunkType : UInt8
  typedBytes : List UInt8
deriving DecidableEq

/-- `AnyChunk::is_content`: chunk type id 0 (`ChunkTypeId::as_u8`: 0 = content, 1 =
single-owner). -/
def AnyChunk.isContent (chunk : AnyChunk) : Bool := chunk.chunkType == 0

/-- A chunk with the stamp it was presented under, if any. -/
structure CachedChunk where
  chunk : AnyChunk
  stamp : Option Stamp
deriving DecidableEq

/-! ## Keys -/

/-- `Entry` key `(po, batch, stampHash, addr)`, proximity-major. -/
structure EntryKey where
  po : UInt8
  batch : BatchId
  stampHash : B256
  addr : ChunkAddress
deriving DecidableEq

/-- `BatchGroup` key `(batch, po, addr, stampHash)`, batch-major then bin. -/
structure BatchGroupKey where
  batch : BatchId
  po : UInt8
  addr : ChunkAddress
  stampHash : B256
deriving DecidableEq

/-- `Replay` key `(bin, binid)`. -/
structure ReplayKey where
  bin : UInt8
  binid : UInt64
deriving DecidableEq

/-- `BinCounter` key, a newtype over the bin byte. -/
structure BinKey where
  bin : UInt8
deriving DecidableEq

namespace EntryKey

/-- `[po: 1][batch: 32][stampHash: 32][addr: 32]`. -/
def encode (key : EntryKey) : List UInt8 :=
  [key.po] ++ (key.batch.bytes ++ (key.stampHash.bytes ++ key.addr.bytes))

def fields (key : EntryKey) : Lex (ℕ × Lex (ℕ × Lex (ℕ × ℕ))) :=
  toLex (key.po.toNat, toLex (key.batch.toNat, toLex (key.stampHash.toNat, key.addr.toNat)))

theorem fields_injective : Function.Injective fields := by
  rintro ⟨po, batch, hash, addr⟩ ⟨po', batch', hash', addr'⟩ h
  simp only [fields, toLex_inj, Prod.mk.injEq] at h
  obtain ⟨hpo, hbatch, hhash, haddr⟩ := h
  rw [UInt8.toNat_inj.mp hpo, FixedBytes.toNat_injective hbatch, FixedBytes.toNat_injective hhash,
    FixedBytes.toNat_injective haddr]

instance : LinearOrder EntryKey := LinearOrder.lift' fields fields_injective

/-- `Decode for EntryKey`: exactly 97 bytes, cut at the offsets `encode` writes; any other length
is `DatabaseError::Decode`. -/
def decode (value : List UInt8) : Option EntryKey := do
  let bytes ← FixedBytes.tryFrom 97 value
  let batch ← FixedBytes.tryFrom 32 (bytes.bytes.extract 1 33)
  let hash ← FixedBytes.tryFrom 32 (bytes.bytes.extract 33 65)
  let addr ← FixedBytes.tryFrom 32 (bytes.bytes.drop 65)
  pure ⟨bytes.get 0, batch, hash, addr⟩

theorem length_encode (key : EntryKey) : key.encode.length = 97 := by
  simp [encode, FixedBytes.length_bytes]

theorem isSome_decode {value : List UInt8} (h : value.length = 97) : (decode value).isSome := by
  simp [decode, FixedBytes.tryFrom, h]

theorem encode_of_decode {value : List UInt8} {key : EntryKey} (h : decode value = some key) :
    key.encode = value := by
  simp only [decode, Option.bind_eq_bind, Option.bind_eq_some_iff, Option.pure_def,
    Option.some.injEq] at h
  obtain ⟨bytes, hbytes, batch, hbatch, hash, hhash, addr, haddr, rfl⟩ := h
  rw [FixedBytes.tryFrom_eq_some_iff] at hbytes hbatch hhash haddr
  have hfirst : [bytes.get 0] ++ bytes.bytes.drop 1 = bytes.bytes :=
    bytes.singleton_get_append_drop 0
  -- the slices laid back end to end are the 97 bytes
  rw [encode, hbatch, hhash, haddr, extract_append_drop (by omega), extract_append_drop (by omega),
    hfirst, hbytes]

/-- The order a cursor walks `Entry` in is the byte order of the 97-byte keys. -/
theorem lt_iff_encode_lt {key key' : EntryKey} : key < key' ↔ key.encode < key'.encode := by
  change key.fields < key'.fields ↔ _
  -- the proximity byte, then three 32-byte arrays
  refine toLex_lt_toLex_iff_append_lt rfl toNat_lt_iff_singleton_lt toNat_eq_iff_singleton_eq ?_
  refine toLex_lt_toLex_iff_append_lt (by simp [FixedBytes.length_bytes]) FixedBytes.lt_iff_bytes_lt
    FixedBytes.toNat_eq_toNat_iff ?_
  exact toLex_lt_toLex_iff_append_lt (by simp [FixedBytes.length_bytes]) FixedBytes.lt_iff_bytes_lt
    FixedBytes.toNat_eq_toNat_iff FixedBytes.lt_iff_bytes_lt

theorem orderedCodec : OrderedCodec encode decode 97 :=
  .of_encode_decode length_encode (fun _ ↦ isSome_decode) encode_of_decode
    (fun _ _ ↦ lt_iff_encode_lt)

end EntryKey

namespace BatchGroupKey

/-- `[batch: 32][po: 1][addr: 32][stampHash: 32]`. -/
def encode (key : BatchGroupKey) : List UInt8 :=
  key.batch.bytes ++ ([key.po] ++ (key.addr.bytes ++ key.stampHash.bytes))

def fields (key : BatchGroupKey) : Lex (ℕ × Lex (ℕ × Lex (ℕ × ℕ))) :=
  toLex (key.batch.toNat, toLex (key.po.toNat, toLex (key.addr.toNat, key.stampHash.toNat)))

theorem fields_injective : Function.Injective fields := by
  rintro ⟨batch, po, addr, hash⟩ ⟨batch', po', addr', hash'⟩ h
  simp only [fields, toLex_inj, Prod.mk.injEq] at h
  obtain ⟨hbatch, hpo, haddr, hhash⟩ := h
  rw [UInt8.toNat_inj.mp hpo, FixedBytes.toNat_injective hbatch, FixedBytes.toNat_injective hhash,
    FixedBytes.toNat_injective haddr]

instance : LinearOrder BatchGroupKey := LinearOrder.lift' fields fields_injective

/-- `Decode for BatchGroupKey`: exactly 97 bytes, cut at the offsets `encode` writes. -/
def decode (value : List UInt8) : Option BatchGroupKey := do
  let bytes ← FixedBytes.tryFrom 97 value
  let batch ← FixedBytes.tryFrom 32 (bytes.bytes.take 32)
  let addr ← FixedBytes.tryFrom 32 (bytes.bytes.extract 33 65)
  let hash ← FixedBytes.tryFrom 32 (bytes.bytes.drop 65)
  pure ⟨batch, bytes.get 32, addr, hash⟩

theorem length_encode (key : BatchGroupKey) : key.encode.length = 97 := by
  simp [encode, FixedBytes.length_bytes]

theorem isSome_decode {value : List UInt8} (h : value.length = 97) : (decode value).isSome := by
  simp [decode, FixedBytes.tryFrom, h]

theorem encode_of_decode {value : List UInt8} {key : BatchGroupKey} (h : decode value = some key) :
    key.encode = value := by
  simp only [decode, Option.bind_eq_bind, Option.bind_eq_some_iff, Option.pure_def,
    Option.some.injEq] at h
  obtain ⟨bytes, hbytes, batch, hbatch, addr, haddr, hash, hhash, rfl⟩ := h
  rw [FixedBytes.tryFrom_eq_some_iff] at hbytes hbatch haddr hhash
  have hmiddle : [bytes.get 32] ++ bytes.bytes.drop 33 = bytes.bytes.drop 32 :=
    bytes.singleton_get_append_drop 32
  rw [encode, hbatch, haddr, hhash, extract_append_drop (by omega), hmiddle, List.take_append_drop,
    hbytes]

/-- The order a cursor walks `BatchGroup` in is the byte order of the 97-byte keys. -/
theorem lt_iff_encode_lt {key key' : BatchGroupKey} : key < key' ↔ key.encode < key'.encode := by
  change key.fields < key'.fields ↔ _
  -- a 32-byte array, the proximity byte, then two 32-byte arrays
  refine toLex_lt_toLex_iff_append_lt (by simp [FixedBytes.length_bytes]) FixedBytes.lt_iff_bytes_lt
    FixedBytes.toNat_eq_toNat_iff ?_
  refine toLex_lt_toLex_iff_append_lt rfl toNat_lt_iff_singleton_lt toNat_eq_iff_singleton_eq ?_
  exact toLex_lt_toLex_iff_append_lt (by simp [FixedBytes.length_bytes]) FixedBytes.lt_iff_bytes_lt
    FixedBytes.toNat_eq_toNat_iff FixedBytes.lt_iff_bytes_lt

theorem orderedCodec : OrderedCodec encode decode 97 :=
  .of_encode_decode length_encode (fun _ ↦ isSome_decode) encode_of_decode
    (fun _ _ ↦ lt_iff_encode_lt)

end BatchGroupKey

namespace ReplayKey

/-- `[bin: 1][binid: 8]`, the sequence big-endian. -/
def encode (key : ReplayKey) : List UInt8 := [key.bin] ++ BigEndian.encode 8 key.binid.toNat

def fields (key : ReplayKey) : Lex (ℕ × ℕ) := toLex (key.bin.toNat, key.binid.toNat)

theorem fields_injective : Function.Injective fields := by
  rintro ⟨bin, binid⟩ ⟨bin', binid'⟩ h
  simp only [fields, toLex_inj, Prod.mk.injEq] at h
  rw [UInt8.toNat_inj.mp h.1, UInt64.toNat_inj.mp h.2]

instance : LinearOrder ReplayKey := LinearOrder.lift' fields fields_injective

theorem lt_iff {key key' : ReplayKey} :
    key < key' ↔ key.bin < key'.bin ∨ key.bin = key'.bin ∧ key.binid < key'.binid := by
  change key.fields < key'.fields ↔ _
  rw [fields, fields, Prod.Lex.toLex_lt_toLex, UInt8.lt_iff_toNat_lt, UInt64.lt_iff_toNat_lt,
    UInt8.toNat_inj]

theorem le_iff {key key' : ReplayKey} :
    key ≤ key' ↔ key.bin < key'.bin ∨ key.bin = key'.bin ∧ key.binid ≤ key'.binid := by
  change key.fields ≤ key'.fields ↔ _
  rw [fields, fields, Prod.Lex.toLex_le_toLex, UInt8.lt_iff_toNat_lt, UInt64.le_iff_toNat_le,
    UInt8.toNat_inj]

/-- The order a cursor walks `Replay` in is the byte order of the 9-byte keys: bin first, then
the big-endian sequence. -/
theorem lt_iff_encode_lt {key key' : ReplayKey} : key < key' ↔ key.encode < key'.encode := by
  have h64 : (2 : ℕ) ^ 64 = 256 ^ 8 := by norm_num
  rw [lt_iff, encode, encode, List.singleton_append, List.singleton_append, List.cons_lt_cons_iff,
    encode_lt_encode_iff (h64 ▸ key.binid.toNat_lt) (h64 ▸ key'.binid.toNat_lt),
    UInt64.lt_iff_toNat_lt]

/-- `Decode for ReplayKey`: exactly 9 bytes, the bin byte and the big-endian sequence. -/
def decode (value : List UInt8) : Option ReplayKey := do
  let bytes ← FixedBytes.tryFrom 9 value
  -- `id.copy_from_slice(&bytes[1..])`, then `u64::from_be_bytes(id)`
  pure ⟨bytes.get 0, UInt64.ofNat (BigEndian.decode (bytes.bytes.drop 1))⟩

theorem length_encode (key : ReplayKey) : key.encode.length = 9 := by
  simp [encode]

theorem isSome_decode {value : List UInt8} (h : value.length = 9) : (decode value).isSome := by
  simp [decode, FixedBytes.tryFrom, h]

theorem encode_of_decode {value : List UInt8} {key : ReplayKey} (h : decode value = some key) :
    key.encode = value := by
  simp only [decode, Option.bind_eq_bind, Option.bind_eq_some_iff, Option.pure_def,
    Option.some.injEq] at h
  obtain ⟨bytes, hbytes, rfl⟩ := h
  rw [FixedBytes.tryFrom_eq_some_iff] at hbytes
  have hfirst : [bytes.get 0] ++ bytes.bytes.drop 1 = bytes.bytes :=
    bytes.singleton_get_append_drop 0
  have hlength : (bytes.bytes.drop 1).length = 8 := by simp [bytes.length_bytes]
  -- eight bytes read as a `u64` keep their value
  have hvalue : (UInt64.ofNat (BigEndian.decode (bytes.bytes.drop 1))).toNat =
      BigEndian.decode (bytes.bytes.drop 1) :=
    UInt64.toNat_ofNat_of_lt' ((decode_lt _).trans_eq (by rw [hlength]; rfl))
  rw [encode, hvalue, encode_decode_of_length hlength, hfirst, hbytes]

theorem orderedCodec : OrderedCodec encode decode 9 :=
  .of_encode_decode length_encode (fun _ ↦ isSome_decode) encode_of_decode
    (fun _ _ ↦ lt_iff_encode_lt)

end ReplayKey

namespace BinKey

instance : LinearOrder BinKey :=
  LinearOrder.lift' (fun key ↦ key.bin.toNat) (fun a b h ↦ by
    cases a
    cases b
    simp only [BinKey.mk.injEq]
    exact UInt8.toNat_inj.mp h)

end BinKey

/-! ## Values and tables -/

/-- `Payload` value: live entries referencing the content, and its type-tagged body. -/
structure PayloadValue where
  refcnt : ℕ
  typedBytes : List UInt8
deriving DecidableEq

/-- `Entry` value: the bin sequence the entry landed at and its exact admitting stamp. -/
structure EntryValue where
  bin : UInt8
  binid : UInt64
  stamp : Stamp
deriving DecidableEq

/-- `Replay` value: the flat projection of the entry at a `(bin, binid)`. -/
structure ReplayValue where
  address : ChunkAddress
  batchId : BatchId
  stampHash : B256
  chunkType : UInt8
deriving DecidableEq

/-- The six reserve tables, as one transaction sees them. -/
structure Tables where
  payload : OrderedTable ChunkAddress PayloadValue
  entry : OrderedTable EntryKey EntryValue
  batchGroup : OrderedTable BatchGroupKey Unit
  replay : OrderedTable ReplayKey ReplayValue
  binCounter : OrderedTable BinKey UInt64
  stampIndex : StampIndexTable

/-- Freshly created tables. -/
def Tables.empty : Tables := ⟨.empty, .empty, .empty, .empty, .empty, .empty⟩

/-- The `BatchGroup` key of an entry. -/
def EntryKey.groupKey (key : EntryKey) : BatchGroupKey := ⟨key.batch, key.po, key.addr, key.stampHash⟩

/-- The `Entry` key a `BatchGroup` row groups. -/
def BatchGroupKey.entryKey (key : BatchGroupKey) : EntryKey := ⟨key.po, key.batch, key.stampHash, key.addr⟩

@[simp]
theorem EntryKey.entryKey_groupKey (key : EntryKey) : key.groupKey.entryKey = key := rfl

@[simp]
theorem BatchGroupKey.groupKey_entryKey (key : BatchGroupKey) : key.entryKey.groupKey = key := rfl

/-- The `Replay` key an entry value names. -/
def EntryValue.replayKey (value : EntryValue) : ReplayKey := ⟨value.bin, value.binid⟩

end VertexSwarm.Storer
