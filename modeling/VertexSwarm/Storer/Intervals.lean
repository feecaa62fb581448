import VertexSwarm.Peers.Index
import VertexSwarm.Storer.Radius

/-!
# The pull-sync interval store

`storer/src/db_intervals.rs`.  Two tables hold the puller's progress: `Interval`, keyed by
`(peer, bin)`, the last bin sequence synced from that peer, and `PeerEpoch`, keyed by peer, the
reserve epoch last seen at it.  The compound key is big-endian `[peer: 32][bin: 1]`, so a peer's
bins are a contiguous, bin-ascending run of the table.  A missing interval reads as zero.

`reset_peer` deletes the peer's interval at every byte `0 ..= 255` and then writes its epoch, in
one transaction: afterwards every bin of that peer reads zero and every other peer's intervals
are as they were (`interval_resetPeer`).  As for the puller, the store is taken to read and
write without error.

The key codec joins the four of the reserve schema and the stamp slot key: each of the five
decodes exactly the strings of its width, inverts its encoding, and orders keys as their bytes
(`store_key_codecs_order_preserving`).
-/

namespace VertexSwarm.Storer

open BigEndian Peers Postage

/-- `Interval` key `(peer, bin)`, peer-major. -/
structure PeerBinKey where
  peer : OverlayAddress
  bin : UInt8
deriving DecidableEq

namespace PeerBinKey

/-- `PeerBinKey::new`: the bin as its byte. -/
def new (peer : OverlayAddress) (bin : Bin) : PeerBinKey := ⟨peer, bin.toUInt8⟩

/-- `[peer: 32][bin: 1]`. -/
def encode (key : PeerBinKey) : List UInt8 := key.peer.bytes ++ [key.bin]

def fields (key : PeerBinKey) : Lex (ℕ × ℕ) := toLex (key.peer.toNat, key.bin.toNat)

theorem fields_injective : Function.Injective fields := by
  rintro ⟨peer, bin⟩ ⟨peer', bin'⟩ h
  simp only [fields, toLex_inj, Prod.mk.injEq] at h
  rw [FixedBytes.toNat_injective h.1, UInt8.toNat_inj.mp h.2]

instance : LinearOrder PeerBinKey := LinearOrder.lift' fields fields_injective

/-- `Decode for PeerBinKey`: exactly 33 bytes, the peer and the bin byte. -/
def decode (value : List UInt8) : Option PeerBinKey := do
  let bytes ← FixedBytes.tryFrom 33 value
  let peer ← FixedBytes.tryFrom 32 (bytes.bytes.take 32)
  pure ⟨peer, bytes.get 32⟩

theorem length_encode (key : PeerBinKey) : key.encode.length = 33 := by
  simp [encode, FixedBytes.length_bytes]

theorem isSome_decode {value : List UInt8} (h : value.length = 33) : (decode value).isSome := by
  simp [decode, FixedBytes.tryFrom, h]

theorem encode_of_decode {value : List UInt8} {key : PeerBinKey} (h : decode value = some key) :
    key.encode = value := by
  simp only [decode, Option.bind_eq_bind, Option.bind_eq_some_iff, Option.pure_def,
    Option.some.injEq] at h
  obtain ⟨bytes, hbytes, peer, hpeer, rfl⟩ := h
  rw [FixedBytes.tryFrom_eq_some_iff] at hbytes hpeer
  have hlast : bytes.bytes.take 32 ++ [bytes.get 32] = bytes.bytes := bytes.take_append_singleton_get
  rw [encode, hpeer, hlast, hbytes]

theorem lt_iff_encode_lt {key key' : PeerBinKey} : key < key' ↔ key.encode < key'.encode := by
  change key.fields < key'.fields ↔ _
  exact toLex_lt_toLex_iff_append_lt (by simp [FixedBytes.length_bytes]) FixedBytes.lt_iff_bytes_lt
    FixedBytes.toNat_eq_toNat_iff toNat_lt_iff_singleton_lt

theorem orderedCodec : OrderedCodec encode decode 33 :=
  .of_encode_decode length_encode (fun _ ↦ isSome_decode) encode_of_decode
    (fun _ _ ↦ lt_iff_encode_lt)

end PeerBinKey

/-- `DbIntervalStore`: the `Interval` and `PeerEpoch` tables. -/
structure DbIntervalStore where
  intervals : OrderedTable PeerBinKey UInt64
  peerEpochs : OrderedTable OverlayAddress UInt64

namespace DbIntervalStore

/-- `interval`: the last synced sequence for the peer and bin, zero when none was written. -/
def interval (store : DbIntervalStore) (peer : OverlayAddress) (bin : Bin) : UInt64 :=
  (store.intervals.get (PeerBinKey.new peer bin)).getD 0

/-- `set_interval`. -/
def setInterval (store : DbIntervalStore) (peer : OverlayAddress) (bin : Bin) (binid : UInt64) :
    DbIntervalStore :=
  { store with intervals := store.intervals.put (PeerBinKey.new peer bin) binid }

/-- `peer_epoch`. -/
def peerEpoch (store : DbIntervalStore) (peer : OverlayAddress) : Option UInt64 :=
  store.peerEpochs.get peer

/-- `set_peer_epoch`. -/
def setPeerEpoch (store : DbIntervalStore) (peer : OverlayAddress) (epoch : UInt64) :
    DbIntervalStore :=
  { store with peerEpochs := store.peerEpochs.put peer epoch }

/-- `reset_peer`: delete the peer's interval at every bin byte `0 ..= u8::MAX`, then write its
epoch, in one transaction. -/
def resetPeer (store : DbIntervalStore) (peer : OverlayAddress) (epoch : UInt64) :
    DbIntervalStore :=
  { intervals := ((List.range 256).map fun bin ↦ PeerBinKey.mk peer (UInt8.ofNat bin)).foldl
      (fun table key ↦ table.delete key) store.intervals
    peerEpochs := store.peerEpochs.put peer epoch }

/-- The loop over `0 ..= u8::MAX` meets every byte. -/
theorem mem_resetKeys (peer : OverlayAddress) (key : PeerBinKey) :
    key ∈ (List.range 256).map (fun bin ↦ PeerBinKey.mk peer (UInt8.ofNat bin)) ↔
      key.peer = peer := by
  constructor
  · intro h
    obtain ⟨bin, -, rfl⟩ := List.mem_map.mp h
    rfl
  · intro h
    refine List.mem_map.mpr ⟨key.bin.toNat, List.mem_range.mpr key.bin.toNat_lt, ?_⟩
    rw [UInt8.ofNat_toNat, ← h]

/-- After `reset_peer`, every bin of the peer reads zero and every other peer's intervals are as
they were. -/
theorem interval_resetPeer (store : DbIntervalStore) (peer : OverlayAddress) (epoch : UInt64)
    (peer' : OverlayAddress) (bin : Bin) :
    (store.resetPeer peer epoch).interval peer' bin =
      if peer' = peer then 0 else store.interval peer' bin := by
  simp only [resetPeer, interval, OrderedTable.get_foldl_delete, mem_resetKeys, PeerBinKey.new]
  split <;> rfl

theorem peerEpoch_resetPeer (store : DbIntervalStore) (peer : OverlayAddress) (epoch : UInt64)
    (peer' : OverlayAddress) :
    (store.resetPeer peer epoch).peerEpoch peer' =
      if peer' = peer then some epoch else store.peerEpoch peer' :=
  OrderedTable.get_put _ _ _ _

end DbIntervalStore

theorem store_key_codecs_order_preserving :
    OrderedCodec EntryKey.encode EntryKey.decode 97 ∧
      OrderedCodec BatchGroupKey.encode BatchGroupKey.decode 97 ∧
      OrderedCodec ReplayKey.encode ReplayKey.decode 9 ∧
      OrderedCodec StampSlotKey.encode StampSlotKey.decode 40 ∧
      OrderedCodec PeerBinKey.encode PeerBinKey.decode 33 :=
  ⟨EntryKey.orderedCodec, BatchGroupKey.orderedCodec, ReplayKey.orderedCodec,
    StampSlotKey.orderedCodec, PeerBinKey.orderedCodec⟩

end VertexSwarm.Storer
