import VertexSwarm.Pullsync.Range

/-!
# The puller's bin sync

`puller/src/service.rs`, `Puller::sync_bin`.  For one peer and bin the puller asks for the range
from its persisted interval, verifies every delivered chunk and hands the verified ones to
`ReserveAdmit::admit`.  A rejected chunk taints the page: the interval stays and the loop ends,
reporting the peer when the rejection blames it.  An offer covering nothing past the start ends
the loop as caught up; otherwise the interval is set to the offer's topmost and the loop goes
round again.

The interval moves to the offer's topmost whatever arrived.  The server may deliver only a prefix
of the page, since its rate limiter ends the page at the first refused token, and then the
puller's next request starts past chunks it never received.  With a limiter that grants every
try of each page and a server that holds every paged chunk, nothing is skipped
(`syncBin_admits_held`).

The interval store is taken to read and write without error.
-/

namespace VertexSwarm.Pullsync

open BigEndian Postage Storer
open Storer.DbReserve (BinScanItem)

/-- The chunk verifier the puller runs on every delivery, with whether a rejection blames the
peer (`is_peer_blameworthy`). -/
structure Verifier (Chunk Stamp ν : Type) where
  verify : Chunk × Stamp → Except ν Unit
  isPeerBlameworthy : ν → Bool

/-- The puller's entries for one peer and bin: the persisted interval, the chunks handed to
`ReserveAdmit::admit` in order, and the reports of the peer for invalid data. -/
structure BinSync (Chunk Stamp : Type) where
  interval : UInt64
  admitted : List (Chunk × Stamp)
  reports : ℕ
deriving DecidableEq

variable {ε ν Chunk Stamp : Type} (verifier : Verifier Chunk Stamp ν)

/-- The chunks of a page that verify. -/
def verified (chunks : List (Chunk × Stamp)) : List (Chunk × Stamp) :=
  chunks.filter fun chunk ↦
    match verifier.verify chunk with
    | .ok () => true
    | .error _ => false

/-- The rejections of a page's chunks, in order. -/
def rejections (chunks : List (Chunk × Stamp)) : List ν :=
  chunks.filterMap fun chunk ↦
    match verifier.verify chunk with
    | .ok () => none
    | .error e => some e

/-- One turn of `sync_bin`'s loop, on the exchange asked from the persisted interval: admit every
delivered chunk that verifies; on a rejection return whether it blames the peer, reporting the
peer if so; on an offer covering nothing past the start return caught up; otherwise persist the
offer's topmost and go round again (`none`).  A failed exchange abandons the peer. -/
def syncRound (state : BinSync Chunk Stamp) :
    RangeOutcome Chunk Stamp → BinSync Chunk Stamp × Option Bool
  | .failed => (state, some false)
  | .delivered topmost chunks =>
    let state := { state with admitted := state.admitted ++ verified verifier chunks }
    if !(rejections verifier chunks).isEmpty then
      let blameworthy := (rejections verifier chunks).any verifier.isPeerBlameworthy
      ({ state with reports := if blameworthy then state.reports + 1 else state.reports },
        some blameworthy)
    else if topmost ≤ state.interval then (state, some false)
    else ({ state with interval := topmost }, none)

/-- `sync_bin` against a server that answers the `k`-th request with the `k`-th of `exchanges`,
applied to the start the request asks from: the entries, with what the loop returned, or `none`
when it is still going as the exchanges run out. -/
def syncBin : List (UInt64 → RangeOutcome Chunk Stamp) → BinSync Chunk Stamp →
    BinSync Chunk Stamp × Option Bool
  | [], state => (state, none)
  | exchange :: rest, state =>
    match syncRound verifier state (exchange state.interval) with
    | (state, some result) => (state, some result)
    | (state, none) => syncBin rest state

/-! ## One turn -/

theorem verified_of_rejections_nil {chunks : List (Chunk × Stamp)}
    (h : rejections verifier chunks = []) : verified verifier chunks = chunks := by
  rw [verified, List.filter_eq_self]
  intro chunk hchunk
  rw [rejections, List.filterMap_eq_nil_iff] at h
  have hnone := h chunk hchunk
  split at hnone
  · rfl
  · cases hnone

theorem syncRound_eq_advance {state next : BinSync Chunk Stamp} {outcome : RangeOutcome Chunk Stamp}
    (h : syncRound verifier state outcome = (next, none)) :
    ∃ topmost chunks, outcome = .delivered topmost chunks ∧ rejections verifier chunks = [] ∧
      state.interval < topmost ∧
      next = { state with interval := topmost, admitted := state.admitted ++ chunks } := by
  cases outcome with
  | failed => cases h
  | delivered topmost chunks =>
    simp only [syncRound] at h
    split at h
    · cases h
    · next hdirty =>
      have hclean : rejections verifier chunks = [] := by simpa using hdirty
      split at h
      · cases h
      · next hlt =>
        cases h
        refine ⟨topmost, chunks, rfl, hclean, ?_, ?_⟩
        · rw [UInt64.lt_iff_toNat_lt]
          rw [UInt64.le_iff_toNat_le] at hlt
          omega
        · rw [verified_of_rejections_nil verifier hclean]

theorem syncRound_eq_stop {state next : BinSync Chunk Stamp} {outcome : RangeOutcome Chunk Stamp}
    {result : Bool} (h : syncRound verifier state outcome = (next, some result)) :
    next.interval = state.interval ∧ state.admitted <+: next.admitted := by
  cases outcome with
  | failed =>
    cases h
    exact ⟨rfl, List.prefix_refl _⟩
  | delivered topmost chunks =>
    simp only [syncRound] at h
    split at h
    · cases h
      exact ⟨rfl, List.prefix_append _ _⟩
    · split at h
      · cases h
        exact ⟨rfl, List.prefix_append _ _⟩
      · cases h

/-! ## The loop -/

theorem syncBin_mono (exchanges : List (UInt64 → RangeOutcome Chunk Stamp))
    (state : BinSync Chunk Stamp) :
    state.interval.toNat ≤ (syncBin verifier exchanges state).1.interval.toNat ∧
      state.admitted <+: (syncBin verifier exchanges state).1.admitted := by
  induction exchanges generalizing state with
  | nil => exact ⟨le_refl _, List.prefix_refl _⟩
  | cons exchange rest ih =>
    simp only [syncBin]
    split
    · next next result hround =>
      obtain ⟨hinterval, hadmitted⟩ := syncRound_eq_stop verifier hround
      exact ⟨hinterval ▸ le_refl _, hadmitted⟩
    · next next hround =>
      obtain ⟨topmost, chunks, -, -, hlt, rfl⟩ := syncRound_eq_advance verifier hround
      obtain ⟨hinterval, hadmitted⟩ :=
        ih { state with interval := topmost, admitted := state.admitted ++ chunks }
      refine ⟨le_trans (le_of_lt (UInt64.lt_iff_toNat_lt.mp hlt)) hinterval, ?_⟩
      exact (List.prefix_append _ _).trans hadmitted

/-! ## A server that grants every try -/

/-- The exchanges with a server of fixed storage whose limiter answers the `k`-th page's tries
with the `k`-th list of `rounds`. -/
def servedBy (storage : PullStorage ε Chunk Stamp) (bin : UInt8) (rounds : List (List Bool)) :
    List (UInt64 → RangeOutcome Chunk Stamp) :=
  rounds.map fun grants start ↦ rangeExchange storage grants bin start

theorem syncBin_admits_held (storage : PullStorage ε Chunk Stamp) (bin : UInt8)
    (items : List BinScanItem)
    (hscan : ∀ start, storage.scanBinFrom bin start =
      .ok ((items.filter fun item ↦ start ≤ item.seq).map .ok))
    (hsorted : (items.map BinScanItem.seq).Pairwise (· < ·))
    (held : BinScanItem → Chunk × Stamp)
    (hheld : ∀ item ∈ items,
      storage.get item.address = .ok (some ((held item).1, some (held item).2)))
    (rounds : List (List Bool))
    (hgrants : ∀ grants ∈ rounds, defaultMaxPage ≤ grants.length ∧ ∀ g ∈ grants, g = true)
    (state : BinSync Chunk Stamp) :
    ∀ item ∈ items, state.interval.toNat ≤ item.seq.toNat →
      item.seq.toNat < (syncBin verifier (servedBy storage bin rounds) state).1.interval.toNat →
      held item ∈ (syncBin verifier (servedBy storage bin rounds) state).1.admitted := by
  induction rounds generalizing state with
  | nil =>
    intro item _ hfrom hbelow
    exact absurd hbelow (Nat.not_lt.mpr hfrom)
  | cons grants rest ih =>
    intro item hitem hfrom hbelow
    -- the page asked from the interval is the start of the scan from there, served whole
    set page := (items.filter fun item ↦ state.interval ≤ item.seq).take defaultMaxPage
      with hpage
    have hexchange : rangeExchange storage grants bin state.interval =
        .delivered (page.foldl raiseTopmost 0) (page.map held) :=
      rangeExchange_of_granted (hscan _) held
        (le_trans (List.length_take_le _ _) (hgrants grants List.mem_cons_self).1)
        (hgrants grants List.mem_cons_self).2
        (fun x hx ↦ hheld x (List.mem_of_mem_filter (List.mem_of_mem_take hx)))
    have hround : servedBy storage bin (grants :: rest) =
        (fun start ↦ rangeExchange storage grants bin start) :: servedBy storage bin rest := rfl
    rw [hround, syncBin, hexchange] at hbelow ⊢
    split at hbelow
    · -- the loop stopped with the interval where it was
      next next result hround =>
      rw [(syncRound_eq_stop verifier hround).1] at hbelow
      exact absurd hbelow (Nat.not_lt.mpr hfrom)
    · next next hround =>
      obtain ⟨topmost, chunks, hdelivered, -, hlt, rfl⟩ := syncRound_eq_advance verifier hround
      obtain ⟨rfl, rfl⟩ := RangeOutcome.delivered.inj hdelivered
      rcases Nat.lt_or_ge item.seq.toNat (page.foldl raiseTopmost 0).toNat with hcovered | hpast
      · -- below the new interval: the item was on the page and admitted with it
        have hon : item ∈ page := mem_take_of_le_topmost
          (hsorted.sublist (List.filter_sublist.map _))
          (List.mem_filter.mpr ⟨hitem, decide_eq_true (UInt64.le_iff_toNat_le.mpr hfrom)⟩)
          (le_of_lt hcovered)
        have hadmitted := (syncBin_mono verifier (servedBy storage bin rest)
          ⟨page.foldl raiseTopmost 0, state.admitted ++ page.map held, state.reports⟩).2
        exact hadmitted.subset (List.mem_append_right _ (List.mem_map_of_mem hon))
      · exact ih (fun g hg ↦ hgrants g (List.mem_cons_of_mem _ hg)) _ item hitem hpast hbelow

/-! ## A page cut short by the limiter -/

/-- Three chunks of one bin at sequences 1, 2 and 3, each addressed by its sequence. -/
def threeChunkBin : List BinScanItem :=
  [1, 2, 3].map fun seq : ℕ ↦
    ⟨seq.toUInt64, FixedBytes.ofNat 32 seq, FixedBytes.ofNat 32 0, FixedBytes.ofNat 32 0⟩

/-- A server holding `threeChunkBin` as bin 0, every chunk stamped and never evicted. -/
def threeChunkStorage : PullStorage Unit ChunkAddress Unit where
  scanBinFrom bin start :=
    .ok (if bin = 0 then (threeChunkBin.filter fun item ↦ start ≤ item.seq).map .ok else [])
  get address :=
    .ok (if threeChunkBin.any (·.address = address) then some (address, some ()) else none)

/-- A verifier that accepts every chunk. -/
def acceptAll : Verifier ChunkAddress Unit Unit := ⟨fun _ ↦ .ok (), fun _ ↦ true⟩

/-- The limiter grants one token to the first page and none to the second. -/
def rateLimitedRounds : List (List Bool) := [[true], []]

/-- From interval 0 the first page offers sequences 1 to 3 but delivers only the first chunk
before the limiter refuses; the interval moves to 3, the second page finds nothing past it, and
the loop ends caught up, with the chunk at sequence 2 held by the server all along and never
admitted. -/
theorem interval_passes_undelivered_of_rateLimited :
    syncBin acceptAll (servedBy threeChunkStorage 0 rateLimitedRounds) ⟨0, [], 0⟩ =
        (⟨3, [(FixedBytes.ofNat 32 1, ())], 0⟩, some false) ∧
      threeChunkStorage.get (FixedBytes.ofNat 32 2) = .ok (some (FixedBytes.ofNat 32 2, some ())) := by
  decide

end VertexSwarm.Pullsync
