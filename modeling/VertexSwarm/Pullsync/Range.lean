import VertexSwarm.Storer.Replay
import VertexSwarm.Lib.Cumulative

/-!
# The pull-sync range exchange

`storer-behaviour/src/handler.rs`.  A puller asks a server for the chunks of one bin from a
start sequence (`Get { bin, start }`).  The server pages the bin (`page_bin` over
`scan_bin_from`), offers the page's descriptors with the topmost sequence the page covers, reads
the want, and streams the wanted chunks it can still read, each for one token of the peer's
chunk rate limiter (`serve_range_inner`).  The requester (`drive_range_inner`) wants every
offered chunk and returns the offer's topmost with whatever arrived.

The server reads its reserve through `PullStorage`: the scan of a bin from a sequence, and a
chunk by address.  The reserve of the storer model is one such storage
(`reservePullStorage`).  The rate limiter is taken in any state: its answers to the
page's tries are an input, and a refusal, or running out of answers, ends the page.  The
transport is taken to deliver what is sent; an exchange that fails on either side answers the
puller with no page.
-/

namespace VertexSwarm.Pullsync

open Postage Storer
open Storer.DbReserve (BinScanItem)

/-- `DEFAULT_MAX_PAGE`: the most descriptors one offer carries. -/
def defaultMaxPage : ℕ := 250

/-- What the server reads of its reserve (`PullStorage`): the scan of a bin from a sequence,
whose rows can each fail, and a chunk by address, with the stamp a cached chunk may lack. -/
structure PullStorage (ε Chunk Stamp : Type) where
  scanBinFrom : UInt8 → UInt64 → Except ε (List (Except ε BinScanItem))
  get : ChunkAddress → Except ε (Option (Chunk × Option Stamp))

/-- `ChunkDescriptor`: what an offer says of one chunk. -/
structure ChunkDescriptor where
  address : ChunkAddress
  batchId : BatchId
  stampHash : B256
deriving DecidableEq

/-- The descriptor `page_bin` builds of a scanned item. -/
def ChunkDescriptor.ofItem (item : BinScanItem) : ChunkDescriptor :=
  ⟨item.address, item.batchId, item.stampHash⟩

/-- `Offer`: the topmost sequence the page covers and its descriptors. -/
structure Offer where
  topmost : UInt64
  chunks : List ChunkDescriptor

/-- `RangeOutcome`: what `drive_range_inner` reports of one exchange. -/
inductive RangeOutcome (Chunk Stamp : Type) where
  | delivered (topmost : UInt64) (chunks : List (Chunk × Stamp))
  | failed

variable {ε Chunk Stamp : Type}

/-! ## The server -/

/-- `topmost = topmost.max(item.seq)`. -/
def raiseTopmost (topmost : UInt64) (item : BinScanItem) : UInt64 := max topmost item.seq

/-- The loop of `page_bin`: raise the topmost to each scanned item's sequence and push its
descriptor, until the page is full; a failed row fails the page. -/
def pageLoop : List (Except ε BinScanItem) → List BinScanItem → UInt64 →
    Except ε (List BinScanItem × UInt64)
  | [], descriptors, topmost => .ok (descriptors, topmost)
  | .error e :: _, _, _ => .error e
  | .ok item :: rest, descriptors, topmost =>
    let topmost := raiseTopmost topmost item
    let descriptors := descriptors ++ [item]
    if defaultMaxPage ≤ descriptors.length then .ok (descriptors, topmost)
    else pageLoop rest descriptors topmost

/-- `page_bin`: up to `DEFAULT_MAX_PAGE` items of the bin from `start`, with the topmost sequence
covered, raised only from scanned ids (0 for an empty page). -/
def pageBin (storage : PullStorage ε Chunk Stamp) (bin : UInt8) (start : UInt64) :
    Except ε (List BinScanItem × UInt64) := do
  let scan ← storage.scanBinFrom bin start
  pageLoop scan [] 0

/-- The delivery loop of `serve_range_inner`, from the `i`-th descriptor with the limiter's
answers to the tries still to come: skip an unwanted descriptor; stop the page at the first
refused token; skip a chunk evicted since the offer, or stampless; a failed read fails the
exchange. -/
def serveLoop (storage : PullStorage ε Chunk Stamp) (wanted : ℕ → Bool) :
    ℕ → List BinScanItem → List Bool → Except ε (List (Chunk × Stamp))
  | _, [], _ => .ok []
  | i, item :: rest, grants =>
    if !wanted i then serveLoop storage wanted (i + 1) rest grants
    else
      match grants with
      | [] => .ok []
      | false :: _ => .ok []
      | true :: grants =>
        match storage.get item.address with
        | .error e => .error e
        | .ok none => serveLoop storage wanted (i + 1) rest grants
        | .ok (some (_, none)) => serveLoop storage wanted (i + 1) rest grants
        | .ok (some (chunk, some stamp)) =>
          (serveLoop storage wanted (i + 1) rest grants).map ((chunk, stamp) :: ·)

/-- `serve_range_inner` against a requester that computes its want from the offer: page the bin,
write the offer, and for a non-empty page serve the want. -/
def serveRange (storage : PullStorage ε Chunk Stamp) (grants : List Bool) (bin : UInt8)
    (start : UInt64) (wantOf : Offer → ℕ → Bool) : Except ε (Offer × List (Chunk × Stamp)) := do
  let (descriptors, topmost) ← pageBin storage bin start
  let offer : Offer := ⟨topmost, descriptors.map ChunkDescriptor.ofItem⟩
  if descriptors.isEmpty then return (offer, [])
  let deliveries ← serveLoop storage (wantOf offer) 0 descriptors grants
  return (offer, deliveries)

/-! ## The requester -/

/-- `drive_range_inner`'s want: every offered chunk. -/
def driveWant (offer : Offer) (i : ℕ) : Bool := decide (i < offer.chunks.length)

/-- One range exchange: `serve_range_inner` answering `drive_range_inner`, which reports the
offer's topmost with the deliveries. -/
def rangeExchange (storage : PullStorage ε Chunk Stamp) (grants : List Bool) (bin : UInt8)
    (start : UInt64) : RangeOutcome Chunk Stamp :=
  match serveRange storage grants bin start driveWant with
  | .error _ => .failed
  | .ok (offer, deliveries) => .delivered offer.topmost deliveries

/-! ## The page -/

theorem toNat_foldl_raiseTopmost (items : List BinScanItem) (topmost : UInt64) :
    (items.foldl raiseTopmost topmost).toNat =
      (items.map fun item ↦ item.seq.toNat).foldl max topmost.toNat := by
  induction items generalizing topmost with
  | nil => rfl
  | cons item items ih =>
    rw [List.foldl_cons, ih, List.map_cons, List.foldl_cons, raiseTopmost, UInt64.toNat_max]

theorem pageLoop_ok (items : List BinScanItem) (descriptors : List BinScanItem)
    (topmost : UInt64) (hroom : descriptors.length < defaultMaxPage) :
    pageLoop (items.map .ok : List (Except ε BinScanItem)) descriptors topmost =
      .ok (descriptors ++ items.take (defaultMaxPage - descriptors.length),
        (items.take (defaultMaxPage - descriptors.length)).foldl raiseTopmost topmost) := by
  induction items generalizing descriptors topmost with
  | nil => simp [pageLoop]
  | cons item items ih =>
    obtain ⟨room, hroom'⟩ : ∃ room, defaultMaxPage - descriptors.length = room + 1 :=
      ⟨defaultMaxPage - descriptors.length - 1, by omega⟩
    simp only [List.map_cons, pageLoop, List.length_append, List.length_singleton, hroom',
      List.take_succ_cons, List.foldl_cons]
    split
    · -- the item fills the page
      next hfull =>
      have hroom0 : room = 0 := by omega
      simp [hroom0]
    · next hnotfull =>
      rw [ih (descriptors ++ [item]) (raiseTopmost topmost item)
        (by rw [List.length_append, List.length_singleton]; omega)]
      have hroom'' : defaultMaxPage - (descriptors ++ [item]).length = room := by
        rw [List.length_append, List.length_singleton]
        omega
      rw [hroom'', List.append_assoc, List.singleton_append]

/-- Over a scan whose rows all read, the page is its first `DEFAULT_MAX_PAGE` items and the
topmost the largest of their sequences. -/
theorem pageBin_of_scan {storage : PullStorage ε Chunk Stamp} {bin : UInt8} {start : UInt64}
    {items : List BinScanItem} (hscan : storage.scanBinFrom bin start = .ok (items.map .ok)) :
    pageBin storage bin start =
      .ok (items.take defaultMaxPage, (items.take defaultMaxPage).foldl raiseTopmost 0) := by
  have hloop : pageLoop (items.map .ok : List (Except ε BinScanItem)) [] 0 =
      .ok (items.take defaultMaxPage, (items.take defaultMaxPage).foldl raiseTopmost 0) := by
    simpa using pageLoop_ok items [] 0 (by decide)
  simp only [pageBin, hscan, bind, Except.bind, hloop]

theorem mem_take_of_le_topmost {items : List BinScanItem}
    (hsorted : (items.map BinScanItem.seq).Pairwise (· < ·)) {item : BinScanItem}
    (hitem : item ∈ items)
    (hle : item.seq.toNat ≤ ((items.take defaultMaxPage).foldl raiseTopmost 0).toNat) :
    item ∈ items.take defaultMaxPage := by
  by_contra hnot
  have hdrop : item ∈ items.drop defaultMaxPage := by
    rw [← List.take_append_drop defaultMaxPage items, List.mem_append] at hitem
    exact hitem.resolve_left hnot
  -- every page item comes before it in the scan, so below it
  have hbelow : ∀ x ∈ items.take defaultMaxPage, x.seq.toNat < item.seq.toNat := by
    intro x hx
    rw [← List.take_append_drop defaultMaxPage items, List.map_append,
      List.pairwise_append] at hsorted
    exact UInt64.lt_iff_toNat_lt.mp
      (hsorted.2.2 _ (List.mem_map_of_mem hx) _ (List.mem_map_of_mem hdrop))
  have hpage : items.take defaultMaxPage ≠ [] := by
    intro hnil
    rw [List.take_eq_nil_iff] at hnil
    rcases hnil with h | h
    · exact absurd h (by decide)
    · exact absurd (h ▸ hitem) List.not_mem_nil
  obtain ⟨first, hfirst⟩ := List.exists_mem_of_ne_nil _ hpage
  have hpos : 0 < item.seq.toNat := Nat.zero_lt_of_lt (hbelow first hfirst)
  have htop : ((items.take defaultMaxPage).foldl raiseTopmost 0).toNat ≤ item.seq.toNat - 1 := by
    rw [toNat_foldl_raiseTopmost]
    refine Cumulative.foldl_max_le (Nat.zero_le _) ?_
    intro n hn
    obtain ⟨x, hx, rfl⟩ := List.mem_map.mp hn
    have := hbelow x hx
    omega
  omega

/-! ## Serving a page -/

theorem serveLoop_of_granted {storage : PullStorage ε Chunk Stamp} {wanted : ℕ → Bool}
    (held : BinScanItem → Chunk × Stamp) (i : ℕ) (items : List BinScanItem) (grants : List Bool)
    (hwanted : ∀ j, i ≤ j → j < i + items.length → wanted j = true)
    (hgrants : items.length ≤ grants.length) (htrue : ∀ g ∈ grants, g = true)
    (hheld : ∀ item ∈ items, storage.get item.address = .ok (some ((held item).1, some (held item).2))) :
    serveLoop storage wanted i items grants = .ok (items.map held) := by
  induction items generalizing i grants with
  | nil => rfl
  | cons item items ih =>
    -- the first try is granted: the limiter has an answer for it, and every answer is a grant
    obtain ⟨g, grants, rfl⟩ : ∃ g rest, grants = g :: rest := by
      cases grants with
      | nil => exact absurd hgrants (by simp)
      | cons g rest => exact ⟨g, rest, rfl⟩
    obtain rfl : g = true := htrue g List.mem_cons_self
    have hwant : wanted i = true := hwanted i (le_refl i) (by simp)
    have hrest := ih (i + 1) grants
      (fun j hj hj' ↦ hwanted j (by omega) (by simp only [List.length_cons]; omega))
      (by simpa using hgrants) (fun g hg ↦ htrue g (List.mem_cons_of_mem _ hg))
      (fun x hx ↦ hheld x (List.mem_cons_of_mem _ hx))
    simp only [serveLoop, hwant, Bool.not_true, Bool.false_eq_true, if_false,
      hheld item List.mem_cons_self, hrest, List.map_cons]
    rfl

theorem rangeExchange_of_granted {storage : PullStorage ε Chunk Stamp} {grants : List Bool}
    {bin : UInt8} {start : UInt64} {items : List BinScanItem}
    (hscan : storage.scanBinFrom bin start = .ok (items.map .ok))
    (held : BinScanItem → Chunk × Stamp)
    (hgrants : (items.take defaultMaxPage).length ≤ grants.length)
    (htrue : ∀ g ∈ grants, g = true)
    (hheld : ∀ item ∈ items.take defaultMaxPage,
      storage.get item.address = .ok (some ((held item).1, some (held item).2))) :
    rangeExchange storage grants bin start =
      .delivered ((items.take defaultMaxPage).foldl raiseTopmost 0)
        ((items.take defaultMaxPage).map held) := by
  have hserve : serveLoop storage (driveWant ⟨(items.take defaultMaxPage).foldl raiseTopmost 0,
      (items.take defaultMaxPage).map ChunkDescriptor.ofItem⟩) 0 (items.take defaultMaxPage) grants =
        .ok ((items.take defaultMaxPage).map held) :=
    serveLoop_of_granted held 0 _ grants (fun j _ hj ↦ by simpa [driveWant] using hj) hgrants
      htrue hheld
  simp only [rangeExchange, serveRange, pageBin_of_scan hscan, bind, Except.bind, pure,
    Except.pure]
  by_cases hempty : (items.take defaultMaxPage).isEmpty
  · rw [List.isEmpty_iff.mp hempty]
    rfl
  · simp only [hempty, if_false, Bool.false_eq_true, hserve]

/-! ## The reserve as the server's storage -/

/-- The reserve of the storer model as the server's storage: its scan reads every row, and a
read gives the payload body with the newest stamp. -/
def reservePullStorage (ctx : ReserveContext) (reserve : DbReserve) :
    PullStorage Empty (List UInt8) Storer.Stamp where
  scanBinFrom bin start := .ok ((reserve.scanBinFrom bin start).map .ok)
  get address := .ok ((reserve.get ctx address).map fun read ↦ (read.1, some read.2))

theorem reservePullStorage_scanBinFrom {ctx : ReserveContext} {reserve : DbReserve}
    (inv : TablesInv ctx reserve.tables) (bin : UInt8) :
    (∀ start, (reservePullStorage ctx reserve).scanBinFrom bin start =
      .ok (((reserve.scanBinFrom bin 0).filter fun item ↦ start ≤ item.seq).map .ok)) ∧
    ((reserve.scanBinFrom bin 0).map BinScanItem.seq).Pairwise (· < ·) := by
  refine ⟨fun start ↦ ?_, (inv.scanBinFrom bin 0).1⟩
  -- both scans are filters of the `Replay` rows; cutting the whole bin at the start is the
  -- filter from the start
  have hcut : reserve.scanBinFrom bin start =
      (reserve.scanBinFrom bin 0).filter fun item ↦ start ≤ item.seq := by
    rw [scanBinFrom_eq_filter, scanBinFrom_eq_filter, List.filter_map, List.filter_filter]
    congr 1
    apply List.filter_congr
    intro row _
    rw [Bool.eq_iff_iff]
    simp only [BinScanItem.ofRow, Function.comp_apply, Bool.and_eq_true, decide_eq_true_eq,
      UInt64.zero_le, and_true]
    -- the cut's comparison is decided by the instance the scan filter was written with
    exact ⟨fun h ↦ ⟨decide_eq_true h.2, h.1⟩, fun h ↦ ⟨h.2, of_decide_eq_true h.1⟩⟩
  simp only [reservePullStorage, hcut]

end VertexSwarm.Pullsync
