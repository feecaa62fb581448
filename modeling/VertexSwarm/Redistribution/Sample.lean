import VertexSwarm.Lib.SmallestKeys
import VertexSwarm.Storer.Schema

/-!
# The reserve sample

`redistribution/src/sample.rs`.  `reserve_sample` feeds the candidates one at a time to
`insert_sample_item`, which keeps the sample in ascending transformed-address order.  An item goes
to the first slot whose address is not smaller than its own.  On a tie a content chunk replaces the
incumbent and any other chunk is dropped; no slot is consumed either way.  Past the last incumbent
an item is appended only while fewer than `SAMPLE_SIZE` are held, and after an insertion the sample
is truncated to `SAMPLE_SIZE`.  Addresses are compared as byte slices, which is the value order of
`FixedBytes` (`FixedBytes.le_iff_bytes_le`).

On a sample that is strictly ascending and not over-full, one insertion is the bounded sample's
step `SmallestKeys.insertBounded` (`insertSampleItem_eq_insertBounded`).  The library's invariant
`SmallestKeys.Holds` therefore carries over every run (`holds_reserveSample`), and the sample is
the batch specification `SmallestKeys.smallestCollapsed`.  The commitment body depends on the sample
only through its `(chunk_address, transformed_address)` pairs.
-/

namespace VertexSwarm.Redistribution

open BigEndian Postage Storer SmallestKeys List

/-- `SAMPLE_SIZE`: the number of chunks a reserve sample keeps. -/
def sampleSize : ℕ := 16

/-- A reserve-sample entry: the anchor-keyed transformed address it is ordered by, the typed chunk
it witnesses, and the stamp its slot was won with. -/
structure SampleItem where
  transformedAddress : ChunkAddress
  chunk : AnyChunk
  stamp : Option Stamp
deriving DecidableEq

/-- `SampleItem::chunk_address`. -/
def SampleItem.chunkAddress (item : SampleItem) : ChunkAddress := item.chunk.address

/-- `insert_sample_item`. -/
def insertSampleItem (sample : List SampleItem) (item : SampleItem) : List SampleItem :=
  let key := item.transformedAddress
  match sample.findIdx? (fun held ↦ held.transformedAddress.bytes ≥ key.bytes) with
  | none => if sample.length < sampleSize then sample ++ [item] else sample
  | some pos =>
    let inserted := sample.insertIdx pos item
    let truncated := if inserted.length > sampleSize then inserted.take sampleSize else inserted
    match sample[pos]? with
    | some incumbent =>
      if incumbent.transformedAddress = key then
        if item.chunk.isContent then sample.set pos item else sample
      else truncated
    | none => truncated

/-- `reserve_sample`. -/
def reserveSample (candidates : List SampleItem) : List SampleItem :=
  candidates.foldl insertSampleItem []

@[simp]
theorem reserveSample_append_singleton (candidates : List SampleItem) (item : SampleItem) :
    reserveSample (candidates ++ [item]) = insertSampleItem (reserveSample candidates) item := by
  simp [reserveSample, foldl_append]

/-- `reserve_commitment_content`: each item's `chunk_address || transformed_address`. -/
def reserveCommitmentContent (items : List SampleItem) : List UInt8 :=
  items.foldl
    (fun content item ↦ content ++ item.chunkAddress.bytes ++ item.transformedAddress.bytes) []

/-! ## One insertion -/

section Insert

variable {sample : List SampleItem}

theorem findIdx?_bytes_ge (sample : List SampleItem) (key : ChunkAddress) :
    sample.findIdx? (fun held ↦ held.transformedAddress.bytes ≥ key.bytes) =
      sample.findIdx? (fun held ↦ key ≤ held.transformedAddress) := by
  simp only [ge_iff_le, ← FixedBytes.le_iff_bytes_le]

theorem insertBounded_of_below (hlength : sample.length ≤ sampleSize) {item : SampleItem}
    (hbelow : ∀ held ∈ sample, held.transformedAddress < item.transformedAddress) :
    insertBounded SampleItem.transformedAddress sampleSize (·.chunk.isContent) sample item =
      if sample.length < sampleSize then sample ++ [item] else sample := by
  have hfresh : item.transformedAddress ∉ sample.map SampleItem.transformedAddress := by
    intro hmem
    obtain ⟨held, hheld, hkey⟩ := mem_map.mp hmem
    exact (hbelow held hheld).ne hkey
  rw [insertBounded, if_neg hfresh,
    orderedInsert_eq_append (fun a b ↦ a.transformedAddress ≤ b.transformedAddress)
      (fun held hheld ↦ not_le.mpr (hbelow held hheld))]
  split_ifs with hroom
  · exact take_of_length_le (by simpa using hroom)
  · rw [take_append_of_le_length (not_lt.mp hroom), take_of_length_le hlength]

theorem transformedAddress_ne_of_ne
    (hsorted : (sample.map SampleItem.transformedAddress).Pairwise (· < ·)) {i j : ℕ}
    (hi : i < sample.length) (hj : j < sample.length) (hij : i ≠ j) :
    sample[i].transformedAddress ≠ sample[j].transformedAddress := by
  have hpair := pairwise_iff_getElem.mp hsorted
  rcases lt_or_gt_of_ne hij with hlt | hlt
  · have hless := hpair i j (by simpa using hi) (by simpa using hj) hlt
    simp only [getElem_map] at hless
    exact hless.ne
  · have hless := hpair j i (by simpa using hj) (by simpa using hi) hlt
    simp only [getElem_map] at hless
    exact hless.ne'

/-- A tie with the incumbent at `pos`: a content chunk takes that slot, anything else is
dropped. -/
theorem insertBounded_of_tie
    (hsorted : (sample.map SampleItem.transformedAddress).Pairwise (· < ·)) {pos : ℕ}
    (hpos : pos < sample.length) {item : SampleItem}
    (htie : sample[pos].transformedAddress = item.transformedAddress) :
    insertBounded SampleItem.transformedAddress sampleSize (·.chunk.isContent) sample item =
      if item.chunk.isContent then sample.set pos item else sample := by
  have hheld : item.transformedAddress ∈ sample.map SampleItem.transformedAddress :=
    htie ▸ mem_map_of_mem (getElem_mem hpos)
  rw [insertBounded, if_pos hheld]
  split_ifs with hcontent
  · -- the addresses are distinct, so the incumbent at `pos` is the only holder of the address
    apply ext_getElem (by simp)
    intro j hj _
    have hj₀ : j < sample.length := by simpa using hj
    rw [getElem_map, getElem_set]
    by_cases hj' : pos = j
    · subst hj'
      simp [htie, hcontent]
    · have hkey : sample[j].transformedAddress ≠ item.transformedAddress :=
        htie ▸ transformedAddress_ne_of_ne hsorted hj₀ hpos (Ne.symm hj')
      simp [hkey, hj']
  · simp [hcontent]

/-- No tie at `pos`, the first slot not below the item: the item goes there. -/
theorem insertBounded_of_gt
    (hsorted : (sample.map SampleItem.transformedAddress).Pairwise (· < ·)) {item : SampleItem}
    (hidx : sample.findIdx (fun held ↦ item.transformedAddress ≤ held.transformedAddress) =
      pos)
    (hpos : pos < sample.length)
    (hgt : item.transformedAddress < sample[pos].transformedAddress) :
    insertBounded SampleItem.transformedAddress sampleSize (·.chunk.isContent) sample item =
      (sample.insertIdx pos item).take sampleSize := by
  have hfresh : item.transformedAddress ∉ sample.map SampleItem.transformedAddress := by
    intro hmem
    obtain ⟨j, hj, hkey⟩ := getElem_of_mem hmem
    rw [length_map] at hj
    rw [getElem_map] at hkey
    rcases lt_trichotomy j pos with hlt | rfl | hlt
    · -- before `pos` every incumbent is below the item
      have hbelow := not_of_lt_findIdx (hidx ▸ hlt)
      simp [hkey] at hbelow
    · exact hgt.ne hkey.symm
    · -- after `pos` every incumbent is above the one at `pos`
      have habove := pairwise_iff_getElem.mp hsorted pos j (by simpa using hpos)
        (by simpa using hj) hlt
      simp only [getElem_map, hkey] at habove
      exact lt_asymm hgt habove
  rw [insertBounded, if_neg hfresh]
  simp only [orderedInsert_eq_insertIdx, hidx]

/-- On a strictly ascending sample of at most `SAMPLE_SIZE` items, `insert_sample_item` is the
bounded sample's step, content chunks preferred. -/
theorem insertSampleItem_eq_insertBounded
    (hsorted : (sample.map SampleItem.transformedAddress).Pairwise (· < ·))
    (hlength : sample.length ≤ sampleSize) (item : SampleItem) :
    insertSampleItem sample item =
      insertBounded SampleItem.transformedAddress sampleSize (·.chunk.isContent) sample item := by
  rw [insertSampleItem]
  dsimp only
  rw [findIdx?_bytes_ge]
  cases hfind : sample.findIdx? (fun held ↦ item.transformedAddress ≤ held.transformedAddress)
    with
  | none =>
    have hbelow : ∀ held ∈ sample, held.transformedAddress < item.transformedAddress := by
      intro held hheld
      simpa using findIdx?_eq_none_iff.mp hfind held hheld
    exact (insertBounded_of_below hlength hbelow).symm
  | some pos =>
    obtain ⟨hpos, hidx⟩ := findIdx?_eq_some_iff_findIdx_eq.mp hfind
    have hge : item.transformedAddress ≤ sample[pos].transformedAddress := by
      have := findIdx_getElem (w := hidx ▸ hpos)
      simpa [hidx] using this
    simp only [getElem?_eq_getElem hpos]
    by_cases htie : sample[pos].transformedAddress = item.transformedAddress
    · rw [if_pos htie, insertBounded_of_tie hsorted hpos htie]
    · rw [if_neg htie, insertBounded_of_gt hsorted hidx hpos (lt_of_le_of_ne hge (Ne.symm htie))]
      split_ifs with hover
      · rfl
      · exact (take_of_length_le (not_lt.mp hover)).symm

end Insert

/-! ## Whole runs -/

/-- Over every run the sample is a bounded sample of the `SAMPLE_SIZE` smallest transformed
addresses, content chunks preferred on a tie. -/
theorem holds_reserveSample (candidates : List SampleItem) :
    Holds SampleItem.transformedAddress sampleSize (·.chunk.isContent) candidates
      (reserveSample candidates) := by
  induction candidates using List.reverseRecOn with
  | nil => exact holds_nil
  | append_singleton candidates item ih =>
    rw [reserveSample_append_singleton, insertSampleItem_eq_insertBounded ih.pairwise ih.length_le]
    exact ih.insertBounded item

-- The tie tests of `sample.rs`: the content chunk keeps the address whichever arrives first.
example :
    let address := FixedBytes.ofNat 32 7
    let content : SampleItem := ⟨address, ⟨FixedBytes.ofNat 32 1, 0, []⟩, none⟩
    let singleOwner : SampleItem := ⟨address, ⟨FixedBytes.ofNat 32 2, 1, []⟩, none⟩
    reserveSample [singleOwner, content] = [content] ∧
      reserveSample [content, singleOwner] = [content] := by
  decide

/-- The commitment body reads each item only through its `(chunk_address, transformed_address)`
pair. -/
theorem reserveCommitmentContent_eq_foldl_pairs (items : List SampleItem) :
    reserveCommitmentContent items =
      (items.map fun item ↦ (item.chunkAddress, item.transformedAddress)).foldl
        (fun content pair ↦ content ++ pair.1.bytes ++ pair.2.bytes) [] := by
  rw [reserveCommitmentContent, foldl_map]

theorem pairs_reserveSample_perm {candidates candidates' : List SampleItem}
    (hperm : candidates' ~ candidates)
    (hshared : ∀ a ∈ candidates, ∀ b ∈ candidates,
      a.transformedAddress = b.transformedAddress → a.chunkAddress = b.chunkAddress) :
    (reserveSample candidates').map (fun item ↦ (item.chunkAddress, item.transformedAddress)) =
      (reserveSample candidates).map (fun item ↦ (item.chunkAddress, item.transformedAddress)) := by
  have hold := holds_reserveSample candidates
  have hold' := holds_reserveSample candidates'
  have hkeys : (reserveSample candidates').map SampleItem.transformedAddress =
      (reserveSample candidates).map SampleItem.transformedAddress := by
    rw [hold'.map_key, hold.map_key, smallest_perm sampleSize (hperm.map _)]
  have hlength := congrArg length hkeys
  simp only [length_map] at hlength
  apply ext_getElem (by simpa using hlength)
  intro i hi hi'
  have hkey := getElem_of_eq hkeys (by simpa using hi)
  simp only [getElem_map] at hkey ⊢
  have hmem' := hperm.mem_iff.mp (hold'.mem (getElem_mem (by simpa using hi)))
  rw [hshared _ hmem' _ (hold.mem (getElem_mem (by simpa using hi'))) hkey, hkey]

/-- `reserve_sample` is the batch specification: of the `SAMPLE_SIZE` smallest distinct transformed
addresses, ascending, each address's candidates collapsed to the last content chunk or, with none,
the first candidate.  Its pairs and commitment body do not depend on the arrival order when
candidates sharing a transformed address share a chunk address. -/
theorem reserve_sample_smallest_collapsed (candidates : List SampleItem) :
    reserveSample candidates =
        smallestCollapsed SampleItem.transformedAddress sampleSize (·.chunk.isContent) candidates ∧
      (reserveSample candidates).length =
        min sampleSize (candidates.map SampleItem.transformedAddress).toFinset.card ∧
      (reserveSample candidates).map SampleItem.transformedAddress =
        ((candidates.map SampleItem.transformedAddress).toFinset.sort).take sampleSize ∧
      ((reserveSample candidates).map SampleItem.transformedAddress).Pairwise (· < ·) ∧
      (∀ item ∈ reserveSample candidates, item ∈ candidates ∧
        (((group SampleItem.transformedAddress candidates item.transformedAddress).filter
            (·.chunk.isContent)).getLast? = some item ∨
          (∀ other ∈ group SampleItem.transformedAddress candidates item.transformedAddress,
              other.chunk.isContent = false) ∧
            (group SampleItem.transformedAddress candidates item.transformedAddress).head? =
              some item)) ∧
      ∀ candidates', candidates' ~ candidates →
        (∀ a ∈ candidates, ∀ b ∈ candidates,
          a.transformedAddress = b.transformedAddress → a.chunkAddress = b.chunkAddress) →
        (reserveSample candidates').map (fun item ↦ (item.chunkAddress, item.transformedAddress)) =
            (reserveSample candidates).map
              (fun item ↦ (item.chunkAddress, item.transformedAddress)) ∧
          reserveCommitmentContent (reserveSample candidates') =
            reserveCommitmentContent (reserveSample candidates) := by
  have hold := holds_reserveSample candidates
  refine ⟨hold.eq_smallestCollapsed, hold.length_eq, hold.map_key, hold.pairwise,
    fun item hitem ↦ ⟨hold.mem hitem, ?_⟩, fun candidates' hperm hshared ↦ ?_⟩
  · exact (collapse_eq_some_iff _).mp (hold.collapse_group item hitem)
  · have hpairs := pairs_reserveSample_perm hperm hshared
    refine ⟨hpairs, ?_⟩
    rw [reserveCommitmentContent_eq_foldl_pairs, reserveCommitmentContent_eq_foldl_pairs, hpairs]

end VertexSwarm.Redistribution
