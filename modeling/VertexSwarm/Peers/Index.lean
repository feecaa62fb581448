import VertexSwarm.Lib.BigEndian

/-!
# The proximity index

`peer-manager/src/proximity_index.rs`.  The index files each known overlay under its bin: the
proximity order it shares with the local overlay, capped at the spec's `max_po`.  A bin is an
insertion-ordered set (a `LinkedHashSet`) with an optional capacity `max_per_bin` (0 for none).
The per-bin and total counters are kept beside the sets and moved by `add` and `remove` together
with them.  The generation-stamped cache behind `iter_by_proximity` only saves rebuilding a list,
so it is left out: iterating the index reads the bins in order.

nectar's `proximity` of two addresses is the number of leading bits they share, capped at
`MAX_PO`.  nectar is a dependency, not part of this repository, so the function is a parameter
(`Proximity`) given by that behaviour: the two addresses agree on the bits before it and, short of
`MAX_PO`, differ in the bit at it.  The laws fix the function (`Proximity.po_eq`), and one
computes it from the XOR of the two addresses (`Proximity.byXor`).  The index carries the
proximity it files by.

`Wf` is what the index keeps: each bin is duplicate-free, holds only overlays of that bin and at
most `max_per_bin` of them, and the counters are the bins' sizes.  `add` and `remove` keep it
(`Wf.add`, `Wf.remove`), and move exactly the one overlay they name (`holds_add`,
`holds_remove`).
-/

namespace VertexSwarm.Peers

open BigEndian

/-- An overlay address: 32 bytes. -/
abbrev OverlayAddress := FixedBytes 32

/-- Membership in a list of overlays (`List.instDecidableMemOfLawfulBEq`) decides by this one
instance. -/
instance (priority := high) overlayAddress_lawfulBEq : LawfulBEq OverlayAddress := inferInstance

/-- `MAX_PO`: nectar's deepest proximity order. -/
def maxPo : ℕ := 31

/-- Bit `i` of an address, counted from the most significant bit of its first byte. -/
def bitAt (a : OverlayAddress) (i : ℕ) : Bool := a.toNat.testBit (255 - i)

/-- nectar's `proximity`, by its documented behaviour: the number of leading bits two addresses
share, capped at `MAX_PO`. -/
structure Proximity where
  po : OverlayAddress → OverlayAddress → ℕ
  po_le (a b : OverlayAddress) : po a b ≤ maxPo
  bitAt_eq_of_lt_po (a b : OverlayAddress) (i : ℕ) : i < po a b → bitAt a i = bitAt b i
  bitAt_ne_of_po_lt (a b : OverlayAddress) : po a b < maxPo → bitAt a (po a b) ≠ bitAt b (po a b)

/-- The number of leading bits two addresses share: 256 less the bit length of their XOR. -/
def commonPrefix (a b : OverlayAddress) : ℕ :=
  let distance := a.toNat ^^^ b.toNat
  if distance = 0 then 256 else 255 - distance.log2

theorem xor_toNat_lt (a b : OverlayAddress) : a.toNat ^^^ b.toNat < 2 ^ 256 :=
  Nat.xor_lt_two_pow (by simpa using a.toNat_lt) (by simpa using b.toNat_lt)

namespace Proximity

/-- No proximity exceeds another: the longer one has the two agree where the shorter has them
differ. -/
theorem po_le_po (p q : Proximity) (a b : OverlayAddress) : p.po a b ≤ q.po a b := by
  refine le_of_not_gt fun hlt ↦ ?_
  exact q.bitAt_ne_of_po_lt a b (hlt.trans_le (p.po_le a b)) (p.bitAt_eq_of_lt_po a b _ hlt)

/-- The laws fix the function. -/
theorem po_eq (p q : Proximity) : p.po = q.po :=
  funext fun a ↦ funext fun b ↦ le_antisymm (po_le_po p q a b) (po_le_po q p a b)

theorem ext {p q : Proximity} (h : p.po = q.po) : p = q := by
  cases p
  cases q
  cases h
  rfl

/-- There is one proximity: any two meet the laws with the same function. -/
instance : Subsingleton Proximity := ⟨fun p q ↦ ext (po_eq p q)⟩

/-- The proximity read off the XOR of the two addresses, capped at `MAX_PO`. -/
def byXor : Proximity where
  po a b := min (commonPrefix a b) maxPo
  po_le _ _ := min_le_right _ _
  bitAt_eq_of_lt_po a b i h := by
    apply testBit_eq_of_log2_xor_lt
    simp only [commonPrefix, maxPo] at h
    split_ifs at h with hxor
    · rw [hxor, Nat.log2_zero]
      omega
    · omega
  bitAt_ne_of_po_lt a b h := by
    have hxor : a.toNat ^^^ b.toNat ≠ 0 := fun hzero ↦ by
      simp [commonPrefix, hzero, maxPo] at h
    have hlog : (a.toNat ^^^ b.toNat).log2 < 256 := (Nat.log2_lt hxor).mpr (xor_toNat_lt a b)
    -- short of the cap, the order is the bit just before the XOR's top bit
    have hpo : min (commonPrefix a b) maxPo = 255 - (a.toNat ^^^ b.toNat).log2 := by
      simp only [commonPrefix, if_neg hxor, maxPo] at h ⊢
      omega
    unfold bitAt
    rw [hpo, Nat.sub_sub_self (by omega)]
    exact testBit_ne_at_log2_xor hxor

end Proximity

/-- Why `ProximityIndex::add` refused an address. -/
inductive AddError where
  | alreadyPresent
  | binFull
deriving DecidableEq

/-- `ProximityIndex`: the bins of overlays by proximity to `localOverlay`, and their counters;
`proximity` is nectar's function it files by. -/
structure ProximityIndex where
  proximity : Proximity
  localOverlay : OverlayAddress
  maxPo : ℕ
  maxPerBin : ℕ
  bins : ℕ → List OverlayAddress
  binCounts : ℕ → ℕ
  totalCount : ℕ

namespace ProximityIndex

/-- `ProximityIndex::new`: empty bins and zero counters. -/
def new (proximity : Proximity) (localOverlay : OverlayAddress) (maxPo maxPerBin : ℕ) :
    ProximityIndex :=
  ⟨proximity, localOverlay, maxPo, maxPerBin, fun _ ↦ [], fun _ ↦ 0, 0⟩

/-- `bin_for`: the proximity to the local overlay, capped at `max_po`. -/
def binFor (index : ProximityIndex) (addr : OverlayAddress) : ℕ :=
  min (index.proximity.po index.localOverlay addr) index.maxPo

/-- `add`: a duplicate is refused first, then an address whose bin is at capacity. -/
def add (index : ProximityIndex) (addr : OverlayAddress) : Except AddError ProximityIndex :=
  let bin := index.binFor addr
  let bucket := index.bins bin
  if addr ∈ bucket then .error .alreadyPresent
  else if index.maxPerBin > 0 ∧ bucket.length ≥ index.maxPerBin then .error .binFull
  else .ok { index with
    bins := Function.update index.bins bin (bucket ++ [addr])
    binCounts := Function.update index.binCounts bin (index.binCounts bin + 1)
    totalCount := index.totalCount + 1 }

/-- `remove`: whether the address was held, and the index without it. -/
def remove (index : ProximityIndex) (addr : OverlayAddress) : Bool × ProximityIndex :=
  let bin := index.binFor addr
  let bucket := index.bins bin
  if addr ∈ bucket then
    (true, { index with
      bins := Function.update index.bins bin (bucket.erase addr)
      binCounts := Function.update index.binCounts bin (index.binCounts bin - 1)
      totalCount := index.totalCount - 1 })
  else (false, index)

/-- `peers_in_bin`: a bin's members in insertion order; no bin lies past `max_po`. -/
def peersInBin (index : ProximityIndex) (bin : ℕ) : List OverlayAddress :=
  if bin ≤ index.maxPo then index.bins bin else []

/-- `iter_by_proximity`: every overlay with its bin, from the shallowest bin to `max_po`, each
bin in insertion order. -/
def iterByProximity (index : ProximityIndex) : List (ℕ × OverlayAddress) :=
  (List.range (index.maxPo + 1)).flatMap fun bin ↦ (index.bins bin).map (bin, ·)

/-- `len`: the total counter. -/
def len (index : ProximityIndex) : ℕ := index.totalCount

/-- The index holds `addr`: it is in its own bin (what `exists` reads). -/
def Holds (index : ProximityIndex) (addr : OverlayAddress) : Prop :=
  addr ∈ index.bins (index.binFor addr)

instance (index : ProximityIndex) (addr : OverlayAddress) : Decidable (index.Holds addr) :=
  inferInstanceAs (Decidable (addr ∈ _))

theorem binFor_le (index : ProximityIndex) (addr : OverlayAddress) :
    index.binFor addr ≤ index.maxPo :=
  min_le_right _ _

/-! ## The operations, case by case -/

theorem add_of_mem {index : ProximityIndex} {addr : OverlayAddress} (h : index.Holds addr) :
    index.add addr = .error .alreadyPresent := by
  simp only [add, Holds] at h ⊢
  simp [h]

theorem add_of_full {index : ProximityIndex} {addr : OverlayAddress} (h : ¬index.Holds addr)
    (hcap : 0 < index.maxPerBin) (hfull : index.maxPerBin ≤ (index.bins (index.binFor addr)).length) :
    index.add addr = .error .binFull := by
  simp only [add, Holds] at h ⊢
  simp [h, hcap, hfull]

theorem add_of_room {index : ProximityIndex} {addr : OverlayAddress} (h : ¬index.Holds addr)
    (hroom : 0 < index.maxPerBin → (index.bins (index.binFor addr)).length < index.maxPerBin) :
    index.add addr = .ok { index with
      bins := Function.update index.bins (index.binFor addr) (index.bins (index.binFor addr) ++ [addr])
      binCounts := Function.update index.binCounts (index.binFor addr)
        (index.binCounts (index.binFor addr) + 1)
      totalCount := index.totalCount + 1 } := by
  have hfull : ¬(index.maxPerBin > 0 ∧ (index.bins (index.binFor addr)).length ≥ index.maxPerBin) :=
    fun hfull ↦ absurd (hroom hfull.1) (not_lt.mpr hfull.2)
  simp only [add, Holds] at h ⊢
  rw [if_neg h, if_neg hfull]

/-- `add` refuses a duplicate only. -/
theorem holds_of_add_eq_alreadyPresent {index : ProximityIndex} {addr : OverlayAddress}
    (h : index.add addr = .error .alreadyPresent) : index.Holds addr := by
  by_contra hfresh
  simp only [add, Holds] at h hfresh
  rw [if_neg hfresh] at h
  split_ifs at h
  cases h

/-- `add` reports a full bin only for a fresh address whose bin is at a nonzero capacity. -/
theorem full_of_add_eq_binFull {index : ProximityIndex} {addr : OverlayAddress}
    (h : index.add addr = .error .binFull) :
    ¬index.Holds addr ∧ 0 < index.maxPerBin ∧
      index.maxPerBin ≤ (index.bins (index.binFor addr)).length := by
  simp only [add, Holds] at h ⊢
  split_ifs at h with hheld hfull <;> cases h
  exact ⟨hheld, hfull.1, hfull.2⟩

/-- What a successful `add` leaves: the address appended to its bin, both counters bumped. -/
theorem add_eq_ok {index index' : ProximityIndex} {addr : OverlayAddress}
    (h : index.add addr = .ok index') :
    ¬index.Holds addr ∧ (0 < index.maxPerBin → (index.bins (index.binFor addr)).length < index.maxPerBin) ∧
      index' = { index with
        bins := Function.update index.bins (index.binFor addr) (index.bins (index.binFor addr) ++ [addr])
        binCounts := Function.update index.binCounts (index.binFor addr)
          (index.binCounts (index.binFor addr) + 1)
        totalCount := index.totalCount + 1 } := by
  simp only [add] at h
  split_ifs at h with hmem hfull
  refine ⟨hmem, fun hcap ↦ ?_, (Except.ok.inj h).symm⟩
  simp only [not_and, not_le] at hfull
  exact hfull hcap

theorem remove_of_holds {index : ProximityIndex} {addr : OverlayAddress} (h : index.Holds addr) :
    index.remove addr = (true, { index with
      bins := Function.update index.bins (index.binFor addr) ((index.bins (index.binFor addr)).erase addr)
      binCounts := Function.update index.binCounts (index.binFor addr)
        (index.binCounts (index.binFor addr) - 1)
      totalCount := index.totalCount - 1 }) := by
  simp only [remove, Holds] at h ⊢
  rw [if_pos h]

theorem remove_of_not_holds {index : ProximityIndex} {addr : OverlayAddress}
    (h : ¬index.Holds addr) : index.remove addr = (false, index) := by
  simp only [remove, Holds] at h ⊢
  rw [if_neg h]

@[simp]
theorem binFor_remove (index : ProximityIndex) (addr : OverlayAddress) :
    (index.remove addr).2.binFor = index.binFor := by
  by_cases h : index.Holds addr
  · rw [remove_of_holds h]
    rfl
  · rw [remove_of_not_holds h]

@[simp]
theorem maxPerBin_remove (index : ProximityIndex) (addr : OverlayAddress) :
    (index.remove addr).2.maxPerBin = index.maxPerBin := by
  by_cases h : index.Holds addr
  · rw [remove_of_holds h]
  · rw [remove_of_not_holds h]

@[simp]
theorem maxPo_remove (index : ProximityIndex) (addr : OverlayAddress) :
    (index.remove addr).2.maxPo = index.maxPo := by
  by_cases h : index.Holds addr
  · rw [remove_of_holds h]
  · rw [remove_of_not_holds h]

theorem binFor_of_add {index index' : ProximityIndex} {addr : OverlayAddress}
    (h : index.add addr = .ok index') : index'.binFor = index.binFor := by
  rw [(add_eq_ok h).2.2]
  rfl

theorem maxPerBin_of_add {index index' : ProximityIndex} {addr : OverlayAddress}
    (h : index.add addr = .ok index') : index'.maxPerBin = index.maxPerBin := by
  rw [(add_eq_ok h).2.2]

theorem maxPo_of_add {index index' : ProximityIndex} {addr : OverlayAddress}
    (h : index.add addr = .ok index') : index'.maxPo = index.maxPo := by
  rw [(add_eq_ok h).2.2]

/-- `add` brings in exactly the one address. -/
theorem holds_add {index index' : ProximityIndex} {addr : OverlayAddress}
    (h : index.add addr = .ok index') (other : OverlayAddress) :
    index'.Holds other ↔ index.Holds other ∨ other = addr := by
  have hbinFor := binFor_of_add h
  obtain ⟨-, -, rfl⟩ := add_eq_ok h
  simp only [Holds, hbinFor, Function.update_apply]
  split_ifs with hbin
  · rw [← hbin, List.mem_append, List.mem_singleton]
  · have hne : other ≠ addr := fun heq ↦ hbin (heq ▸ rfl)
    simp [hne]

theorem length_bin_remove {index : ProximityIndex} {addr : OverlayAddress} (h : index.Holds addr) :
    ((index.remove addr).2.bins (index.binFor addr)).length =
      (index.bins (index.binFor addr)).length - 1 := by
  rw [remove_of_holds h]
  simp [List.length_erase_of_mem h]

theorem remove_of_add {index index' : ProximityIndex} {addr : OverlayAddress}
    (h : index.add addr = .ok index') : (index'.remove addr).2 = index := by
  have hbinFor := binFor_of_add h
  have hheld : index'.Holds addr := (holds_add h addr).mpr (Or.inr rfl)
  obtain ⟨hfresh, -, rfl⟩ := add_eq_ok h
  rw [remove_of_holds hheld]
  simp only [hbinFor, Function.update_self, Function.update_idem, Nat.add_sub_cancel,
    List.erase_append_right _ hfresh, List.erase_cons_head, List.append_nil, Function.update_eq_self]

/-! ## The invariant -/

/-- A bin's size after replacing it, against the sum of all bin sizes below `count`. -/
theorem sum_length_update (bins : ℕ → List OverlayAddress) {bin count : ℕ} (hbin : bin < count)
    (bucket : List OverlayAddress) :
    ∑ b ∈ Finset.range count, (Function.update bins bin bucket b).length + (bins bin).length =
      ∑ b ∈ Finset.range count, (bins b).length + bucket.length := by
  have hmem : bin ∈ Finset.range count := Finset.mem_range.mpr hbin
  have hupdate : (fun b ↦ (Function.update bins bin bucket b).length) =
      Function.update (fun b ↦ (bins b).length) bin bucket.length := by
    funext b
    exact Function.apply_update (fun _ ↦ List.length) bins bin bucket b
  rw [hupdate, Finset.sum_update_of_mem hmem,
    ← Finset.add_sum_erase _ (fun b ↦ (bins b).length) hmem, Finset.sdiff_singleton_eq_erase]
  omega

/-- What the index keeps: duplicate-free bins holding only their own overlays, at most
`max_per_bin` of them, with counters that are the bins' sizes. -/
structure Wf (index : ProximityIndex) : Prop where
  nodup : ∀ bin, (index.bins bin).Nodup
  binFor_eq : ∀ bin, ∀ addr ∈ index.bins bin, index.binFor addr = bin
  length_le : 0 < index.maxPerBin → ∀ bin, (index.bins bin).length ≤ index.maxPerBin
  binCounts_eq : ∀ bin, index.binCounts bin = (index.bins bin).length
  totalCount_eq :
    index.totalCount = ∑ bin ∈ Finset.range (index.maxPo + 1), (index.bins bin).length

theorem wf_new (proximity : Proximity) (localOverlay : OverlayAddress) (maxPo maxPerBin : ℕ) :
    (new proximity localOverlay maxPo maxPerBin).Wf :=
  ⟨by simp [new], by simp [new], by simp [new], by simp [new], by simp [new]⟩

namespace Wf

variable {index : ProximityIndex}

theorem mem_iff (hwf : index.Wf) {bin : ℕ} {addr : OverlayAddress} :
    addr ∈ index.bins bin ↔ index.Holds addr ∧ index.binFor addr = bin := by
  constructor
  · intro hmem
    have hbin := hwf.binFor_eq bin addr hmem
    exact ⟨by rw [Holds, hbin]; exact hmem, hbin⟩
  · rintro ⟨hholds, rfl⟩
    exact hholds

/-- Replacing one bin by a duplicate-free list of its own overlays within capacity, with the
counters moved to match, keeps the invariant: the one argument behind `add` and `remove`. -/
theorem replaceBin (hwf : index.Wf) {bin : ℕ} (hbin : bin ≤ index.maxPo)
    {bucket : List OverlayAddress} (hnodup : bucket.Nodup)
    (hmembers : ∀ addr ∈ bucket, index.binFor addr = bin)
    (hcap : 0 < index.maxPerBin → bucket.length ≤ index.maxPerBin) {count total : ℕ}
    (hcount : count = bucket.length)
    (htotal : total + (index.bins bin).length = index.totalCount + bucket.length) :
    ({ index with
      bins := Function.update index.bins bin bucket
      binCounts := Function.update index.binCounts bin count
      totalCount := total } : ProximityIndex).Wf := by
  have hbinFor : ∀ addr, ProximityIndex.binFor { index with
      bins := Function.update index.bins bin bucket
      binCounts := Function.update index.binCounts bin count
      totalCount := total } addr = index.binFor addr := fun _ ↦ rfl
  constructor
  · intro bin'
    dsimp only
    rw [Function.update_apply]
    split_ifs
    · exact hnodup
    · exact hwf.nodup bin'
  · intro bin' addr hmem
    dsimp only at hmem
    rw [hbinFor]
    rw [Function.update_apply] at hmem
    split_ifs at hmem with hbin'
    · rw [hbin']
      exact hmembers addr hmem
    · exact hwf.binFor_eq bin' addr hmem
  · intro hcap' bin'
    dsimp only at hcap' ⊢
    rw [Function.update_apply]
    split_ifs
    · exact hcap hcap'
    · exact hwf.length_le hcap' bin'
  · intro bin'
    simp only [Function.update_apply]
    split_ifs
    · exact hcount
    · exact hwf.binCounts_eq bin'
  · have hsum := sum_length_update index.bins (Nat.lt_add_one_iff.mpr hbin) bucket
    dsimp only
    rw [hwf.totalCount_eq] at htotal
    omega

theorem add (hwf : index.Wf) {index' : ProximityIndex} {addr : OverlayAddress}
    (h : index.add addr = .ok index') : index'.Wf := by
  obtain ⟨hfresh, hroom, rfl⟩ := add_eq_ok h
  refine hwf.replaceBin (binFor_le index addr) ?_ ?_ ?_ ?_ ?_
  · exact (hwf.nodup _).append (List.nodup_singleton addr) (by simpa [Holds] using hfresh)
  · intro other hother
    rcases List.mem_append.mp hother with hold | hnew
    · exact hwf.binFor_eq _ other hold
    · rw [List.mem_singleton.mp hnew]
  · intro hcap
    simpa using hroom hcap
  · simp [hwf.binCounts_eq]
  · rw [List.length_append, List.length_singleton]
    omega

theorem remove (hwf : index.Wf) (addr : OverlayAddress) : (index.remove addr).2.Wf := by
  by_cases hheld : index.Holds addr
  · have hpos := List.length_pos_of_mem hheld
    rw [remove_of_holds hheld]
    refine hwf.replaceBin (binFor_le index addr) ((hwf.nodup _).erase addr)
      (fun other hother ↦ hwf.binFor_eq _ other (List.mem_of_mem_erase hother))
      (fun hcap ↦ List.length_erase_le.trans (hwf.length_le hcap _)) ?_ ?_
    · rw [List.length_erase_of_mem hheld, hwf.binCounts_eq]
    · rw [List.length_erase_of_mem hheld, hwf.totalCount_eq]
      have hle := Finset.single_le_sum (fun b _ ↦ Nat.zero_le ((index.bins b).length))
        (Finset.mem_range.mpr (Nat.lt_add_one_iff.mpr (binFor_le index addr)))
      omega
  · rw [remove_of_not_holds hheld]
    exact hwf

/-- No overlay lies in a bin past `max_po`, so `peers_in_bin` reads the bin itself. -/
theorem peersInBin_eq (hwf : index.Wf) (bin : ℕ) : index.peersInBin bin = index.bins bin := by
  unfold peersInBin
  split_ifs with hbin
  · rfl
  · -- a member would have its bin, at most `max_po`, equal to this one
    refine (List.eq_nil_iff_forall_not_mem.mpr fun addr hmem ↦ hbin ?_).symm
    exact hwf.binFor_eq bin addr hmem ▸ binFor_le index addr

theorem map_snd_iterByProximity :
    index.iterByProximity.map Prod.snd = (List.range (index.maxPo + 1)).flatMap index.bins := by
  simp [iterByProximity, List.map_flatMap, Function.comp_def]

/-- The overlays `iter_by_proximity` walks are the ones the index holds. -/
theorem mem_iterByProximity (hwf : index.Wf) {addr : OverlayAddress} :
    addr ∈ index.iterByProximity.map Prod.snd ↔ index.Holds addr := by
  rw [map_snd_iterByProximity, List.mem_flatMap]
  constructor
  · rintro ⟨bin, -, hmem⟩
    exact ((hwf.mem_iff).mp hmem).1
  · intro hheld
    exact ⟨index.binFor addr, List.mem_range.mpr (Nat.lt_add_one_iff.mpr (binFor_le index addr)), hheld⟩

/-- `iter_by_proximity` walks each overlay once: a bin is duplicate-free, and two bins share no
overlay. -/
theorem nodup_iterByProximity (hwf : index.Wf) : (index.iterByProximity.map Prod.snd).Nodup := by
  rw [map_snd_iterByProximity, List.nodup_flatMap]
  refine ⟨fun bin _ ↦ hwf.nodup bin, List.nodup_range.imp fun hne addr hleft hright ↦ hne ?_⟩
  exact (hwf.binFor_eq _ addr hleft).symm.trans (hwf.binFor_eq _ addr hright)

/-- `remove` takes out exactly the one address, whether or not it was held. -/
theorem holds_remove (hwf : index.Wf) (addr other : OverlayAddress) :
    (index.remove addr).2.Holds other ↔ index.Holds other ∧ other ≠ addr := by
  by_cases hheld : index.Holds addr
  · rw [remove_of_holds hheld]
    simp only [Holds, binFor] at hheld ⊢
    rw [Function.update_apply]
    split_ifs with hbin
    · rw [hbin, (hwf.nodup _).mem_erase_iff, and_comm]
    · have hne : other ≠ addr := fun heq ↦ hbin (heq ▸ rfl)
      exact ⟨fun h ↦ ⟨h, hne⟩, fun h ↦ h.1⟩
  · rw [remove_of_not_holds hheld]
    exact ⟨fun h ↦ ⟨h, fun heq ↦ hheld (heq ▸ h)⟩, fun h ↦ h.1⟩

end Wf

end ProximityIndex

end VertexSwarm.Peers
