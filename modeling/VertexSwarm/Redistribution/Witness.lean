import VertexSwarm.Lib.Checked
import VertexSwarm.Redistribution.Sample

/-!
# Witness slots of a claim

`redistribution/src/witness.rs`.  The claim anchor, read as a big-endian integer `N`, picks the
sample slots a prover opens in `make_inclusion_proofs`: `N mod 15`, then `N mod 14` bumped past
the first so that the two differ, and the last slot `SAMPLE_SIZE - 1`; and the BMT segment
`N mod 128` within each witnessed chunk.  `mod_be` computes `N mod m` byte by byte in a `u128`
accumulator, reduced after every byte.

The accumulator is modelled as a `BitVec 128` and the remainder as `checked_rem`, `none` standing
for the panic of `%` on a zero modulus.  Below it sits the exact computation, Horner's rule
reduced modulo `m` (`foldl_horner_mod`): while the accumulator is below `m`, shifting in a byte
loses nothing (`toNat_shiftIn`), so every state of the loop is the exact remainder of the bytes
read so far, and `mod_be` returns the big-endian value modulo `m` (`modBe_eq`).  The slots then
follow for every anchor (`witness_indices_match_contract`).
-/

namespace VertexSwarm.Redistribution

open BigEndian Checked Postage

/-- `ClaimAnchor`: the 32-byte anchor a claim is made against. -/
structure ClaimAnchor where
  anchor : B256

/-- `ClaimAnchor::as_bytes`. -/
def ClaimAnchor.asBytes (claim : ClaimAnchor) : List UInt8 := claim.anchor.bytes

/-- `WitnessIndices`: the two challenged slots (`[usize; 2]`), the last slot and the segment. -/
structure WitnessIndices where
  challenged : ℕ × ℕ
  last : ℕ
  segmentIndex : ℕ
deriving DecidableEq

/-- One byte of `mod_be`: `((acc << 8) | u128::from(b)) % u128::from(m)`. -/
def modBeStep (m : UInt64) (acc : BitVec 128) (b : UInt8) : Option (BitVec 128) :=
  checkedRem ((acc <<< 8) ||| b.toBitVec.setWidth 128) (m.toBitVec.setWidth 128)

/-- `mod_be`: `big-endian(bytes) mod m` in a `u128` accumulator, returned `as u64`. -/
def modBe (bytes : List UInt8) (m : UInt64) : Option UInt64 := do
  let acc ← bytes.foldlM (modBeStep m) 0
  pure (UInt64.ofBitVec (acc.setWidth 64))

/-- `witness_indices`. -/
def witnessIndices (claim : ClaimAnchor) : Option WitnessIndices := do
  let bytes := claim.asBytes
  let last := sampleSize - 1
  let first := (← modBe bytes (UInt64.ofNat last)).toNat
  let second := (← modBe bytes (UInt64.ofNat (last - 1))).toNat
  let second := if second ≥ first then second + 1 else second
  let segmentIndex := (← modBe bytes 128).toNat
  pure ⟨(first, second), last, segmentIndex⟩

/-! ## `mod_be` -/

/-- Below `2 ^ 64`, shifting a byte into the `u128` accumulator loses nothing. -/
theorem toNat_shiftIn {acc : BitVec 128} (hacc : acc.toNat < 2 ^ 64) (b : UInt8) :
    ((acc <<< 8) ||| b.toBitVec.setWidth 128).toNat = acc.toNat * 256 + b.toNat := by
  have hb : b.toNat < 2 ^ 8 := b.toNat_lt
  have hshift : acc.toNat <<< 8 < 2 ^ 128 := by
    rw [Nat.shiftLeft_eq]
    omega
  rw [BitVec.toNat_or, BitVec.toNat_shiftLeft, BitVec.toNat_setWidth, Nat.mod_eq_of_lt hshift,
    Nat.mod_eq_of_lt (by omega), UInt8.toNat_toBitVec, ← Nat.shiftLeft_add_eq_or_of_lt hb,
    Nat.shiftLeft_eq]

section Step

variable {m : UInt64}

/-- A nonzero `u64` modulus is a nonzero `u128` one. -/
theorem toNat_setWidth_modulus (m : UInt64) : (m.toBitVec.setWidth 128).toNat = m.toNat := by
  rw [BitVec.toNat_setWidth, UInt64.toNat_toBitVec,
    Nat.mod_eq_of_lt (lt_trans m.toNat_lt (by norm_num))]

theorem modBeStep_eq (hm : 0 < m) {acc : BitVec 128} (hacc : acc.toNat < m.toNat) (b : UInt8) :
    ∃ acc', modBeStep m acc b = some acc' ∧ acc'.toNat = (acc.toNat * 256 + b.toNat) % m.toNat := by
  have hmodulus : m.toBitVec.setWidth 128 ≠ 0 := by
    intro h
    have h0 := congrArg BitVec.toNat h
    rw [toNat_setWidth_modulus] at h0
    exact absurd h0 (UInt64.lt_iff_toNat_lt.mp hm).ne'
  refine ⟨_, checkedRem_of_ne_zero _ hmodulus, ?_⟩
  rw [BitVec.toNat_umod, toNat_setWidth_modulus, toNat_shiftIn (lt_trans hacc m.toNat_lt)]

/-- The loop from a reduced accumulator runs to the end without a panic, through the exact
reduced Horner steps.  By induction on the bytes, the invariant being `acc < m`. -/
theorem foldlM_modBeStep (hm : 0 < m) (bytes : List UInt8) {acc : BitVec 128}
    (hacc : acc.toNat < m.toNat) :
    ∃ acc', bytes.foldlM (modBeStep m) acc = some acc' ∧
      acc'.toNat = bytes.foldl (fun acc b ↦ (acc * 256 + b.toNat) % m.toNat) acc.toNat := by
  induction bytes generalizing acc with
  | nil => exact ⟨acc, rfl, rfl⟩
  | cons b bytes ih =>
    obtain ⟨next, hstep, hnext⟩ := modBeStep_eq hm hacc b
    have hreduced : next.toNat < m.toNat := hnext ▸ Nat.mod_lt _ (UInt64.lt_iff_toNat_lt.mp hm)
    obtain ⟨acc', hrun, hacc'⟩ := ih hreduced
    refine ⟨acc', ?_, ?_⟩
    · rw [List.foldlM_cons, hstep]
      exact hrun
    · rw [List.foldl_cons, hacc', hnext]

/-- Every state of the loop is the exact remainder of the bytes read so far. -/
theorem foldlM_modBeStep_zero (hm : 0 < m) (bytes : List UInt8) :
    ∃ acc, bytes.foldlM (modBeStep m) 0 = some acc ∧ acc.toNat = decode bytes % m.toNat := by
  have hpos : 0 < m.toNat := UInt64.lt_iff_toNat_lt.mp hm
  obtain ⟨acc, hrun, hacc⟩ :=
    foldlM_modBeStep hm bytes (show (0 : BitVec 128).toNat < m.toNat from hpos)
  have hzero : (0 : BitVec 128).toNat = 0 := rfl
  refine ⟨acc, hrun, ?_⟩
  rw [hacc, hzero, foldl_horner_mod hpos, Nat.zero_mul, Nat.zero_add]

/-- `mod_be` returns the big-endian value modulo every nonzero `u64`. -/
theorem modBe_eq (bytes : List UInt8) (hm : 0 < m) :
    modBe bytes m = some (UInt64.ofNat (decode bytes % m.toNat)) := by
  obtain ⟨acc, hrun, hacc⟩ := foldlM_modBeStep_zero hm bytes
  have hlt : decode bytes % m.toNat < 2 ^ 64 :=
    lt_trans (Nat.mod_lt _ (UInt64.lt_iff_toNat_lt.mp hm)) m.toNat_lt
  simp only [modBe, hrun, Option.bind_eq_bind, Option.bind_some, Option.pure_def,
    Option.some.injEq]
  -- `acc as u64` keeps the remainder, which is below `m`
  apply UInt64.toNat_inj.mp
  rw [UInt64.toNat_ofBitVec, BitVec.toNat_setWidth, hacc, Nat.mod_eq_of_lt hlt,
    UInt64.toNat_ofNat_of_lt' hlt]

end Step

/-! ## The witness slots -/

/-- What `make_inclusion_proofs` relies on: two distinct challenged slots, both below the last,
which is `SAMPLE_SIZE - 1`. -/
structure WitnessIndices.Valid (w : WitnessIndices) : Prop where
  first_lt_last : w.challenged.1 < w.last
  second_lt_last : w.challenged.2 < w.last
  first_ne_second : w.challenged.1 ≠ w.challenged.2
  last_eq : w.last = sampleSize - 1

/-- The slots the contract derives from the anchor's value `n`. -/
def contractIndices (n : ℕ) : WitnessIndices :=
  ⟨(n % 15, n % 14 + if n % 15 ≤ n % 14 then 1 else 0), sampleSize - 1, n % 128⟩

theorem valid_contractIndices (n : ℕ) : (contractIndices n).Valid where
  first_lt_last := Nat.mod_lt _ (by decide)
  second_lt_last := by
    have h := Nat.mod_lt n (show 0 < 14 by decide)
    simp only [contractIndices, sampleSize]
    split <;> omega
  first_ne_second := by
    -- the bump moves the second slot off the first
    simp only [contractIndices]
    split <;> omega
  last_eq := rfl

/-- `mod_be` at a modulus below `2 ^ 64` given as a `usize`, read back as one. -/
theorem modBe_ofNat (bytes : List UInt8) {m : ℕ} (hm : 0 < m) (hlt : m < 2 ^ 64) :
    ∃ r, modBe bytes (UInt64.ofNat m) = some r ∧ r.toNat = decode bytes % m := by
  have hmodulus : (UInt64.ofNat m).toNat = m := UInt64.toNat_ofNat_of_lt' hlt
  refine ⟨_, modBe_eq bytes (UInt64.lt_iff_toNat_lt.mpr (by rw [hmodulus]; exact hm)), ?_⟩
  rw [hmodulus, UInt64.toNat_ofNat_of_lt' (lt_trans (Nat.mod_lt _ hm) hlt)]

/-- `witness_indices` at every anchor, from `mod_be` at the moduli 15, 14 and 128. -/
theorem witnessIndices_eq (claim : ClaimAnchor) :
    witnessIndices claim = some (contractIndices claim.anchor.toNat) := by
  obtain ⟨first, hfirst, hfirstVal⟩ := modBe_ofNat claim.asBytes (m := sampleSize - 1) (by decide)
    (by decide)
  obtain ⟨second, hsecond, hsecondVal⟩ := modBe_ofNat claim.asBytes (m := sampleSize - 1 - 1)
    (by decide) (by decide)
  obtain ⟨segment, hsegment, hsegmentVal⟩ := modBe_ofNat claim.asBytes (m := 128) (by decide)
    (by decide)
  have h128 : UInt64.ofNat 128 = 128 := rfl
  have hvalue : decode claim.asBytes = claim.anchor.toNat := rfl
  have h15 : sampleSize - 1 = 15 := rfl
  have h14 : sampleSize - 1 - 1 = 14 := rfl
  rw [h128] at hsegment
  rw [hvalue, h14] at hsecondVal
  rw [hvalue, h15] at hfirstVal
  rw [hvalue] at hsegmentVal
  simp only [witnessIndices, hfirst, hsecond, hsegment, Option.bind_eq_bind, Option.bind_some,
    Option.pure_def, Option.some.injEq, contractIndices, hfirstVal, hsecondVal, hsegmentVal]
  -- the bump is the contract's `+ 1` when the second slot is at or past the first
  congr 2
  split_ifs <;> omega

theorem witness_indices_match_contract :
    (∀ (bytes : List UInt8) (m : UInt64), 0 < m →
      modBe bytes m = some (UInt64.ofNat (decode bytes % m.toNat)) ∧
        ∀ k, ∃ acc, (bytes.take k).foldlM (modBeStep m) 0 = some acc ∧
          acc.toNat = decode (bytes.take k) % m.toNat ∧ acc.toNat * 256 + 255 < 2 ^ 128) ∧
    ∀ claim : ClaimAnchor, ∃ w, witnessIndices claim = some w ∧
      w = contractIndices claim.anchor.toNat ∧ w.last = 15 ∧ w.Valid := by
  refine ⟨fun bytes m hm ↦ ⟨modBe_eq bytes hm, fun k ↦ ?_⟩,
    fun claim ↦ ⟨_, witnessIndices_eq claim, rfl, rfl, valid_contractIndices _⟩⟩
  -- the state after `k` bytes is a remainder modulo a `u64`, so the next shift fits in `u128`
  obtain ⟨acc, hrun, hacc⟩ := foldlM_modBeStep_zero hm (bytes.take k)
  have hbound : acc.toNat < 2 ^ 64 :=
    hacc ▸ lt_trans (Nat.mod_lt _ (UInt64.lt_iff_toNat_lt.mp hm)) m.toNat_lt
  exact ⟨acc, hrun, hacc, by omega⟩

theorem witness_indices_match_contract_at_fifteen :
    0 < (15 : UInt64) ∧ modBe [1, 0] 15 = some (UInt64.ofNat (decode [1, 0] % 15)) :=
  ⟨by decide, (witness_indices_match_contract.1 [1, 0] 15 (by decide)).1⟩

end VertexSwarm.Redistribution
