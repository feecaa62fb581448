import Mathlib

/-!
# Big-endian byte encodings of naturals

A fixed-width big-endian encoding writes a natural as `width` bytes, most significant first.
An ordered key-value store compares raw keys as byte strings, lexicographically: that is the
order of `List UInt8`.  Below `256 ^ width` the encoding is injective and order-preserving, and a
key laid out as fixed-width fields one after another compares field by field.  These are the two
facts that let a compound key's byte order stand for the lexicographic order of its fields.
-/

namespace VertexSwarm.BigEndian

/-- The `width` big-endian bytes of `value`, most significant first; bits above `8 * width` are
dropped. -/
def encode : ℕ → ℕ → List UInt8
  | 0, _ => []
  | width + 1, value => UInt8.ofNat (value / 256 ^ width) :: encode width (value % 256 ^ width)

/-- The natural with the given big-endian bytes. -/
def decode : List UInt8 → ℕ
  | [] => 0
  | byte :: bytes => byte.toNat * 256 ^ bytes.length + decode bytes

@[simp]
theorem encode_zero (value : ℕ) : encode 0 value = [] := rfl

@[simp]
theorem encode_succ (width value : ℕ) :
    encode (width + 1) value =
      UInt8.ofNat (value / 256 ^ width) :: encode width (value % 256 ^ width) := rfl

@[simp]
theorem decode_nil : decode [] = 0 := rfl

@[simp]
theorem decode_cons (byte : UInt8) (bytes : List UInt8) :
    decode (byte :: bytes) = byte.toNat * 256 ^ bytes.length + decode bytes := rfl

@[simp]
theorem length_encode (width value : ℕ) : (encode width value).length = width := by
  induction width generalizing value with
  | zero => rfl
  | succ width ih => simp [ih]

/-- The leading byte of a value below `256 ^ (width + 1)` is its quotient by `256 ^ width`. -/
theorem toNat_leading {width value : ℕ} (h : value < 256 ^ (width + 1)) :
    (UInt8.ofNat (value / 256 ^ width)).toNat = value / 256 ^ width := by
  have hlt : value / 256 ^ width < 256 := by
    rw [Nat.div_lt_iff_lt_mul (by positivity)]
    simpa [pow_succ, mul_comm] using h
  rw [UInt8.toNat_ofNat']
  exact Nat.mod_eq_of_lt hlt

theorem decode_lt (bytes : List UInt8) : decode bytes < 256 ^ bytes.length := by
  induction bytes with
  | nil => simp
  | cons byte bytes ih =>
    have hbyte : byte.toNat + 1 ≤ 256 := byte.toNat_lt
    calc
      decode (byte :: bytes) < byte.toNat * 256 ^ bytes.length + 256 ^ bytes.length := by
        simpa using ih
      _ = (byte.toNat + 1) * 256 ^ bytes.length := by ring
      _ ≤ 256 * 256 ^ bytes.length := Nat.mul_le_mul_right _ hbyte
      _ = 256 ^ (byte :: bytes).length := by simp [pow_succ, mul_comm]

theorem decode_encode {width value : ℕ} (h : value < 256 ^ width) :
    decode (encode width value) = value := by
  induction width generalizing value with
  | zero => simp_all
  | succ width ih =>
    have hrest : value % 256 ^ width < 256 ^ width := Nat.mod_lt _ (by positivity)
    rw [encode_succ, decode_cons, length_encode, ih hrest, toNat_leading h, mul_comm]
    exact Nat.div_add_mod value (256 ^ width)

theorem encode_decode (bytes : List UInt8) : encode bytes.length (decode bytes) = bytes := by
  induction bytes with
  | nil => rfl
  | cons byte bytes ih =>
    have hrest := decode_lt bytes
    have hquot : (byte.toNat * 256 ^ bytes.length + decode bytes) / 256 ^ bytes.length =
        byte.toNat := by
      rw [Nat.add_comm, Nat.add_mul_div_right _ _ (by positivity), Nat.div_eq_of_lt hrest,
        Nat.zero_add]
    have hrem : (byte.toNat * 256 ^ bytes.length + decode bytes) % 256 ^ bytes.length =
        decode bytes := by
      rw [Nat.add_comm, Nat.add_mul_mod_self_right, Nat.mod_eq_of_lt hrest]
    rw [List.length_cons, decode_cons, encode_succ, hquot, hrem, UInt8.ofNat_toNat, ih]

theorem encode_decode_of_length {bytes : List UInt8} {width : ℕ} (h : bytes.length = width) :
    encode width (decode bytes) = bytes :=
  h ▸ encode_decode bytes

/-- Horner's rule reduced modulo `m` after every byte computes the big-endian value modulo `m`,
from any reduced start. -/
theorem foldl_horner_mod {m acc : ℕ} (hacc : acc < m) (bytes : List UInt8) :
    bytes.foldl (fun acc byte ↦ (acc * 256 + byte.toNat) % m) acc =
      (acc * 256 ^ bytes.length + decode bytes) % m := by
  induction bytes generalizing acc with
  | nil => simp [Nat.mod_eq_of_lt hacc]
  | cons byte bytes ih =>
    have hpos : 0 < m := lt_of_le_of_lt (Nat.zero_le acc) hacc
    rw [List.foldl_cons, ih (Nat.mod_lt _ hpos)]
    -- the reduced accumulator is congruent to the exact one
    calc ((acc * 256 + byte.toNat) % m * 256 ^ bytes.length + decode bytes) % m
        = ((acc * 256 + byte.toNat) * 256 ^ bytes.length + decode bytes) % m :=
          ((Nat.mod_modEq _ m).mul_right _).add_right _
      _ = (acc * 256 ^ (byte :: bytes).length + decode (byte :: bytes)) % m := by
          rw [decode_cons, List.length_cons, pow_succ]
          ring_nf

theorem encode_injective {width x y : ℕ} (hx : x < 256 ^ width) (hy : y < 256 ^ width)
    (h : encode width x = encode width y) : x = y := by
  rw [← decode_encode hx, ← decode_encode hy, h]

/-- Comparing two naturals is comparing their quotients by `divisor`, then their remainders. -/
theorem lt_iff_div_lt_or_mod_lt {divisor x y : ℕ} :
    x < y ↔ x / divisor < y / divisor ∨ x / divisor = y / divisor ∧ x % divisor < y % divisor := by
  have hx := Nat.div_add_mod x divisor
  have hy := Nat.div_add_mod y divisor
  constructor
  · intro hlt
    rcases Nat.lt_or_ge (x / divisor) (y / divisor) with hq | hq
    · exact Or.inl hq
    · have heq : x / divisor = y / divisor := le_antisymm (Nat.div_le_div_right hlt.le) hq
      refine Or.inr ⟨heq, ?_⟩
      rw [heq] at hx
      omega
  · rintro (hq | ⟨hq, hr⟩)
    · exact Nat.lt_of_div_lt_div hq
    · rw [hq] at hx
      omega

/-- Below `256 ^ width`, byte order on the encodings is the order of the values. -/
theorem encode_lt_encode_iff {width x y : ℕ} (hx : x < 256 ^ width) (hy : y < 256 ^ width) :
    encode width x < encode width y ↔ x < y := by
  induction width generalizing x y with
  | zero =>
    have hx0 : x = 0 := by simpa using hx
    have hy0 : y = 0 := by simpa using hy
    simp [hx0, hy0, List.not_lt_nil]
  | succ width ih =>
    have hpos : 0 < 256 ^ width := by positivity
    rw [encode_succ, encode_succ, List.cons_lt_cons_iff, UInt8.lt_iff_toNat_lt,
      ← UInt8.toNat_inj, toNat_leading hx, toNat_leading hy,
      ih (Nat.mod_lt _ hpos) (Nat.mod_lt _ hpos)]
    exact lt_iff_div_lt_or_mod_lt.symm

theorem append_lt_append_iff {α : Type*} [LT α] {first₁ first₂ rest₁ rest₂ : List α}
    (hlength : first₁.length = first₂.length) :
    first₁ ++ rest₁ < first₂ ++ rest₂ ↔
      first₁ < first₂ ∨ first₁ = first₂ ∧ rest₁ < rest₂ := by
  induction first₁ generalizing first₂ with
  | nil =>
    have hnil : first₂ = [] := List.eq_nil_of_length_eq_zero hlength.symm
    subst hnil
    simp [List.not_lt_nil]
  | cons head tail ih =>
    cases first₂ with
    | nil => simp at hlength
    | cons head₂ tail₂ =>
      have htail : tail.length = tail₂.length := by simpa using hlength
      rw [List.cons_append, List.cons_append, List.cons_lt_cons_iff, List.cons_lt_cons_iff,
        ih htail, List.cons.injEq]
      tauto

theorem lt_iff_decode_lt {bytes bytes' : List UInt8} (hlength : bytes.length = bytes'.length) :
    bytes < bytes' ↔ decode bytes < decode bytes' := by
  have h := decode_lt bytes
  have h' := decode_lt bytes'
  rw [← hlength] at h'
  conv_lhs => rw [← encode_decode bytes, ← encode_decode bytes', ← hlength]
  exact encode_lt_encode_iff h h'

/-! ## Minimal encodings

A variable-width encoding trims the leading zero bytes.  What is left is determined by the value:
a string that does not start with a zero byte has exactly as many bytes as its value needs. -/

theorem decode_dropWhile_zero (bytes : List UInt8) :
    decode (bytes.dropWhile (· = 0)) = decode bytes := by
  induction bytes with
  | nil => rfl
  | cons byte bytes ih =>
    by_cases hzero : byte = 0
    · rw [List.dropWhile_cons_of_pos (by simpa using hzero), ih, decode_cons, hzero]
      simp
    · rw [List.dropWhile_cons_of_neg (by simpa using hzero)]

theorem head?_dropWhile_zero (bytes : List UInt8) : (bytes.dropWhile (· = 0)).head? ≠ some 0 := by
  induction bytes with
  | nil => simp
  | cons byte bytes ih =>
    by_cases hzero : byte = 0
    · rwa [List.dropWhile_cons_of_pos (by simpa using hzero)]
    · rw [List.dropWhile_cons_of_neg (by simpa using hzero), List.head?_cons]
      exact fun h ↦ hzero (Option.some.inj h)

/-- A string that starts with a non-zero byte is worth at least `256` to the length of its
tail. -/
theorem pow_length_le_decode {byte : UInt8} {bytes : List UInt8} (hbyte : byte ≠ 0) :
    256 ^ bytes.length ≤ decode (byte :: bytes) := by
  have hpos : 1 ≤ byte.toNat := by
    rw [Nat.one_le_iff_ne_zero]
    exact fun h ↦ hbyte (UInt8.toNat_inj.mp (by simpa using h))
  calc 256 ^ bytes.length = 1 * 256 ^ bytes.length := (one_mul _).symm
    _ ≤ byte.toNat * 256 ^ bytes.length := Nat.mul_le_mul_right _ hpos
    _ ≤ decode (byte :: bytes) := by rw [decode_cons]; exact Nat.le_add_right _ _

theorem length_le_of_decode_le {bytes bytes' : List UInt8} (hhead : bytes.head? ≠ some 0)
    (h : decode bytes ≤ decode bytes') : bytes.length ≤ bytes'.length := by
  cases bytes with
  | nil => exact Nat.zero_le _
  | cons byte bytes =>
    have hbyte : byte ≠ 0 := fun h0 ↦ hhead (by rw [List.head?_cons, h0])
    by_contra hlong
    have hshort : bytes'.length ≤ bytes.length := by
      rw [List.length_cons] at hlong
      omega
    -- the longer string's value outgrows every string of the shorter length
    have : decode bytes' < decode bytes' := calc
      decode bytes' < 256 ^ bytes'.length := decode_lt bytes'
      _ ≤ 256 ^ bytes.length := Nat.pow_le_pow_right (by norm_num) hshort
      _ ≤ decode (byte :: bytes) := pow_length_le_decode hbyte
      _ ≤ decode bytes' := h
    exact lt_irrefl _ this

theorem eq_of_decode_eq {bytes bytes' : List UInt8} (hhead : bytes.head? ≠ some 0)
    (hhead' : bytes'.head? ≠ some 0) (h : decode bytes = decode bytes') : bytes = bytes' := by
  have hlength : bytes.length = bytes'.length :=
    le_antisymm (length_le_of_decode_le hhead h.le) (length_le_of_decode_le hhead' h.ge)
  rw [← encode_decode bytes, ← encode_decode bytes', h, hlength]

theorem dropWhile_zero_eq_of_decode_eq {bytes bytes' : List UInt8}
    (h : decode bytes = decode bytes') :
    bytes.dropWhile (· = 0) = bytes'.dropWhile (· = 0) :=
  eq_of_decode_eq (head?_dropWhile_zero bytes) (head?_dropWhile_zero bytes')
    (by rw [decode_dropWhile_zero, decode_dropWhile_zero, h])

/-! ## Fixed-size byte arrays -/

/-- A fixed-size byte array `[u8; size]`, such as a 32-byte hash or an 8-byte big-endian
timestamp. -/
structure FixedBytes (size : ℕ) where
  bytes : List UInt8
  length_bytes : bytes.length = size

namespace FixedBytes

variable {size : ℕ}

/-- The big-endian value of the bytes. -/
def toNat (a : FixedBytes size) : ℕ := decode a.bytes

/-- The big-endian bytes of `value`, modulo `256 ^ size`. -/
def ofNat (size value : ℕ) : FixedBytes size := ⟨encode size value, length_encode size value⟩

theorem ext_bytes {a b : FixedBytes size} (h : a.bytes = b.bytes) : a = b := by
  cases a
  cases b
  cases h
  rfl

theorem toNat_lt (a : FixedBytes size) : a.toNat < 256 ^ size := by
  simpa [toNat, a.length_bytes] using decode_lt a.bytes

theorem ofNat_toNat (a : FixedBytes size) : ofNat size a.toNat = a := by
  apply ext_bytes
  simp only [ofNat, toNat]
  conv_rhs => rw [← encode_decode a.bytes]
  rw [a.length_bytes]

theorem toNat_ofNat {value : ℕ} (h : value < 256 ^ size) : (ofNat size value).toNat = value :=
  decode_encode h

theorem toNat_injective : Function.Injective (toNat : FixedBytes size → ℕ) := by
  intro a b h
  rw [← ofNat_toNat a, ← ofNat_toNat b, h]

/-- Arrays are ordered by value, which is the lexicographic order of their bytes
(`lt_iff_bytes_lt`). -/
instance : LinearOrder (FixedBytes size) := LinearOrder.lift' toNat toNat_injective

theorem lt_iff_toNat_lt {a b : FixedBytes size} : a < b ↔ a.toNat < b.toNat := Iff.rfl

theorem le_iff_toNat_le {a b : FixedBytes size} : a ≤ b ↔ a.toNat ≤ b.toNat := Iff.rfl

/-- The value order is the byte order a store and the `Ord` of `[u8; size]` use. -/
theorem lt_iff_bytes_lt {a b : FixedBytes size} : a < b ↔ a.bytes < b.bytes := by
  rw [lt_iff_toNat_lt, lt_iff_decode_lt (a.length_bytes.trans b.length_bytes.symm)]
  rfl

theorem le_iff_bytes_le {a b : FixedBytes size} : a ≤ b ↔ a.bytes ≤ b.bytes := by
  rw [← not_lt, lt_iff_bytes_lt, List.not_lt]

/-- The all-zero array is the least one. -/
instance : OrderBot (FixedBytes size) where
  bot := ofNat size 0
  bot_le a := by
    rw [le_iff_toNat_le, toNat_ofNat (by positivity)]
    exact Nat.zero_le _

/-- `<[u8; size]>::try_from(&[u8])`: the slice as an array when it has `size` bytes. -/
def tryFrom (size : ℕ) (bytes : List UInt8) : Option (FixedBytes size) :=
  if h : bytes.length = size then some ⟨bytes, h⟩ else none

/-- The byte at a position, `a[i]`. -/
def get (a : FixedBytes size) (i : Fin size) : UInt8 := a.bytes.get (i.cast a.length_bytes.symm)

theorem tryFrom_eq_some_iff {bytes : List UInt8} {a : FixedBytes size} :
    tryFrom size bytes = some a ↔ a.bytes = bytes := by
  unfold tryFrom
  split
  · next h =>
    refine ⟨fun h' ↦ by cases h'; rfl, fun h' ↦ ?_⟩
    rw [ext_bytes (a := ⟨bytes, h⟩) (b := a) h'.symm]
  · next h => exact ⟨nofun, fun h' ↦ absurd (h' ▸ a.length_bytes) h⟩

theorem isSome_tryFrom {bytes : List UInt8} : (tryFrom size bytes).isSome ↔ bytes.length = size := by
  unfold tryFrom
  split <;> simpa

/-- A byte, then the bytes after it: the tail from that byte. -/
theorem singleton_get_append_drop (a : FixedBytes size) (i : Fin size) :
    [a.get i] ++ a.bytes.drop (i.val + 1) = a.bytes.drop i.val := by
  simp only [get, List.get_eq_getElem, Fin.val_cast, List.singleton_append]
  exact List.getElem_cons_drop _

theorem take_append_singleton_get {n : ℕ} (a : FixedBytes (n + 1)) :
    a.bytes.take n ++ [a.get (Fin.last n)] = a.bytes := by
  have hlen : n < a.bytes.length := by rw [a.length_bytes]; omega
  simp only [get, List.get_eq_getElem, Fin.val_cast, Fin.val_last]
  rw [List.take_concat_get' a.bytes n hlen, List.take_of_length_le (by rw [a.length_bytes])]

theorem toNat_eq_toNat_iff {a b : FixedBytes size} : a.toNat = b.toNat ↔ a.bytes = b.bytes :=
  toNat_injective.eq_iff.trans ⟨congrArg bytes, ext_bytes⟩

end FixedBytes

/-! ## The highest bit two naturals differ in

Two naturals agree on every bit above the bit length of their XOR, and differ in its top bit. -/

theorem testBit_eq_of_log2_xor_lt {m n i : ℕ} (h : (m ^^^ n).log2 < i) :
    m.testBit i = n.testBit i := by
  have hxor : (m ^^^ n).testBit i = false :=
    Nat.testBit_lt_two_pow (Nat.lt_log2_self.trans_le (Nat.pow_le_pow_right two_pos h))
  rw [Nat.testBit_xor] at hxor
  simpa using hxor

theorem testBit_ne_at_log2_xor {m n : ℕ} (h : m ^^^ n ≠ 0) :
    m.testBit (m ^^^ n).log2 ≠ n.testBit (m ^^^ n).log2 := by
  have hxor := Nat.testBit_log2 h
  rw [Nat.testBit_xor] at hxor
  simpa using hxor

/-! ## Key codecs

A store hands a key back as the bytes it was written as, and a typed cursor decodes them; a
walk over a range of typed keys is right only when decoding inverts encoding and the key's order
is the byte order of its encoding. -/

section Codec

variable {κ : Type*}

/-- What a fixed-width key codec owes an ordered store: `decode` accepts exactly the strings of
`width` bytes and inverts `encode` on both sides, and keys compare as their encodings. -/
structure OrderedCodec [LT κ] (encode : κ → List UInt8) (decode : List UInt8 → Option κ)
    (width : ℕ) : Prop where
  decode_encode (key : κ) : decode (encode key) = some key
  isSome_decode_iff (bytes : List UInt8) : (decode bytes).isSome ↔ bytes.length = width
  encode_decode {bytes : List UInt8} {key : κ} : decode bytes = some key → encode key = bytes
  lt_iff_encode_lt (key key' : κ) : key < key' ↔ encode key < encode key'

/-- Over a linear order the round trip through `decode` follows from the other direction: an
order-reflecting encoding is injective. -/
theorem OrderedCodec.of_encode_decode [LinearOrder κ] {encode : κ → List UInt8}
    {decode : List UInt8 → Option κ} {width : ℕ} (hlength : ∀ key, (encode key).length = width)
    (hsome : ∀ bytes, bytes.length = width → (decode bytes).isSome)
    (hdecode : ∀ {bytes key}, decode bytes = some key → encode key = bytes)
    (hlt : ∀ key key', key < key' ↔ encode key < encode key') :
    OrderedCodec encode decode width where
  decode_encode key := by
    obtain ⟨key', hkey'⟩ := Option.isSome_iff_exists.mp (hsome _ (hlength key))
    -- the decoded key encodes to the same bytes, so it is no smaller and no greater
    have hsame := hdecode hkey'
    obtain rfl : key' = key := le_antisymm
      (not_lt.mp fun hlt' ↦ List.lt_irrefl (encode key) (hsame ▸ (hlt key key').mp hlt'))
      (not_lt.mp fun hlt' ↦ List.lt_irrefl (encode key) (hsame ▸ (hlt key' key).mp hlt'))
    exact hkey'
  isSome_decode_iff bytes := by
    refine ⟨fun h ↦ ?_, hsome bytes⟩
    obtain ⟨key, hkey⟩ := Option.isSome_iff_exists.mp h
    rw [← hdecode hkey, hlength]
  encode_decode := hdecode
  lt_iff_encode_lt := hlt

end Codec

theorem toLex_lt_toLex_iff_append_lt {α β γ : Type*} [LT α] [LT β] [LT γ] {a a' : α} {b b' : β}
    {first first' rest rest' : List γ} (hlength : first.length = first'.length)
    (hlt : a < a' ↔ first < first') (heq : a = a' ↔ first = first')
    (hrest : b < b' ↔ rest < rest') :
    toLex (a, b) < toLex (a', b') ↔ first ++ rest < first' ++ rest' := by
  rw [Prod.Lex.toLex_lt_toLex, append_lt_append_iff hlength, ← hlt, ← heq, ← hrest]

theorem toNat_lt_iff_singleton_lt {a b : UInt8} : a.toNat < b.toNat ↔ [a] < [b] := by
  rw [List.cons_lt_cons_iff, UInt8.lt_iff_toNat_lt]
  simp [List.not_lt_nil]

theorem toNat_eq_iff_singleton_eq {a b : UInt8} : a.toNat = b.toNat ↔ [a] = [b] := by
  rw [UInt8.toNat_inj, List.singleton_inj]

/-- Cutting a list at `i` and `j`: the slice `[i..j]` followed by the tail `[j..]` is the tail
`[i..]`. -/
theorem extract_append_drop {α : Type*} {l : List α} {i j : ℕ} (h : i ≤ j) :
    l.extract i j ++ l.drop j = l.drop i := by
  have hdrop : l.drop j = (l.drop i).drop (j - i) := by
    rw [List.drop_drop, Nat.add_sub_cancel' h]
  rw [List.extract_eq_take_drop, hdrop, List.take_append_drop]

end VertexSwarm.BigEndian
