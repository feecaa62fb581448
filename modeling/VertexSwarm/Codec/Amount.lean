import VertexSwarm.Api.Au
import VertexSwarm.Lib.BigEndian

/-!
# Amounts on the wire

`net/codec/src/utils.rs`, the pseudosettle and pricing codecs, `swap/src/headers.rs`.  An amount
travels as the big-endian bytes of a `U256` with the leading zero bytes trimmed (`encode_u256_be`,
Bee's `big.Int.Bytes()`); zero is the empty string.  Decoding hands any non-empty string to
`U256::from_be_slice`.  That function belongs to the `U256` library, not to this repository: it
is a parameter here (`FromBeSlice`), given by its behaviour, the value of a slice of at most 32
bytes and a panic on every longer slice, whatever its value.  The `Payment`, `PaymentAck` and
`AnnouncePaymentThreshold` decoders read their amount that way, so a peer that sends an amount
longer than 32 bytes panics the decoder (`amount_decoders_panic_of_oversized`).  The swap headers
parse amounts with a length guard first (`parse_u256_bytes`), which never panics.

A panic is modelled as the error of an `Except Panic`.  The pseudosettle and pricing decoders'
own error types have no use here: `PseudosettleError` has no variant, and neither decoder
returns an error.
-/

namespace VertexSwarm.Codec

open BigEndian Api

/-- A panic of the decoding task. -/
inductive Panic where
  /-- `U256::from_be_slice` on a slice too long for a `U256`. -/
  | valueTooLarge
deriving DecidableEq

/-- The zero `U256`. -/
def u256Zero : U256 := ⟨0, by norm_num⟩

/-- `U256::to_be_bytes::<32>()`. -/
def toBeBytes (value : U256) : List UInt8 := encode 32 value.val

/-- `encode_u256_be`: the 32 big-endian bytes from the first non-zero one on; empty for zero. -/
def encodeU256Be (value : U256) : List UInt8 := (toBeBytes value).dropWhile (· = 0)

theorem two_pow_256_eq : (2 : ℕ) ^ 256 = 256 ^ 32 := by norm_num

/-- At most 32 bytes hold a value below `2^256`. -/
theorem decode_lt_of_length_le {bytes : List UInt8} (h : bytes.length ≤ 32) :
    decode bytes < 2 ^ 256 :=
  lt_of_lt_of_le (decode_lt bytes)
    (two_pow_256_eq ▸ Nat.pow_le_pow_right (by norm_num) h)

/-- `U256::from_be_slice`, by its behaviour: the big-endian value of a slice of at most 32 bytes,
and a panic on every longer slice. -/
structure FromBeSlice where
  run : List UInt8 → Except Panic U256
  ok_of_length_le : ∀ bytes (h : bytes.length ≤ 32),
    run bytes = .ok ⟨decode bytes, decode_lt_of_length_le h⟩
  panic_of_length_gt : ∀ bytes, 32 < bytes.length → run bytes = .error .valueTooLarge

namespace FromBeSlice

/-- The function those two laws describe. -/
def byLength : FromBeSlice where
  run bytes :=
    if h : bytes.length ≤ 32 then .ok ⟨decode bytes, decode_lt_of_length_le h⟩
    else .error .valueTooLarge
  ok_of_length_le _ h := dif_pos h
  panic_of_length_gt _ h := dif_neg (not_le.mpr h)

/-- The two laws fix the function: every \`FromBeSlice\` is \`byLength\`. -/
theorem run_eq (fromBeSlice : FromBeSlice) (bytes : List UInt8) :
    fromBeSlice.run bytes = byLength.run bytes := by
  rcases le_or_gt bytes.length 32 with h | h
  · rw [fromBeSlice.ok_of_length_le bytes h, byLength.ok_of_length_le bytes h]
  · rw [fromBeSlice.panic_of_length_gt bytes h, byLength.panic_of_length_gt bytes h]

end FromBeSlice

variable (fromBeSlice : FromBeSlice)

/-- `decode_u256_be`: zero for no bytes, otherwise `U256::from_be_slice`. -/
def decodeU256Be (bytes : List UInt8) : Except Panic U256 :=
  if bytes.isEmpty then .ok u256Zero else fromBeSlice.run bytes

/-- `parse_u256_bytes`: zero for no bytes, nothing past 32 bytes, otherwise
`U256::from_be_slice`. -/
def parseU256Bytes (bytes : List UInt8) : Except Panic (Option U256) :=
  if bytes.isEmpty then .ok (some u256Zero)
  else if 32 < bytes.length then .ok none
  else (fromBeSlice.run bytes).map some

/-! ## The messages -/

/-- `Payment`, the pseudosettle request. -/
structure Payment where
  amount : U256
deriving DecidableEq

/-- `PaymentAck`, the pseudosettle answer. -/
structure PaymentAck where
  amount : U256
  timestamp : Int64
deriving DecidableEq

/-- `AnnouncePaymentThreshold`, the pricing announcement. -/
structure AnnouncePaymentThreshold where
  paymentThreshold : U256
deriving DecidableEq

/-- The protobuf `pseudosettle::Payment`. -/
structure PaymentProto where
  amount : List UInt8

/-- The protobuf `pseudosettle::PaymentAck`. -/
structure PaymentAckProto where
  amount : List UInt8
  timestamp : Int64

/-- The protobuf `pricing::AnnouncePaymentThreshold`. -/
structure AnnouncePaymentThresholdProto where
  paymentThreshold : List UInt8

/-- `Payment::from_proto`. -/
def Payment.fromProto (proto : PaymentProto) : Except Panic Payment := do
  return ⟨← decodeU256Be fromBeSlice proto.amount⟩

/-- `PaymentAck::from_proto`. -/
def PaymentAck.fromProto (proto : PaymentAckProto) : Except Panic PaymentAck := do
  return ⟨← decodeU256Be fromBeSlice proto.amount, proto.timestamp⟩

/-- `AnnouncePaymentThreshold::from_proto`. -/
def AnnouncePaymentThreshold.fromProto (proto : AnnouncePaymentThresholdProto) :
    Except Panic AnnouncePaymentThreshold := do
  return ⟨← decodeU256Be fromBeSlice proto.paymentThreshold⟩

/-- `Payment::into_proto`. -/
def Payment.intoProto (self : Payment) : PaymentProto := ⟨encodeU256Be self.amount⟩

/-- `PaymentAck::into_proto`. -/
def PaymentAck.intoProto (self : PaymentAck) : PaymentAckProto :=
  ⟨encodeU256Be self.amount, self.timestamp⟩

/-- `AnnouncePaymentThreshold::into_proto`. -/
def AnnouncePaymentThreshold.intoProto (self : AnnouncePaymentThreshold) :
    AnnouncePaymentThresholdProto :=
  ⟨encodeU256Be self.paymentThreshold⟩

/-! ## Decoding -/

/-- `decode_u256_be` reads up to 32 bytes as their value, zero for none. -/
theorem decodeU256Be_of_length_le {bytes : List UInt8} (h : bytes.length ≤ 32) :
    decodeU256Be fromBeSlice bytes = .ok ⟨decode bytes, decode_lt_of_length_le h⟩ := by
  unfold decodeU256Be
  split
  · next hempty =>
    obtain rfl := List.isEmpty_iff.mp hempty
    rfl
  · exact fromBeSlice.ok_of_length_le bytes h

/-- Past 32 bytes, `decode_u256_be` panics, whatever the value. -/
theorem decodeU256Be_of_length_gt {bytes : List UInt8} (h : 32 < bytes.length) :
    decodeU256Be fromBeSlice bytes = .error .valueTooLarge := by
  have hnonempty : bytes.isEmpty = false := by
    cases bytes with
    | nil => exact absurd h (by simp)
    | cons _ _ => rfl
  rw [decodeU256Be, hnonempty, if_neg Bool.false_ne_true]
  exact fromBeSlice.panic_of_length_gt bytes h

/-- The swap headers' parse never panics: up to 32 bytes it reads their value, past that
nothing. -/
theorem parseU256Bytes_of_length_le {bytes : List UInt8} (h : bytes.length ≤ 32) :
    parseU256Bytes fromBeSlice bytes = .ok (some ⟨decode bytes, decode_lt_of_length_le h⟩) := by
  unfold parseU256Bytes
  split
  · next hempty =>
    obtain rfl := List.isEmpty_iff.mp hempty
    rfl
  · rw [if_neg (not_lt.mpr h), fromBeSlice.ok_of_length_le bytes h]
    rfl

theorem parseU256Bytes_of_length_gt {bytes : List UInt8} (h : 32 < bytes.length) :
    parseU256Bytes fromBeSlice bytes = .ok none := by
  have hnonempty : bytes.isEmpty = false := by
    cases bytes with
    | nil => exact absurd h (by simp)
    | cons _ _ => rfl
  rw [parseU256Bytes, hnonempty, if_neg Bool.false_ne_true, if_pos h]

/-! ## The messages decode their amount -/

theorem Payment.fromProto_eq (proto : PaymentProto) :
    Payment.fromProto fromBeSlice proto = (decodeU256Be fromBeSlice proto.amount).map Payment.mk := by
  unfold Payment.fromProto
  cases decodeU256Be fromBeSlice proto.amount <;> rfl

theorem PaymentAck.fromProto_eq (proto : PaymentAckProto) :
    PaymentAck.fromProto fromBeSlice proto =
      (decodeU256Be fromBeSlice proto.amount).map fun amount ↦ ⟨amount, proto.timestamp⟩ := by
  unfold PaymentAck.fromProto
  cases decodeU256Be fromBeSlice proto.amount <;> rfl

theorem AnnouncePaymentThreshold.fromProto_eq (proto : AnnouncePaymentThresholdProto) :
    AnnouncePaymentThreshold.fromProto fromBeSlice proto =
      (decodeU256Be fromBeSlice proto.paymentThreshold).map AnnouncePaymentThreshold.mk := by
  unfold AnnouncePaymentThreshold.fromProto
  cases decodeU256Be fromBeSlice proto.paymentThreshold <;> rfl

/-! ## Encoding -/

theorem decode_pos_of_head? {bytes : List UInt8} {byte : UInt8} (hhead : bytes.head? = some byte)
    (hbyte : byte ≠ 0) : 0 < decode bytes := by
  cases bytes with
  | nil => cases hhead
  | cons first rest =>
    have hfirst : first = byte := Option.some.inj hhead
    subst hfirst
    have hpos : 0 < first.toNat := by
      rw [Nat.pos_iff_ne_zero]
      exact fun h ↦ hbyte (UInt8.toNat_inj.mp (by simpa using h))
    rw [decode_cons]
    exact Nat.add_pos_left (Nat.mul_pos hpos (by positivity)) _

theorem decode_encodeU256Be (value : U256) : decode (encodeU256Be value) = value.val := by
  rw [encodeU256Be, decode_dropWhile_zero, toBeBytes,
    decode_encode (by rw [← two_pow_256_eq]; exact value.isLt)]

theorem length_encodeU256Be_le (value : U256) : (encodeU256Be value).length ≤ 32 :=
  (List.length_dropWhile_le _ _).trans (length_encode 32 _).le

theorem decodeU256Be_encodeU256Be (value : U256) :
    decodeU256Be fromBeSlice (encodeU256Be value) = .ok value := by
  rw [decodeU256Be_of_length_le fromBeSlice (length_encodeU256Be_le value)]
  congr 1
  exact Fin.ext (decode_encodeU256Be value)

/-- The encoding is minimal: empty exactly for zero, and otherwise without a leading zero. -/
theorem encodeU256Be_minimal (value : U256) :
    (encodeU256Be value = [] ↔ value = u256Zero) ∧ (encodeU256Be value).head? ≠ some 0 := by
  refine ⟨⟨fun hnil ↦ ?_, fun hzero ↦ ?_⟩, head?_dropWhile_zero _⟩
  · apply Fin.ext
    rw [← decode_encodeU256Be, hnil]
    rfl
  · -- a non-empty encoding starts with a non-zero byte and so has a positive value
    by_contra hnonempty
    obtain ⟨byte, hhead⟩ := Option.ne_none_iff_exists'.mp
      (mt List.head?_eq_none_iff.mp hnonempty)
    have hbyte : byte ≠ 0 := fun h ↦ head?_dropWhile_zero _ (h ▸ hhead)
    have hpos := decode_pos_of_head? hhead hbyte
    rw [decode_encodeU256Be, hzero] at hpos
    exact absurd hpos (lt_irrefl 0)

/-- A string that decodes is its value's encoding once its leading zeros are trimmed: the
decoder accepts padded amounts, and the encoder writes the one trimmed form. -/
theorem encodeU256Be_of_decodeU256Be {bytes : List UInt8} {value : U256}
    (h : decodeU256Be fromBeSlice bytes = .ok value) : encodeU256Be value = bytes.dropWhile (· = 0) := by
  -- a slice that decodes is at most 32 bytes long, and decodes to its value
  have hlength : bytes.length ≤ 32 := by
    by_contra hgt
    rw [decodeU256Be_of_length_gt fromBeSlice (not_le.mp hgt)] at h
    cases h
  rw [decodeU256Be_of_length_le fromBeSlice hlength] at h
  obtain rfl := Except.ok.inj h
  exact dropWhile_zero_eq_of_decode_eq
    (decode_encode (by rw [← two_pow_256_eq]; exact decode_lt_of_length_le hlength))

theorem exists_of_map_eq_ok {α β : Type} {f : α → β} {x : Except Panic α} {b : β}
    (h : x.map f = .ok b) : ∃ a, x = .ok a ∧ f a = b := by
  cases x with
  | error e => cases h
  | ok a => exact ⟨a, rfl, Except.ok.inj h⟩

/-- The pseudosettle and pricing messages survive the wire: a sent message decodes to itself,
and a received one that decodes is sent back with its amount's leading zeros trimmed and every
other field as it came. -/
theorem amount_messages_round_trip :
    (∀ payment : Payment, Payment.fromProto fromBeSlice payment.intoProto = .ok payment) ∧
    (∀ ack : PaymentAck, PaymentAck.fromProto fromBeSlice ack.intoProto = .ok ack) ∧
    (∀ announce : AnnouncePaymentThreshold,
      AnnouncePaymentThreshold.fromProto fromBeSlice announce.intoProto = .ok announce) ∧
    (∀ proto payment, Payment.fromProto fromBeSlice proto = .ok payment →
      payment.intoProto.amount = proto.amount.dropWhile (· = 0)) ∧
    (∀ proto ack, PaymentAck.fromProto fromBeSlice proto = .ok ack →
      ack.intoProto.amount = proto.amount.dropWhile (· = 0) ∧
        ack.intoProto.timestamp = proto.timestamp) ∧
    (∀ proto announce, AnnouncePaymentThreshold.fromProto fromBeSlice proto = .ok announce →
      announce.intoProto.paymentThreshold = proto.paymentThreshold.dropWhile (· = 0)) := by
  refine ⟨fun payment ↦ ?_, fun ack ↦ ?_, fun announce ↦ ?_, fun proto payment h ↦ ?_,
    fun proto ack h ↦ ?_, fun proto announce h ↦ ?_⟩
  · rw [Payment.fromProto_eq, Payment.intoProto, decodeU256Be_encodeU256Be]
    rfl
  · rw [PaymentAck.fromProto_eq, PaymentAck.intoProto, decodeU256Be_encodeU256Be]
    rfl
  · rw [AnnouncePaymentThreshold.fromProto_eq, AnnouncePaymentThreshold.intoProto,
      decodeU256Be_encodeU256Be]
    rfl
  -- received messages: the decoded amount re-encodes to the trimmed bytes
  · obtain ⟨amount, hamount, rfl⟩ := exists_of_map_eq_ok ((Payment.fromProto_eq fromBeSlice proto).symm.trans h)
    exact encodeU256Be_of_decodeU256Be fromBeSlice hamount
  · obtain ⟨amount, hamount, rfl⟩ :=
      exists_of_map_eq_ok ((PaymentAck.fromProto_eq fromBeSlice proto).symm.trans h)
    exact ⟨encodeU256Be_of_decodeU256Be fromBeSlice hamount, rfl⟩
  · obtain ⟨amount, hamount, rfl⟩ :=
      exists_of_map_eq_ok ((AnnouncePaymentThreshold.fromProto_eq fromBeSlice proto).symm.trans h)
    exact encodeU256Be_of_decodeU256Be fromBeSlice hamount

/-! ## The swap headers

`SettlementHeaders` travel as a header map: the exchange rate always, the deduction only when it
is not zero.  Both are written by `encode_u256_bytes`, which finds the first non-zero byte by
position, and read by `parse_u256_bytes`. -/

/-- `<[u8]>::get(pos..)`: the tail from `pos`, when `pos` is within the slice. -/
def getFrom (bytes : List UInt8) (pos : ℕ) : Option (List UInt8) :=
  if pos ≤ bytes.length then some (bytes.drop pos) else none

/-- `encode_u256_bytes`: the 32 big-endian bytes from the position of the first non-zero one;
empty when there is none. -/
def encodeU256Bytes (value : U256) : List UInt8 :=
  match (toBeBytes value).findIdx? (· != 0) with
  | some pos => (getFrom (toBeBytes value) pos).getD []
  | none => []

/-- `HEADER_EXCHANGE_RATE`. -/
def headerExchangeRate : String := "exchange"

/-- `HEADER_DEDUCTION`. -/
def headerDeduction : String := "deduction"

/-- A header map, from name to value. -/
abbrev HeaderMap := Std.HashMap String (List UInt8)

/-- `SettlementHeaders`. -/
structure SettlementHeaders where
  exchangeRate : U256
  deduction : U256
deriving DecidableEq

/-- `Option::and_then(parse_u256_bytes)` on a looked-up header. -/
def parseHeader : Option (List UInt8) → Except Panic (Option U256)
  | some bytes => parseU256Bytes fromBeSlice bytes
  | none => .ok none

/-- `SettlementHeaders::from_headers`: nothing without a readable exchange rate; a missing or
unreadable deduction is zero. -/
def SettlementHeaders.fromHeaders (headers : HeaderMap) :
    Except Panic (Option SettlementHeaders) := do
  let some exchangeRate ← parseHeader fromBeSlice headers[headerExchangeRate]? | return none
  let deduction := (← parseHeader fromBeSlice headers[headerDeduction]?).getD u256Zero
  return some ⟨exchangeRate, deduction⟩

/-- `SettlementHeaders::to_headers`. -/
def SettlementHeaders.toHeaders (self : SettlementHeaders) : HeaderMap :=
  let headers := (∅ : HeaderMap).insert headerExchangeRate (encodeU256Bytes self.exchangeRate)
  if self.deduction ≠ u256Zero then
    headers.insert headerDeduction (encodeU256Bytes self.deduction)
  else headers

theorem encodeU256Bytes_eq_encodeU256Be (value : U256) :
    encodeU256Bytes value = encodeU256Be value := by
  unfold encodeU256Bytes encodeU256Be
  cases hpos : (toBeBytes value).findIdx? (· != 0) with
  | some pos =>
    obtain ⟨hlt, hidx⟩ := List.findIdx?_eq_some_iff_findIdx_eq.mp hpos
    have hpred : (fun byte : UInt8 ↦ byte != 0) = fun byte ↦ !decide (byte = 0) := by
      funext byte
      rfl
    dsimp only
    rw [getFrom, if_pos hlt.le, Option.getD_some, List.dropWhile_eq_drop_findIdx_not, ← hpred,
      hidx]
  | none =>
    rw [eq_comm, List.dropWhile_eq_nil_iff]
    intro byte hbyte
    simpa using List.findIdx?_eq_none_iff.mp hpos byte hbyte

theorem parseU256Bytes_encodeU256Bytes (value : U256) :
    parseU256Bytes fromBeSlice (encodeU256Bytes value) = .ok (some value) := by
  have hlength : (encodeU256Bytes value).length ≤ 32 :=
    encodeU256Bytes_eq_encodeU256Be value ▸ length_encodeU256Be_le value
  rw [parseU256Bytes_of_length_le fromBeSlice hlength]
  congr 2
  apply Fin.ext
  show decode (encodeU256Bytes value) = value.val
  rw [encodeU256Bytes_eq_encodeU256Be, decode_encodeU256Be]

theorem parseHeader_ok (header : Option (List UInt8)) :
    ∃ parsed, parseHeader fromBeSlice header = .ok parsed := by
  cases header with
  | none => exact ⟨none, rfl⟩
  | some bytes =>
    rcases le_or_gt bytes.length 32 with hlength | hlength
    · exact ⟨_, parseU256Bytes_of_length_le fromBeSlice hlength⟩
    · exact ⟨none, parseU256Bytes_of_length_gt fromBeSlice hlength⟩

/-- `from_headers` on a map whose exchange rate reads as `rate`. -/
theorem fromHeaders_of_parseHeader {headers : HeaderMap} {rate : U256} {deduction : Option U256}
    (hrate : parseHeader fromBeSlice headers[headerExchangeRate]? = .ok (some rate))
    (hdeduction : parseHeader fromBeSlice headers[headerDeduction]? = .ok deduction) :
    SettlementHeaders.fromHeaders fromBeSlice headers = .ok (some ⟨rate, deduction.getD u256Zero⟩) := by
  rw [SettlementHeaders.fromHeaders, hrate, hdeduction]
  rfl

/-- `from_headers` on a map without a readable exchange rate. -/
theorem fromHeaders_of_parseHeader_none {headers : HeaderMap}
    (hrate : parseHeader fromBeSlice headers[headerExchangeRate]? = .ok none) :
    SettlementHeaders.fromHeaders fromBeSlice headers = .ok none := by
  rw [SettlementHeaders.fromHeaders, hrate]
  rfl

theorem headerExchangeRate_ne_headerDeduction : headerExchangeRate ≠ headerDeduction := by
  decide

theorem getElem?_toHeaders_exchangeRate (settlement : SettlementHeaders) :
    settlement.toHeaders[headerExchangeRate]? = some (encodeU256Bytes settlement.exchangeRate) := by
  unfold SettlementHeaders.toHeaders
  split <;> simp only [Std.HashMap.getElem?_insert, Std.HashMap.getElem?_empty, beq_iff_eq,
    headerExchangeRate_ne_headerDeduction.symm, if_true, if_false]

theorem getElem?_toHeaders_deduction (settlement : SettlementHeaders) :
    settlement.toHeaders[headerDeduction]? =
      if settlement.deduction ≠ u256Zero then some (encodeU256Bytes settlement.deduction)
      else none := by
  unfold SettlementHeaders.toHeaders
  split <;> simp only [Std.HashMap.getElem?_insert, Std.HashMap.getElem?_empty, beq_iff_eq,
    headerExchangeRate_ne_headerDeduction, if_true, if_false, *]

theorem parseHeader_toHeaders_exchangeRate (settlement : SettlementHeaders) :
    parseHeader fromBeSlice settlement.toHeaders[headerExchangeRate]? = .ok (some settlement.exchangeRate) := by
  rw [getElem?_toHeaders_exchangeRate, parseHeader, parseU256Bytes_encodeU256Bytes]

theorem parseHeader_toHeaders_deduction (settlement : SettlementHeaders) :
    parseHeader fromBeSlice settlement.toHeaders[headerDeduction]? =
      .ok (if settlement.deduction ≠ u256Zero then some settlement.deduction else none) := by
  rw [getElem?_toHeaders_deduction]
  split
  · rw [parseHeader, parseU256Bytes_encodeU256Bytes]
  · rfl

/-- Settlement headers survive the header map: what `to_headers` writes `from_headers` reads
back, the deduction header is there exactly when the deduction is not zero, both amounts are
written as the messages write theirs, and no header map makes `from_headers` panic. -/
theorem settlement_headers_round_trip :
    (∀ settlement : SettlementHeaders,
      SettlementHeaders.fromHeaders fromBeSlice settlement.toHeaders = .ok (some settlement) ∧
        (settlement.toHeaders.contains headerDeduction ↔ settlement.deduction ≠ u256Zero)) ∧
    (∀ value, encodeU256Bytes value = encodeU256Be value) ∧
    ∀ headers, ∃ parsed, SettlementHeaders.fromHeaders fromBeSlice headers = .ok parsed := by
  refine ⟨fun settlement ↦ ⟨?_, ?_⟩, encodeU256Bytes_eq_encodeU256Be, fun headers ↦ ?_⟩
  · rw [fromHeaders_of_parseHeader fromBeSlice (parseHeader_toHeaders_exchangeRate fromBeSlice settlement)
      (parseHeader_toHeaders_deduction fromBeSlice settlement)]
    obtain ⟨rate, deduction⟩ := settlement
    -- a zero deduction is left out and read back as zero
    by_cases hdeduction : deduction = u256Zero
    · subst hdeduction
      simp
    · simp [hdeduction]
  · rw [Std.HashMap.contains_eq_isSome_getElem?, getElem?_toHeaders_deduction]
    by_cases hdeduction : settlement.deduction = u256Zero <;> simp [hdeduction]
  · obtain ⟨rate, hrate⟩ := parseHeader_ok fromBeSlice headers[headerExchangeRate]?
    obtain ⟨deduction, hdeduction⟩ := parseHeader_ok fromBeSlice headers[headerDeduction]?
    cases rate with
    | none => exact ⟨none, fromHeaders_of_parseHeader_none fromBeSlice hrate⟩
    | some rate => exact ⟨_, fromHeaders_of_parseHeader fromBeSlice hrate hdeduction⟩

/-! ## An oversized amount -/

/-- The 33 bytes `01 00 … 00`, the value `2^256`: a field well within the 1024-byte frame. -/
def oversizedAmount : List UInt8 := 1 :: List.replicate 32 0

/-- Whatever \`U256::from_be_slice\` the codecs are built with, the three amount decoders panic on
the oversized amount, where the swap headers' parse returns nothing. -/
theorem amount_decoders_panic_of_oversized :
    oversizedAmount.length = 33 ∧
      Payment.fromProto fromBeSlice ⟨oversizedAmount⟩ = .error .valueTooLarge ∧
      PaymentAck.fromProto fromBeSlice ⟨oversizedAmount, 0⟩ = .error .valueTooLarge ∧
      AnnouncePaymentThreshold.fromProto fromBeSlice ⟨oversizedAmount⟩ = .error .valueTooLarge ∧
      parseU256Bytes fromBeSlice oversizedAmount = .ok none := by
  have hpanic : decodeU256Be fromBeSlice oversizedAmount = .error .valueTooLarge :=
    decodeU256Be_of_length_gt fromBeSlice (by decide)
  refine ⟨rfl, ?_, ?_, ?_, parseU256Bytes_of_length_gt fromBeSlice (by decide)⟩
  · rw [Payment.fromProto_eq, hpanic]
    rfl
  · rw [PaymentAck.fromProto_eq, hpanic]
    rfl
  · rw [AnnouncePaymentThreshold.fromProto_eq, hpanic]
    rfl

end VertexSwarm.Codec
