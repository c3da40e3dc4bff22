import Mathlib.Data.UInt
import Mathlib.Tactic.Ring

/-! The wire protocol of `protocol.h`: packed little-endian headers and payloads, the XOR-fold
checksum and the frame size of each message type. A `double` is carried by its bit pattern,
since the modelled code only copies doubles and never computes with them. A `Frame` is what the
publisher writes: a header of a known type, that type's payload, and the checksum word. -/

namespace FeedHandler.Protocol

/-! ## Little-endian words -/

/-- The value of bytes read least significant first, as a packed field on the host. -/
def decodeLE : List UInt8 → Nat
  | [] => 0
  | b :: bs => b.toNat + 256 * decodeLE bs

/-- The `k` low bytes of `v`, least significant first. -/
def encodeLE : Nat → Nat → List UInt8
  | 0, _ => []
  | k + 1, v => UInt8.ofNat v :: encodeLE k (v / 256)

/-- The field of `width` bytes at offset `off` of packed bytes. -/
def field (bs : List UInt8) (off width : Nat) : Nat := decodeLE ((bs.drop off).take width)

@[simp] theorem uint8_toNat_ofNat (v : Nat) : (UInt8.ofNat v).toNat = v % 256 :=
  BitVec.toNat_ofNat v 8

@[simp] theorem uint16_toNat_ofNat (v : Nat) : (UInt16.ofNat v).toNat = v % 2 ^ 16 :=
  BitVec.toNat_ofNat v 16

@[simp] theorem uint32_toNat_ofNat (v : Nat) : (UInt32.ofNat v).toNat = v % 2 ^ 32 :=
  BitVec.toNat_ofNat v 32

@[simp] theorem uint64_toNat_ofNat (v : Nat) : (UInt64.ofNat v).toNat = v % 2 ^ 64 :=
  BitVec.toNat_ofNat v 64

section
open scoped UInt64.CommRing

theorem uint64_ofNat_succ (n : Nat) : UInt64.ofNat (n + 1) = UInt64.ofNat n + 1 :=
  Nat.cast_succ n

theorem uint64_ofNat_add (a b : Nat) : UInt64.ofNat (a + b) = UInt64.ofNat a + UInt64.ofNat b :=
  Nat.cast_add a b

end

@[simp] theorem length_encodeLE (k v : Nat) : (encodeLE k v).length = k := by
  induction k generalizing v <;> simp_all [encodeLE]

theorem decodeLE_encodeLE (k v : Nat) : decodeLE (encodeLE k v) = v % 256 ^ k := by
  induction k generalizing v with
  | zero => simp [encodeLE, decodeLE, Nat.mod_one]
  | succ k ih => simp only [encodeLE, decodeLE, uint8_toNat_ofNat, ih, Nat.pow_succ', Nat.mod_mul]

theorem decodeLE_lt (bs : List UInt8) : decodeLE bs < 256 ^ bs.length := by
  induction bs with
  | nil => simp [decodeLE]
  | cons b bs ih =>
    have : b.toNat < 256 := b.toNat_lt_size
    simp only [decodeLE, List.length_cons, Nat.pow_succ']
    omega

theorem encodeLE_decodeLE (bs : List UInt8) : encodeLE bs.length (decodeLE bs) = bs := by
  induction bs with
  | nil => rfl
  | cons b bs ih =>
    have : b.toNat < 256 := b.toNat_lt_size
    simp only [List.length_cons, encodeLE, decodeLE]
    congr 1
    · apply UInt8.toNat.inj
      rw [uint8_toNat_ofNat]
      omega
    · convert ih using 2
      omega

/-- Packed fields of the same width are equal exactly when their bytes are. -/
theorem decodeLE_injective {a b : List UInt8} (hl : a.length = b.length)
    (h : decodeLE a = decodeLE b) : a = b := by
  rw [← encodeLE_decodeLE a, ← encodeLE_decodeLE b, hl, h]

theorem field_append_left (a b : List UInt8) (off width : Nat) (h : off + width ≤ a.length) :
    field (a ++ b) off width = field a off width := by
  simp only [field, List.drop_append_of_le_length (by omega : off ≤ a.length)]
  rw [List.take_append_of_le_length (by simp; omega)]

theorem field_append_right (a b : List UInt8) (off width : Nat) :
    field (a ++ b) (a.length + off) width = field b off width := by
  rw [field, List.drop_append, field]

theorem field_encodeLE (k v : Nat) : field (encodeLE k v) 0 k = v % 256 ^ k := by
  simp [field, decodeLE_encodeLE, List.take_of_length_le]

/-! ## Message types and sizes -/

/-- `protocol::MessageType`. The header holds it as a raw `uint16_t`, so any value can arrive. -/
abbrev MessageType := UInt16

def MessageType.TRADE : MessageType := 0x01
def MessageType.QUOTE : MessageType := 0x02
def MessageType.HEARTBEAT : MessageType := 0x03
def MessageType.SUBSCRIBE : MessageType := 0xFF

/-- `sizeof(MessageHeader)`: type, sequence, timestamp, symbol, packed. -/
def MessageHeader.SIZE : Nat := 2 + 4 + 8 + 2
def TradePayload.SIZE : Nat := 8 + 4
def QuotePayload.SIZE : Nat := 8 + 4 + 8 + 4
def TradeMessage.SIZE : Nat := MessageHeader.SIZE + TradePayload.SIZE + 4
def QuoteMessage.SIZE : Nat := MessageHeader.SIZE + QuotePayload.SIZE + 4
def HeartbeatMessage.SIZE : Nat := MessageHeader.SIZE + 4

def getMessageSize (type : MessageType) : Nat :=
  if type = MessageType.TRADE then TradeMessage.SIZE
  else if type = MessageType.QUOTE then QuoteMessage.SIZE
  else if type = MessageType.HEARTBEAT then HeartbeatMessage.SIZE
  else 0

theorem getMessageSize_ne_zero {type : MessageType} (h : getMessageSize type ≠ 0) :
    type = MessageType.TRADE ∨ type = MessageType.QUOTE ∨ type = MessageType.HEARTBEAT := by
  unfold getMessageSize at h
  split_ifs at h <;> simp_all

/-- A known type's frame holds a header and a checksum word, and is at most a quote's size. -/
theorem getMessageSize_bounds {type : MessageType} (h : getMessageSize type ≠ 0) :
    MessageHeader.SIZE + 4 ≤ getMessageSize type ∧ getMessageSize type ≤ QuoteMessage.SIZE := by
  unfold getMessageSize at *
  split_ifs at * <;> simp_all [MessageHeader.SIZE, TradeMessage.SIZE, QuoteMessage.SIZE,
    HeartbeatMessage.SIZE, TradePayload.SIZE, QuotePayload.SIZE]

/-! ## Headers, payloads and messages -/

/-- An IEEE-754 `double`, kept as its bit pattern. -/
structure Double where
  bits : UInt64
  deriving DecidableEq, Repr

structure MessageHeader where
  msgType : MessageType
  sequenceNumber : UInt32
  timestampNs : UInt64
  symbolId : UInt16
  deriving DecidableEq, Repr

structure TradePayload where
  price : Double
  quantity : UInt32
  deriving DecidableEq, Repr

structure QuotePayload where
  bidPrice : Double
  bidQuantity : UInt32
  askPrice : Double
  askQuantity : UInt32
  deriving DecidableEq, Repr

def MessageHeader.toBytes (h : MessageHeader) : List UInt8 :=
  encodeLE 2 h.msgType.toNat ++ encodeLE 4 h.sequenceNumber.toNat ++
    encodeLE 8 h.timestampNs.toNat ++ encodeLE 2 h.symbolId.toNat

/-- The header that packed bytes start with, as `reinterpret_cast` reads it. -/
def MessageHeader.ofBytes (bs : List UInt8) : MessageHeader where
  msgType := UInt16.ofNat (field bs 0 2)
  sequenceNumber := UInt32.ofNat (field bs 2 4)
  timestampNs := UInt64.ofNat (field bs 6 8)
  symbolId := UInt16.ofNat (field bs 14 2)

def TradePayload.toBytes (p : TradePayload) : List UInt8 :=
  encodeLE 8 p.price.bits.toNat ++ encodeLE 4 p.quantity.toNat

def TradePayload.ofBytes (bs : List UInt8) : TradePayload where
  price := ⟨UInt64.ofNat (field bs 0 8)⟩
  quantity := UInt32.ofNat (field bs 8 4)

def QuotePayload.toBytes (p : QuotePayload) : List UInt8 :=
  encodeLE 8 p.bidPrice.bits.toNat ++ encodeLE 4 p.bidQuantity.toNat ++
    encodeLE 8 p.askPrice.bits.toNat ++ encodeLE 4 p.askQuantity.toNat

def QuotePayload.ofBytes (bs : List UInt8) : QuotePayload where
  bidPrice := ⟨UInt64.ofNat (field bs 0 8)⟩
  bidQuantity := UInt32.ofNat (field bs 8 4)
  askPrice := ⟨UInt64.ofNat (field bs 12 8)⟩
  askQuantity := UInt32.ofNat (field bs 20 4)

@[simp] theorem length_header_toBytes (h : MessageHeader) :
    h.toBytes.length = MessageHeader.SIZE := by
  simp [MessageHeader.toBytes, MessageHeader.SIZE]

@[simp] theorem length_tradePayload_toBytes (p : TradePayload) :
    p.toBytes.length = TradePayload.SIZE := by
  simp [TradePayload.toBytes, TradePayload.SIZE]

@[simp] theorem length_quotePayload_toBytes (p : QuotePayload) :
    p.toBytes.length = QuotePayload.SIZE := by
  simp [QuotePayload.toBytes, QuotePayload.SIZE]

/-! ## Reading packed fields back -/

@[simp] theorem uint16_ofNat_toNat_mod (x : UInt16) : UInt16.ofNat (x.toNat % 65536) = x := by
  have : x.toNat < 2 ^ 16 := x.toNat_lt_size
  exact UInt16.toNat.inj (by simp only [uint16_toNat_ofNat]; omega)

@[simp] theorem uint32_ofNat_toNat_mod (x : UInt32) : UInt32.ofNat (x.toNat % 4294967296) = x := by
  have : x.toNat < 2 ^ 32 := x.toNat_lt_size
  exact UInt32.toNat.inj (by simp only [uint32_toNat_ofNat]; omega)

@[simp] theorem uint64_ofNat_toNat_mod (x : UInt64) :
    UInt64.ofNat (x.toNat % 18446744073709551616) = x := by
  have : x.toNat < 2 ^ 64 := x.toNat_lt_size
  exact UInt64.toNat.inj (by simp only [uint64_toNat_ofNat]; omega)

/-- A packed header reads back as the header, whatever follows it. -/
theorem MessageHeader.ofBytes_toBytes_append (h : MessageHeader) (rest : List UInt8) :
    MessageHeader.ofBytes (h.toBytes ++ rest) = h := by
  simp only [ofBytes, field, toBytes, List.append_assoc, List.drop_append_eq_append_drop,
    List.drop_zero, length_encodeLE, List.drop_eq_nil_of_le, List.drop_left', List.take_left',
    Nat.reduceLeDiff, Nat.reduceSub, List.nil_append, decodeLE_encodeLE, Nat.reducePow,
    uint16_ofNat_toNat_mod, uint32_ofNat_toNat_mod, uint64_ofNat_toNat_mod]

theorem TradePayload.ofBytes_toBytes_append (p : TradePayload) (rest : List UInt8) :
    TradePayload.ofBytes (p.toBytes ++ rest) = p := by
  simp only [ofBytes, field, toBytes, List.append_assoc, List.drop_append_eq_append_drop,
    List.drop_zero, length_encodeLE, List.drop_eq_nil_of_le, List.drop_left', List.take_left',
    Nat.reduceLeDiff, Nat.reduceSub, List.nil_append, decodeLE_encodeLE, Nat.reducePow,
    uint32_ofNat_toNat_mod, uint64_ofNat_toNat_mod]

theorem QuotePayload.ofBytes_toBytes_append (p : QuotePayload) (rest : List UInt8) :
    QuotePayload.ofBytes (p.toBytes ++ rest) = p := by
  simp only [ofBytes, field, toBytes, List.append_assoc, List.drop_append_eq_append_drop,
    List.drop_zero, length_encodeLE, List.drop_eq_nil_of_le, List.drop_left', List.take_left',
    Nat.reduceLeDiff, Nat.reduceSub, List.nil_append, decodeLE_encodeLE, Nat.reducePow,
    uint32_ofNat_toNat_mod, uint64_ofNat_toNat_mod]

/-! ## The checksum -/

/-- `calculate_checksum`: every byte XORed into a `uint32_t` that starts at zero. -/
def calculateChecksum (data : List UInt8) : UInt32 :=
  data.foldl (fun checksum b => checksum ^^^ b.toUInt32) 0

/-- `verify_checksum(data, total_len)`: the fold of all bytes but the last four against the
little-endian word those four hold. -/
def verifyChecksum (data : List UInt8) (totalLen : Nat) : Bool :=
  if totalLen < 4 then false
  else
    let dataLen := totalLen - 4
    let received := UInt32.ofNat (field data dataLen 4)
    calculateChecksum (data.take dataLen) == received

private theorem xor_assoc32 (a b c : UInt32) : a ^^^ b ^^^ c = a ^^^ (b ^^^ c) :=
  UInt32.eq_of_toBitVec_eq (BitVec.xor_assoc _ _ _)

private theorem xor_comm32 (a b : UInt32) : a ^^^ b = b ^^^ a :=
  UInt32.eq_of_toBitVec_eq (BitVec.xor_comm _ _)

private theorem xor_self32 (a : UInt32) : a ^^^ a = 0 :=
  UInt32.eq_of_toBitVec_eq BitVec.xor_self

private theorem zero_xor32 (a : UInt32) : 0 ^^^ a = a :=
  UInt32.eq_of_toBitVec_eq BitVec.zero_xor

private theorem xor_zero32 (a : UInt32) : a ^^^ 0 = a :=
  UInt32.eq_of_toBitVec_eq BitVec.xor_zero

private theorem xor_left_cancel32 {a b c : UInt32} (h : a ^^^ b = a ^^^ c) : b = c := by
  have := congrArg (a ^^^ ·) h
  simpa only [← xor_assoc32, xor_self32, zero_xor32] using this

private theorem foldl_xor (acc : UInt32) (data : List UInt8) :
    data.foldl (fun checksum b => checksum ^^^ b.toUInt32) acc = acc ^^^ calculateChecksum data := by
  induction data generalizing acc with
  | nil => exact (xor_zero32 acc).symm
  | cons b data ih =>
    have h0 : calculateChecksum (b :: data) = 0 ^^^ b.toUInt32 ^^^ calculateChecksum data :=
      ih (0 ^^^ b.toUInt32)
    rw [List.foldl_cons, ih, h0, zero_xor32, xor_assoc32]

theorem calculateChecksum_append (a b : List UInt8) :
    calculateChecksum (a ++ b) = calculateChecksum a ^^^ calculateChecksum b := by
  rw [calculateChecksum, List.foldl_append, foldl_xor]
  rfl

theorem calculateChecksum_cons (x : UInt8) (data : List UInt8) :
    calculateChecksum (x :: data) = x.toUInt32 ^^^ calculateChecksum data := by
  rw [← List.singleton_append, calculateChecksum_append]
  simp [calculateChecksum, zero_xor32]

/-- **Changing one byte changes the fold**: the XOR-fold detects every single-byte error. -/
theorem calculateChecksum_set_ne (data : List UInt8) (i : Nat) (hi : i < data.length)
    (v : UInt8) (hv : v ≠ data[i]) :
    calculateChecksum (data.set i v) ≠ calculateChecksum data := by
  intro h
  rw [List.set_eq_take_append_cons_drop, if_pos hi] at h
  conv at h => rhs; rw [← List.take_append_drop i data, List.drop_eq_getElem_cons hi]
  simp only [calculateChecksum_append, calculateChecksum_cons] at h
  have h' := xor_left_cancel32 h
  rw [xor_comm32 _ (calculateChecksum _), xor_comm32 _ (calculateChecksum _)] at h'
  have hb := congrArg UInt32.toNat (xor_left_cancel32 h')
  exact hv (UInt8.toNat.inj (by simpa using hb))

/-! ## Frames -/

/-- The type field of packed bytes. -/
def typeOf (bs : List UInt8) : MessageType := (MessageHeader.ofBytes bs).msgType

/-- Bytes with a known type in front, exactly as long as that type's frame. -/
def Sized (bs : List UInt8) : Prop :=
  getMessageSize (typeOf bs) ≠ 0 ∧ bs.length = getMessageSize (typeOf bs)

theorem Sized.length_ge {bs : List UInt8} (h : Sized bs) : MessageHeader.SIZE + 4 ≤ bs.length :=
  h.2 ▸ (getMessageSize_bounds h.1).1

/-- A frame as the publisher writes it: a header of a known type and that type's payload, any
bytes in every other field, then the XOR-fold of all of them as a little-endian word. -/
structure Frame where
  body : List UInt8
  known : getMessageSize (typeOf body) ≠ 0
  length_body : body.length + 4 = getMessageSize (typeOf body)

def Frame.bytes (f : Frame) : List UInt8 :=
  f.body ++ encodeLE 4 (calculateChecksum f.body).toNat

theorem typeOf_append {a : List UInt8} (b : List UInt8) (ha : 2 ≤ a.length) :
    typeOf (a ++ b) = typeOf a := by
  simp only [typeOf, MessageHeader.ofBytes, field_append_left a b 0 2 (by omega)]

theorem typeOf_take (bs : List UInt8) {n : Nat} (hn : 2 ≤ n) : typeOf (bs.take n) = typeOf bs := by
  simp only [typeOf, MessageHeader.ofBytes, field, List.drop_zero, List.take_take,
    Nat.min_eq_left hn]

theorem typeOf_set (bs : List UInt8) {i : Nat} (hi : 2 ≤ i) (v : UInt8) :
    typeOf (bs.set i v) = typeOf bs := by
  have : (bs.set i v).take 2 = bs.take 2 := List.ext_getElem? fun j => by
    rw [List.getElem?_take, List.getElem?_take]
    split
    · rw [List.getElem?_set_ne (by omega)]
    · rfl
  simp only [typeOf, MessageHeader.ofBytes, field, List.drop_zero, this]

theorem Sized.set {bs : List UInt8} (h : Sized bs) {i : Nat} (hi : 2 ≤ i) (v : UInt8) :
    Sized (bs.set i v) := by
  rw [Sized, typeOf_set bs hi, List.length_set]
  exact h

theorem Frame.header_le (f : Frame) : MessageHeader.SIZE ≤ f.body.length := by
  have := (getMessageSize_bounds f.known).1
  have := f.length_body
  omega

@[simp] theorem Frame.typeOf_bytes (f : Frame) : typeOf f.bytes = typeOf f.body :=
  typeOf_append _ (by have := f.header_le; simp [MessageHeader.SIZE] at this; omega)

theorem Frame.sized (f : Frame) : Sized f.bytes := by
  refine ⟨by simpa using f.known, ?_⟩
  rw [Frame.typeOf_bytes, ← f.length_body]
  simp [Frame.bytes]

theorem Frame.verifyChecksum_bytes (f : Frame) : verifyChecksum f.bytes f.bytes.length = true := by
  have hlen : f.bytes.length - 4 = f.body.length := by simp [Frame.bytes]
  have hw : (calculateChecksum f.body).toNat < 2 ^ 32 := (calculateChecksum f.body).toNat_lt_size
  simp only [verifyChecksum, hlen, beq_iff_eq]
  split_ifs with h
  · simp [Frame.bytes] at h
  · have := field_append_right f.body (encodeLE 4 (calculateChecksum f.body).toNat) 0 4
    rw [Nat.add_zero] at this
    simp only [Frame.bytes, List.take_left', this]
    rw [field_encodeLE, Nat.mod_eq_of_lt (by simpa using hw), beq_iff_eq]
    exact UInt32.toNat.inj (by simp only [uint32_toNat_ofNat]; omega)

/-- **A frame with one byte changed fails the checksum**: in the header or the payload the fold
changes, in the checksum word the stored word does. -/
theorem Frame.verifyChecksum_set (f : Frame) (i : Nat) (hi : i < f.bytes.length) (v : UInt8)
    (hv : v ≠ f.bytes[i]) :
    verifyChecksum (f.bytes.set i v) (f.bytes.set i v).length = false := by
  have hlen : (f.bytes.set i v).length - 4 = f.body.length := by simp [Frame.bytes]
  simp only [verifyChecksum, hlen, beq_eq_false_iff_ne]
  rw [if_neg (by simp [Frame.bytes])]
  simp only [Frame.bytes, List.length_append, length_encodeLE] at hi hv ⊢
  set w := encodeLE 4 (calculateChecksum f.body).toNat with hw
  by_cases hb : i < f.body.length
  · have hw' := field_append_right (f.body.set i v) w 0 4
    rw [Nat.add_zero, List.length_set] at hw'
    rw [List.set_append_left _ _ hb, List.take_left' (by simp), hw', hw, field_encodeLE,
      show (256 : Nat) ^ 4 = 4294967296 from rfl, uint32_ofNat_toNat_mod]
    rw [List.getElem_append_left hb] at hv
    exact beq_eq_false_iff_ne.mpr (calculateChecksum_set_ne _ _ hb _ hv)
  · have hj : i - f.body.length < w.length := by simp [hw]; omega
    have hw' := field_append_right f.body (w.set (i - f.body.length) v) 0 4
    rw [Nat.add_zero] at hw'
    rw [List.set_append_right _ _ (by omega), List.take_left, hw', beq_eq_false_iff_ne]
    intro heq
    have hdw : decodeLE w = (calculateChecksum f.body).toNat := by
      have : (calculateChecksum f.body).toNat < 2 ^ 32 := (calculateChecksum f.body).toNat_lt_size
      rw [hw, decodeLE_encodeLE]
      omega
    have hdec : decodeLE (w.set (i - f.body.length) v) = decodeLE w := by
      have h1 := congrArg UInt32.toNat heq
      have h2 : decodeLE (w.set (i - f.body.length) v) < 2 ^ 32 := by
        simpa [hw] using decodeLE_lt (w.set (i - f.body.length) v)
      simp only [uint32_toNat_ofNat, field, List.drop_zero] at h1
      rw [List.take_of_length_le (by simp [hw])] at h1
      omega
    have := decodeLE_injective (by simp) hdec
    rw [List.getElem_append_right (by omega)] at hv
    exact hv (by rw [← List.getElem_set_self (l := w) (i := i - f.body.length) (a := v)
      (by simpa using hj)]; simp [this])

end FeedHandler.Protocol