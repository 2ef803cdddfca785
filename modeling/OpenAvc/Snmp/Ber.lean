import OpenAvc.Data.FloatText
import OpenAvc.Data.JsonText
import OpenAvc.Data.Utf8Codec
import OpenAvc.Snmp.Octets

/-! ASN.1/BER encoding. -/

namespace Snmp

open Octets

def asn1Integer : Nat := 0x02
def asn1OctetString : Nat := 0x04
def asn1Null : Nat := 0x05
def asn1Oid : Nat := 0x06
def asn1Sequence : Nat := 0x30

def berEncodeLength (length : Nat) : List Nat :=
  if length < 0x80 then [length]
  else if length < 0x100 then [0x81, length]
  else if length < 0x10000 then [0x82, length / 256 % 256, length % 256]
  else [0x83, length / 65536 % 256, length / 256 % 256, length % 256]

/-- A tag, the length of the payload, and the payload. -/
def berEncodeTagged (tag : Nat) (items : List (List Nat)) : List Nat :=
  tag :: berEncodeLength items.flatten.length ++ items.flatten

def berEncodeSequence (items : List (List Nat)) : List Nat :=
  berEncodeTagged asn1Sequence items

/-- `value.bit_length()` -/
def bitLength (n : Nat) : Nat :=
  if n = 0 then 0 else n.log2 + 1

def integerPayload (value : Int) : List Nat :=
  if value = 0 then [0]
  else if 0 < value then toBytes ((bitLength value.natAbs + 8) / 8) value.natAbs
  else
    let byteLen := (bitLength value.natAbs + 9) / 8
    toBytes byteLen (256 ^ byteLen - value.natAbs)

/-- An integer under a tag, or `none` where it takes more bytes than it may. -/
def encodeTaggedInt (tag : Nat) (value : Int) (maxBytes : Nat) : Option (List Nat) :=
  if (integerPayload value).length ≤ maxBytes then some (berEncodeTagged tag [integerPayload value]) else none

def berEncodeInteger (value : Int) : Option (List Nat) :=
  encodeTaggedInt asn1Integer value 4

def berEncodeString (value : Text) : Option (List Nat) :=
  (Utf8.encode value).map fun payload => berEncodeTagged asn1OctetString [payload]

def berEncodeNull : List Nat :=
  [asn1Null, 0]

/-- The bytes of a subidentifier that others follow, before those. -/
def septets : Nat → Nat → List Nat → List Nat
  | 0, _, encoded => encoded
  | fuel + 1, value, encoded =>
    if value = 0 then encoded else septets fuel (value / 128) ((0x80 + value % 128) :: encoded)

/-- The loop ends after fewer rounds than the number counts. -/
def continued (value : Nat) (encoded : List Nat) : List Nat :=
  septets value value encoded

theorem septets_zero (fuel : Nat) (encoded : List Nat) : septets fuel 0 encoded = encoded := by
  unfold septets
  split
  · rfl
  · rw [if_pos rfl]

theorem septets_enough {fuel more value : Nat} (enough : value ≤ fuel) (also : value ≤ more) (encoded : List Nat) :
    septets fuel value encoded = septets more value encoded := by
  induction fuel generalizing more value encoded with
  | zero =>
    have zero : value = 0 := by omega
    rw [zero, septets_zero, septets_zero]
  | succ fuel ih =>
    rcases Nat.eq_zero_or_pos value with rfl | positive
    · rw [septets_zero, septets_zero]
    · obtain ⟨more, rfl⟩ : ∃ k, more = k + 1 := ⟨more - 1, by omega⟩
      rw [septets, septets, if_neg (by omega), if_neg (by omega)]
      exact ih (by omega) (by omega) _

theorem continued_eq (value : Nat) (encoded : List Nat) : continued value encoded =
    if value = 0 then encoded else continued (value / 128) ((0x80 + value % 128) :: encoded) := by
  unfold continued
  split
  · rename_i zero
    rw [zero, septets_zero]
  · obtain ⟨k, rfl⟩ : ∃ k, value = k + 1 := ⟨value - 1, by omega⟩
    rw [septets, if_neg (by omega)]
    exact septets_enough (by omega) (by omega) _

/-- A subidentifier in base 128; `bytes` raises on a negative one. -/
def encodeBase128 (value : Int) : Option (List Nat) :=
  if value < 0 then none else some (continued (value.toNat / 128) [value.toNat % 128])

/-- `int(s)` of a text whose digits and blanks are ASCII. -/
def readInt (t : Text) : Option Int :=
  match FloatText.signed (FloatText.trim FloatText.asciiSpace t) with
  | (negative, body) =>
    match FloatText.digitPart body with
    | (digits, []) =>
      if digits ≠ [] ∧ digits.length ≤ Json.Scan.intLimit then
        some (if negative then -digitsValue digits else digitsValue digits)
      else none
    | _ => none

/-- `int(s)`, or `none` where it raises. -/
def pyInt (decimal : Nat → Option (Fin 10)) (t : Text) : Option Int :=
  readInt (t.map (FloatText.toAscii decimal))

/-- `str(n)`, or `none` where it has more digits than Python writes. -/
def pyStr (n : Nat) : Option Text :=
  if (text (toString n)).length ≤ Json.Scan.intLimit then some (text (toString n)) else none

def berEncodeOid (decimal : Nat → Option (Fin 10)) (oid : Text) : Option (List Nat) := do
  let parts ← (oid.splitOn 46).mapM (pyInt decimal)
  match parts with
  | first :: second :: rest =>
    let subids ← ((40 * first + second) :: rest).mapM encodeBase128
    some (berEncodeTagged asn1Oid [subids.flatten])
  | _ => some [asn1Oid, 0]

def berDecodeLength (data : List Nat) (offset : Nat) : Nat × Nat :=
  match data[offset]? with
  | none => (0, offset)
  | some first =>
    if first < 0x80 then (first, offset + 1)
    else if first = 0x81 then
      match data[offset + 1]? with
      | some a => (a, offset + 2)
      | none => (0, offset + 1)
    else if first = 0x82 then
      match data[offset + 1]?, data[offset + 2]? with
      | some a, some b => (a * 256 + b, offset + 3)
      | _, _ => (0, offset + 1)
    else if first = 0x83 then
      match data[offset + 1]?, data[offset + 2]?, data[offset + 3]? with
      | some a, some b, some c => (a * 65536 + b * 256 + c, offset + 4)
      | _, _, _ => (0, offset + 1)
    else (0, offset + 1)

def berDecodeInteger (data : List Nat) (offset : Nat) : Int × Nat :=
  if data[offset]? = some asn1Integer then
    match berDecodeLength data (offset + 1) with
    | (length, offset) =>
      if offset + length > data.length then (0, offset)
      else (fromBytesSigned (slice data offset length), offset + length)
  else (0, offset)

def berDecodeString (data : List Nat) (offset : Nat) : Text × Nat :=
  if data[offset]? = some asn1OctetString then
    match berDecodeLength data (offset + 1) with
    | (length, offset) =>
      if offset + length > data.length then ([], offset)
      else (Utf8.decode (slice data offset length), offset + length)
  else ([], offset)

/-- The subidentifiers that bytes hold, when the first of them goes on with what has been read. -/
def decodeSubids : Option Nat → List Nat → List Nat
  | none, [] => []
  | some value, [] => [value]
  | pending, byte :: bytes =>
    let value := pending.getD 0 * 128 + byte % 128
    if byte < 0x80 then value :: decodeSubids none bytes else decodeSubids (some value) bytes

/-- The first subidentifier stands for the first two arcs. -/
def arcs : List Nat → List Nat
  | [] => []
  | first :: rest =>
    if first < 40 then 0 :: first :: rest
    else if first < 80 then 1 :: (first - 40) :: rest
    else 2 :: (first - 80) :: rest

/-- `none` where an arc has more digits than Python writes. -/
def berDecodeOid (data : List Nat) (offset : Nat) : Option (Text × Nat) :=
  if data[offset]? = some asn1Oid then
    match berDecodeLength data (offset + 1) with
    | (length, offset) =>
      if length = 0 ∨ offset + length > data.length then some ([], offset)
      else ((arcs (decodeSubids none (slice data offset length))).mapM pyStr).map fun parts =>
        (List.intercalate [46] parts, offset + length)
  else some ([], offset)

variable {data : List Nat} {offset : Nat}

/-! What was encoded is read back. -/

theorem berDecodeLength_stands {n : Nat} (small : n < 2 ^ 24) (stands : Stands data offset (berEncodeLength n)) :
    berDecodeLength data offset = (n, offset + (berEncodeLength n).length) := by
  unfold berEncodeLength at stands ⊢
  unfold berDecodeLength
  split_ifs at stands ⊢ with one two three
  · rw [stands.head]
    simp only
    rw [if_pos one]
    rfl
  · rw [stands.head, stands.tail.head]
    rfl
  · rw [stands.head, stands.tail.head, stands.tail.tail.head]
    have value : n / 256 % 256 * 256 + n % 256 = n := by omega
    show (n / 256 % 256 * 256 + n % 256, offset + 3) = _
    rw [value]
    rfl
  · rw [stands.head, stands.tail.head, stands.tail.tail.head, stands.tail.tail.tail.head]
    have value : n / 65536 % 256 * 65536 + n / 256 % 256 * 256 + n % 256 = n := by omega
    show (n / 65536 % 256 * 65536 + n / 256 % 256 * 256 + n % 256, offset + 4) = _
    rw [value]
    rfl

/-- Where what follows a tag begins. -/
def payloadAt (items : List (List Nat)) (offset : Nat) : Nat :=
  offset + 1 + (berEncodeLength items.flatten.length).length

/-- What stands under a tag, as the readers find it. -/
structure Tagged (data : List Nat) (tag : Nat) (items : List (List Nat)) (offset : Nat) : Prop where
  here : data[offset]? = some tag
  length : berDecodeLength data (offset + 1) = (items.flatten.length, payloadAt items offset)
  payload : Stands data (payloadAt items offset) items.flatten
  stop : payloadAt items offset + items.flatten.length = offset + (berEncodeTagged tag items).length

theorem Tagged.of_stands {tag : Nat} {items : List (List Nat)} (small : items.flatten.length < 2 ^ 24)
    (stands : Stands data offset (berEncodeTagged tag items)) : Tagged data tag items offset := by
  have after : Stands data (offset + 1) (berEncodeLength items.flatten.length ++ items.flatten) := stands.tail
  refine ⟨stands.head, berDecodeLength_stands small after.left, after.right, ?_⟩
  rw [payloadAt, berEncodeTagged, List.cons_append, List.length_cons, List.length_append]
  omega

theorem length_le_berEncodeTagged (tag : Nat) (items : List (List Nat)) :
    items.flatten.length < (berEncodeTagged tag items).length := by
  rw [berEncodeTagged, List.cons_append, List.length_cons, List.length_append]
  omega

theorem Tagged.le {tag : Nat} {items : List (List Nat)} (T : Tagged data tag items offset) :
    payloadAt items offset + items.flatten.length ≤ data.length :=
  T.payload.le

/-! Integers. -/

theorem lt_bitLength (n : Nat) : n < 2 ^ bitLength n := by
  unfold bitLength
  split
  · omega
  · exact Nat.lt_log2_self

theorem bitLength_le_iff {n k : Nat} : bitLength n ≤ k ↔ n < 2 ^ k := by
  constructor
  · intro le
    exact lt_of_lt_of_le (lt_bitLength n) (Nat.pow_le_pow_right (by decide) le)
  · intro small
    unfold bitLength
    split
    · omega
    · rename_i nonzero
      exact (Nat.log2_lt nonzero).mpr small

theorem pow_bytes (k : Nat) : 256 ^ k = 2 ^ (8 * k) := by
  rw [pow_mul]
  norm_num

theorem length_integerPayload (value : Int) :
    (integerPayload value).length = if 0 ≤ value then (bitLength value.natAbs + 8) / 8 else (bitLength value.natAbs + 9) / 8 := by
  unfold integerPayload
  split_ifs with zero positive sign
  · rw [zero]
    rfl
  · omega
  · rw [length_toBytes]
  · omega
  · omega
  · rw [length_toBytes]

/-- A number that is not negative takes one bit more than it has. -/
theorem length_integerPayload_nonneg {value : Int} (sign : 0 ≤ value) (k : Nat) :
    (integerPayload value).length ≤ k + 1 ↔ value < 2 ^ (8 * k + 7) := by
  have small := @bitLength_le_iff value.natAbs (8 * k + 7)
  have cast : value < 2 ^ (8 * k + 7) ↔ value.natAbs < 2 ^ (8 * k + 7) := by
    zify
    rw [abs_of_nonneg sign]
  rw [length_integerPayload, if_pos sign, cast, ← small]
  omega

/-- A negative one takes two bits more. -/
theorem length_integerPayload_neg {value : Int} (sign : value < 0) (k : Nat) :
    (integerPayload value).length ≤ k + 1 ↔ -2 ^ (8 * k + 6) < value := by
  have small := @bitLength_le_iff value.natAbs (8 * k + 6)
  have cast : -2 ^ (8 * k + 6) < value ↔ value.natAbs < 2 ^ (8 * k + 6) := by
    zify
    rw [abs_of_neg sign]
    omega
  rw [length_integerPayload, if_neg (by omega), cast, ← small]
  omega

theorem integerPayload_signed (value : Int) : fromBytesSigned (integerPayload value) = value := by
  have bound := lt_bitLength value.natAbs
  unfold integerPayload
  split_ifs with zero positive
  · rw [zero]
    rfl
  · have room : 2 ^ bitLength value.natAbs * 2 ≤ 256 ^ ((bitLength value.natAbs + 8) / 8) := by
      rw [pow_bytes, ← pow_succ]
      exact Nat.pow_le_pow_right (by decide) (by omega)
    rw [fromBytesSigned_nonneg (by omega) (by omega)]
    omega
  · have room : 2 ^ bitLength value.natAbs * 2 ≤ 256 ^ ((bitLength value.natAbs + 9) / 8) := by
      rw [pow_bytes, ← pow_succ]
      exact Nat.pow_le_pow_right (by decide) (by omega)
    simp only
    rw [fromBytesSigned_neg (by omega) (by omega) (by omega)]
    omega

theorem integerPayload_unsigned {value : Int} (sign : 0 ≤ value) : (fromBytes (integerPayload value) : Int) = value := by
  have bound := lt_bitLength value.natAbs
  unfold integerPayload
  split_ifs with zero positive
  · rw [zero]
    rfl
  · have room : 2 ^ bitLength value.natAbs ≤ 256 ^ ((bitLength value.natAbs + 8) / 8) := by
      rw [pow_bytes]
      exact Nat.pow_le_pow_right (by decide) (by omega)
    rw [fromBytes_toBytes (by omega)]
    omega
  · omega

/-- The integers that have a place in four bytes. -/
def Fits (value : Int) : Prop :=
  -2 ^ 30 < value ∧ value < 2 ^ 31

instance (value : Int) : Decidable (Fits value) :=
  inferInstanceAs (Decidable (_ ∧ _))

theorem berEncodeInteger_eq_some {value : Int} {bytes : List Nat} :
    berEncodeInteger value = some bytes ↔ Fits value ∧ bytes = berEncodeTagged asn1Integer [integerPayload value] := by
  have fits : (integerPayload value).length ≤ 4 ↔ Fits value := by
    rw [Fits]
    rcases lt_or_ge value 0 with sign | sign
    · rw [length_integerPayload_neg sign 3]
      omega
    · rw [length_integerPayload_nonneg sign 3]
      omega
  rw [berEncodeInteger, encodeTaggedInt, Option.ite_none_right_eq_some, fits, Option.some.injEq, eq_comm (a := bytes)]

theorem berDecodeInteger_stands {value : Int} (fits : Fits value)
    (stands : Stands data offset (berEncodeTagged asn1Integer [integerPayload value])) :
    berDecodeInteger data offset = (value, offset + (berEncodeTagged asn1Integer [integerPayload value]).length) := by
  have short : (integerPayload value).length ≤ 4 := by
    by_contra long
    have encoded := berEncodeInteger_eq_some.mpr ⟨fits, rfl⟩
    rw [berEncodeInteger, encodeTaggedInt, if_neg long] at encoded
    cases encoded
  have T := Tagged.of_stands (by simp only [List.flatten_singleton]; omega) stands
  have raw := T.payload.slice
  have le := T.le
  rw [berDecodeInteger, if_pos T.here, T.length, ← T.stop]
  simp only
  rw [if_neg (by omega), raw, List.flatten_singleton, integerPayload_signed]

theorem berDecodeString_stands {value : Text} {payload : List Nat} (encodes : Utf8.encode value = some payload)
    (small : payload.length < 2 ^ 24) (stands : Stands data offset (berEncodeTagged asn1OctetString [payload])) :
    berDecodeString data offset = (value, offset + (berEncodeTagged asn1OctetString [payload]).length) := by
  have T := Tagged.of_stands (by simpa using small) stands
  have raw := T.payload.slice
  have le := T.le
  rw [berDecodeString, if_pos T.here, T.length, ← T.stop]
  simp only
  rw [if_neg (by omega), raw, List.flatten_singleton, Utf8.decode_encode encodes]

end Snmp
