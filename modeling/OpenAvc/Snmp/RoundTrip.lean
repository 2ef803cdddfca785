import OpenAvc.Snmp.Codec

/-! What a message says is what is parsed from it. -/

namespace Snmp

open Octets

/-- The numbers that an unsigned type has. -/
def Unsigned (type : SnmpType) (n : Nat) : Prop :=
  ((type = .gauge32 ∨ type = .counter32 ∨ type = .timeticks) ∧ n < 2 ^ 32) ∨ (type = .counter64 ∧ n < 2 ^ 64)

/-- A value in the range of its type. -/
inductive Content where
  | integer (n : Int) (range : -2 ^ 31 ≤ n ∧ n < 2 ^ 31)
  | string (t : Text)
  | null
  | oid (o : Oid)
  | ipAddress (a b c d : Fin 256)
  | unsigned (type : SnmpType) (n : Nat) (range : Unsigned type n)
  | marker (type : SnmpType) (exception : type.isException = true)

namespace Content

def type : Content → SnmpType
  | integer _ _ => .integer
  | string _ => .string
  | null => .null
  | oid _ => .oid
  | ipAddress .. => .ipAddress
  | unsigned type _ _ => type
  | marker type _ => type

def value : Content → Value
  | integer n _ => .int n
  | string t => .str t
  | null => .none
  | oid o => .str o.dotted
  | ipAddress a b c d => .str (List.intercalate [46] ([a.1, b.1, c.1, d.1].map digits))
  | unsigned _ n _ => .int n
  | marker _ _ => .none

/-- What the encoder has bytes for; `markers` says that exception markers are among it. -/
def Fits (markers : Bool) : Content → Prop
  | integer n _ => Snmp.Fits n
  | string t => t.all Utf8.scalar = true
  | oid o => o.Writable
  | marker _ _ => markers = true
  | null | ipAddress .. | unsigned .. => True

def payload : Content → List Nat
  | integer n _ => integerPayload n
  | string t => t.flatMap Utf8.octets
  | null => []
  | oid o => base128 o.subids
  | ipAddress a b c d => [a.1, b.1, c.1, d.1]
  | unsigned _ n _ => integerPayload n
  | marker _ _ => []

def encoded (content : Content) : List Nat :=
  berEncodeTagged content.type.tag [content.payload]

end Content

/-- A binding with a valid identifier and a value in range. -/
structure Binding where
  oid : Oid
  content : Content

namespace Binding

def varbind (b : Binding) : SnmpVarBind :=
  ⟨b.oid.dotted, b.content.type, b.content.value⟩

def Fits (markers : Bool) (b : Binding) : Prop :=
  b.oid.Writable ∧ b.content.Fits markers

def encoded (b : Binding) : List Nat :=
  berEncodeSequence [berEncodeTagged asn1Oid [base128 b.oid.subids], b.content.encoded]

end Binding

variable (decimal : Nat → Option (Fin 10))

/-- The encoder of a response, which has the markers, or of a request. -/
def encodeValue (markers : Bool) : SnmpType → Value → Option (List Nat) :=
  if markers then encodeResponseValue decimal else encodeTypedValue decimal

theorem berEncodeString_eq_some {t : Text} {bytes : List Nat} :
    berEncodeString t = some bytes ↔
      t.all Utf8.scalar = true ∧ bytes = berEncodeTagged asn1OctetString [t.flatMap Utf8.octets] := by
  rw [berEncodeString, Utf8.encode]
  split
  · rename_i valid
    simp [valid, eq_comm]
  · rename_i invalid
    simp [invalid]

theorem digits_octet (a : Fin 256) : (digits a).length ≤ Json.Scan.intLimit := by
  have short : (Nat.toDigits 10 a).length ≤ 3 := by
    rw [Nat.length_toDigits_le_iff (by decide) (by decide)]
    omega
  rw [digits, Json.Scan.text_repr, List.length_map]
  exact le_trans short (by decide)

/-- An address is read from its four numbers. -/
theorem encodeIpAddress_dotted (a b c d : Fin 256) :
    encodeIpAddress decimal (List.intercalate [46] ([a.1, b.1, c.1, d.1].map digits)) =
      some (berEncodeTagged SnmpType.ipAddress.tag [[a.1, b.1, c.1, d.1]]) := by
  have noDot : ∀ t ∈ [a.1, b.1, c.1, d.1].map digits, 46 ∉ t := by
    intro t member dot
    obtain ⟨n, -, rfl⟩ := List.mem_map.mp member
    cases (Json.Scan.digits_repr n).digits 46 dot
  have kept : ∀ e ∈ List.intercalate [46] ([a.1, b.1, c.1, d.1].map digits), isSpace e = false := by
    intro e member
    have shape : isDigit e = true ∨ e = 46 := by
      simp only [List.map_cons, List.map_nil, List.intercalate_cons_cons, List.intercalate_singleton,
        List.mem_append, List.mem_singleton] at member
      rcases member with ((member | dot) | (member | dot) | (member | dot) | member) <;>
        first
        | exact Or.inr dot
        | exact Or.inl ((Json.Scan.digits_repr _).digits e member)
    unfold isSpace
    rw [decide_eq_false_iff_not]
    rcases shape with digit | dot
    · unfold isDigit at digit
      rw [decide_eq_true_eq] at digit
      omega
    · omega
  have stripped : Text.strip (List.intercalate [46] ([a.1, b.1, c.1, d.1].map digits)) =
      List.intercalate [46] ([a.1, b.1, c.1, d.1].map digits) := by
    have nonempty : List.intercalate [46] ([a.1, b.1, c.1, d.1].map digits) ≠ [] := by
      have first := (Json.Scan.digits_repr a).nonempty
      intro none
      rw [List.map_cons, List.map_cons, List.intercalate_cons_cons, List.append_assoc, List.append_eq_nil_iff] at none
      exact first none.1
    have whole := @FloatText.trim_between _ [] _ [] (by simp) (by simp) nonempty kept
    rwa [List.nil_append, List.append_nil] at whole
  have octet : ∀ e : Fin 256, ((pyInt decimal (digits e.1)).bind fun n => if 0 ≤ n ∧ n < 256 then some n.toNat else none) =
      some e.1 := by
    intro e
    have bound := e.2
    rw [pyInt_digits, if_pos (digits_octet e), Option.bind_some, if_pos (by omega), Int.toNat_natCast]
  rw [encodeIpAddress, stripped, List.splitOn_intercalate 46 noDot (by simp)]
  simp only [List.map_cons, List.map_nil, List.mapM_cons, List.mapM_nil, Option.bind_eq_bind, octet, Option.bind_some,
    Option.pure_def]
  rfl

/-- An unsigned number has a place in the bytes of its type. -/
theorem encodeTypedValue_unsigned {type : SnmpType} {n : Nat} (range : Unsigned type n) :
    encodeTypedValue decimal type (.int n) = some (berEncodeTagged type.tag [integerPayload n]) := by
  have short (k : Nat) (small : (n : Int) < 2 ^ (8 * k + 7)) : encodeUnsigned decimal type (.int n) (k + 1) =
      some (berEncodeTagged type.tag [integerPayload n]) := by
    have room := (length_integerPayload_nonneg (Int.natCast_nonneg n) k).mpr small
    simp only [encodeUnsigned, Value.toInt, Option.bind_eq_bind, Option.bind_some]
    rw [if_neg (by omega), encodeTaggedInt, if_pos room]
  rcases range with ⟨rfl | rfl | rfl, small⟩ | ⟨rfl, small⟩
  · exact short 4 (by omega)
  · exact short 4 (by omega)
  · exact short 4 (by omega)
  · exact short 8 (by omega)

theorem encodeValue_eq_some (markers : Bool) (content : Content) {bytes : List Nat} :
    encodeValue decimal markers content.type content.value = some bytes ↔
      content.Fits markers ∧ bytes = content.encoded := by
  have plain (typed : content.type.isException = false) : encodeValue decimal markers content.type content.value =
      encodeTypedValue decimal content.type content.value := by
    unfold encodeValue
    split
    · rw [encodeResponseValue, if_neg (by simp [typed])]
    · rfl
  cases content with
  | integer n range =>
    rw [plain rfl]
    exact berEncodeInteger_eq_some
  | string t =>
    rw [plain rfl]
    exact berEncodeString_eq_some
  | null =>
    rw [plain rfl]
    exact ⟨fun same => ⟨trivial, (Option.some.inj same).symm⟩, fun same => congrArg some same.2.symm⟩
  | oid o =>
    rw [plain rfl]
    exact berEncodeOid_eq_some decimal o
  | ipAddress a b c d =>
    rw [plain rfl, Content.type, Content.value, encodeTypedValue, Value.toStr, Option.bind_some, encodeIpAddress_dotted]
    exact ⟨fun same => ⟨trivial, (Option.some.inj same).symm⟩, fun same => congrArg some same.2.symm⟩
  | unsigned type n range =>
    have typed : type.isException = false := by
      rcases range with ⟨rfl | rfl | rfl, -⟩ | ⟨rfl, -⟩ <;> rfl
    rw [plain typed]
    have encodes := encodeTypedValue_unsigned decimal range
    rw [Content.type, Content.value, encodes]
    exact ⟨fun same => ⟨trivial, (Option.some.inj same).symm⟩, fun same => congrArg some same.2.symm⟩
  | marker type exception =>
    unfold encodeValue
    cases markers with
    | true =>
      rw [if_pos rfl, encodeResponseValue, Content.type, if_pos exception]
      exact ⟨fun same => ⟨rfl, (Option.some.inj same).symm⟩, fun same => congrArg some same.2.symm⟩
    | false =>
      have refused : encodeTypedValue decimal type .none = none := by
        unfold SnmpType.isException at exception
        rw [decide_eq_true_eq] at exception
        rcases exception with rfl | rfl | rfl <;> rfl
      rw [if_neg (by decide), Content.type, Content.value, refused]
      simp [Content.Fits]

theorem encodeVarbind_eq_some (markers : Bool) (b : Binding) {bytes : List Nat} :
    encodeVarbind decimal (encodeValue decimal markers) b.varbind = some bytes ↔ b.Fits markers ∧ bytes = b.encoded := by
  rw [encodeVarbind, Binding.varbind]
  simp only [Option.bind_eq_bind, Option.bind_eq_some_iff, berEncodeOid_eq_some, encodeValue_eq_some, Option.some.injEq]
  constructor
  · rintro ⟨oid, ⟨writable, rfl⟩, value, ⟨fits, rfl⟩, rfl⟩
    exact ⟨⟨writable, fits⟩, rfl⟩
  · rintro ⟨⟨writable, fits⟩, rfl⟩
    exact ⟨_, ⟨writable, rfl⟩, _, ⟨fits, rfl⟩, rfl⟩

theorem encodeVarbinds_eq_some (markers : Bool) (bindings : List Binding) {all : List (List Nat)} :
    (bindings.map Binding.varbind).mapM (encodeVarbind decimal (encodeValue decimal markers)) = some all ↔
      (∀ b ∈ bindings, b.Fits markers) ∧ all = bindings.map Binding.encoded := by
  have encodes (fits : ∀ b ∈ bindings, b.Fits markers) :
      (bindings.map Binding.varbind).mapM (encodeVarbind decimal (encodeValue decimal markers)) =
        some (bindings.map Binding.encoded) := by
    rw [List.mapM_map, List.mapM_eq_some, List.forall₂_map_right_iff, List.forall₂_same]
    exact fun b member => (encodeVarbind_eq_some decimal markers b).mpr ⟨fits b member, rfl⟩
  constructor
  · intro some
    have fits : ∀ b ∈ bindings, b.Fits markers := by
      intro b member
      obtain ⟨bytes, -, encodes⟩ := List.exists_of_mapM some (List.mem_map_of_mem member)
      exact ((encodeVarbind_eq_some decimal markers b).mp encodes).1
    rw [encodes fits] at some
    exact ⟨fits, (Option.some.inj some).symm⟩
  · rintro ⟨fits, rfl⟩
    exact encodes fits

/-! Reading back. -/

variable {data : List Nat} {offset : Nat}

theorem decodeTypedValue_stands {content : Content} {markers : Bool} (fits : content.Fits markers)
    (small : content.payload.length < 2 ^ 24) (stands : Stands data offset content.encoded) :
    decodeTypedValue data offset = some (content.type, content.value, offset + content.encoded.length) := by
  have T := Tagged.of_stands (by simpa using small) stands
  have raw := T.payload.slice
  have stop := T.stop
  rw [List.flatten_singleton] at raw stop
  rw [decodeTypedValue, T.here]
  dsimp only
  rw [T.length]
  dsimp only
  rw [List.flatten_singleton, raw, stop]
  cases content with
  | integer n range =>
    have read : berDecodeInteger data offset = (n, _) := berDecodeInteger_stands fits stands
    have type : typeOf (Content.integer n range).type.tag = .integer := rfl
    rw [type]
    dsimp only
    rw [read]
    rfl
  | string t =>
    have read : berDecodeString data offset = (t, _) :=
      berDecodeString_stands (if_pos fits) small stands
    have type : typeOf (Content.string t).type.tag = .string := rfl
    rw [type]
    dsimp only
    rw [read]
    rfl
  | null => rfl
  | oid o =>
    have read : berDecodeOid data offset = some (o.dotted, _) := berDecodeOid_stands fits small stands
    have type : typeOf (Content.oid o).type.tag = .oid := rfl
    rw [type]
    dsimp only
    rw [read]
    rfl
  | ipAddress a b c d => rfl
  | unsigned type n range =>
    have value := integerPayload_unsigned (Int.natCast_nonneg n)
    simp only [Content.encoded, Content.type, Content.payload, Content.value]
    rcases range with ⟨rfl | rfl | rfl, -⟩ | ⟨rfl, -⟩ <;> exact congrArg (fun m => some (_, Value.int m, _)) value
  | marker type exception =>
    unfold SnmpType.isException at exception
    rw [decide_eq_true_eq] at exception
    rcases exception with rfl | rfl | rfl <;> rfl

theorem Binding.length_encoded (b : Binding) :
    (base128 b.oid.subids).length < b.encoded.length ∧ b.content.payload.length < b.encoded.length := by
  have whole := length_le_berEncodeTagged asn1Sequence [berEncodeTagged asn1Oid [base128 b.oid.subids], b.content.encoded]
  have oid := length_le_berEncodeTagged asn1Oid [base128 b.oid.subids]
  have content := length_le_berEncodeTagged b.content.type.tag [b.content.payload]
  change _ < b.encoded.length at whole
  change _ < b.content.encoded.length at content
  simp only [List.flatten_cons, List.flatten_nil, List.append_nil, List.length_append] at whole oid content
  omega

/-- The loop reads one varbind after another, to where the list ends. -/
theorem decodeVarbinds_stands {markers : Bool} {bindings : List Binding} (fits : ∀ b ∈ bindings, b.Fits markers)
    (small : (bindings.map Binding.encoded).flatten.length < 2 ^ 24)
    (stands : Stands data offset (bindings.map Binding.encoded).flatten) {fuel : Nat} (enough : bindings.length < fuel) :
    decodeVarbinds data (offset + (bindings.map Binding.encoded).flatten.length) fuel offset =
      some (bindings.map Binding.varbind) := by
  induction bindings generalizing offset fuel with
  | nil =>
    obtain ⟨fuel, rfl⟩ : ∃ k, fuel = k + 1 := ⟨fuel - 1, by omega⟩
    rw [decodeVarbinds, if_neg (by simp)]
    rfl
  | cons b bindings ih =>
    obtain ⟨fuel, rfl⟩ : ∃ k, fuel = k + 1 := ⟨fuel - 1, by omega⟩
    obtain ⟨shortOid, shortValue⟩ := b.length_encoded
    rw [List.map_cons, List.flatten_cons] at stands small ⊢
    rw [List.length_append] at small ⊢
    have whole := length_le_berEncodeTagged asn1Sequence [berEncodeTagged asn1Oid [base128 b.oid.subids], b.content.encoded]
    change _ < b.encoded.length at whole
    obtain ⟨writable, fitting⟩ := fits b List.mem_cons_self
    have T : Tagged data asn1Sequence [berEncodeTagged asn1Oid [base128 b.oid.subids], b.content.encoded] offset :=
      Tagged.of_stands (by omega) stands.left
    have inner := T.payload
    have stop : _ = offset + b.encoded.length := T.stop
    simp only [List.flatten_cons, List.flatten_nil, List.append_nil, List.length_append] at inner stop
    have oid := berDecodeOid_stands writable (by omega) inner.left
    have value := decodeTypedValue_stands fitting (by omega) inner.right
    have fewer : bindings.length < fuel := by simpa using enough
    have rest := ih (fun c member => fits c (List.mem_cons_of_mem _ member)) (by omega) stands.right fewer
    rw [decodeVarbinds, if_pos ⟨by omega, T.here⟩, T.length]
    dsimp only
    rw [oid, Option.bind_some]
    dsimp only
    rw [value, Option.bind_some]
    dsimp only
    rw [← Nat.add_assoc] at stop
    rw [stop, ← Nat.add_assoc, rest, Option.map_some, if_neg b.oid.dotted_ne_nil]
    rfl

theorem length_flatten_map_encoded (bindings : List Binding) :
    bindings.length ≤ (bindings.map Binding.encoded).flatten.length := by
  induction bindings with
  | nil => simp
  | cons b bindings ih =>
    have positive := b.length_encoded.1
    rw [List.map_cons, List.flatten_cons, List.length_append, List.length_cons]
    omega

theorem decodeVarbindList_stands {markers : Bool} {bindings : List Binding} (fits : ∀ b ∈ bindings, b.Fits markers)
    (small : (bindings.map Binding.encoded).flatten.length < 2 ^ 24)
    (stands : Stands data offset (berEncodeSequence (bindings.map Binding.encoded))) :
    decodeVarbindList data offset = some (bindings.map Binding.varbind) := by
  have T := Tagged.of_stands small stands
  have enough := length_flatten_map_encoded bindings
  have le := T.le
  rw [decodeVarbindList, if_pos T.here, T.length]
  dsimp only
  exact decodeVarbinds_stands fits small T.payload (by omega)

/-! Whole packets. -/

/-- What is built has a place for every field, and for every binding. -/
structure Pdu.Fits (markers : Bool) (pdu : Pdu) (bindings : List Binding) : Prop where
  requestId : Snmp.Fits pdu.requestId
  errorStatus : Snmp.Fits pdu.errorStatus
  errorIndex : Snmp.Fits pdu.errorIndex
  community : pdu.community.all Utf8.scalar = true
  bindings : ∀ b ∈ bindings, b.Fits markers

/-- The fields of the PDU, as they are encoded. -/
def Pdu.fields (pdu : Pdu) (bindings : List Binding) : List (List Nat) :=
  [berEncodeTagged asn1Integer [integerPayload pdu.requestId],
    berEncodeTagged asn1Integer [integerPayload pdu.errorStatus],
    berEncodeTagged asn1Integer [integerPayload pdu.errorIndex],
    berEncodeSequence (bindings.map Binding.encoded)]

def Pdu.parts (pdu : Pdu) (bindings : List Binding) : List (List Nat) :=
  [berEncodeTagged asn1Integer [integerPayload snmpVersion2c],
    berEncodeTagged asn1OctetString [pdu.community.flatMap Utf8.octets],
    berEncodeTagged pdu.pduType (pdu.fields bindings)]

theorem Pdu.items_eq_some (markers : Bool) {pdu : Pdu} {bindings : List Binding}
    (carried : pdu.varbinds = bindings.map Binding.varbind) {items : List (List Nat)} :
    pdu.items decimal (encodeValue decimal markers) = some items ↔
      pdu.Fits markers bindings ∧ items = pdu.parts bindings := by
  have version : Snmp.Fits snmpVersion2c := by decide
  simp only [Pdu.items, carried, Option.bind_eq_bind, Option.bind_eq_some_iff, encodeVarbinds_eq_some,
    berEncodeInteger_eq_some, berEncodeString_eq_some, Option.some.injEq]
  constructor
  · rintro ⟨_, ⟨fits, rfl⟩, _, ⟨requestId, rfl⟩, _, ⟨errorStatus, rfl⟩, _, ⟨errorIndex, rfl⟩, _, ⟨-, rfl⟩, _, ⟨community, rfl⟩, rfl⟩
    exact ⟨⟨requestId, errorStatus, errorIndex, community, fits⟩, rfl⟩
  · rintro ⟨F, rfl⟩
    exact ⟨_, ⟨F.bindings, rfl⟩, _, ⟨F.requestId, rfl⟩, _, ⟨F.errorStatus, rfl⟩, _, ⟨F.errorIndex, rfl⟩, _, ⟨version, rfl⟩,
      _, ⟨F.community, rfl⟩, rfl⟩

/-- A packet is read as it was put together. -/
theorem parsePdu_parts {markers : Bool} {pdu : Pdu} {bindings : List Binding}
    (carried : pdu.varbinds = bindings.map Binding.varbind) (fits : pdu.Fits markers bindings)
    (short : (pdu.parts bindings).flatten.length < 2 ^ 24) {versions : Int → Bool} {pduTypes : Nat → Bool}
    (version : versions snmpVersion2c = true) (type : pduTypes pdu.pduType = true) :
    parsePdu versions pduTypes (berEncodeSequence (pdu.parts bindings)) = some pdu := by
  obtain ⟨requestId, errorStatus, errorIndex, community, all⟩ := fits
  have T := Tagged.of_stands short (Stands.whole (berEncodeSequence (pdu.parts bindings)))
  have parts := T.payload
  have length := T.length
  have shortCommunity := length_le_berEncodeTagged asn1OctetString [pdu.community.flatMap Utf8.octets]
  have shortFields := length_le_berEncodeTagged pdu.pduType (pdu.fields bindings)
  have shortList := length_le_berEncodeTagged asn1Sequence (bindings.map Binding.encoded)
  have listInFields : (berEncodeSequence (bindings.map Binding.encoded)).length ≤ (pdu.fields bindings).flatten.length := by
    simp only [Pdu.fields, List.flatten_cons, List.flatten_nil, List.append_nil, List.length_append]
    omega
  change _ < (berEncodeSequence _).length at shortList
  generalize payloadAt (pdu.parts bindings) 0 = start at parts length
  generalize berEncodeSequence (pdu.parts bindings) = data at T parts length ⊢
  simp only [Pdu.parts, List.flatten_cons, List.flatten_nil, List.append_nil, List.length_append] at parts short shortCommunity
  have readVersion := @berDecodeInteger_stands _ _ snmpVersion2c (by decide) parts.left
  have readCommunity := berDecodeString_stands (if_pos community) (by omega) parts.right.left
  have F := Tagged.of_stands (by omega) parts.right.right
  have fields := F.payload
  have fieldsLength := F.length
  generalize payloadAt (pdu.fields bindings) _ = inside at fields fieldsLength
  simp only [Pdu.fields, List.flatten_cons, List.flatten_nil, List.append_nil] at fields
  have readRequestId := berDecodeInteger_stands requestId fields.left
  have readErrorStatus := berDecodeInteger_stands errorStatus fields.right.left
  have readErrorIndex := berDecodeInteger_stands errorIndex fields.right.right.left
  have readVarbinds := decodeVarbindList_stands all (by omega) fields.right.right.right
  rw [parsePdu, if_pos T.here, show (1 : Nat) = 0 + 1 from rfl, length]
  dsimp only
  rw [readVersion]
  dsimp only
  rw [if_pos version, readCommunity]
  dsimp only
  rw [F.here]
  dsimp only
  rw [if_pos type, fieldsLength]
  dsimp only
  rw [readRequestId]
  dsimp only
  rw [readErrorStatus]
  dsimp only
  rw [readErrorIndex]
  dsimp only
  rw [readVarbinds, Option.map_some, ← carried]

/-- The length of what a packet is made of can be written. -/
def Pdu.Short (encode : SnmpType → Value → Option (List Nat)) (pdu : Pdu) : Prop :=
  ∀ items, pdu.items decimal encode = some items → items.flatten.length < 2 ^ 24

/-- It is built, and what is parsed from it is what was meant. -/
def RoundTrips {α : Type} (built : Option (List Nat)) (parse : List Nat → Option α) (meant : α) : Prop :=
  ∃ data, built = some data ∧ parse data = some meant

/-- A packet can be built exactly where everything in it fits, and then it is read as it is. -/
theorem Pdu.roundTrips_iff (markers : Bool) {pdu : Pdu} {bindings : List Binding}
    (carried : pdu.varbinds = bindings.map Binding.varbind) (short : pdu.Short decimal (encodeValue decimal markers))
    {α : Type} (view : Pdu → α) (versions : Int → Bool) (pduTypes : Nat → Bool) (version : versions snmpVersion2c = true)
    (type : pduTypes pdu.pduType = true) :
    RoundTrips (pdu.build decimal (encodeValue decimal markers)) (fun data => (parsePdu versions pduTypes data).map view)
        (view pdu) ↔ pdu.Fits markers bindings := by
  constructor
  · rintro ⟨data, built, -⟩
    obtain ⟨items, encodes, -⟩ := Option.map_eq_some_iff.mp built
    exact ((Pdu.items_eq_some decimal markers carried).mp encodes).1
  · intro fits
    have encodes := (Pdu.items_eq_some decimal markers carried).mpr ⟨fits, rfl⟩
    have read := parsePdu_parts carried fits (short _ encodes) version type
    refine ⟨_, by rw [Pdu.build, encodes, Option.map_some], ?_⟩
    dsimp only
    rw [read, Option.map_some]

/-- Once both standard varbinds are there the others are the trap's own. -/
theorem SnmpTrap.foldl_take (trap : SnmpTrap) (uptime : trap.uptime.isSome) (trapOid : trap.trapOid.isSome)
    (varbinds : List SnmpVarBind) :
    varbinds.foldl SnmpTrap.take trap = { trap with varbinds := trap.varbinds ++ varbinds } := by
  induction varbinds generalizing trap with
  | nil => rw [List.foldl_nil, List.append_nil]
  | cons vb varbinds ih =>
    have step : trap.take vb = { trap with varbinds := trap.varbinds ++ [vb] } := by
      rw [SnmpTrap.take, if_neg fun first => Option.isSome_iff_ne_none.mp uptime first.2,
        if_neg fun second => Option.isSome_iff_ne_none.mp trapOid second.2]
    have rest := ih { trap with varbinds := trap.varbinds ++ [vb] } uptime trapOid
    rw [List.foldl_cons, step, rest, List.append_assoc, List.singleton_append]

def sysUpTime : Oid := ⟨1, 3, [6, 1, 2, 1, 1, 3, 0], by decide⟩
def snmpTrapOid : Oid := ⟨1, 3, [6, 1, 6, 3, 1, 1, 4, 1, 0], by decide⟩

theorem sysUpTime_dotted : sysUpTime.dotted = sysUpTimeOid := by decide
theorem snmpTrapOid_dotted : snmpTrapOid.dotted = snmpTrapOidOid := by decide

theorem sysUpTime_writable : sysUpTime.Writable := by decide
theorem snmpTrapOid_writable : snmpTrapOid.Writable := by decide

/-- Every message comes back as it was meant exactly where it fits. -/
theorem message_round_trip (community : Text) (requestId : Int) (bindings : List Binding) :
    (∀ errorStatus errorIndex,
      (responsePdu requestId community (bindings.map Binding.varbind) errorStatus errorIndex).Short decimal
        (encodeResponseValue decimal) →
      (RoundTrips (buildSnmpResponse decimal requestId community (bindings.map Binding.varbind) errorStatus errorIndex)
          parseSnmpMessage ⟨requestId, errorStatus, errorIndex, bindings.map Binding.varbind⟩ ↔
        Fits requestId ∧ Fits errorStatus ∧ Fits errorIndex ∧ community.all Utf8.scalar = true ∧
          ∀ b ∈ bindings, b.Fits true)) ∧
    ((setPdu community (bindings.map Binding.varbind) requestId).Short decimal (encodeTypedValue decimal) →
      (RoundTrips (buildSnmpSet decimal community (bindings.map Binding.varbind) requestId) parseSnmpRequest
          ⟨snmpSetRequest, requestId, community, bindings.map Binding.varbind⟩ ↔
        Fits requestId ∧ community.all Utf8.scalar = true ∧ ∀ b ∈ bindings, b.Fits false)) ∧
    (∀ oids : List Oid,
      (getPdu community (oids.map Oid.dotted) requestId).Short decimal (encodeTypedValue decimal) →
      (RoundTrips (buildSnmpGet decimal community (oids.map Oid.dotted) requestId) parseSnmpRequest
          ⟨snmpGetRequest, requestId, community, oids.map fun o => ⟨o.dotted, .null, .none⟩⟩ ↔
        Fits requestId ∧ community.all Utf8.scalar = true ∧ ∀ o ∈ oids, o.Writable)) ∧
    ∀ (uptime : Nat) (trapOid : Oid), uptime < 2 ^ 32 →
      (trapPdu community requestId uptime trapOid.dotted (bindings.map Binding.varbind)).Short decimal
        (encodeTypedValue decimal) →
      (RoundTrips (buildSnmpTrap decimal community requestId uptime trapOid.dotted (bindings.map Binding.varbind))
          parseSnmpTrap ⟨community, requestId, some uptime, some trapOid.dotted, bindings.map Binding.varbind⟩ ↔
        Fits requestId ∧ community.all Utf8.scalar = true ∧ trapOid.Writable ∧ ∀ b ∈ bindings, b.Fits false) := by
  have zero : Fits 0 := by decide
  refine ⟨?_, ?_, ?_, ?_⟩
  · intro errorStatus errorIndex short
    have whole := @Pdu.roundTrips_iff decimal true _ bindings rfl short _
      (fun pdu => (⟨pdu.requestId, pdu.errorStatus, pdu.errorIndex, pdu.varbinds⟩ : SnmpMessage))
      (fun _ => true) (· = snmpGetResponse) rfl (decide_eq_true rfl)
    refine whole.trans ⟨fun F => ⟨F.requestId, F.errorStatus, F.errorIndex, F.community, F.bindings⟩, ?_⟩
    rintro ⟨requestId, errorStatus, errorIndex, community, all⟩
    exact ⟨requestId, errorStatus, errorIndex, community, all⟩
  · intro short
    have whole := @Pdu.roundTrips_iff decimal false _ bindings rfl short _
      (fun pdu => (⟨pdu.pduType, pdu.requestId, pdu.community, pdu.varbinds⟩ : SnmpRequest))
      (· = snmpVersion2c) (fun tag => tag = snmpGetRequest ∨ tag = snmpGetnextRequest ∨ tag = snmpSetRequest)
      (decide_eq_true rfl) (decide_eq_true (Or.inr (Or.inr rfl)))
    refine whole.trans ⟨fun F => ⟨F.requestId, F.community, F.bindings⟩, ?_⟩
    rintro ⟨requestId, community, all⟩
    exact ⟨requestId, zero, zero, community, all⟩
  · intro oids short
    have carried : (getPdu community (oids.map Oid.dotted) requestId).varbinds =
        (oids.map fun o => (⟨o, .null⟩ : Binding)).map Binding.varbind := by
      rw [getPdu, List.map_map, List.map_map]
      rfl
    have view : (⟨snmpGetRequest, requestId, community, oids.map fun o => ⟨o.dotted, .null, .none⟩⟩ : SnmpRequest) =
        (fun pdu : Pdu => ⟨pdu.pduType, pdu.requestId, pdu.community, pdu.varbinds⟩)
          (getPdu community (oids.map Oid.dotted) requestId) := by
      rw [getPdu, List.map_map]
      rfl
    have whole := Pdu.roundTrips_iff decimal false carried short
      (fun pdu => (⟨pdu.pduType, pdu.requestId, pdu.community, pdu.varbinds⟩ : SnmpRequest))
      (· = snmpVersion2c) (fun tag => tag = snmpGetRequest ∨ tag = snmpGetnextRequest ∨ tag = snmpSetRequest)
      (decide_eq_true rfl) (decide_eq_true (Or.inl rfl))
    rw [view]
    refine whole.trans ⟨fun F => ⟨F.requestId, F.community, fun o member => ?_⟩, ?_⟩
    · exact (F.bindings _ (List.mem_map_of_mem member)).1
    · rintro ⟨requestId, community, all⟩
      refine ⟨requestId, zero, zero, community, fun b member => ?_⟩
      obtain ⟨o, inside, rfl⟩ := List.mem_map.mp member
      exact ⟨all o inside, trivial⟩
  · intro uptime trapOid range short
    have uptimeRange : Unsigned .timeticks uptime := Or.inl ⟨by decide, range⟩
    have carried : (trapPdu community requestId uptime trapOid.dotted (bindings.map Binding.varbind)).varbinds =
        ((⟨sysUpTime, .unsigned .timeticks uptime uptimeRange⟩ : Binding) :: ⟨snmpTrapOid, .oid trapOid⟩ :: bindings).map
          Binding.varbind := by
      rw [trapPdu, List.map_cons, List.map_cons, Binding.varbind, sysUpTime_dotted, Binding.varbind, snmpTrapOid_dotted]
      rfl
    have other : sysUpTimeOid ≠ snmpTrapOidOid := by decide
    have view : (⟨community, requestId, some uptime, some trapOid.dotted, bindings.map Binding.varbind⟩ : SnmpTrap) =
        (fun pdu : Pdu => pdu.varbinds.foldl SnmpTrap.take ⟨pdu.community, pdu.requestId, none, none, []⟩)
          (trapPdu community requestId uptime trapOid.dotted (bindings.map Binding.varbind)) := by
      have first : SnmpTrap.take ⟨community, requestId, none, none, []⟩ ⟨sysUpTimeOid, .timeticks, .int uptime⟩ =
          ⟨community, requestId, some uptime, none, []⟩ := by
        rw [SnmpTrap.take, if_pos ⟨rfl, rfl⟩]
      have second : SnmpTrap.take ⟨community, requestId, some uptime, none, []⟩ ⟨snmpTrapOidOid, .oid, .str trapOid.dotted⟩ =
          ⟨community, requestId, some uptime, some trapOid.dotted, []⟩ := by
        rw [SnmpTrap.take, if_neg fun same => other same.1.symm, if_pos ⟨rfl, rfl⟩]
      dsimp only [trapPdu]
      rw [List.foldl_cons, List.foldl_cons, first, second, SnmpTrap.foldl_take _ rfl rfl, List.nil_append]
    have whole := Pdu.roundTrips_iff decimal false carried short
      (fun pdu => pdu.varbinds.foldl SnmpTrap.take ⟨pdu.community, pdu.requestId, none, none, []⟩)
      (· = snmpVersion2c) (· = snmpTrapV2) (decide_eq_true rfl) (decide_eq_true rfl)
    rw [view]
    refine whole.trans ⟨fun F => ⟨F.requestId, F.community, ?_, fun b member => ?_⟩, ?_⟩
    · exact (F.bindings ⟨snmpTrapOid, .oid trapOid⟩ (by simp)).2
    · exact F.bindings b (List.mem_cons_of_mem _ (List.mem_cons_of_mem _ member))
    · rintro ⟨requestId, community, writable, all⟩
      refine ⟨requestId, zero, zero, community, fun b member => ?_⟩
      rcases List.mem_cons.mp member with rfl | member
      · exact ⟨sysUpTime_writable, trivial⟩
      rcases List.mem_cons.mp member with rfl | member
      · exact ⟨snmpTrapOid_writable, writable⟩
      · exact all b member

/-- A device answers with a number below zero. -/
def negativeLevel : Binding :=
  ⟨⟨1, 3, [6, 1], by decide⟩, .integer (-40) (by decide)⟩

theorem message_round_trip_negative :
    RoundTrips (buildSnmpResponse (fun _ => none) (-7) (text "public") ([negativeLevel].map Binding.varbind) 0 0)
      parseSnmpMessage ⟨-7, 0, 0, [negativeLevel].map Binding.varbind⟩ := by
  have valid : ∀ b ∈ [negativeLevel], b.Fits true := by
    intro b member
    rw [List.mem_singleton] at member
    subst member
    exact ⟨show Oid.Writable ⟨1, 3, [6, 1], _⟩ by decide, show Fits (-40) by decide⟩
  have short : (responsePdu (-7) (text "public") ([negativeLevel].map Binding.varbind) 0 0).Short (fun _ => none)
      (encodeResponseValue fun _ => none) := by
    intro items encodes
    rw [((@Pdu.items_eq_some _ true _ [negativeLevel] rfl _).mp encodes).2]
    decide
  exact ((message_round_trip (fun _ => none) (text "public") (-7) [negativeLevel]).1 0 0 short).mpr
    ⟨by decide, by decide, by decide, by decide, valid⟩

/-- The least integer of the type cannot be sent: it has a place in four bytes, and is
given five. -/
theorem integer_not_built :
    ¬RoundTrips (buildSnmpResponse (fun _ => none) 1 (text "public") [⟨text "1.3.6.1", .integer, .int (-2 ^ 31)⟩] 0 0)
      parseSnmpMessage ⟨1, 0, 0, [⟨text "1.3.6.1", .integer, .int (-2 ^ 31)⟩]⟩ := by
  rintro ⟨data, built, -⟩
  have refused : buildSnmpResponse (fun _ => none) 1 (text "public") [⟨text "1.3.6.1", .integer, .int (-2 ^ 31)⟩] 0 0 =
      none := by decide
  rw [refused] at built
  cases built

end Snmp
