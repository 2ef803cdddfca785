import OpenAvc.Snmp.RoundTrip

/-! Which integers the types of a MIB take. -/

namespace Snmp

open Octets

/-- The range of a type of integers: its least one, and the one after its greatest. -/
def SnmpType.range? : SnmpType → Option (Int × Int)
  | .integer => some (-2 ^ 31, 2 ^ 31)
  | .gauge32 | .unsigned32 | .counter32 | .timeticks => some (0, 2 ^ 32)
  | .counter64 => some (0, 2 ^ 64)
  | _ => none

/-- The range that the encoder has bytes for. -/
def SnmpType.taken? : SnmpType → Option (Int × Int)
  | .integer => some (-2 ^ 30 + 1, 2 ^ 31)
  | .gauge32 | .unsigned32 | .counter32 | .timeticks => some (0, 2 ^ 39)
  | .counter64 => some (0, 2 ^ 71)
  | _ => none

variable (decimal : Nat → Option (Fin 10)) {type : SnmpType} {value : Int} {bytes : List Nat} {low high : Int}

theorem encodeUnsigned_eq_some (k : Nat) : encodeUnsigned decimal type (.int value) (k + 1) = some bytes ↔
    (0 ≤ value ∧ value < 2 ^ (8 * k + 7)) ∧ bytes = berEncodeTagged type.tag [integerPayload value] := by
  simp only [encodeUnsigned, Value.toInt, Option.bind_eq_bind, Option.bind_some]
  rcases lt_or_ge value 0 with sign | sign
  · rw [if_pos sign]
    have negative : ¬0 ≤ value := by omega
    simp [negative]
  · have room := length_integerPayload_nonneg sign k
    rw [if_neg (by omega), encodeTaggedInt, Option.ite_none_right_eq_some, room, Option.some.injEq, eq_comm (a := bytes)]
    constructor
    · rintro ⟨small, same⟩
      exact ⟨⟨sign, small⟩, same⟩
    · rintro ⟨⟨_, small⟩, same⟩
      exact ⟨small, same⟩

/-- An integer is encoded where the byte count of its payload is low enough. -/
theorem encodeTypedValue_eq_some (taken : type.taken? = some (low, high)) :
    encodeTypedValue decimal type (.int value) = some bytes ↔
      (low ≤ value ∧ value < high) ∧ bytes = berEncodeTagged type.tag [integerPayload value] := by
  have word := @encodeUnsigned_eq_some decimal type value bytes 4
  have long := @encodeUnsigned_eq_some decimal type value bytes 8
  cases type <;> cases taken
  case integer =>
    have fits : Fits value ↔ -2 ^ 30 + 1 ≤ value ∧ value < 2 ^ 31 := by
      rw [Fits]
      omega
    rw [← fits]
    exact berEncodeInteger_eq_some
  case counter64 => exact long
  all_goals exact word

/-- What was encoded is read as it is, under the name that its tag is read as. -/
theorem decodeTypedValue_taken (taken : type.taken? = some (low, high)) (inside : low ≤ value ∧ value < high) :
    decodeTypedValue (berEncodeTagged type.tag [integerPayload value]) 0 =
      some (typeOf type.tag, .int value, (berEncodeTagged type.tag [integerPayload value]).length) := by
  have stands := Stands.whole (berEncodeTagged type.tag [integerPayload value])
  have short : (integerPayload value).length ≤ 9 := by
    have within : -2 ^ 70 < value ∧ value < 2 ^ 71 := by
      cases type <;> cases taken <;> omega
    rcases lt_or_ge value 0 with sign | sign
    · exact (length_integerPayload_neg sign 8).mpr within.1
    · exact (length_integerPayload_nonneg sign 8).mpr within.2
  have T := Tagged.of_stands (by simp only [List.flatten_singleton]; omega) stands
  have raw := T.payload.slice
  have stop := T.stop
  rw [List.flatten_singleton] at raw stop
  rw [decodeTypedValue, T.here]
  dsimp only
  rw [T.length]
  dsimp only
  rw [List.flatten_singleton, raw, stop, Nat.zero_add]
  have unsigned (sign : 0 ≤ value) := integerPayload_unsigned sign
  cases type <;> cases taken
  case integer =>
    have fits : Fits value := by
      rw [Fits]
      omega
    have read := berDecodeInteger_stands fits stands
    rw [Nat.zero_add] at read
    exact congrArg (fun r : Int × Nat => some (SnmpType.integer, Value.int r.1, r.2)) read
  all_goals exact congrArg (fun m => some (_, Value.int m, _)) (unsigned inside.1)

/-- A value outside the range of its type is refused, and one inside is read back, under
a name of the same tag. -/
def Accepted (type : SnmpType) (value : Int) : Prop :=
  ∀ low high, type.range? = some (low, high) →
    if low ≤ value ∧ value < high then ∃ bytes name, encodeTypedValue decimal type (.int value) = some bytes ∧
      decodeTypedValue bytes 0 = some (name, .int value, bytes.length) ∧ name.tag = type.tag
    else encodeTypedValue decimal type (.int value) = none

/-- The encoder counts bytes, and a negative integer as one bit longer than it is. The values
that it then decides otherwise than the range does are left out. -/
def Decided : SnmpType → Int → Prop
  | .integer, value => ¬(-2 ^ 31 ≤ value ∧ value ≤ -2 ^ 30)
  | .gauge32, value | .unsigned32, value | .counter32, value | .timeticks, value => ¬(2 ^ 32 ≤ value ∧ value < 2 ^ 39)
  | .counter64, value => ¬(2 ^ 64 ≤ value ∧ value < 2 ^ 71)
  | _, _ => True

/-- Which integers are accepted is decided by the range of their type, but for the ones near
its ends. -/
theorem typed_value_ranges (type : SnmpType) (value : Int) : Accepted decimal type value ↔ Decided type value := by
  have sameTag (low high : Int) (range : type.range? = some (low, high)) : (typeOf type.tag).tag = type.tag := by
    cases type <;> cases range <;> rfl
  have agree (low high lowest highest : Int) (range : type.range? = some (low, high))
      (taken : type.taken? = some (lowest, highest)) : Accepted decimal type value ↔
      ((low ≤ value ∧ value < high) ↔ (lowest ≤ value ∧ value < highest)) := by
    have encodes (bytes : List Nat) := @encodeTypedValue_eq_some decimal type value bytes _ _ taken
    constructor
    · intro accepted
      have decides := accepted low high range
      constructor
      · intro inside
        rw [if_pos inside] at decides
        obtain ⟨bytes, name, some, _⟩ := decides
        exact ((encodes bytes).mp some).1
      · intro inside
        by_contra outside
        rw [if_neg outside, (encodes _).mpr ⟨inside, rfl⟩] at decides
        cases decides
    · intro same low' high' range'
      cases range.symm.trans range'
      split
      · rename_i inside
        exact ⟨_, _, (encodes _).mpr ⟨same.mp inside, rfl⟩, decodeTypedValue_taken taken (same.mp inside),
          sameTag low high range⟩
      · rename_i outside
        refine Option.eq_none_iff_forall_ne_some.mpr fun bytes some => ?_
        exact outside (same.mpr ((encodes bytes).mp some).1)
  cases type
  case integer | counter64 | gauge32 | unsigned32 | counter32 | timeticks =>
    rw [agree _ _ _ _ rfl rfl, Decided]
    omega
  all_goals exact ⟨fun _ => trivial, fun _ low high range => nomatch range⟩

/-- A gauge past its range is sent, and the least integer is not. -/
theorem range_not_kept : ¬Accepted (fun _ => none) .gauge32 (2 ^ 32) ∧ ¬Accepted (fun _ => none) .integer (-2 ^ 31) := by
  constructor
  · intro accepted
    have refused := accepted 0 (2 ^ 32) rfl
    rw [if_neg (by decide)] at refused
    exact absurd refused (by decide)
  · intro accepted
    have sent := accepted (-2 ^ 31) (2 ^ 31) rfl
    rw [if_pos (by decide)] at sent
    obtain ⟨bytes, name, some, _⟩ := sent
    have refused : encodeTypedValue (fun _ => none) .integer (.int (-2 ^ 31)) = none := by decide
    rw [refused] at some
    cases some

end Snmp
