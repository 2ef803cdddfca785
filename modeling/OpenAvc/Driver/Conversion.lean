import Mathlib.Tactic.FieldSimp
import Mathlib.Tactic.GCongr
import Mathlib.Tactic.Linarith
import Mathlib.Tactic.NormNum
import Mathlib.Tactic.Positivity
import Mathlib.Tactic.Ring
import OpenAvc.Driver.Gates

/-! The numbers that a device packs its values into: `scale`, `offset` and `unknown`. Numbers
are exact here, and of any size. -/

namespace OpenAvc.Driver.Conversion

/-- What a device sends, what a variable holds or what a declaration gives. -/
inductive Value
  | null
  | bool (b : Bool)
  | int (n : Int)
  | float (x : Number)
  | str (t : Text)
  /-- Anything else, by what `str` makes of it. -/
  | other (written : Text)
  deriving DecidableEq

/-- The digits that `float` reads outside ASCII, and how a `float` is written. -/
structure Python where
  decimal : Nat → Option (Fin 10)
  repr : Number → Text

/-- A declaration's keys; `unknown` is there where it is a list. -/
structure Declaration where
  scale : Value
  offset : Value
  unknown : Option (List Value)

variable (py : Python)

/-- `str(raw)` -/
def str (raw : Value) : Text :=
  match raw with
  | .null => text "None"
  | .bool b => if b then text "True" else text "False"
  | .int n => intText n
  | .float x => py.repr x
  | .str t => t
  | .other written => written

/-- `_finite` -/
def finite (raw : Value) : Option ℚ :=
  match raw with
  | .bool _ => none
  | .int n => some n
  | .float x => x.finite
  | raw => (FloatText.pyFloat py.decimal (str py raw).strip).bind Number.finite

/-- `_whole` -/
def whole (number : ℚ) : Int :=
  ⌊|number| + 1 / 2⌋ * if 0 ≤ number then 1 else -1

/-- `round(number, 9)` -/
def round9 (number : ℚ) : ℚ :=
  Double.roundEven (number * 10 ^ 9) / 10 ^ 9

/-- `_scale_offset` -/
def scaleOffset (decl : Declaration) : ℚ × ℚ :=
  let scale := match finite py decl.scale with
    | none => 1
    | some s => if s = 0 then 1 else s
  (scale, (finite py decl.offset).getD 0)

/-- One entry of `unknown` names the reading: a text by its characters, a number by its value. -/
def names (raw code : Value) : Bool :=
  match code with
  | .str t => (str py raw).strip = t
  | code => (finite py raw).isSome && finite py code = finite py raw

/-- `is_unknown_reading` -/
def isUnknownReading (raw : Value) (decl : Option Declaration) : Bool :=
  match decl.bind Declaration.unknown with
  | none => false
  | some codes => codes.any (names py raw)

/-- `decl.get("scale") is None and decl.get("offset") is None` does not hold. -/
def Declaration.converts (decl : Declaration) : Bool :=
  decl.scale ≠ .null ∨ decl.offset ≠ .null

/-- `reading_from_wire`; `none` where the declaration decides nothing. -/
def readingFromWire (raw : Value) (decl : Option Declaration) (valueType : Text) : Option Value :=
  match decl with
  | none => none
  | some d =>
    if isUnknownReading py raw decl then some .null
    else if !d.converts then none
    else match finite py raw with
      | none => none
      | some number =>
        let (scale, offset) := scaleOffset py d
        let real := round9 (number * scale + offset)
        if valueType = text "integer" then some (.int (whole real)) else some (.float (.ofRat real))

/-- `value_to_wire` -/
def valueToWire (value : Value) (decl : Option Declaration) : Value :=
  match decl with
  | none => value
  | some d =>
    if value = .null then
      match d.unknown with
      | some (code :: _) => code
      | _ => .null
    else if !d.converts then value
    else match finite py value with
      | none => value
      | some number =>
        let (scale, offset) := scaleOffset py d
        .int (whole (round9 ((number - offset) / scale)))

theorem whole_near (q : ℚ) : |(whole q : ℚ) - q| ≤ 1 / 2 := by
  have low := Int.floor_le (|q| + 1 / 2)
  have high := Int.lt_floor_add_one (|q| + 1 / 2)
  unfold whole
  split
  · rename_i positive
    rw [abs_of_nonneg positive] at low high ⊢
    push_cast
    rw [abs_le]
    constructor <;> linarith
  · rename_i negative
    rw [abs_of_neg (not_le.mp negative)] at low high ⊢
    push_cast
    rw [abs_le]
    constructor <;> linarith

/-- Halves included, what is near an integer is only near the one. -/
theorem whole_eq {q : ℚ} {n : ℤ} (near : |q - n| < 1 / 2) : whole q = n := by
  have step := whole_near q
  have apart : |((whole q - n : ℤ) : ℚ)| < 1 := by
    calc |((whole q - n : ℤ) : ℚ)| = |((whole q : ℚ) - q) + (q - n)| := by push_cast; ring_nf
      _ ≤ |(whole q : ℚ) - q| + |q - n| := abs_add_le _ _
      _ < 1 := by linarith
  have none : |whole q - n| < 1 := by exact_mod_cast apart
  have zero := Int.abs_lt_one_iff.mp none
  omega

theorem round9_near (q : ℚ) : |round9 q - q| ≤ 1 / 2 / 10 ^ 9 := by
  obtain ⟨below, above⟩ := Double.roundEven_near (q * 10 ^ 9)
  have same : round9 q - q = ((Double.roundEven (q * 10 ^ 9) : ℚ) - q * 10 ^ 9) / 10 ^ 9 := by
    unfold round9
    field_simp
  have half : |(Double.roundEven (q * 10 ^ 9) : ℚ) - q * 10 ^ 9| ≤ 1 / 2 := by
    rw [abs_le]
    constructor <;> linarith
  rw [same, abs_div, abs_of_pos (by positivity : (0 : ℚ) < 10 ^ 9)]
  gcongr

/-- The number on the wire, from the number it stands for. -/
def wire (scale offset v : ℚ) : Int :=
  whole (round9 ((v - offset) / scale))

/-- The number that the one on the wire stands for. -/
def real (scale offset raw : ℚ) : ℚ :=
  round9 (raw * scale + offset)

/-- The scale is so much wider than the ninth decimal that what rounding there loses stays
far below a half on the wire. -/
theorem wire_real {scale : ℚ} (wide : 1 / 10 ^ 8 ≤ |scale|) (offset : ℚ) (n : ℤ) : wire scale offset (real scale offset n) = n := by
  have positive : 0 < |scale| := lt_of_lt_of_le (by positivity) wide
  have nonzero : scale ≠ 0 := abs_pos.mp positive
  have first := round9_near (n * scale + offset)
  have second := round9_near ((real scale offset n - offset) / scale)
  have drift : |(real scale offset n - offset) / scale - n| ≤ 1 / 20 := by
    have same : (real scale offset n - offset) / scale - n = (round9 (n * scale + offset) - (n * scale + offset)) / scale := by
      unfold real
      field_simp
      ring
    rw [same, abs_div, div_le_iff₀ positive]
    linarith
  refine whole_eq ?_
  calc |round9 ((real scale offset n - offset) / scale) - n|
      = |(round9 ((real scale offset n - offset) / scale) - (real scale offset n - offset) / scale) +
          ((real scale offset n - offset) / scale - n)| := by ring_nf
    _ ≤ |round9 ((real scale offset n - offset) / scale) - (real scale offset n - offset) / scale| +
          |(real scale offset n - offset) / scale - n| := abs_add_le _ _
    _ < 1 / 2 := by linarith

/-- What both roundings on the wire lose grows with the scale; the last one does not. -/
theorem real_wire {scale : ℚ} (nonzero : scale ≠ 0) (offset v : ℚ) :
    |real scale offset (wire scale offset v) - v| ≤ |scale| / 2 + (|scale| + 1) / 2 / 10 ^ 9 := by
  have first := round9_near ((v - offset) / scale)
  have second := whole_near (round9 ((v - offset) / scale))
  have third := round9_near (wire scale offset v * scale + offset)
  have onWire : |(wire scale offset v : ℚ) - (v - offset) / scale| ≤ 1 / 2 + 1 / 2 / 10 ^ 9 := by
    calc |(wire scale offset v : ℚ) - (v - offset) / scale|
        = |((wire scale offset v : ℚ) - round9 ((v - offset) / scale)) + (round9 ((v - offset) / scale) - (v - offset) / scale)| := by
          ring_nf
      _ ≤ |(wire scale offset v : ℚ) - round9 ((v - offset) / scale)| + |round9 ((v - offset) / scale) - (v - offset) / scale| :=
          abs_add_le _ _
      _ ≤ 1 / 2 + 1 / 2 / 10 ^ 9 := add_le_add second first
  have scaled : |(wire scale offset v : ℚ) * scale + offset - v| ≤ (1 / 2 + 1 / 2 / 10 ^ 9) * |scale| := by
    have same : (wire scale offset v : ℚ) * scale + offset - v = ((wire scale offset v : ℚ) - (v - offset) / scale) * scale := by
      field_simp
      ring
    rw [same, abs_mul]
    gcongr
  calc |real scale offset (wire scale offset v) - v|
      = |(round9 (wire scale offset v * scale + offset) - (wire scale offset v * scale + offset)) +
          ((wire scale offset v : ℚ) * scale + offset - v)| := by unfold real; ring_nf
    _ ≤ |round9 (wire scale offset v * scale + offset) - (wire scale offset v * scale + offset)| +
          |(wire scale offset v : ℚ) * scale + offset - v| := abs_add_le _ _
    _ ≤ 1 / 2 / 10 ^ 9 + (1 / 2 + 1 / 2 / 10 ^ 9) * |scale| := add_le_add third scaled
    _ = |scale| / 2 + (|scale| + 1) / 2 / 10 ^ 9 := by ring

section Converting

variable {py : Python} {d : Declaration} {scale offset : ℚ}

/-- A number that is no unknown value is read by the scale and the offset. -/
theorem readingFromWire_number (declared : scaleOffset py d = (scale, offset)) (converts : d.converts = true) {raw : Value}
    {q : ℚ} (known : isUnknownReading py raw (some d) = false) (number : finite py raw = some q) {valueType : Text}
    (fraction : valueType ≠ text "integer") :
    readingFromWire py raw (some d) valueType = some (.float (.ofRat (real scale offset q))) := by
  unfold readingFromWire
  simp only [known, converts, number, declared, if_neg fraction]
  rfl

theorem ne_null_of_finite {value : Value} {q : ℚ} (number : finite py value = some q) : value ≠ .null := by
  rintro rfl
  have word : finite py .null = none := by
    have unread : FloatText.pyFloat py.decimal (text "None").strip = none := rfl
    unfold finite str
    simp only [unread]
    rfl
  rw [word] at number
  cases number

/-- A number is written by the scale and the offset. -/
theorem valueToWire_number (declared : scaleOffset py d = (scale, offset)) (converts : d.converts = true) {value : Value}
    {q : ℚ} (number : finite py value = some q) : valueToWire py value (some d) = .int (wire scale offset q) := by
  unfold valueToWire
  simp only [if_neg (ne_null_of_finite number), converts, number, declared]
  rfl

theorem scale_ne_zero (declared : scaleOffset py d = (scale, offset)) : scale ≠ 0 := by
  have first : (scaleOffset py d).1 = scale := by rw [declared]
  rw [← first]
  unfold scaleOffset
  dsimp only
  split
  · exact one_ne_zero
  · split
    · exact one_ne_zero
    · assumption

end Converting

/-- An integer from the wire goes back as it came. A number that goes out comes back within a
half of the scale, and what rounding to the ninth decimal loses on the wire and off it. -/
theorem readings_round_trip (py : Python) (d : Declaration) (scale offset : ℚ) (declared : scaleOffset py d = (scale, offset))
    (converts : d.converts = true) (wide : 1 / 10 ^ 8 ≤ |scale|) :
    (∀ (raw : Value) (n : ℤ), finite py raw = some (n : ℚ) → isUnknownReading py raw (some d) = false →
      ∃ value, readingFromWire py raw (some d) (text "number") = some value ∧ valueToWire py value (some d) = .int n) ∧
    ∀ (value : Value) (v : ℚ), finite py value = some v → isUnknownReading py (valueToWire py value (some d)) (some d) = false →
      ∃ r : ℚ, readingFromWire py (valueToWire py value (some d)) (some d) (text "number") = some (.float (.ofRat r)) ∧
        |r - v| ≤ |scale| / 2 + (|scale| + 1) / 2 / 10 ^ 9 ∧ (|scale| ≤ 1 → |r - v| ≤ |scale| / 2 + 1 / 10 ^ 9) := by
  have fraction : text "number" ≠ text "integer" := by decide
  constructor
  · intro raw n number known
    refine ⟨_, readingFromWire_number declared converts known number fraction, ?_⟩
    have read : finite py (.float (.ofRat (real scale offset n))) = some (real scale offset n) := rfl
    rw [valueToWire_number declared converts read, wire_real wide]
  · intro value v number known
    have sent := valueToWire_number declared converts number
    rw [sent] at known ⊢
    have onWire : finite py (.int (wire scale offset v)) = some (wire scale offset v : ℚ) := rfl
    have bound := real_wire (scale_ne_zero declared) offset v
    refine ⟨_, readingFromWire_number declared converts known onWire fraction, bound, fun small => ?_⟩
    linarith

/-- Python without what only it knows. -/
def Python.plain : Python := ⟨fun _ => none, fun _ => []⟩

/-- Hundredths of a decibel, with one value for silence. -/
def fader : Declaration := ⟨.float (.ofRat (1 / 100)), .int (-18), some [.int 255]⟩

theorem readings_round_trip_fader :
    (∀ (raw : Value) (n : ℤ), finite .plain raw = some (n : ℚ) → isUnknownReading .plain raw (some fader) = false →
      ∃ value, readingFromWire .plain raw (some fader) (text "number") = some value ∧
        valueToWire .plain value (some fader) = .int n) ∧
    ∀ (value : Value) (v : ℚ), finite .plain value = some v →
      isUnknownReading .plain (valueToWire .plain value (some fader)) (some fader) = false →
      ∃ r : ℚ, readingFromWire .plain (valueToWire .plain value (some fader)) (some fader) (text "number") =
          some (.float (.ofRat r)) ∧
        |r - v| ≤ |1 / 100| / 2 + (|1 / 100| + 1) / 2 / 10 ^ 9 ∧ (|(1 / 100 : ℚ)| ≤ 1 → |r - v| ≤ |1 / 100| / 2 + 1 / 10 ^ 9) :=
  readings_round_trip .plain fader (1 / 100) (-18) (by decide +kernel) rfl (by norm_num)

/-- A megabyte to one on the wire. -/
def megabytes : Declaration := ⟨.int 1048576, .null, none⟩

/-- Half a megabyte less 1/4096 goes out as one, and comes back as a megabyte. -/
theorem readings_round_up_wide :
    finite .plain (.float (.ofRat (2147483647 / 4096))) = some (2147483647 / 4096) ∧
    valueToWire .plain (.float (.ofRat (2147483647 / 4096))) (some megabytes) = .int 1 ∧
    isUnknownReading .plain (.int 1) (some megabytes) = false ∧
    readingFromWire .plain (.int 1) (some megabytes) (text "number") = some (.float (.ofRat 1048576)) ∧
    (|1048576| / 2 + 1 / 10 ^ 9 : ℚ) < |1048576 - 2147483647 / 4096| := by
  refine ⟨rfl, by decide +kernel, rfl, by decide +kernel, by norm_num⟩

end OpenAvc.Driver.Conversion
