import OpenAvc.Data.Hex
import OpenAvc.Data.Utf8

/-! Bytes of a payload that go out behind an escape byte, and how they come back. -/

namespace OpenAvc.Driver.Escaping

/-- A dict from bytes to bytes. -/
structure ByteMap where
  entries : List (UInt8 × UInt8)
  distinct : (entries.map Prod.fst).Nodup

namespace ByteMap

variable (special : ByteMap)

/-- `special.get(b)` -/
def get? (b : UInt8) : Option UInt8 :=
  special.entries.lookup b

/-- No two bytes go out as one. -/
def Injective : Prop :=
  (special.entries.map Prod.snd).Nodup

instance : Decidable special.Injective :=
  inferInstanceAs (Decidable (List.Nodup _))

/-- `{v: k for k, v in special.items()}`, where no value comes twice. -/
def inverse (injective : special.Injective) : ByteMap where
  entries := special.entries.map Prod.swap
  distinct := by
    rw [List.map_map]
    exact injective

theorem get?_inverse (injective : special.Injective) {b v : UInt8} (held : special.get? b = some v) :
    (special.inverse injective).get? v = some b := by
  have entry : (v, b) ∈ (special.inverse injective).entries :=
    List.mem_map.mpr ⟨(b, v), List.mem_of_lookup_eq_some held, rfl⟩
  exact List.lookup_of_mem (special.inverse injective).distinct entry

end ByteMap

/-- `f"0x{b:02X}"` -/
def hexByte (b : UInt8) : Text :=
  text "0x" ++ [Hex.digit (b.toNat / 16), Hex.digit (b.toNat % 16)]

/-- The message of the `ValueError`. -/
def unmapped (escapeChar : UInt8) : Text :=
  let b := hexByte escapeChar
  text "escape_char " ++ b ++ text " must be a key in `special` (map it to itself, e.g. \x7b" ++ b ++ text ": " ++ b ++
    text "\x7d); without it a raw escape byte is left unescaped and corrupts the stream on the round-trip"

/-- `_require_escape_char_mapped` -/
def requireEscapeCharMapped (escapeChar : UInt8) : Option ByteMap → Except Text ByteMap
  | none => .ok ⟨[(escapeChar, escapeChar)], List.nodup_singleton escapeChar⟩
  | some special => if (special.get? escapeChar).isSome then .ok special else .error (unmapped escapeChar)

/-- What goes out for one byte. -/
def escapeByte (escapeChar : UInt8) (special : ByteMap) (b : UInt8) : Bytes :=
  match special.get? b with
  | some v => [escapeChar, v]
  | none => [b]

/-- `escape_bytes` -/
def escapeBytes (data : Bytes) (escapeChar : UInt8) (special : Option ByteMap) : Except Text Bytes :=
  (requireEscapeCharMapped escapeChar special).map fun special => data.flatMap (escapeByte escapeChar special)

/-- The loop of `unescape_bytes`, over what is left of the data. -/
def unescapeFrom (escapeChar : UInt8) (special : ByteMap) : Bytes → Bytes
  | b :: next :: rest =>
    if b = escapeChar then
      match special.get? next with
      | some original => original :: unescapeFrom escapeChar special rest
      | none => b :: unescapeFrom escapeChar special (next :: rest)
    else b :: unescapeFrom escapeChar special (next :: rest)
  | [b] => [b]
  | [] => []

/-- `unescape_bytes` -/
def unescapeBytes (data : Bytes) (escapeChar : UInt8) (special : Option ByteMap) : Except Text Bytes :=
  (requireEscapeCharMapped escapeChar special).map fun special => unescapeFrom escapeChar special data

theorem unescapeFrom_other {escapeChar b : UInt8} (other : b ≠ escapeChar) (special : ByteMap) (rest : Bytes) :
    unescapeFrom escapeChar special (b :: rest) = b :: unescapeFrom escapeChar special rest := by
  cases rest with
  | nil => rfl
  | cons next rest => rw [unescapeFrom, if_neg other]

theorem unescapeFrom_pair {escapeChar v b : UInt8} {special : ByteMap} (held : special.get? v = some b) (rest : Bytes) :
    unescapeFrom escapeChar special (escapeChar :: v :: rest) = b :: unescapeFrom escapeChar special rest := by
  rw [unescapeFrom, if_pos rfl, held]

/-- The reader stands where the writer stood after every byte: a byte that went out as it
is was not the escape byte. -/
theorem unescapeFrom_escapeByte {escapeChar : UInt8} {special : ByteMap} (mapped : special.get? escapeChar ≠ none)
    (injective : special.Injective) (b : UInt8) (rest : Bytes) :
    unescapeFrom escapeChar (special.inverse injective) (escapeByte escapeChar special b ++ rest) =
      b :: unescapeFrom escapeChar (special.inverse injective) rest := by
  unfold escapeByte
  cases held : special.get? b with
  | some v =>
    have back := special.get?_inverse injective held
    exact unescapeFrom_pair back rest
  | none =>
    have other : b ≠ escapeChar := by
      rintro rfl
      exact mapped held
    exact unescapeFrom_other other _ rest

theorem unescapeFrom_escape {escapeChar : UInt8} {special : ByteMap} (mapped : special.get? escapeChar ≠ none)
    (injective : special.Injective) (data : Bytes) :
    unescapeFrom escapeChar (special.inverse injective) (data.flatMap (escapeByte escapeChar special)) = data := by
  induction data with
  | nil => rfl
  | cons b data ih => rw [List.flatMap_cons, unescapeFrom_escapeByte mapped injective, ih]

theorem requireEscapeCharMapped_some {escapeChar v : UInt8} {special : ByteMap} (held : special.get? escapeChar = some v) :
    requireEscapeCharMapped escapeChar (some special) = .ok special := by
  have mapped : (special.get? escapeChar).isSome = true := by rw [held]; rfl
  rw [requireEscapeCharMapped, if_pos mapped]

/-- What was escaped comes back, read with the map turned round. -/
theorem unescape_escape_bytes (escapeChar : UInt8) (special : ByteMap) (injective : special.Injective)
    (self : special.get? escapeChar = some escapeChar) (data : Bytes) :
    (escapeBytes data escapeChar (some special) >>= fun escaped =>
      unescapeBytes escaped escapeChar (some (special.inverse injective))) = .ok data := by
  have mapped : special.get? escapeChar ≠ none := by
    rw [self]
    exact Option.some_ne_none escapeChar
  have escaped : escapeBytes data escapeChar (some special) = .ok (data.flatMap (escapeByte escapeChar special)) := by
    rw [escapeBytes, requireEscapeCharMapped_some self]
    rfl
  rw [escaped]
  change unescapeBytes _ escapeChar _ = .ok data
  rw [unescapeBytes, requireEscapeCharMapped_some (special.get?_inverse injective self)]
  exact congrArg Except.ok (unescapeFrom_escape mapped injective data)

/-- A map that turns a byte into one which goes out as it is, and another into the first. -/
def crossed : ByteMap := ⟨[(254, 254), (2, 130), (3, 2)], by decide⟩

theorem unescape_escape_crossed :
    (escapeBytes [254, 2, 130, 3, 254, 254] 254 (some crossed) >>= fun escaped =>
      unescapeBytes escaped 254 (some (crossed.inverse (by decide)))) = .ok [254, 2, 130, 3, 254, 254] :=
  unescape_escape_bytes 254 crossed (by decide) rfl [254, 2, 130, 3, 254, 254]

end OpenAvc.Driver.Escaping
