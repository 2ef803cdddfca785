import OpenAvc.Data.JsonText
import OpenAvc.Data.JsonLimits
import OpenAvc.Data.Utf8
import OpenAvc.Run.Outcome

namespace OpenAvc.Updater

/-- What reading or rewriting the marker raises; `unicode` is a `UnicodeDecodeError`. -/
inductive Raise
  | unicode
  | value
  | recursion
  | attribute
  | type
  deriving DecidableEq, Repr

/-- What the interpreter brings: the room `json` has for containers inside one
another, and what `x + 1` of a `float` is. -/
structure Python where
  room : Nat
  room_pos : 0 < room
  plusOne : Decimal → Json
  plusOne_float : ∀ d, (∃ e, plusOne d = .float e) ∨ ∃ name, plusOne d = .constant name

/-- `int` or `float` of the JSON number that begins with these digits. -/
def floatFollows : Text → Bool
  | 46 :: d :: _ => isDigit d
  | e :: c :: t => (e = 101 ∨ e = 69) ∧ (isDigit c ∨ (c = 43 ∨ c = 45) ∧ t.head?.any isDigit)
  | _ => false

/-- An `int` of too many digits ends here. -/
def overlong (s : Json.Scan) : Bool :=
  match s.mode with
  | .lexeme read =>
    let lexeme := read.reverse
    let unsigned := if lexeme.head? = some 45 then lexeme.tail else lexeme
    let (whole, rest) := unsigned.span isDigit
    whole.length > Json.Scan.intLimit ∧ whole.head? ≠ some 48 ∧ ¬floatFollows rest
  | _ => false

/-- Whether a text that is not read stops the scanner at an `int` of too many
digits: `int` raises a `ValueError` then that is no `JSONDecodeError`. -/
def stopsAtDigits (budget : Nat) : Json.Scan → Text → Bool
  | s, [] => overlong s
  | s, c :: t =>
    match Json.Scan.step budget s c with
    | .ok s' => stopsAtDigits budget s' t
    | .error _ => overlong s

/-- `json.loads`, `none` for a `JSONDecodeError`. -/
def loads (P : Python) (t : Text) : Except Raise (Option Json) :=
  match Json.loads P.room t with
  | .ok v => .ok (some v)
  | .error .recursion => .error .recursion
  | .error .value => if stopsAtDigits P.room {} t then .error .value else .ok none

/-- `json.dumps` -/
def dumps (P : Python) (v : Json) : Except Raise Text :=
  if Json.writable P.room v then .ok (Json.dumps {} v) else .error .value

/-- A call that reads and writes the marker file; it has no bytes when there is
no such file. -/
abbrev Op := EStateM Raise (Option Bytes)

variable (P : Python)

def lift {α : Type} (r : Except Raise α) : Op α := fun file =>
  match r with
  | .ok a => .ok a file
  | .error e => .error e file

/-- `marker_path.write_text(json.dumps(data))` -/
def writeMarker (data : Json) : Op Unit := do
  let t ← lift (dumps P data)
  set (some (encodeUtf8 t))

/-- The fields `write_pending_marker` writes. -/
def markerData (boot : Option Text) (fromVersion toVersion : Text) (backup : Option Text) : List (Text × Json) :=
  [(text "from_version", .str fromVersion), (text "to_version", .str toVersion), (text "attempts", .int 0)] ++
    (boot.elim [] fun id => [(text "boot", .str id)]) ++ backup.elim [] fun path => [(text "backup", .str path)]

/-- `write_pending_marker` -/
def writePendingMarker (boot : Option Text) (fromVersion toVersion : Text) (backup : Option Text) : Op Unit :=
  writeMarker P (.obj (markerData boot fromVersion toVersion backup))

/-- `read_pending_marker`: `None` is what JSON calls `null`. -/
def readPendingMarker : Op Json := do
  match (← get) with
  | none => return .null
  | some bytes =>
    match decodeUtf8 bytes with
    | none => throw .unicode
    | some t => return (← lift (loads P t)).getD .null

/-- `value + 1` -/
def plusOne : Json → Except Raise Json
  | .int n => .ok (.int (n + 1))
  | .bool b => .ok (.int ((if b then 1 else 0) + 1))
  | .float d => .ok (P.plusOne d)
  | .constant name => .ok (.constant name)
  | .null | .str _ | .arr _ | .obj _ => .error .type

/-- `value >= 2` of a number -/
def atLeastTwo : Json → Bool
  | .int n => 2 ≤ n
  | .float d => 2 ≤ d.value
  | .constant name => name = "Infinity"
  | _ => false

/-- `recorded` counts as the boot `boot`. -/
def sameBoot (boot : Option Text) (recorded : Option Json) : Bool :=
  match boot, recorded with
  | none, _ | _, none | _, some .null => true
  | some id, some (.str id') => id = id'
  | some _, some _ => false

/-- `record_startup_attempt` -/
def recordStartupAttempt (boot : Option Text) : Op Json := do
  match (← readPendingMarker P) with
  | .null => return .int 0
  | .obj data =>
    if sameBoot boot (data.lookup (text "boot")) then
      let attempts ← lift (plusOne P ((data.lookup (text "attempts")).getD (.int 0)))
      writeMarker P (.obj (Dict.set data (text "attempts") attempts))
      return attempts
    else
      let data := Dict.set data (text "attempts") (.int 1)
      writeMarker P (.obj (Dict.set data (text "boot") (boot.elim .null .str)))
      return .int 1
  | _ => throw .attribute

/-- `clear_pending_marker` -/
def clearPendingMarker : Op Unit := set (none : Option Bytes)

/-- `confirm_startup`, its log lines left out -/
def confirmStartup : Op Unit := do
  let marker ← readPendingMarker P
  if ¬marker.truthy then return
  clearPendingMarker
  if ¬marker.isObj then throw .attribute

/-- `check_rollback_needed` -/
def checkRollbackNeeded (boot : Option Text) : Op Bool := do
  let marker ← readPendingMarker P
  if marker matches .null then return false
  return atLeastTwo (← recordStartupAttempt P boot)

end OpenAvc.Updater
