import OpenAvc.Data.Cuts
import OpenAvc.Driver.Placeholders

/-! The regular expression a command template is turned into, to know the command by. -/

namespace OpenAvc.Driver

open Cuts (Part)

/-- Blanks and the escape sequences `\r` and `\n` at the end of a text, read from its end. -/
def dropTerminators : Text → Text
  | 114 :: 92 :: t => dropTerminators t
  | 110 :: 92 :: t => dropTerminators t
  | c :: t => if isSpace c then dropTerminators t else c :: t
  | [] => []

/-- `strip`, and then `rstrip` for as long as a terminator can be cut off. -/
def stripTerminators (t : Text) : Text :=
  (dropTerminators (t.dropWhile isSpace).reverse).reverse

/-- `spec_int_base` -/
def specIntBase (spec : Text) : Option Nat :=
  match spec.getLast? with
  | some type => if type = 120 ∨ type = 88 then some 16 else if type = 111 then some 8 else if type = 98 then some 2 else none
  | none => none

/-- `_BASE_CAPTURES` -/
def baseCapture (base : Nat) : Text :=
  if base = 16 then text "([0-9a-fA-F]+)" else if base = 8 then text "([0-7]+)" else text "([01]+)"

/-- `_capture_for` -/
def captureFor (type spec : Text) : Text :=
  if type = text "integer" ∨ type = text "child_id" then
    match specIntBase spec with
    | some base => baseCapture base
    | none => if type = text "child_id" then text "(\\d+)" else text "(-?\\d+)"
  else if type = text "number" then text "(-?[\\d.]+)"
  else if type = text "boolean" then
    if spec.getLast?.any (text "dxXob").contains then
      match specIntBase spec with
      | some base => baseCapture base
      | none => text "(\\d+)"
    else text "(true|false|0|1)"
  else text "(.+)"

/-- What a pattern reads as something other than itself. -/
def special : Text :=
  text "()*+?.[]\x7b\x7d|^$"

/-- `_escape_literal` -/
def escapeLiteral (t : Text) : Text :=
  t.flatMap fun c => if special.contains c then [92, c] else [c]

/-- The params of a command with their types. -/
abbrev ParamTypes := List (Text × Text)

/-- `send_regex` -/
def sendRegex (template : Text) (params : ParamTypes) : Text :=
  (pieces identName (stripTerminators template)).flatMap fun piece =>
    match piece with
    | .char c => escapeLiteral [c]
    | .hole name spec =>
      match params.lookup name with
      | some type => captureFor type (spec.getD [])
      | none => escapeLiteral (holeText name spec)

/-! ### Reading the pattern -/

/-- `\d` -/
def isDecimal (fmt : Formats) (c : Nat) : Bool :=
  isDigit c || (128 ≤ c && (fmt.decimal c).isSome)

def isHex (c : Nat) : Bool :=
  isDigit c || (65 ≤ c ∧ c ≤ 70) || (97 ≤ c ∧ c ≤ 102)

/-- One or more of a class. -/
def some' (inClass : Nat → Bool) (t : Text) : Bool :=
  t ≠ [] && t.all inClass

/-- `-?` before it. -/
def signed (inClass : Nat → Bool) : Text → Bool
  | 45 :: t => some' inClass t
  | t => some' inClass t

/-- The groups of a send pattern, and what each of them takes. -/
def captures (fmt : Formats) : List (Text × (Text → Bool)) := [
  (text "(\\d+)", some' (isDecimal fmt)),
  (text "(-?\\d+)", signed (isDecimal fmt)),
  (text "([0-9a-fA-F]+)", some' isHex),
  (text "([0-7]+)", some' fun c => 48 ≤ c ∧ c ≤ 55),
  (text "([01]+)", some' fun c => c = 48 ∨ c = 49),
  (text "(-?[\\d.]+)", signed fun c => isDecimal fmt c || c = 46),
  (text "(true|false|0|1)", fun t => t ∈ [text "true", text "false", text "0", text "1"]),
  (text "(.+)", some' (· ≠ 10))]

/-- What `re` makes of a pattern, where it has no other constructs than these groups and
escaped characters, and so many characters of it have been read. -/
def readPattern (fmt : Formats) : Nat → Text → Option (List Part)
  | _, [] => some []
  | skip + 1, _ :: t => readPattern fmt skip t
  | 0, c :: t =>
    if c = 92 then
      match t with
      | d :: _ => if isLetter d || isDigit d then none else (readPattern fmt 1 t).map (.char d :: ·)
      | [] => none
    else if c = 40 then
      ((captures fmt).find? fun capture => capture.1.isPrefixOf (c :: t)).bind fun capture =>
        (readPattern fmt (capture.1.length - 1) t).map (.field capture.2 :: ·)
    else if special.contains c then none
    else (readPattern fmt 0 t).map (.char c :: ·)

/-- `re.fullmatch(pattern, line)` and its groups. -/
def fullmatch (fmt : Formats) (pattern line : Text) : Option (List Text) :=
  (readPattern fmt 0 pattern).bind fun parts => Cuts.fullmatch parts line

/-! ### The groups of the params -/

/-- The placeholders among some pieces, each with its place in the text. -/
def holes : Nat → List Piece → List (Nat × Text × Option Text)
  | _, [] => []
  | start, .char _ :: ps => holes (start + 1) ps
  | start, .hole name spec :: ps => (start, name, spec) :: holes (start + (holeText name spec).length) ps

/-- `send_param_groups` -/
def sendParamGroups (template : Text) (params : ParamTypes) : List (Text × Nat) :=
  let occurrences := params.flatMap fun p => (holes 0 (pieces (exactName p.1) template)).map fun h => (h.1, p.1)
  let occurrences := occurrences.mergeSort fun a b => a.1 ≤ b.1
  (occurrences.zipIdx 1).foldl
    (fun groups o => if (groups.lookup o.1.2).isSome then groups else groups ++ [(o.1.2, o.2)]) []

/-- `int(t, base)` of digits. -/
def readDigits (base : Nat) (t : Text) : Option Nat :=
  if t = [] then none
  else t.foldlM (fun n c =>
    let d := if isDigit c then c - 48 else if 97 ≤ c ∧ c ≤ 122 then c - 87 else if 65 ≤ c ∧ c ≤ 90 then c - 55 else base
    if d < base then some (base * n + d) else none) 0

end OpenAvc.Driver
