import OpenAvc.Conditions.Evaluation
import OpenAvc.Data.Rounding

/-! What a driver declares of its numbers, and the two gates that values pass on their
way to it: command params and device settings. -/

/-- `float(x)` -/
def Double.of (x : Number) : Double :=
  ⟨x.rounded, by cases x with
    | none => rfl
    | some x => exact congrArg some (Double.rounded_rounded x)⟩

/-- A double that is neither infinite nor NaN. -/
structure FiniteDouble where
  value : ℚ
  exact : Double.nearest value = ((value : WithTop ℚ) : Double.Extended)

namespace FiniteDouble

def number (x : FiniteDouble) : Number := .ofRat x.value

/-- `round(x, n)` for a positive `n` -/
def round (x : FiniteDouble) (n : ℕ) : Double :=
  ⟨some (Double.toDecimals x.value n), congrArg some (Double.rounded_nearest _)⟩

def double (x : FiniteDouble) : Double :=
  ⟨x.number, congrArg some x.exact⟩

end FiniteDouble

/-- `math.isfinite` -/
def Number.finite : Number → Option ℚ
  | some ((q : ℚ) : WithTop ℚ) => some q
  | _ => none

def Double.finite : Double → Option FiniteDouble
  | ⟨some ((q : ℚ) : WithTop ℚ), exact⟩ => some ⟨q, Option.some.inj exact⟩
  | _ => none

/-- `f == int(f)`, `float.is_integer` -/
def Number.integer (x : Number) : Option Int :=
  x.finite.bind fun q => if q.den = 1 then some q.num else none

namespace OpenAvc.Driver

/-- A value as a call or a schema has it. -/
inductive Arg
  | null
  | bool (b : Bool)
  | int (n : Int)
  | float (x : Double)
  | str (t : Text)
  /-- A list or a dict, and what `repr` makes of it. -/
  | container (written : Option Text)
  deriving DecidableEq

/-- What the gates use of Python: the digits that `float` reads, lower case, and how
numbers and strings are written. -/
structure Python where
  decimal : Nat → Option (Fin 10)
  lower : Text → Text
  repr : Double → Text
  general : Double → Text
  quoted : Text → Text

inductive Exc
  | overflowError
  | valueError
  deriving DecidableEq

/-- Why a value is not passed on: an error of the gate's own, or another exception. -/
inductive Failure
  | refused (message : Text)
  | raised (e : Exc)
  deriving DecidableEq

namespace Arg

/-- The number of what `isinstance(v, (int, float))` holds of. -/
def number : Arg → Option Number
  | .bool b => some (.ofRat (if b then 1 else 0))
  | .int n => some (.ofRat n)
  | .float x => some x.number
  | _ => none

/-- The `int` that a value is. -/
def int? : Arg → Option Int
  | .bool b => some (if b then 1 else 0)
  | .int n => some n
  | _ => none

/-- `str` refuses integers of more than so many digits. -/
def intStr (n : Int) : Except Failure Text :=
  if n.natAbs < 10 ^ Json.Scan.intLimit then .ok (intText n) else .error (.raised .valueError)

/-- `repr(v)` -/
def repr (py : Python) : Arg → Except Failure Text
  | .null => .ok (text "None")
  | .bool b => .ok (if b then text "True" else text "False")
  | .int n => intStr n
  | .float x => .ok (py.repr x)
  | .str t => .ok (py.quoted t)
  | .container (some written) => .ok written
  | .container none => .error (.raised .valueError)

/-- `str(v)` -/
def str' (py : Python) : Arg → Except Failure Text
  | .str t => .ok t
  | v => v.repr py

/-- `float(n)` -/
def floatOfInt (n : Int) : Except Failure FiniteDouble :=
  match (Double.of (.ofRat n)).finite with
  | some x => .ok x
  | none => .error (.raised .overflowError)

/-- `f"{v:g}"` -/
def general (py : Python) : Arg → Except Failure Text
  | .int n => (floatOfInt n).map fun x => py.general x.double
  | .float x => .ok (py.general x)
  | v => v.str' py

end Arg

/-- `float(t)` -/
def Python.float (py : Python) (t : Text) : Option Double :=
  (FloatText.pyFloat py.decimal t).map Double.of

/-- What a param and a setting declare alike. -/
structure Declared where
  type : Text
  min : Arg
  max : Arg

def numericTypes : List Text :=
  [text "integer", text "number", text "float"]

namespace Declared

/-- `num < min` -/
def below (d : Declared) (num : Number) : Bool :=
  d.min.number.any fun bound => num.cmp bound = some .lt

/-- `num > max` -/
def above (d : Declared) (num : Number) : Bool :=
  d.max.number.any fun bound => num.cmp bound = some .gt

def kind (d : Declared) : Text :=
  if d.type = text "integer" then text "whole number" else text "number"

def notANumber (py : Python) (d : Declared) (subject : Text) (value : Arg) : Except Failure Arg := do
  let written ← value.repr py
  throw (.refused (subject ++ text " must be a " ++ d.kind ++ text ", got " ++ written))

/-- The range check of `num`, whose number is `x`. -/
def checkRange (py : Python) (d : Declared) (subject : Text) (num : Arg) (x : Number) (passed : Arg) : Except Failure Arg :=
  if d.below x then do
    let bound ← d.min.str' py
    let written ← num.general py
    throw (.refused (subject ++ text " must be at least " ++ bound ++ text ", got " ++ written))
  else if d.above x then do
    let bound ← d.max.str' py
    let written ← num.general py
    throw (.refused (subject ++ text " must be at most " ++ bound ++ text ", got " ++ written))
  else .ok passed

end Declared

/-- An option of an `enum`, with its label if it has one. -/
structure Choice where
  value : Text
  label : Option Text

/-- A declared `pattern` or `regex`, and what it matches in full. -/
structure Pattern where
  source : Text
  fullmatch : Text → Bool

/-- `_resolve_enum_param_value` -/
def resolveEnumParamValue (value : Text) (options : List Choice) : Text :=
  if options.any (·.value = value) then value
  else ((options.find? fun o => o.label = some value ∧ value ≠ []).map (·.value)).getD value

/-- `_enum_wire_values` -/
def enumWireValues (options : List Choice) : List Text :=
  options.map (·.value)

structure ParamDef extends Declared where
  required : Bool
  trim : Bool
  decimals : Arg
  default : Arg
  values : List Choice
  pattern : Option Pattern

structure SettingDef extends Declared where
  values : List Choice
  regex : Option Pattern
  pattern : Option Pattern

/-- `_as_number` -/
def asNumber (py : Python) (ptype : Text) (value : Arg) : Except Failure (Option FiniteDouble) := do
  let f ← match value with
    | .int n => (Arg.floatOfInt n).map some
    | .float x => pure x.finite
    | .str t => pure ((py.float t).bind Double.finite)
    -- a bool is no number here, and for the others float raises TypeError
    | _ => pure none
  pure (f.filter fun f => ptype = text "integer" → f.number.integer.isSome)

namespace ParamDef

/-- `_is_unsupplied` -/
def isUnsupplied (pdef : ParamDef) : Arg → Bool
  | .null => true
  | .str t => pdef.type ≠ text "string" && (if pdef.trim then t.strip else t) = []
  | _ => false

def trimmed (pdef : ParamDef) : Arg → Arg
  | .str t => .str (if pdef.trim then t.strip else t)
  | v => v

/-- What is passed on of a value that reads as a number in range. -/
def normalized (pdef : ParamDef) (value : Arg) (num : FiniteDouble) : Arg :=
  match value with
  | .str t => .str t
  | value =>
    if pdef.type = text "integer" then .int ⌊num.value⌋
    else match pdef.decimals.int? with
      | some d => if d ≤ 0 then .int (Double.roundEven num.value) else .float (num.round d.toNat)
      | none => value

def admitNumber (py : Python) (pdef : ParamDef) (subject : Text) (value : Arg) : Except Failure Arg := do
  match ← asNumber py pdef.type value with
  | none => pdef.notANumber py subject value
  | some num => pdef.checkRange py subject (.float num.double) num.number (pdef.normalized value num)

/-- The wire value of a text where a param declares `values`. -/
def wireValue (pdef : ParamDef) (t : Text) : Text :=
  if pdef.values = [] then t else resolveEnumParamValue t pdef.values

def admitText (py : Python) (pdef : ParamDef) (subject : Text) (value : Arg) : Except Failure Arg :=
  match value with
  | .str t =>
    let t := pdef.wireValue t
    match pdef.pattern with
    | some pattern =>
      if pattern.fullmatch t then .ok (.str t)
      else .error (.refused (subject ++ text " value " ++ py.quoted t ++ text " does not match the required format (" ++
        pattern.source ++ text ")"))
    | none => .ok (.str t)
  | value => .ok value

end ParamDef

/-- The params of a call, in the order given. -/
abbrev Params := List (Text × Arg)

/-- `missing_required_params` -/
def missingRequiredParams (defs : List (Text × ParamDef)) (params : Params) : List Text :=
  (defs.filter fun p => p.2.required && p.2.isUnsupplied ((params.lookup p.1).getD .null)).map Prod.fst

/-- `_with_declared_defaults` -/
def withDeclaredDefaults (defs : List (Text × ParamDef)) (params : Params) : Params :=
  defs.foldl (fun filled p =>
    if p.2.required || p.2.default = .null || !p.2.isUnsupplied ((params.lookup p.1).getD .null) then filled
    else Dict.set filled p.1 p.2.default) params

def quote (t : Text) : Text :=
  text "'" ++ t ++ text "'"

/-- One round of the loop over the declared params. -/
def normalizeParam (py : Python) (command : Text) (out : Params) (p : Text × ParamDef) : Except Failure Params :=
  let subject := quote command ++ text ": " ++ quote p.1
  match out.lookup p.1 with
  | none | some .null => .ok out
  | some value =>
    let value := p.2.trimmed value
    if value = .str [] then .ok (Dict.set out p.1 value)
    else (if p.2.type ∈ numericTypes then p.2.admitNumber py subject value else p.2.admitText py subject value).map
      (Dict.set out p.1)

/-- `normalize_and_validate_command_params` -/
def normalizeAndValidateCommandParams (py : Python) (command : Text) (defs : List (Text × ParamDef)) (params : Params) :
    Except Failure Params :=
  match missingRequiredParams defs params with
  | name :: _ => .error (.refused (quote command ++ text ": " ++ quote name ++ text " is required"))
  | [] =>
    let params := withDeclaredDefaults defs params
    if params = [] then .ok params
    else defs.foldlM (normalizeParam py command) params

namespace SettingDef

/-- The number a setting is given, as an `int` where one is declared. -/
def coerced (py : Python) (sdef : SettingDef) (value : Arg) : Except Failure (Option Arg) :=
  let num := match value with
    | .int n => some (.int n)
    | .float x => some (.float x)
    | .str t => (py.float t.strip).map .float
    | _ => none
  if sdef.type = text "integer" then
    match num with
    | some (.int n) => (Arg.floatOfInt n).map fun _ => some (.int n)
    | some (.float x) => .ok (x.number.integer.map .int)
    | _ => .ok none
  else .ok num

def validateBoolean (py : Python) (key : Text) (value : Arg) : Except Failure Arg :=
  let otherwise := do
    let written ← value.repr py
    throw (.refused (quote key ++ text " must be true or false, got " ++ written))
  match value with
  | .bool b => .ok (.bool b)
  | .str t =>
    let v := py.lower t.strip
    if v ∈ [text "true", text "1", text "yes", text "on"] then .ok (.bool true)
    else if v ∈ [text "false", text "0", text "no", text "off"] then .ok (.bool false)
    else otherwise
  | value =>
    if value.number = some (.ofRat 0) then .ok (.bool false)
    else if value.number = some (.ofRat 1) then .ok (.bool true)
    else otherwise

def validateNumber (py : Python) (sdef : SettingDef) (key : Text) (value : Arg) : Except Failure Arg := do
  match ← sdef.coerced py value with
  | none => sdef.notANumber py (quote key) value
  | some num => sdef.checkRange py (quote key) num (num.number.getD none) num

def validateText (py : Python) (sdef : SettingDef) (key : Text) (value : Arg) : Except Failure Arg := do
  let sval := (← value.str' py).strip
  if sdef.values ≠ [] then
    let wire := enumWireValues sdef.values
    let resolved := resolveEnumParamValue sval sdef.values
    if resolved ∈ wire then return .str resolved
    else
      let written ← value.repr py
      throw (.refused (quote key ++ text " must be one of: " ++ List.intercalate (text ", ") wire ++ text " — got " ++ written))
  else match sdef.regex <|> sdef.pattern with
    | some regex =>
      if sval = [] ∨ regex.fullmatch sval then return .str sval
      else throw (.refused (quote key ++ text " value " ++ py.quoted sval ++ text " does not match the required format (" ++
        regex.source ++ text ")"))
    | none => return .str sval

end SettingDef

/-- `validate_device_setting_value` -/
def validateDeviceSettingValue (py : Python) (key : Text) (sdef : SettingDef) (value : Arg) : Except Failure Arg :=
  if value = .null then .error (.refused (quote key ++ text ": a value is required"))
  else if sdef.type = text "boolean" then SettingDef.validateBoolean py key value
  else if sdef.type ∈ numericTypes then sdef.validateNumber py key value
  else sdef.validateText py key value

end OpenAvc.Driver
