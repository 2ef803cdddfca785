import OpenAvc.Data.FloatText

/-! `eval_operator` of the runtime and `evalOperator` of the Programmer. -/

/-- A double: what rounding leaves as it is. -/
structure Double where
  number : Number
  exact : number.rounded = number
  deriving DecidableEq

/-- What both languages know of Unicode: lower case, case folding and the decimal
digits, of which the byte order mark is none. -/
structure Unicode where
  lower : Str → Str
  casefold : Str → Str
  decimal : Nat → Option (Fin 10)
  casefold_ascii : ∀ s : Str, (∀ c ∈ s.points, c < 128) → casefold s = lower s
  decimal_mark : decimal 0xfeff = none

namespace Condition

/-- `_OPERATOR_ALIASES`, `OPERATOR_ALIASES` -/
def operatorAliases : List (Text × Text) := [
  (text "equals", text "eq"),
  (text "not_equals", text "ne"),
  (text "==", text "eq"),
  (text "!=", text "ne"),
  (text ">", text "gt"),
  (text "<", text "lt"),
  (text ">=", text "gte"),
  (text "<=", text "lte"),
  (text "equal", text "eq"),
  (text "not_equal", text "ne"),
  (text "greater_than", text "gt"),
  (text "less_than", text "lt"),
  (text "greater_or_equal", text "gte"),
  (text "less_or_equal", text "lte")]

def unknownOperator (op : Text) : Text :=
  text "Unknown condition operator: '" ++ op ++ text "'. Valid operators: eq, ne, gt, lt, gte, lte, truthy, falsy"

/-- Both values, where there are both. -/
def both {α : Type} : Option α → Option α → Option (α × α)
  | some a, some t => some (a, t)
  | _, _ => none

/-- What `>`, `<`, `>=` and `<=` say of two values that stand so. -/
def compare (op : Text) (o : Option Ordering) : Bool :=
  if op = text "gt" then o = some .gt
  else if op = text "lt" then o = some .lt
  else if op = text "gte" then o = some .gt ∨ o = some .eq
  else o = some .lt ∨ o = some .eq

/-- A boolean as a number. -/
def ofBool (b : Bool) : Number :=
  Number.ofRat (if b then 1 else 0)

/-- What a lower-cased word says. -/
def boolWord (low : List Nat) : Option Bool :=
  if low ∈ [text "true", text "1", text "yes", text "on"] then some true
  else if low ∈ [text "false", text "0", text "no", text "off"] then some false
  else none

/-- A value in the runtime. -/
inductive Value
  | null
  | bool (b : Bool)
  | int (n : Int)
  | float (d : Double)
  | str (s : Str)
  deriving DecidableEq

namespace Value

/-- `type(a) is type(t)` -/
def sameType : Value → Value → Bool
  | null, null | bool _, bool _ | int _, int _ | float _, float _ | str _, str _ => true
  | _, _ => false

def isBool : Value → Bool
  | bool _ => true
  | _ => false

/-- A value that is an `int` or a `float`. -/
def number : Value → Option Number
  | bool b => some (ofBool b)
  | int n => some (Number.ofRat n)
  | float d => some d.number
  | null | str _ => none

/-- `a == t` -/
def equals : Value → Value → Bool
  | null, null => true
  | str s, str t => s = t
  | a, t => match both a.number t.number with
    | some (a, t) => a.cmp t = some .eq
    | none => false

/-- `bool(value)` -/
def truth : Value → Bool
  | null => false
  | bool b => b
  | int n => n ≠ 0
  | float d => d.number ≠ Number.ofRat 0
  | str s => s.points ≠ []

section

variable (u : Unicode)

/-- `_coerce_numeric` -/
def coerceNumeric : Value → Option Number
  | str s => FloatText.pyFloat u.decimal s.points
  | value => value.number

/-- `_coerce_bool` -/
def coerceBool : Value → Option Bool
  | bool b => some b
  | str s => boolWord (u.lower s).points
  | _ => none

/-- `eval_operator`, whose answer is a text where it raises. -/
def evalOperator (op : Text) (actual target : Value) : Except Text Bool :=
  let op := (operatorAliases.lookup op).getD op
  if op = text "eq" ∨ op = text "ne" then
    let answer (equal : Bool) : Except Text Bool := .ok (if op = text "eq" then equal else !equal)
    if actual = null ∨ target = null then .ok false
    else match if actual.isBool ∨ target.isBool then both (actual.coerceBool u) (target.coerceBool u) else none with
    | some (a, t) => answer (a = t)
    | none =>
      match if actual.sameType target then none else both (actual.coerceNumeric u) (target.coerceNumeric u) with
      | some (a, t) => answer (a.cmp t = some .eq)
      | none =>
        match actual, target with
        | str s, str t => answer (u.casefold s = u.casefold t)
        | _, _ => answer (actual.equals target)
  else if op = text "gt" ∨ op = text "lt" ∨ op = text "gte" ∨ op = text "lte" then
    if actual = null ∨ target = null then .ok false
    else match both (actual.coerceNumeric u) (target.coerceNumeric u) with
    | some (a, t) => .ok (compare op (a.cmp t))
    | none =>
      match actual, target with
      | str s, str t => .ok (compare op (some (order s.points t.points)))
      -- a `TypeError`, since one of the two is no text
      | _, _ => .ok false
  else if op = text "truthy" then .ok actual.truth
  else if op = text "falsy" then .ok !actual.truth
  else .error (unknownOperator op)

end

end Value

/-- A value in the browser. -/
inductive JsValue
  | null
  | boolean (b : Bool)
  | number (d : Double)
  | string (s : JsStr)
  deriving DecidableEq

/-- `s.toLowerCase()` -/
def toLowerCase (u : Unicode) (s : JsStr) : JsStr :=
  (u.lower s.toStr).utf16

/-- What an object has that was given no properties. -/
def objectPrototype : List Text := [
  text "constructor", text "hasOwnProperty", text "isPrototypeOf", text "propertyIsEnumerable", text "toLocaleString",
  text "toString", text "valueOf", text "__proto__", text "__defineGetter__", text "__defineSetter__",
  text "__lookupGetter__", text "__lookupSetter__"]

/-- `OPERATOR_ALIASES[op] ?? op`, or `none` where that is no string. -/
def canonicalName (op : List Nat) : Option Text :=
  match operatorAliases.lookup op with
  | some name => some name
  | none => if op ∈ objectPrototype then none else some op

namespace JsValue

/-- `typeof a === typeof t` -/
def sameType : JsValue → JsValue → Bool
  | null, null | boolean _, boolean _ | number _, number _ | string _, string _ => true
  | _, _ => false

def isBoolean : JsValue → Bool
  | boolean _ => true
  | _ => false

/-- `a === t` -/
def equals : JsValue → JsValue → Bool
  | null, null => true
  | boolean b, boolean b' => b = b'
  | number d, number d' => d.number.cmp d'.number = some .eq
  | string s, string s' => s = s'
  | _, _ => false

def coerceNumeric : JsValue → Option Number
  | number d => some d.number
  | boolean b => some (ofBool b)
  | string s => FloatText.jsFloat s.units
  | null => none

/-- `pythonTruthy` -/
def pythonTruthy : JsValue → Bool
  | null => false
  | boolean b => b
  | string s => s.units ≠ []
  | number d => d.number ≠ Number.ofRat 0

section

variable (u : Unicode)

def coerceBool : JsValue → Option Bool
  | boolean b => some b
  | string s => boolWord (toLowerCase u s).units
  | _ => none

/-- `evalOperator` of the Programmer, whose answer is a string where it throws. -/
def evalOperator (op : List Nat) (actual target : JsValue) : Except Text Bool :=
  match canonicalName op with
  | none => .error (unknownOperator op)
  | some canonical =>
    if canonical = text "eq" ∨ canonical = text "ne" then
      let answer (equal : Bool) : Except Text Bool := .ok (if canonical = text "eq" then equal else !equal)
      if actual = null ∨ target = null then .ok false
      else match if actual.isBoolean ∨ target.isBoolean then both (actual.coerceBool u) (target.coerceBool u) else none with
      | some (a, t) => answer (a = t)
      | none =>
        match if actual.sameType target then none else both actual.coerceNumeric target.coerceNumeric with
        | some (a, t) => answer (a.cmp t = some .eq)
        | none =>
          match actual, target with
          | string s, string t => answer (toLowerCase u s = toLowerCase u t)
          | _, _ => answer (actual.equals target)
    else if canonical = text "gt" ∨ canonical = text "lt" ∨ canonical = text "gte" ∨ canonical = text "lte" then
      if actual = null ∨ target = null then .ok false
      else match both actual.coerceNumeric target.coerceNumeric with
      | some (a, t) => .ok (compare canonical (a.cmp t))
      | none =>
        match actual, target with
        | string s, string t => .ok (compare canonical (some (order s.units t.units)))
        | _, _ => .ok false
    else if canonical = text "truthy" then .ok actual.pythonTruthy
    else if canonical = text "falsy" then .ok !actual.pythonTruthy
    else .error (unknownOperator op)

end

end JsValue

namespace Value

/-- The value in the browser: numbers are doubles there, and text is UTF-16. -/
def inBrowser : Value → JsValue
  | null => .null
  | bool b => .boolean b
  | int n => .number ⟨some (Double.nearest n), congrArg some (Double.rounded_nearest n)⟩
  | float d => .number d
  | str s => .string s.utf16

end Value

end Condition
