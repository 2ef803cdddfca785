import Mathlib.Data.Nat.Digits.Defs
import OpenAvc.Data.FloatText

/-! The placeholders of a command template, and what goes on the wire for them. -/

namespace OpenAvc.Driver

/-- A value that a command sends. -/
inductive SendValue
  | int (n : Int)
  | str (t : Text)

/-- What Python knows of characters outside ASCII, and of the format specs that are not
written out here: `format(value, spec)` and `format(float(t), spec)`, where they do not raise. -/
structure Formats where
  word : Nat → Bool
  decimal : Nat → Option (Fin 10)
  format : SendValue → Text → Option Text
  formatFloat : Text → Text → Option Text

/-- A part of a template: a character, or a placeholder with its format spec. -/
inductive Piece
  | char (c : Nat)
  | hole (name : Text) (spec : Option Text)
  deriving DecidableEq

def holeText (name : Text) (spec : Option Text) : Text :=
  123 :: name ++ (match spec with
    | none => []
    | some spec => 58 :: spec) ++ [125]

def Piece.text : Piece → Text
  | .char c => [c]
  | .hole name spec => holeText name spec

/-- `\w` -/
def isWord (fmt : Formats) (c : Nat) : Bool :=
  isLetter c || isDigit c || c = 95 || (128 ≤ c && fmt.word c)

def isIdent (c : Nat) : Bool :=
  isLetter c || isDigit c || c = 95

/-- A name at the start of a text: `\w+` -/
def wordName (fmt : Formats) (t : Text) : Option Text :=
  if t.takeWhile (isWord fmt) = [] then none else some (t.takeWhile (isWord fmt))

/-- `[A-Za-z_][A-Za-z0-9_]*` -/
def identName : Text → Option Text
  | [] => none
  | c :: t => if isLetter c || c = 95 then some (c :: t.takeWhile isIdent) else none

/-- `re.escape(name)` -/
def exactName (name t : Text) : Option Text :=
  if name.isPrefixOf t then some name else none

/-- What may stand in a format spec: no braces. -/
def inSpec (c : Nat) : Bool :=
  c ≠ 123 && c ≠ 125

/-- A placeholder whose opening brace has been read. -/
def token (name : Text → Option Text) (t : Text) : Option (Text × Option Text) :=
  (name t).bind fun n =>
    match t.drop n.length with
    | 125 :: _ => some (n, none)
    | 58 :: rest =>
      match rest.dropWhile inSpec with
      | 125 :: _ => some (n, some (rest.takeWhile inSpec))
      | _ => none
    | _ => none

/-- The pieces of a text of which so many characters have been read. -/
def scan (name : Text → Option Text) : Nat → Text → List Piece
  | _, [] => []
  | skip + 1, _ :: t => scan name skip t
  | 0, c :: t =>
    match if c = 123 then token name t else none with
    | some (n, spec) => .hole n spec :: scan name ((holeText n spec).length - 1) t
    | none => .char c :: scan name 0 t

def pieces (name : Text → Option Text) (t : Text) : List Piece :=
  scan name 0 t

/-! ### Values -/

/-- The width and the type of a spec `d`, `0Nd`, `x`, `0Nx`, `X`, `0NX`, `o` or `b`. -/
def presentation (spec : Text) : Option (Nat × Nat) :=
  match spec.getLast?, spec.dropLast with
  | some type, [] => if type ∈ text "dxXob" then some (0, type) else none
  | some type, 48 :: width => if type ∈ text "dxXob" ∧ width.all isDigit then some (digitsValue width, type) else none
  | _, _ => none

/-- The base of a presentation type. -/
def baseOf (type : Nat) : Nat :=
  if type = 120 ∨ type = 88 then 16 else if type = 111 then 8 else if type = 98 then 2 else 10

def digitChar (upper : Bool) (d : Nat) : Nat :=
  if d < 10 then 48 + d else (if upper then 65 else 97) + (d - 10)

def digitsText (base : Nat) (upper : Bool) (n : Nat) : Text :=
  if n = 0 then [48] else (Nat.digits base n).reverse.map (digitChar upper)

/-- `format(n, spec)`. Decimals are written up to a number of digits only. -/
def formatInt (width type : Nat) (n : Int) : Option Text :=
  if baseOf type = 10 ∧ ¬n.natAbs < 10 ^ Json.Scan.intLimit then none
  else
    let sign := if n < 0 then [45] else []
    let digits := digitsText (baseOf type) (type = 88) n.natAbs
    some (sign ++ List.replicate (width - (sign.length + digits.length)) 48 ++ digits)

def Formats.formatValue (fmt : Formats) (value : SendValue) (spec : Text) : Option Text :=
  match presentation spec, value with
  | some (width, type), .int n => formatInt width type n
  | some _, .str _ => none
  | none, value => fmt.format value spec

/-- `int(t)` -/
def Formats.int (fmt : Formats) (t : Text) : Option Int :=
  match FloatText.signed (FloatText.trim FloatText.asciiSpace (t.map (FloatText.toAscii fmt.decimal))) with
  | (negative, rest) =>
    match FloatText.digitPart rest with
    | (d :: digits, []) =>
      if (d :: digits).length ≤ Json.Scan.intLimit then
        some (if negative then -digitsValue (d :: digits) else digitsValue (d :: digits))
      else none
    | _ => none

/-- `format(float(t), spec)`, which no integer spec allows. -/
def Formats.asFloat (fmt : Formats) (t spec : Text) : Option Text :=
  if (presentation spec).isSome then none else fmt.formatFloat t spec

/-- `str(value)`, if it does not raise. -/
def SendValue.str' : SendValue → Option Text
  | .int n => formatInt 0 100 n
  | .str t => some t

/-- What a placeholder becomes, if nothing raises. -/
def replacer (fmt : Formats) (values : List (Text × SendValue)) (name : Text) (spec : Option Text) : Option Text :=
  match values.lookup name with
  | none => some (holeText name spec)
  | some value =>
    match spec.getD [] with
    | [] => value.str'
    | c :: spec' =>
      let converted := match value with
        | .int _ => none
        | .str t => ((fmt.int t).bind fun n => fmt.formatValue (.int n) (c :: spec')) <|> fmt.asFloat t (c :: spec')
      some ((fmt.formatValue value (c :: spec') <|> converted).getD (holeText name spec))

def Piece.render (fmt : Formats) (values : List (Text × SendValue)) : Piece → Option Text
  | .char c => some [c]
  | .hole name spec => replacer fmt values name spec

/-- `safe_substitute` -/
def safeSubstitute (fmt : Formats) (template : Text) (values : List (Text × SendValue)) : Option Text :=
  ((pieces (wordName fmt) template).mapM (Piece.render fmt values)).map List.flatten

end OpenAvc.Driver
