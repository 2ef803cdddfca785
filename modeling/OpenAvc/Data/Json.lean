import Mathlib.Algebra.Group.Int.Defs
import Mathlib.Algebra.Group.Nat.Defs
import Mathlib.Algebra.GroupWithZero.Nat
import Mathlib.Data.List.Basic
import Mathlib.Data.List.Lex
import Mathlib.Data.List.Sort
import Mathlib.Data.Rat.Defs
import OpenAvc.Data.Lookup

/-- A text as Python holds one: its code points, lone surrogates among them. -/
abbrev Text := List Nat

instance : LawfulBEq Text := inferInstance

/-- The text a string literal stands for. -/
def text (s : String) : Text :=
  s.toList.map Char.toNat

/-- `str.strip` drops these at both ends. -/
def isSpace (c : Nat) : Bool :=
  (9 ≤ c ∧ c ≤ 13) ∨ (28 ≤ c ∧ c ≤ 32) ∨ c = 0x85 ∨ c = 0xa0 ∨ c = 0x1680 ∨ (0x2000 ≤ c ∧ c ≤ 0x200a) ∨
    c = 0x2028 ∨ c = 0x2029 ∨ c = 0x202f ∨ c = 0x205f ∨ c = 0x3000

def Text.strip (t : Text) : Text :=
  (t.dropWhile isSpace).reverse.dropWhile isSpace |>.reverse

def isDigit (c : Nat) : Bool :=
  48 ≤ c ∧ c ≤ 57

def isLetter (c : Nat) : Bool :=
  (65 ≤ c ∧ c ≤ 90) ∨ (97 ≤ c ∧ c ≤ 122)

def digitsValue (ds : Text) : Nat :=
  ds.foldl (fun n d => 10 * n + (d - 48)) 0

/-- `str(n)` of an `int`. -/
def intText (n : Int) : Text :=
  text (toString n)

namespace Dict

variable {κ ν : Type*} [BEq κ]

/-- `d[k] = v`: a key keeps its place, a new one comes last. -/
def set : List (κ × ν) → κ → ν → List (κ × ν)
  | [], k, v => [(k, v)]
  | (k', v') :: d, k, v => if k == k' then (k', v) :: d else (k', v') :: set d k v

/-- Equality of dicts with their values compared by `eq`: the order of the
keys is no part of it. -/
def same (eq : ν → ν → Bool) (d d' : List (κ × ν)) : Bool :=
  d.all (fun u => (d'.lookup u.1).any (eq u.2)) && d'.all (fun u => (d.lookup u.1).any (eq u.2))

variable [LawfulBEq κ]

@[simp] theorem lookup_set_self (d : List (κ × ν)) (k : κ) (v : ν) : (set d k v).lookup k = some v := by
  induction d with
  | nil => simp [set]
  | cons u d ih =>
    obtain ⟨key, value⟩ := u
    by_cases here : k = key
    · simp [set, here]
    · simp [set, ih, List.lookup_cons, beq_eq_false_iff_ne.mpr here]

@[simp] theorem lookup_set_of_ne {k j : κ} (other : j ≠ k) (d : List (κ × ν)) (v : ν) :
    (set d k v).lookup j = d.lookup j := by
  induction d with
  | nil => simp [set, List.lookup_cons, beq_eq_false_iff_ne.mpr other]
  | cons u d ih =>
    obtain ⟨key, value⟩ := u
    by_cases here : k = key
    · subst here
      simp [set, List.lookup_cons, beq_eq_false_iff_ne.mpr other]
    · simp [set, here, List.lookup_cons, ih]

theorem lookup_set [DecidableEq κ] (d : List (κ × ν)) (k j : κ) (v : ν) :
    (set d k v).lookup j = if j = k then some v else d.lookup j := by
  by_cases same : j = k
  · simp [same]
  · simp [same]

/-- A dict filled by a walk holds for each key the value of one of its members. -/
theorem lookup_walk {α : Type*} (key : α → κ) (value : α → ν) (l : List α)
    (d : List (κ × ν)) (k : κ) :
    (l.foldl (fun d a => set d (key a) (value a)) d).lookup k = d.lookup k ∧ (∀ a ∈ l, key a ≠ k) ∨
      ∃ a ∈ l, key a = k ∧ (l.foldl (fun d a => set d (key a) (value a)) d).lookup k = some (value a) := by
  induction l generalizing d with
  | nil => exact Or.inl ⟨rfl, fun _ h => absurd h List.not_mem_nil⟩
  | cons a l ih =>
    rw [List.foldl_cons]
    rcases ih (set d (key a) (value a)) with ⟨same, none⟩ | ⟨b, member, here, found⟩
    · by_cases here : key a = k
      · refine Or.inr ⟨a, List.mem_cons_self, here, ?_⟩
        rw [same, ← here, lookup_set_self]
      · refine Or.inl ⟨?_, fun b member => ?_⟩
        · rw [same, lookup_set_of_ne (Ne.symm here)]
        · rcases List.mem_cons.mp member with rfl | later
          · exact here
          · exact none b later
    · exact Or.inr ⟨b, List.mem_cons_of_mem _ member, here, found⟩

/-- Equal dicts have equal values. -/
theorem lookup_same {eq : ν → ν → Bool} {d d' : List (κ × ν)} (equal : same eq d d' = true) {k : κ} {v : ν}
    (found : d.lookup k = some v) : ∃ w, d'.lookup k = some w ∧ eq v w = true := by
  unfold same at equal
  rw [Bool.and_eq_true, List.all_eq_true] at equal
  have there := equal.1 (k, v) (List.mem_of_lookup_eq_some found)
  cases found' : d'.lookup k with
  | none => simp [found'] at there
  | some w => exact ⟨w, rfl, by simpa [found'] using there⟩

theorem lookup_same_none {eq : ν → ν → Bool} {d d' : List (κ × ν)} (equal : same eq d d' = true) {k : κ}
    (absent : d.lookup k = none) : d'.lookup k = none := by
  unfold same at equal
  rw [Bool.and_eq_true, List.all_eq_true, List.all_eq_true] at equal
  cases found' : d'.lookup k with
  | none => rfl
  | some w =>
    have there := equal.2 (k, w) (List.mem_of_lookup_eq_some found')
    simp [absent] at there

theorem lookup_of_same [BEq ν] [LawfulBEq ν] {d d' : List (κ × ν)} (equal : same (· == ·) d d' = true) (k : κ) :
    d.lookup k = d'.lookup k := by
  cases found : d.lookup k with
  | none => exact (lookup_same_none equal found).symm
  | some v =>
    obtain ⟨w, found', here⟩ := lookup_same equal found
    rw [found', eq_of_beq here]

/-- The keys of a dict stay where they are when one of them gets another value. -/
theorem keys_set_of_mem {d : List (κ × ν)} {k : κ} {v : ν} (present : (d.lookup k).isSome) :
    (set d k v).map Prod.fst = d.map Prod.fst := by
  induction d with
  | nil => simp at present
  | cons u d ih =>
    by_cases here : k = u.1
    · simp [set, here]
    · rw [List.lookup_cons, beq_eq_false_iff_ne.mpr here] at present
      simp [set, here, ih present]

/-- A new key comes last. -/
theorem set_of_not_mem {d : List (κ × ν)} {k : κ} (absent : k ∉ d.map Prod.fst) (v : ν) :
    set d k v = d ++ [(k, v)] := by
  induction d with
  | nil => rfl
  | cons u d ih =>
    obtain ⟨other, rest⟩ := not_or.mp (mt List.mem_cons.mpr absent)
    rw [set, beq_eq_false_iff_ne.mpr other]
    simp [ih rest]

theorem mem_set {d : List (κ × ν)} {k : κ} {v : ν} {u : κ × ν}
    (member : u ∈ Dict.set d k v) : u = (k, v) ∨ u ∈ d := by
  induction d with
  | nil => simpa [Dict.set] using member
  | cons w d ih =>
    obtain ⟨key, value⟩ := w
    simp only [Dict.set] at member
    split at member
    · rename_i here
      rcases List.mem_cons.mp member with rfl | later
      · exact Or.inl (by rw [eq_of_beq here])
      · exact Or.inr (List.mem_cons_of_mem _ later)
    · rcases List.mem_cons.mp member with rfl | later
      · exact Or.inr List.mem_cons_self
      · exact (ih later).imp_right (List.mem_cons_of_mem _)

omit [LawfulBEq κ] in
theorem set_ne_nil (d : List (κ × ν)) (k : κ) (v : ν) : set d k v ≠ [] := by
  cases d with
  | nil => exact List.cons_ne_nil _ _
  | cons u d =>
    rw [set]
    split <;> exact List.cons_ne_nil _ _

/-- A dict stays one: no key comes twice. -/
theorem nodup_set {d : List (κ × ν)} (distinct : (d.map Prod.fst).Nodup) (k : κ) (v : ν) :
    ((set d k v).map Prod.fst).Nodup := by
  induction d with
  | nil => simp [set]
  | cons u d ih =>
    obtain ⟨key, value⟩ := u
    obtain ⟨apart, distinct⟩ := List.nodup_cons.mp distinct
    by_cases here : k = key
    · simpa [set, here] using ⟨by simpa using apart, distinct⟩
    · have later : key ∉ (set d k v).map Prod.fst := by
        intro member
        obtain ⟨u, there, rfl⟩ := List.mem_map.mp member
        rcases mem_set there with rfl | old
        · exact here rfl
        · exact apart (List.mem_map.mpr ⟨u, old, rfl⟩)
      simpa [set, here] using ⟨by simpa using later, ih distinct⟩

end Dict

/-- A decimal number as it is written: a sign, which zero has too, and
`digits * 10 ^ exponent`. -/
structure Decimal where
  negative : Bool
  digits : Nat
  exponent : Int
  deriving DecidableEq, Repr

namespace Decimal

def mantissa (d : Decimal) : Int :=
  if d.negative then -d.digits else d.digits

def value (d : Decimal) : Rat :=
  if 0 ≤ d.exponent then d.mantissa * 10 ^ d.exponent.toNat else mkRat d.mantissa (10 ^ (-d.exponent).toNat)

/-- The `float` nearest to `d` is 0, 1 or 2, ties going to the even one. -/
def readsAs (d : Decimal) : Nat → Bool
  | 0 => -mkRat 1 (2 ^ 1075) ≤ d.value ∧ d.value ≤ mkRat 1 (2 ^ 1075)
  | 1 => 1 - mkRat 1 (2 ^ 54) ≤ d.value ∧ d.value ≤ 1 + mkRat 1 (2 ^ 53)
  | 2 => 2 - mkRat 1 (2 ^ 53) ≤ d.value ∧ d.value ≤ 2 + mkRat 1 (2 ^ 52)
  | _ => false

end Decimal

/-- A number with a fraction or an exponent as it is written, where Python
writes the shortest decimal that reads as the same `float`. -/
def floatText (d : Decimal) : Text :=
  (if d.negative then [45] else []) ++ text (toString d.digits) ++ text "e" ++ intText d.exponent

/-- What `json.loads` makes of a text. A number with a fraction or an exponent
is kept as it is written; `constant` is `NaN` or one of the infinities. An
object's keys are distinct. -/
inductive Json
  | null
  | bool (b : Bool)
  | int (n : Int)
  | float (d : Decimal)
  | constant (name : String)
  | str (s : Text)
  | arr (items : List Json)
  | obj (fields : List (Text × Json))

namespace Json

/-- `value.get(key)` of a dict; `none` where the key is missing or the value is no dict. -/
def get? : Json → Text → Option Json
  | obj fields, k => fields.lookup k
  | _, _ => none

def isObj : Json → Bool
  | obj _ => true
  | _ => false

def asStr : Json → Option Text
  | str s => some s
  | _ => none

/-- `if value:` -/
def truthy : Json → Bool
  | null => false
  | bool b => b
  | int n => n ≠ 0
  | float d => !d.readsAs 0
  | constant _ => true
  | str s => s ≠ []
  | arr items => !items.isEmpty
  | obj fields => !fields.isEmpty

/-- How `json.loads` fails: a `ValueError`, or a `RecursionError` on a text
that nests deeper than the interpreter's stack. -/
inductive LoadError
  | value
  | recursion
  deriving DecidableEq, Repr

/-- A container that is being read: an array's items, the last one first, or
an object's members and the key whose value comes next. -/
inductive Frame
  | arr (items : List Json)
  | obj (fields : List (Text × Json)) (key : Text)

/-- What the scanner expects next. `lexeme`, `string`, `escape` and `hex` hold
what they have read of a number or name, or of a string (which is a key when
`key` is set), the last character first. -/
inductive Mode
  | value
  | item
  | member
  | key
  | colon (key : Text)
  | after
  | done (v : Json)
  | lexeme (read : Text)
  | string (key : Bool) (read : Text)
  | escape (key : Bool) (read : Text)
  | hex (key : Bool) (read : Text) (left : Nat) (code : Nat)

structure Scan where
  frames : List Frame := []
  mode : Mode := .value

namespace Scan

/-- A value ends: it goes into the container around it. -/
def give (v : Json) : List Frame → Scan
  | [] => { mode := .done v }
  | .arr items :: frames => { frames := .arr (v :: items) :: frames, mode := .after }
  | .obj fields k :: frames => { frames := .obj (Dict.set fields k v) k :: frames, mode := .after }

def blank (c : Nat) : Bool :=
  c = 32 ∨ c = 9 ∨ c = 10 ∨ c = 13

/-- An `int` of more than 4300 digits is refused. -/
def intLimit : Nat := 4300

/-- The number `[-]digits[.digits][e[+-]digits]`. -/
def number (lexeme : Text) : Option Json :=
  let negative := lexeme.head? = some 45
  let unsigned := if negative then lexeme.tail else lexeme
  let sign : Int := if negative then -1 else 1
  let (whole, rest) := unsigned.span isDigit
  let (fraction, rest') := match rest with
    | 46 :: more => (more.takeWhile isDigit, more.dropWhile isDigit)
    | _ => ([], rest)
  let exponentText : Option (Int × Text) := match rest' with
    | [] => none
    | e :: 45 :: ds => if e = 101 ∨ e = 69 then some (-1, ds) else some (1, [])
    | e :: 43 :: ds => if e = 101 ∨ e = 69 then some (1, ds) else some (1, [])
    | e :: ds => if e = 101 ∨ e = 69 then some (1, ds) else some (1, [])
  let leadingZero := whole.length > 1 ∧ whole.head? = some 48
  if whole = [] ∨ leadingZero then none
  else match rest, exponentText with
    | [], _ => if whole.length > intLimit then none else some (.int (sign * digitsValue whole))
    | _, none => if fraction = [] then none
        else some (.float ⟨negative, digitsValue (whole ++ fraction), -fraction.length⟩)
    | _, some (expSign, ds) =>
        if ds = [] ∨ !ds.all isDigit ∨ (rest.head? = some 46 ∧ fraction = []) then none
        else some (.float ⟨negative, digitsValue (whole ++ fraction), expSign * digitsValue ds - fraction.length⟩)

def named (lexeme : Text) : Option Json :=
  if lexeme = text "null" then some .null
  else if lexeme = text "true" then some (.bool true)
  else if lexeme = text "false" then some (.bool false)
  else if lexeme = text "NaN" then some (.constant "NaN")
  else if lexeme = text "Infinity" then some (.constant "Infinity")
  else if lexeme = text "-Infinity" then some (.constant "-Infinity")
  else number lexeme

def inLexeme (c : Nat) : Bool :=
  isDigit c ∨ isLetter c ∨ c = 43 ∨ c = 45 ∨ c = 46

def hexValue (c : Nat) : Option Nat :=
  if isDigit c then some (c - 48)
  else if 97 ≤ c ∧ c ≤ 102 then some (c - 87)
  else if 65 ≤ c ∧ c ≤ 70 then some (c - 55)
  else none

/-- A `\u` escape ends; a low surrogate joins the high one before it. -/
def pushCode (code : Nat) : Text → Text
  | high :: read =>
    if 0xdc00 ≤ code ∧ code ≤ 0xdfff ∧ 0xd800 ≤ high ∧ high ≤ 0xdbff then
      (0x10000 + (high - 0xd800) * 0x400 + (code - 0xdc00)) :: read
    else code :: high :: read
  | [] => [code]

def unescaped (c : Nat) : Option Nat :=
  if c = 34 ∨ c = 92 ∨ c = 47 then some c
  else if c = 98 then some 8
  else if c = 102 then some 12
  else if c = 110 then some 10
  else if c = 114 then some 13
  else if c = 116 then some 9
  else none

/-- The first character of a value. -/
def start (budget : Nat) (s : Scan) (c : Nat) : Except LoadError Scan :=
  if c = 34 then .ok { s with mode := .string false [] }
  else if c = 91 then
    if budget ≤ s.frames.length then .error .recursion
    else .ok { frames := .arr [] :: s.frames, mode := .item }
  else if c = 123 then
    if budget ≤ s.frames.length then .error .recursion
    else .ok { frames := .obj [] [] :: s.frames, mode := .member }
  else if inLexeme c then .ok { s with mode := .lexeme [c] }
  else .error .value

def close (s : Scan) (c : Nat) : Except LoadError Scan :=
  match s.frames with
  | .arr items :: frames => if c = 93 then .ok (give (.arr items.reverse) frames) else .error .value
  | .obj fields _ :: frames => if c = 125 then .ok (give (.obj fields) frames) else .error .value
  | [] => .error .value

/-- One character, outside a number or a name. -/
def plain (budget : Nat) (s : Scan) (c : Nat) : Except LoadError Scan :=
  match s.mode with
  | .value => if blank c then .ok s else start budget s c
  | .item => if blank c then .ok s else if c = 93 then close s c else start budget s c
  | .member =>
    if blank c then .ok s else if c = 125 then close s c
    else if c = 34 then .ok { s with mode := .string true [] } else .error .value
  | .key => if blank c then .ok s else if c = 34 then .ok { s with mode := .string true [] } else .error .value
  | .colon k =>
    if blank c then .ok s
    else match s.frames with
      | .obj fields _ :: frames =>
        if c = 58 then .ok { frames := .obj fields k :: frames, mode := .value } else .error .value
      | _ => .error .value
  | .after =>
    if blank c then .ok s
    else if c = 44 then
      match s.frames with
      | .arr _ :: _ => .ok { s with mode := .value }
      | .obj _ _ :: _ => .ok { s with mode := .key }
      | [] => .error .value
    else close s c
  | .done _ => if blank c then .ok s else .error .value
  | .lexeme _ => .error .value
  | .string isKey read =>
    if c = 34 then
      if isKey then .ok { s with mode := .colon read.reverse } else .ok (give (.str read.reverse) s.frames)
    else if c = 92 then .ok { s with mode := .escape isKey read }
    else if c < 32 then .error .value
    else .ok { s with mode := .string isKey (c :: read) }
  | .escape isKey read =>
    if c = 117 then .ok { s with mode := .hex isKey read 4 0 }
    else match unescaped c with
      | some c' => .ok { s with mode := .string isKey (c' :: read) }
      | none => .error .value
  | .hex isKey read left code =>
    match hexValue c with
    | some d =>
      if left ≤ 1 then .ok { s with mode := .string isKey (pushCode (16 * code + d) read) }
      else .ok { s with mode := .hex isKey read (left - 1) (16 * code + d) }
    | none => .error .value

/-- One character. A number or a name ends at the first character that cannot
belong to it. -/
def step (budget : Nat) (s : Scan) (c : Nat) : Except LoadError Scan :=
  match s.mode with
  | .lexeme read =>
    if inLexeme c then .ok { s with mode := .lexeme (c :: read) }
    else match named read.reverse with
      | some v => plain budget (give v s.frames) c
      | none => .error .value
  | _ => plain budget s c

def finish (s : Scan) : Except LoadError Json :=
  match s.mode, s.frames with
  | .done v, _ => .ok v
  | .lexeme read, [] => (named read.reverse).elim (.error .value) .ok
  | _, _ => .error .value

end Scan

/-- `json.loads` of a text, where the stack has room for `budget` containers
inside one another. A text that begins with a byte order mark is refused. -/
def loads (budget : Nat) (t : Text) : Except LoadError Json :=
  if t.head? = some 0xfeff then .error .value
  else do (← t.foldlM (Scan.step budget) {}).finish

/-- Four hexadecimal digits, as in `\u00e9`. -/
def hexDigits (n : Nat) : Text :=
  [n / 4096, n / 256, n / 16, n].map fun d => let d := d % 16; if d < 10 then 48 + d else 87 + d

/-- A character of a string as `ensure_ascii` writes it. -/
def escaped (c : Nat) : Text :=
  if c = 34 ∨ c = 92 then [92, c]
  else if c = 10 then text "\\n"
  else if c = 13 then text "\\r"
  else if c = 9 then text "\\t"
  else if c = 12 then text "\\f"
  else if c = 8 then text "\\b"
  else if 32 ≤ c ∧ c ≤ 126 then [c]
  else if c < 0x10000 then text "\\u" ++ hexDigits c
  else
    text "\\u" ++ hexDigits (0xd800 + (c - 0x10000) / 0x400) ++
      text "\\u" ++ hexDigits (0xdc00 + (c - 0x10000) % 0x400)

/-- How `json.dumps` lays a text out: with its keys sorted or as they come, over
several lines where it is given an indent, in ASCII or with its characters as
they are, and with blanks after its separators or without. -/
structure Layout where
  sortKeys : Bool := false
  indent : Option Nat := none
  ensureAscii : Bool := true
  compact : Bool := false

namespace Layout

/-- Which characters of a string are not written as they are. -/
def escapes (L : Layout) (c : Nat) : Bool :=
  L.ensureAscii ∨ c < 32 ∨ c = 34 ∨ c = 92

def quoted (L : Layout) (t : Text) : Text :=
  [34] ++ t.flatMap (fun c => if L.escapes c then escaped c else [c]) ++ [34]

def newline (L : Layout) (level : Nat) : Text :=
  L.indent.elim [] fun width => 10 :: List.replicate (width * level) 32

def separator (L : Layout) (level : Nat) : Text :=
  if L.indent.isSome then [44] ++ L.newline level else if L.compact then [44] else text ", "

def colon (L : Layout) : Text :=
  if L.compact then [58] else text ": "

/-- The items of a container between its brackets. -/
def wrap (L : Layout) (level : Nat) (opening closing : Nat) (items : List Text) : Text :=
  if items.isEmpty then [opening, closing]
  else
    [opening] ++ L.newline (level + 1) ++ List.intercalate (L.separator (level + 1)) items ++
      L.newline level ++ [closing]

def inOrder (L : Layout) (items : List (Text × Text)) : List (Text × Text) :=
  if L.sortKeys then items.insertionSort fun a b => a.1 ≤ b.1 else items

mutual

def dump (L : Layout) (level : Nat) : Json → Text
  | .null => text "null"
  | .bool b => text (if b then "true" else "false")
  | .int n => intText n
  | .float d => floatText d
  | .constant name => text name
  | .str s => L.quoted s
  | .arr items => L.wrap level 91 93 (dumpItems L (level + 1) items)
  | .obj fields =>
    L.wrap level 123 125 ((L.inOrder (dumpFields L (level + 1) fields)).map fun u => L.quoted u.1 ++ L.colon ++ u.2)

def dumpItems (L : Layout) (level : Nat) : List Json → List Text
  | [] => []
  | v :: items => dump L level v :: dumpItems L level items

def dumpFields (L : Layout) (level : Nat) : List (Text × Json) → List (Text × Text)
  | [] => []
  | (k, v) :: fields => (k, dump L level v) :: dumpFields L level fields

end

end Layout

/-- `json.dumps`. -/
def dumps (L : Layout) (v : Json) : Text :=
  L.dump 0 v

end Json
