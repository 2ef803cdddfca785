import Mathlib.Data.List.DropRight
import OpenAvc.Data.Double
import OpenAvc.Data.Utf16

/-! Numbers that are written as text: what `float` reads, and what the Programmer reads. -/

/-- A `float`, or an `int` of any size; `none` is NaN. -/
abbrev Number := Option Double.Extended

def Number.ofRat (q : ℚ) : Number :=
  some ((q : WithTop ℚ) : Double.Extended)

def Number.rounded (x : Number) : Number :=
  x.map Double.rounded

/-- How two numbers stand, if neither is NaN. -/
def Number.cmp : Number → Number → Option Ordering
  | some x, some y => some (order x y)
  | _, _ => none

namespace FloatText

/-- Digits with single underscores between them, and what comes after. -/
def moreDigits : Text → Text × Text
  | 95 :: c :: rest =>
    if isDigit c then
      let (digits, rest) := moreDigits rest
      (c :: digits, rest)
    else ([], 95 :: c :: rest)
  | c :: rest =>
    if isDigit c then
      let (digits, rest) := moreDigits rest
      (c :: digits, rest)
    else ([], c :: rest)
  | [] => ([], [])

/-- `\d(?:_?\d)*` at the start of a text, if it is there. -/
def digitPart : Text → Text × Text
  | 95 :: rest => ([], 95 :: rest)
  | rest => moreDigits rest

def signed : Text → Bool × Text
  | 43 :: rest => (false, rest)
  | 45 :: rest => (true, rest)
  | rest => (false, rest)

/-- What stands for the exponent, and nothing after it. -/
def exponentPart : Text → Option Int
  | [] => some 0
  | c :: rest =>
    if c = 101 ∨ c = 69 then
      match signed rest with
      | (negative, rest) =>
        match digitPart rest with
        | (c :: digits, []) => some (if negative then -digitsValue (c :: digits) else digitsValue (c :: digits))
        | _ => none
    else none

/-- A point and the digits after it. -/
def fractionPart : Text → Bool × Text × Text
  | 46 :: rest => (true, digitPart rest)
  | rest => (false, [], rest)

def lowerAscii (c : Nat) : Nat :=
  if 65 ≤ c ∧ c ≤ 90 then c + 32 else c

/-- What a trimmed text reads as: a sign, then digits with a point and an
exponent, or a word. -/
def read (t : Text) : Option Number :=
  let (negative, body) := signed t
  let word := body.map lowerAscii
  if word = text "nan" then some none
  else if word = text "inf" ∨ word = text "infinity" then some (some (if negative then ⊥ else ⊤))
  else
    let (whole, rest) := digitPart body
    let (_, fraction, rest) := fractionPart rest
    if whole = [] ∧ fraction = [] then none
    else (exponentPart rest).map fun exponent =>
      some (Double.nearest (Decimal.value ⟨negative, digitsValue (whole ++ fraction), exponent - fraction.length⟩))

def trim (space : Nat → Bool) (t : Text) : Text :=
  (t.dropWhile space).rdropWhile space

/-- `Py_ISSPACE` -/
def asciiSpace (c : Nat) : Bool :=
  (9 ≤ c ∧ c ≤ 13) ∨ c = 32

/-- White space outside ASCII, for Python. -/
def wideSpace (c : Nat) : Bool :=
  c = 0x85 ∨ c = 0xa0 ∨ c = 0x1680 ∨ (0x2000 ≤ c ∧ c ≤ 0x200a) ∨ c = 0x2028 ∨ c = 0x2029 ∨ c = 0x202f ∨ c = 0x205f ∨
    c = 0x3000

/-- What `String.prototype.trim` takes off. -/
def jsSpace (c : Nat) : Bool :=
  (9 ≤ c ∧ c ≤ 13) ∨ c = 32 ∨ c = 0xa0 ∨ c = 0x1680 ∨ (0x2000 ≤ c ∧ c ≤ 0x200a) ∨ c = 0x2028 ∨ c = 0x2029 ∨ c = 0x202f ∨
    c = 0x205f ∨ c = 0x3000 ∨ c = 0xfeff

/-- Python makes ASCII of a text before it reads a number: white space becomes a
blank, a decimal digit its ASCII form, and anything else a question mark. -/
def toAscii (decimal : Nat → Option (Fin 10)) (c : Nat) : Nat :=
  if c < 128 then c
  else if wideSpace c then 32
  else match decimal c with
    | some d => 48 + d
    | none => 63

/-- `float(s)`, or `none` where it raises. -/
def pyFloat (decimal : Nat → Option (Fin 10)) (t : Text) : Option Number :=
  read (trim asciiSpace (t.map (toAscii decimal)))

/-- The number that the Programmer makes of a string. -/
def jsFloat (units : List Nat) : Option Number :=
  read (trim jsSpace units)

/-- May stand in a number. -/
def Plain (c : Nat) : Prop :=
  43 ≤ c ∧ c < 128 ∧ c ≠ 63

theorem plain_of_digit {c : Nat} (digit : isDigit c = true) : Plain c := by
  unfold isDigit at digit
  unfold Plain
  rw [decide_eq_true_eq] at digit
  omega

theorem moreDigits_plain (t : Text) : ∃ used, t = used ++ (moreDigits t).2 ∧ ∀ c ∈ used, Plain c := by
  fun_induction moreDigits t with
  | case1 c rest digit digits rest' split ih =>
    obtain ⟨used, same, plain⟩ := ih
    rw [split] at same
    refine ⟨95 :: c :: used, by rw [same]; rfl, fun d member => ?_⟩
    rcases List.mem_cons.mp member with rfl | member
    · unfold Plain
      omega
    · rcases List.mem_cons.mp member with rfl | member
      · exact plain_of_digit digit
      · exact plain d member
  | case2 c rest _ => exact ⟨[], rfl, nofun⟩
  | case3 c rest _ digit digits rest' split ih =>
    obtain ⟨used, same, plain⟩ := ih
    rw [split] at same
    refine ⟨c :: used, by rw [same]; rfl, fun d member => ?_⟩
    rcases List.mem_cons.mp member with rfl | member
    · exact plain_of_digit digit
    · exact plain d member
  | case4 c rest _ _ => exact ⟨[], rfl, nofun⟩
  | case5 => exact ⟨[], rfl, nofun⟩

theorem digitPart_plain (t : Text) : ∃ used, t = used ++ (digitPart t).2 ∧ ∀ c ∈ used, Plain c := by
  unfold digitPart
  split
  · exact ⟨[], rfl, nofun⟩
  · exact moreDigits_plain t

theorem signed_plain (t : Text) : ∃ used, t = used ++ (signed t).2 ∧ ∀ c ∈ used, Plain c := by
  unfold signed
  split
  · exact ⟨[43], rfl, by simp [Plain]⟩
  · exact ⟨[45], rfl, by simp [Plain]⟩
  · exact ⟨[], rfl, nofun⟩

theorem plain_of_lower {c : Nat} {word : String} (letters : (text word).all fun d => 97 ≤ d ∧ d ≤ 122) {t : Text}
    (same : t.map lowerAscii = text word) (member : c ∈ t) : Plain c := by
  have inside : lowerAscii c ∈ text word := same ▸ List.mem_map_of_mem member
  have letter := List.all_eq_true.mp letters _ inside
  unfold lowerAscii at letter
  unfold Plain
  rw [decide_eq_true_eq] at letter
  split at letter <;> omega

theorem exponentPart_plain {t : Text} {n : Int} (some : exponentPart t = some n) : ∀ c ∈ t, Plain c := by
  unfold exponentPart at some
  split at some
  · nofun
  · rename_i e rest
    split at some
    · rename_i letter
      split at some
      rename_i negative after sign
      split at some
      · rename_i c digits none
        obtain ⟨used, same, plain⟩ := signed_plain rest
        obtain ⟨used', same', plain'⟩ := digitPart_plain after
        rw [sign] at same
        rw [none, List.append_nil] at same'
        rw [same, same']
        intro d member
        rcases List.mem_cons.mp member with rfl | member
        · unfold Plain
          omega
        · rcases List.mem_append.mp member with first | last
          · exact plain d first
          · exact plain' d last
      · cases some
    · cases some

theorem fractionPart_plain (t : Text) : ∃ used, t = used ++ (fractionPart t).2.2 ∧ ∀ c ∈ used, Plain c := by
  unfold fractionPart
  split
  · rename_i rest
    obtain ⟨used, same, plain⟩ := digitPart_plain rest
    refine ⟨46 :: used, by rw [List.cons_append, ← same], fun c member => ?_⟩
    rcases List.mem_cons.mp member with rfl | member
    · unfold Plain
      omega
    · exact plain c member
  · exact ⟨[], rfl, nofun⟩

/-- What is read is a double. -/
theorem read_exact {t : Text} {x : Number} (number : read t = some x) : x.rounded = x := by
  unfold read at number
  dsimp only at number
  split at number
  · cases number
    rfl
  · split at number
    · cases number
      split <;> rfl
    · split at number
      · cases number
      · obtain ⟨exponent, _, rfl⟩ := Option.map_eq_some_iff.mp number
        exact congrArg some (Double.rounded_nearest _)

/-- Nothing stands in a number but signs, digits, points, underscores and letters. -/
theorem read_plain {t : Text} {x : Number} (number : read t = some x) : t ≠ [] ∧ ∀ c ∈ t, Plain c := by
  obtain ⟨used, same, plain⟩ := signed_plain t
  unfold read at number
  dsimp only at number
  generalize sign : signed t = parts at number same
  obtain ⟨negative, body⟩ := parts
  dsimp only at number same
  have rest : body ≠ [] ∧ ∀ c ∈ body, Plain c := by
    split at number
    · rename_i word
      refine ⟨?_, fun c member => plain_of_lower (by decide) word member⟩
      rintro rfl
      cases word
    · split at number
      · rename_i word
        rcases word with word | word
        · refine ⟨?_, fun c member => plain_of_lower (by decide) word member⟩
          rintro rfl
          cases word
        · refine ⟨?_, fun c member => plain_of_lower (by decide) word member⟩
          rintro rfl
          cases word
      · split at number
        · cases number
        · rename_i digits
          obtain ⟨exponent, found, _⟩ := Option.map_eq_some_iff.mp number
          obtain ⟨whole, same, plain⟩ := digitPart_plain body
          obtain ⟨fraction, same', plain'⟩ := fractionPart_plain (digitPart body).2
          have last := exponentPart_plain found
          refine ⟨?_, fun c member => ?_⟩
          · rintro rfl
            exact digits ⟨rfl, rfl⟩
          · rw [same, same'] at member
            rcases List.mem_append.mp member with first | later
            · exact plain c first
            · rcases List.mem_append.mp later with middle | later
              · exact plain' c middle
              · exact last c later
  refine ⟨?_, fun c member => ?_⟩
  · rw [same]
    simp [rest.1]
  · rw [same] at member
    rcases List.mem_append.mp member with first | last
    · exact plain c first
    · exact rest.2 c last

theorem trim_split (space : Nat → Bool) (t : Text) :
    ∃ before after, t = before ++ trim space t ++ after ∧ (∀ c ∈ before, space c = true) ∧ ∀ c ∈ after, space c = true := by
  refine ⟨t.takeWhile space, (t.dropWhile space).rtakeWhile space, ?_, fun c member => List.mem_takeWhile_imp member,
    fun c member => List.mem_rtakeWhile_imp member⟩
  rw [trim, List.append_assoc, List.rdropWhile_append_rtakeWhile, List.takeWhile_append_dropWhile]

theorem mem_trim {space : Nat → Bool} {t : Text} {c : Nat} (member : c ∈ t) (kept : space c = false) : c ∈ trim space t := by
  obtain ⟨before, after, same, blank, blank'⟩ := trim_split space t
  rw [same] at member
  rcases List.mem_append.mp member with first | last
  · rcases List.mem_append.mp first with first | inside
    · rw [blank c first] at kept
      cases kept
    · exact inside
  · rw [blank' c last] at kept
    cases kept

theorem trim_between {space : Nat → Bool} {before t after : Text} (blank : ∀ c ∈ before, space c = true)
    (blank' : ∀ c ∈ after, space c = true) (some : t ≠ []) (kept : ∀ c ∈ t, space c = false) :
    trim space (before ++ t ++ after) = t := by
  have front : (before ++ t ++ after).dropWhile space = t ++ after := by
    rw [List.append_assoc, List.dropWhile_append_of_pos blank]
    obtain ⟨c, rest, rfl⟩ := List.exists_cons_of_ne_nil some
    rw [List.cons_append, List.dropWhile_cons_of_neg]
    simpa using kept c List.mem_cons_self
  have back : (after.reverse ++ t.reverse).dropWhile space = t.reverse := by
    rw [List.dropWhile_append_of_pos fun c member => blank' c (List.mem_reverse.mp member)]
    obtain ⟨c, rest, last⟩ := List.exists_cons_of_ne_nil (List.reverse_ne_nil_iff.mpr some)
    have member : c ∈ t := List.mem_reverse.mp (last ▸ List.mem_cons_self)
    rw [last, List.dropWhile_cons_of_neg]
    simpa using kept c member
  rw [trim, front, List.rdropWhile, List.reverse_append, back, List.reverse_reverse]

theorem toAscii_of_plain (decimal : Nat → Option (Fin 10)) {c : Nat} (plain : Plain c) : toAscii decimal c = c :=
  if_pos plain.2.1

/-- What the browser trims is a blank to Python, or something that no number has. -/
theorem toAscii_of_jsSpace {decimal : Nat → Option (Fin 10)} (mark : decimal 0xfeff = none) {c : Nat}
    (space : jsSpace c = true) : asciiSpace (toAscii decimal c) = true ∨ toAscii decimal c = 63 := by
  by_cases last : c = 0xfeff
  · subst last
    right
    have narrow : wideSpace 0xfeff = false := by decide
    rw [toAscii, if_neg (by omega), narrow, mark]
    rfl
  · left
    unfold jsSpace at space
    rw [decide_eq_true_eq] at space
    unfold toAscii
    split
    · unfold asciiSpace
      rw [decide_eq_true_eq]
      omega
    · have wide : wideSpace c = true := by
        unfold wideSpace
        rw [decide_eq_true_eq]
        omega
      rw [if_pos wide]
      rfl

/-- Where both read a number it is the same one. -/
theorem pyFloat_eq_jsFloat {decimal : Nat → Option (Fin 10)} (mark : decimal 0xfeff = none) (s : Str) {x y : Number}
    (runtime : pyFloat decimal s.points = some x) (browser : jsFloat s.utf16.units = some y) : x = y := by
  obtain ⟨before, after, split, blank, blank'⟩ := trim_split jsSpace s.utf16.units
  obtain ⟨some', plain⟩ := read_plain browser
  generalize core : trim jsSpace s.utf16.units = number at split some' plain
  have low : ∀ u ∈ before ++ number ++ after, u < 0x10000 ∧ ¬Utf16.isHigh u := by
    have narrow : ∀ u, jsSpace u = true → u < 0x10000 ∧ ¬Utf16.isHigh u := by
      intro u space
      unfold jsSpace at space
      unfold Utf16.isHigh
      rw [decide_eq_true_eq] at space
      omega
    intro u member
    rcases List.mem_append.mp member with first | last
    · rcases List.mem_append.mp first with first | inside
      · exact narrow u (blank u first)
      · have := (plain u inside).2.1
        unfold Utf16.isHigh
        omega
    · exact narrow u (blank' u last)
  have points : s.points = before ++ number ++ after := (Utf16.encode_eq_iff s.bounded low).mp split
  have same : number.map (toAscii decimal) = number := by
    conv_rhs => rw [← List.map_id number]
    exact List.map_congr_left fun c member => toAscii_of_plain decimal (plain c member)
  have ascii : s.points.map (toAscii decimal) = before.map (toAscii decimal) ++ number ++ after.map (toAscii decimal) := by
    rw [points, List.map_append, List.map_append, same]
  -- a question mark would still be there when Python reads
  have noMark : ∀ c ∈ s.points.map (toAscii decimal), c ≠ 63 := by
    rintro c member rfl
    have kept : 63 ∈ trim asciiSpace _ := mem_trim member (by decide)
    exact ((read_plain runtime).2 63 kept).2.2 rfl
  have spaces : ∀ part : Text, (∀ c ∈ part, jsSpace c = true) → (∀ c ∈ part, c ∈ s.points) →
      ∀ c ∈ part.map (toAscii decimal), asciiSpace c = true := by
    intro part blank inside c member
    obtain ⟨d, there, rfl⟩ := List.mem_map.mp member
    exact (toAscii_of_jsSpace mark (blank d there)).resolve_right (noMark _ (List.mem_map_of_mem (inside d there)))
  have front := spaces before blank fun c member => by simp [points, member]
  have back := spaces after blank' fun c member => by simp [points, member]
  have kept : ∀ c ∈ number, asciiSpace c = false := by
    intro c member
    have := (plain c member).1
    unfold asciiSpace
    rw [decide_eq_false_iff_not]
    omega
  have trimmed := trim_between front back some' kept
  rw [pyFloat, ascii, trimmed] at runtime
  rw [jsFloat, core] at browser
  exact Option.some.inj (runtime.symm.trans browser)

end FloatText
