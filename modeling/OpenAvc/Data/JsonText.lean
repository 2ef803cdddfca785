import Mathlib.Data.List.TakeDrop
import Mathlib.Data.List.TakeWhile
import OpenAvc.Data.Json

/-! What `json.dumps` writes, `json.loads` reads back. -/

namespace Json.Scan

variable {budget : Nat} {frames : List Frame} {mode : Mode} {s s' s'' : Scan} {t u : Text}

/-- The scanner goes from `s` to `s'` over the text `t`. -/
def Scans (budget : Nat) (s : Scan) (t : Text) (s' : Scan) : Prop :=
  t.foldlM (step budget) s = .ok s'

theorem Scans.nil : Scans budget s [] s := rfl

theorem Scans.cons {c : Nat} (first : step budget s c = .ok s') (rest : Scans budget s' t s'') :
    Scans budget s (c :: t) s'' := by
  unfold Scans
  rw [List.foldlM_cons, first]
  exact rest

theorem Scans.char {c : Nat} (only : step budget s c = .ok s') : Scans budget s [c] s' :=
  .cons only .nil

theorem Scans.append (first : Scans budget s t s') (rest : Scans budget s' u s'') : Scans budget s (t ++ u) s'' := by
  unfold Scans
  rw [List.foldlM_append, first]
  exact rest

theorem Scans.uncons {c : Nat} (scans : Scans budget s (c :: t) s'') :
    ∃ s', step budget s c = .ok s' ∧ Scans budget s' t s'' := by
  unfold Scans at scans
  rw [List.foldlM_cons] at scans
  cases first : step budget s c with
  | error e =>
    rw [first] at scans
    cases scans
  | ok s' =>
    rw [first] at scans
    exact ⟨s', rfl, scans⟩

/-- Where blanks are passed over. -/
def passes : Mode → Bool
  | .value | .item | .member | .key | .after | .done _ => true
  | _ => false

theorem Scans.blanks (open' : passes mode = true) (blanks : ∀ c ∈ t, blank c = true) :
    Scans budget ⟨frames, mode⟩ t ⟨frames, mode⟩ := by
  induction t with
  | nil => exact .nil
  | cons c t ih =>
    have here := blanks c List.mem_cons_self
    refine .cons ?_ (ih fun c later => blanks c (List.mem_cons_of_mem _ later))
    cases mode <;> simp [passes] at open' <;> simp [step, plain, here]

/-! A string. -/

/-- What the reader has read after the character `c` as the writer puts it: a
surrogate of the text can join the one before it. -/
def push (c : Nat) (read : Text) : Text :=
  if 32 ≤ c ∧ c ≤ 126 ∨ c = 10 ∨ c = 13 ∨ c = 9 ∨ c = 12 ∨ c = 8 then c :: read
  else if c < 0x10000 then pushCode c read
  else pushCode ((0xdc00 + (c - 0x10000) % 0x400) % 0x10000) (pushCode ((0xd800 + (c - 0x10000) / 0x400) % 0x10000) read)

/-- A string as it is read back. -/
def rejoin (t : Text) : Text :=
  (t.foldl (fun read c => push c read) []).reverse

theorem hexValue_digit {d : Nat} (small : d < 16) : hexValue (if d < 10 then 48 + d else 87 + d) = some d := by
  have all : ∀ d < 16, hexValue (if d < 10 then 48 + d else 87 + d) = some d := by decide
  exact all d small

theorem Scans.hex (isKey : Bool) (read : Text) (n : Nat) :
    Scans budget ⟨frames, .hex isKey read 4 0⟩ (hexDigits n) ⟨frames, .string isKey (pushCode (n % 0x10000) read)⟩ := by
  have digit : ∀ (left code d : Nat), step budget ⟨frames, .hex isKey read left code⟩
      (if d % 16 < 10 then 48 + d % 16 else 87 + d % 16) =
        if left ≤ 1 then .ok ⟨frames, .string isKey (pushCode (16 * code + d % 16) read)⟩
        else .ok ⟨frames, .hex isKey read (left - 1) (16 * code + d % 16)⟩ := by
    intro left code d
    simp only [step, plain, hexValue_digit (Nat.mod_lt d (by omega : 16 > 0))]
  have whole : 16 * (16 * (16 * (16 * 0 + n / 4096 % 16) + n / 256 % 16) + n / 16 % 16) + n % 16 = n % 0x10000 := by
    omega
  refine .cons (digit 4 0 _) (.cons (digit 3 _ _) (.cons (digit 2 _ _) (.char ?_)))
  rw [digit 1, ← whole]
  rfl

theorem Scans.escaped (isKey : Bool) (read : Text) (c : Nat) :
    Scans budget ⟨frames, .string isKey read⟩ (escaped c) ⟨frames, .string isKey (push c read)⟩ := by
  have code : ∀ read n, Scans budget ⟨frames, .string isKey read⟩ (text "\\u" ++ hexDigits n)
      ⟨frames, .string isKey (pushCode (n % 0x10000) read)⟩ := fun read n =>
    Scans.append (show Scans budget _ _ ⟨frames, .hex isKey read 4 0⟩ from rfl) (.hex isKey read n)
  have raw : c ≠ 34 → c ≠ 92 → 32 ≤ c → Scans budget ⟨frames, .string isKey read⟩ [c]
      ⟨frames, .string isKey (c :: read)⟩ := by
    intro quote slash low
    exact .char (by simp [step, plain, quote, slash, Nat.not_lt.mpr low])
  unfold Json.escaped
  by_cases special : c = 34 ∨ c = 92
  · rw [if_pos special]
    rcases special with rfl | rfl <;> rfl
  · rw [if_neg special]
    obtain ⟨quote, slash⟩ := not_or.mp special
    by_cases c10 : c = 10
    · subst c10; rfl
    by_cases c13 : c = 13
    · subst c13; rfl
    by_cases c9 : c = 9
    · subst c9; rfl
    by_cases c12 : c = 12
    · subst c12; rfl
    by_cases c8 : c = 8
    · subst c8; rfl
    simp only [c10, c13, c9, c12, c8, if_false, push, or_false]
    by_cases printable : 32 ≤ c ∧ c ≤ 126
    · rw [if_pos printable, if_pos printable]
      exact raw quote slash printable.1
    · rw [if_neg printable, if_neg printable]
      split
      · rename_i short
        have same := code read c
        rwa [Nat.mod_eq_of_lt short] at same
      · rw [List.append_assoc]
        exact (code read _).append (code _ _)

/-- `push` where the writer puts the character as `L` has it. -/
def pushAs (L : Layout) (c : Nat) (read : Text) : Text :=
  if L.escapes c then push c read else c :: read

/-- A string as it is read back from what was written as `L` has it. -/
def rejoinAs (L : Layout) (t : Text) : Text :=
  (t.foldl (fun read c => pushAs L c read) []).reverse

variable {L : Layout}

theorem rejoinAs_of_ascii (ascii : L.ensureAscii = true) (t : Text) : rejoinAs L t = rejoin t := by
  simp only [rejoinAs, rejoin, pushAs, Layout.escapes, ascii, true_or, decide_true, if_true]

theorem Scans.character (isKey : Bool) (read : Text) (c : Nat) :
    Scans budget ⟨frames, .string isKey read⟩ (if L.escapes c then Json.escaped c else [c])
      ⟨frames, .string isKey (pushAs L c read)⟩ := by
  unfold pushAs
  split
  · exact .escaped isKey read c
  · rename_i raw
    simp only [Layout.escapes, decide_eq_true_eq, not_or] at raw
    exact .char (by simp [step, plain, raw.2.2.1, raw.2.2.2, raw.2.1])

theorem Scans.characters (isKey : Bool) (read : Text) (t : Text) :
    Scans budget ⟨frames, .string isKey read⟩ (t.flatMap fun c => if L.escapes c then Json.escaped c else [c])
      ⟨frames, .string isKey (t.foldl (fun read c => pushAs L c read) read)⟩ := by
  induction t generalizing read with
  | nil => exact .nil
  | cons c t ih => exact (Scans.character isKey read c).append (ih _)

theorem Scans.quotedValue (t : Text) :
    Scans budget ⟨frames, .value⟩ (L.quoted t) (give (.str (rejoinAs L t)) frames) := by
  have opens : Scans budget ⟨frames, .value⟩ [34] ⟨frames, .string false []⟩ := rfl
  have closes : Scans budget ⟨frames, .string false (t.foldl (fun read c => pushAs L c read) [])⟩ [34]
      (give (.str (rejoinAs L t)) frames) := rfl
  exact (opens.append (.characters false [] t)).append closes

theorem Scans.quotedKey (atKey : mode = .key ∨ mode = .member) (t : Text) :
    Scans budget ⟨frames, mode⟩ (L.quoted t) ⟨frames, .colon (rejoinAs L t)⟩ := by
  have opens : Scans budget ⟨frames, mode⟩ [34] ⟨frames, .string true []⟩ := by
    rcases atKey with rfl | rfl <;> rfl
  have closes : Scans budget ⟨frames, .string true (t.foldl (fun read c => pushAs L c read) [])⟩ [34]
      ⟨frames, .colon (rejoinAs L t)⟩ := rfl
  exact (opens.append (.characters true [] t)).append closes

/-- A text without surrogates. -/
def scalar (c : Nat) : Bool :=
  c < 0xd800 ∨ 0xdfff < c ∧ c < 0x110000

theorem pushCode_scalar {c : Nat} (high : c < 0xdc00 ∨ 0xdfff < c) (read : Text) : pushCode c read = c :: read := by
  cases read with
  | nil => rfl
  | cons d read =>
    rw [pushCode, if_neg]
    omega

theorem push_scalar {c : Nat} (valid : scalar c = true) (read : Text) : push c read = c :: read := by
  simp only [scalar, decide_eq_true_eq] at valid
  unfold push
  split
  · rfl
  · split
    · exact pushCode_scalar (by omega) read
    · rw [Nat.mod_eq_of_lt (a := 0xdc00 + (c - 0x10000) % 0x400) (by omega),
        Nat.mod_eq_of_lt (a := 0xd800 + (c - 0x10000) / 0x400) (by omega)]
      generalize high : 0xd800 + (c - 0x10000) / 0x400 = h
      generalize low : 0xdc00 + (c - 0x10000) % 0x400 = l
      have joined : 0x10000 + (h - 0xd800) * 0x400 + (l - 0xdc00) = c := by omega
      rw [pushCode_scalar (by omega) read, pushCode, if_pos (by omega), joined]

theorem foldl_pushed {pushes : Nat → Text → Text} (plain : ∀ c ∈ t, ∀ read, pushes c read = c :: read) (read : Text) :
    t.foldl (fun read c => pushes c read) read = t.reverse ++ read := by
  induction t generalizing read with
  | nil => rfl
  | cons c t ih =>
    rw [List.foldl_cons, plain c List.mem_cons_self, ih fun d later => plain d (List.mem_cons_of_mem _ later)]
    simp

theorem rejoin_scalar (valid : t.all scalar = true) : rejoin t = t := by
  have pushed := foldl_pushed (fun c member => push_scalar (List.all_eq_true.mp valid c member)) []
  rw [rejoin, pushed, List.append_nil, List.reverse_reverse]

/-- Where characters are written as they are, they are read as they were. -/
theorem rejoinAs_raw (raw : L.ensureAscii = false) (t : Text) : rejoinAs L t = t := by
  have plain : ∀ c ∈ t, ∀ read, pushAs L c read = c :: read := by
    intro c _ read
    unfold pushAs
    split
    · rename_i escapes
      simp only [Layout.escapes, raw, Bool.false_eq_true, false_or, decide_eq_true_eq] at escapes
      unfold push
      split
      · rfl
      · rw [if_pos (by omega), pushCode_scalar (by omega)]
    · rfl
  rw [rejoinAs, foldl_pushed plain, List.append_nil, List.reverse_reverse]

/-! A number. -/

theorem text_repr (n : Nat) : text (toString n) = (Nat.toDigits 10 n).map Char.toNat := by
  rw [text, Nat.toString_eq_ofList_toDigits, String.toList_ofList]

theorem isDigit_toNat (c : Char) : isDigit c.toNat = c.isDigit := by
  rw [Bool.eq_iff_iff, Char.isDigit_iff_toNat, isDigit, decide_eq_true_eq]
  rfl

theorem digitsValue_map (l : List Char) : digitsValue (l.map Char.toNat) = Nat.ofDigitChars 10 l 0 := by
  rw [digitsValue, List.foldl_map, Nat.ofDigitChars_eq_foldl]
  rfl

theorem head_toDigits {n : Nat} (positive : 0 < n) : ∃ d ds, Nat.toDigits 10 n = d :: ds ∧ d.toNat ≠ 48 := by
  induction n using Nat.strongRecOn with
  | _ n ih =>
    rw [Nat.toDigits_eq_if (by decide)]
    split
    · rename_i small
      have all : ∀ m < 10, 0 < m → (Nat.digitChar m).toNat ≠ 48 := by decide
      exact ⟨_, _, rfl, all n small positive⟩
    · rename_i large
      obtain ⟨d, ds, whole, other⟩ := ih (n / 10) (by omega) (by omega)
      exact ⟨d, ds ++ [Nat.digitChar (n % 10)], by rw [whole, List.cons_append], other⟩

/-- The digits of a number as they are written. -/
structure Digits (n : Nat) (ds : Text) : Prop where
  written : text (toString n) = ds
  nonempty : ds ≠ []
  digits : ∀ d ∈ ds, isDigit d = true
  value : digitsValue ds = n
  noZero : ¬(ds.length > 1 ∧ ds.head? = some 48)
  short : n < 10 ^ intLimit → ds.length ≤ intLimit

theorem digits_repr (n : Nat) : Digits n (text (toString n)) := by
  have whole := text_repr n
  refine ⟨rfl, ?_, ?_, ?_, ?_, ?_⟩
  · rw [whole]
    exact fun none => Nat.toDigits_ne_nil (List.map_eq_nil_iff.mp none)
  · intro d member
    rw [whole] at member
    obtain ⟨c, written, rfl⟩ := List.mem_map.mp member
    rw [isDigit_toNat]
    exact Nat.isDigit_of_mem_toDigits (by decide) (by decide) written
  · rw [whole, digitsValue_map, Nat.ofDigitChars_ten_toDigits]
  · rw [whole]
    rintro ⟨long, zero⟩
    rcases Nat.eq_zero_or_pos n with rfl | positive
    · simp at long
    · obtain ⟨d, ds, digits, other⟩ := head_toDigits positive
      rw [digits] at zero
      exact other (Option.some.inj zero)
  · intro small
    rw [whole, List.length_map]
    exact (Nat.length_toDigits_le_iff (by decide) (by decide)).mpr small

theorem Digits.span {n : Nat} {ds : Text} (D : Digits n ds) : ds.span isDigit = (ds, []) := by
  rw [List.span_eq_takeWhile_dropWhile, List.takeWhile_eq_self_iff.mpr D.digits, List.dropWhile_eq_nil_iff.mpr D.digits]

/-- An `int` is written as digits, after a minus where it is negative. -/
theorem intText_cases (n : Int) : (∃ m : Nat, n = m ∧ Digits m (intText n)) ∨
    ∃ m : Nat, n = -m ∧ ∃ ds, intText n = 45 :: ds ∧ Digits m ds := by
  cases n with
  | ofNat m => exact Or.inl ⟨m, rfl, digits_repr m⟩
  | negSucc m =>
    refine Or.inr ⟨m + 1, by omega, text (toString (m + 1)), ?_, digits_repr (m + 1)⟩
    show text ("-" ++ toString (m + 1)) = _
    rw [text, String.toList_append, List.map_append]
    rfl

/-- A number that is not too long is read as it is written. -/
theorem number_intText {n : Int} (small : n.natAbs < 10 ^ intLimit) : number (intText n) = some (.int n) := by
  rcases intText_cases n with ⟨m, rfl, D⟩ | ⟨m, rfl, ds, whole, D⟩
  · have notMinus : (intText m).head? ≠ some 45 := by
      intro minus
      have member := D.digits 45 (List.mem_of_mem_head? minus)
      cases member
    have short := D.short (by simpa using small)
    generalize intText m = ds at D notMinus short
    unfold number
    simp only [notMinus, if_false, D.span, D.nonempty, D.noZero, or_self]
    simp [Nat.not_lt.mpr short, D.value]
  · have short := D.short (by simpa using small)
    rw [whole]
    unfold number
    simp only [List.head?_cons, List.tail_cons, if_true, D.span, D.nonempty, D.noZero, or_self, if_false]
    simp [Nat.not_lt.mpr short, D.value]

theorem mem_intText {n : Int} {c : Nat} (member : c ∈ intText n) : isDigit c = true ∨ c = 45 := by
  rcases intText_cases n with ⟨m, rfl, D⟩ | ⟨m, rfl, ds, whole, D⟩
  · exact Or.inl (D.digits c member)
  · rw [whole] at member
    rcases List.mem_cons.mp member with minus | later
    · exact Or.inr minus
    · exact Or.inl (D.digits c later)

theorem intText_ne_nil (n : Int) : intText n ≠ [] := by
  cases n with
  | ofNat n => exact (digits_repr n).nonempty
  | negSucc n =>
    intro none
    have length := congrArg List.length none
    simp [intText, text, Int.repr] at length

theorem named_intText {n : Int} (small : n.natAbs < 10 ^ intLimit) : named (intText n) = some (.int n) := by
  have noName : ∀ (name : Text) (c : Nat), c ∈ name → ¬(isDigit c = true ∨ c = 45) → intText n ≠ name := by
    rintro _ c member other rfl
    exact other (mem_intText member)
  unfold named
  rw [if_neg (noName (text "null") 110 (by decide) (by decide)),
    if_neg (noName (text "true") 116 (by decide) (by decide)),
    if_neg (noName (text "false") 102 (by decide) (by decide)),
    if_neg (noName (text "NaN") 78 (by decide) (by decide)),
    if_neg (noName (text "Infinity") 73 (by decide) (by decide)),
    if_neg (noName (text "-Infinity") 73 (by decide) (by decide))]
  exact number_intText small

theorem Digits.head {n : Nat} {ds : Text} (D : Digits n ds) : ∃ c t, ds = c :: t ∧ c ≠ 45 ∧ c ≠ 43 := by
  obtain ⟨c, t, rfl⟩ := List.exists_cons_of_ne_nil D.nonempty
  have digit := D.digits c List.mem_cons_self
  simp only [isDigit, decide_eq_true_eq] at digit
  exact ⟨c, t, rfl, by omega, by omega⟩

theorem Digits.span_e {n : Nat} {ds : Text} (D : Digits n ds) (t : Text) : (ds ++ 101 :: t).span isDigit = (ds, 101 :: t) := by
  rw [List.span_eq_takeWhile_dropWhile, List.takeWhile_append_of_pos D.digits, List.dropWhile_append_of_pos D.digits]
  simp [isDigit]

/-- The digits of a mantissa, with an exponent after them. -/
theorem number_digits {n m : Nat} {ds t : Text} (D : Digits n ds) (E : Digits m t) :
    (number (ds ++ 101 :: t) = some (.float ⟨false, n, m⟩) ∧
      number (ds ++ 101 :: 45 :: t) = some (.float ⟨false, n, -m⟩)) ∧
        number (45 :: (ds ++ 101 :: t)) = some (.float ⟨true, n, m⟩) ∧
          number (45 :: (ds ++ 101 :: 45 :: t)) = some (.float ⟨true, n, -m⟩) := by
  obtain ⟨d, ds', rfl, minus, plus⟩ := D.head
  obtain ⟨c, t', rfl, minus', plus'⟩ := E.head
  have unsigned : ∀ u : Text, (d :: ds' ++ u).head? ≠ some 45 := by simp [minus]
  have digits : (c :: t').all isDigit = true := List.all_eq_true.mpr E.digits
  have noZero := D.noZero
  have other : 0 < ds'.length → d ≠ 48 := by
    intro longer zero
    exact noZero ⟨by simpa using longer, by simp [zero]⟩
  have span := D.span_e
  refine ⟨⟨?_, ?_⟩, ?_, ?_⟩
  · unfold number
    simp only [unsigned, if_false, span, D.nonempty, noZero, or_self]
    simp [digits, D.value, E.value, minus', plus']
  · unfold number
    simp only [unsigned, if_false, span, D.nonempty, noZero, or_self]
    simp [digits, D.value, E.value]
  · unfold number
    simp only [List.head?_cons, List.tail_cons, if_true, span, D.nonempty]
    simp [digits, D.value, E.value, minus', plus']
    exact other
  · unfold number
    simp only [List.head?_cons, List.tail_cons, if_true, span, D.nonempty]
    simp [digits, D.value, E.value]
    exact other

/-- A number with a fraction or an exponent is read as it is written. -/
theorem number_float (d : Decimal) : number (floatText d) = some (.float d) := by
  obtain ⟨negative, digits, exponent⟩ := d
  have e : text "e" = [101] := rfl
  have D := digits_repr digits
  rw [floatText, e, List.append_assoc, List.append_assoc, List.singleton_append]
  dsimp only
  rcases intText_cases exponent with ⟨m, rfl, E⟩ | ⟨m, rfl, t, whole, E⟩
  · cases negative with
    | false => exact (number_digits D E).1.1
    | true => exact (number_digits D E).2.1
  · rw [whole]
    cases negative with
    | false => exact (number_digits D E).1.2
    | true => exact (number_digits D E).2.2

theorem mem_floatText {d : Decimal} {c : Nat} (member : c ∈ floatText d) :
    isDigit c = true ∨ c = 45 ∨ c = 101 := by
  simp only [floatText, List.mem_append] at member
  rcases member with ((minus | digits) | e) | exponent
  · refine Or.inr (Or.inl ?_)
    split at minus
    · exact List.mem_singleton.mp minus
    · exact absurd minus List.not_mem_nil
  · exact Or.inl ((digits_repr d.digits).digits c digits)
  · exact Or.inr (Or.inr (List.mem_singleton.mp e))
  · exact (mem_intText exponent).imp_right Or.inl

/-- A number begins with a digit or a minus. -/
theorem floatText_head (d : Decimal) : ∃ c t, floatText d = c :: t ∧ (isDigit c = true ∨ c = 45) := by
  obtain ⟨c, t, whole⟩ := List.exists_cons_of_ne_nil (digits_repr d.digits).nonempty
  unfold floatText
  split
  · exact ⟨45, _, rfl, Or.inr rfl⟩
  · have digit := (digits_repr d.digits).digits c (by rw [whole]; exact List.mem_cons_self)
    exact ⟨c, t ++ text "e" ++ intText d.exponent, by rw [whole]; rfl, Or.inl digit⟩

theorem named_float (d : Decimal) : named (floatText d) = some (.float d) := by
  have noName : ∀ (name : Text) (c : Nat), c ∈ name → ¬(isDigit c = true ∨ c = 45 ∨ c = 101) → floatText d ≠ name := by
    rintro _ c member other rfl
    exact other (mem_floatText member)
  unfold named
  rw [if_neg (noName (text "null") 110 (by decide) (by decide)),
    if_neg (noName (text "true") 116 (by decide) (by decide)),
    if_neg (noName (text "false") 102 (by decide) (by decide)),
    if_neg (noName (text "NaN") 78 (by decide) (by decide)),
    if_neg (noName (text "Infinity") 73 (by decide) (by decide)),
    if_neg (noName (text "-Infinity") 73 (by decide) (by decide))]
  exact number_float d

/-! A value within the containers around it. -/

/-- A value has been read, up to the end of a number or a name that the next
character shows. -/
inductive Ended (v : Json) (frames : List Frame) : Scan → Prop
  | given : Ended v frames (give v frames)
  | lexeme {read} (names : named read.reverse = some v) : Ended v frames ⟨frames, .lexeme read⟩

variable {v : Json}

theorem step_give (v : Json) (frames : List Frame) (c : Nat) :
    step budget (give v frames) c = plain budget (give v frames) c := by
  rcases frames with _ | ⟨_ | _, _⟩ <;> rfl

theorem Ended.step {c : Nat} (ended : Ended v frames s) (other : inLexeme c = false) :
    Scan.step budget s c = Scan.step budget (give v frames) c := by
  cases ended with
  | given => rfl
  | lexeme names =>
    rw [step_give, Scan.step]
    simp only [other, Bool.false_eq_true, if_false, names]

/-- What follows a value is read from where it has ended. -/
theorem Ended.scans {c : Nat} (ended : Ended v frames s) (other : inLexeme c = false)
    (rest : Scans budget (give v frames) (c :: t) s') : Scans budget s (c :: t) s' := by
  obtain ⟨middle, first, rest⟩ := rest.uncons
  exact .cons (by rw [ended.step other, first]) rest

theorem Scans.lexeme (read : Text) (member : ∀ d ∈ t, inLexeme d = true) :
    Scans budget ⟨frames, .lexeme read⟩ t ⟨frames, .lexeme (t.reverse ++ read)⟩ := by
  induction t generalizing read with
  | nil => exact .nil
  | cons d t ih =>
    rw [List.reverse_cons, List.append_assoc]
    refine .cons ?_ (ih (d :: read) fun e later => member e (List.mem_cons_of_mem _ later))
    simp only [step, member d List.mem_cons_self, if_true]

/-- A number or a name is read as what it names. -/
theorem Scans.named (names : named t = some v) (nonempty : t ≠ []) (member : ∀ d ∈ t, inLexeme d = true) :
    ∃ s, Scans budget ⟨frames, .value⟩ t s ∧ Ended v frames s := by
  obtain ⟨c, t, rfl⟩ := List.exists_cons_of_ne_nil nonempty
  have here := member c List.mem_cons_self
  have first : step budget ⟨frames, .value⟩ c = .ok ⟨frames, .lexeme [c]⟩ := by
    have apart : ∀ d, inLexeme d = false → c ≠ d := fun d out same => by rw [same, out] at here; cases here
    have visible : blank c = false := by
      simp [blank, apart 32 (by decide), apart 9 (by decide), apart 10 (by decide), apart 13 (by decide)]
    simp [step, plain, start, visible, here, apart 34 (by decide), apart 91 (by decide), apart 123 (by decide)]
  refine ⟨_, .cons first (.lexeme [c] fun d later => member d (List.mem_cons_of_mem _ later)), .lexeme ?_⟩
  rw [List.reverse_append, List.reverse_reverse]
  exact names

end Json.Scan

namespace Json

open Scan

mutual

/-- A value as it is read back from what was written. -/
def reread : Json → Json
  | .null => .null
  | .bool b => .bool b
  | .int n => .int n
  | .float d => .float d
  | .constant name => .constant name
  | .str s => .str (rejoin s)
  | .arr items => .arr (rereadItems items)
  | .obj fields => .obj (rereadFields fields)

def rereadItems : List Json → List Json
  | [] => []
  | v :: items => reread v :: rereadItems items

def rereadFields : List (Text × Json) → List (Text × Json)
  | [] => []
  | (k, v) :: fields => (rejoin k, reread v) :: rereadFields fields

end

mutual

/-- `json.loads` takes what `json.dumps` writes of `v`, where there is room for
`room` containers inside one another. -/
def Readable (room : Nat) : Json → Prop
  | .null | .bool _ | .str _ | .float _ => True
  | .int n => n.natAbs < 10 ^ intLimit
  | .constant name => name = "NaN" ∨ name = "Infinity" ∨ name = "-Infinity"
  | .arr items => 0 < room ∧ ReadableItems (room - 1) items
  | .obj fields => 0 < room ∧ ReadableFields (room - 1) fields

def ReadableItems (room : Nat) : List Json → Prop
  | [] => True
  | v :: items => Readable room v ∧ ReadableItems room items

def ReadableFields (room : Nat) : List (Text × Json) → Prop
  | [] => True
  | (_, v) :: fields => Readable room v ∧ ReadableFields room fields

end

mutual

/-- A value as it is read back from what was written as `L` has it. Of an
object's members with one name the last one counts. -/
def readBack (L : Layout) : Json → Json
  | .null => .null
  | .bool b => .bool b
  | .int n => .int n
  | .float d => .float d
  | .constant name => .constant name
  | .str s => .str (rejoinAs L s)
  | .arr items => .arr (readBackItems L items)
  | .obj fields => .obj (readBackFields L [] fields)

def readBackItems (L : Layout) : List Json → List Json
  | [] => []
  | v :: items => readBack L v :: readBackItems L items

def readBackFields (L : Layout) (done : List (Text × Json)) : List (Text × Json) → List (Text × Json)
  | [] => done
  | (k, v) :: fields => readBackFields L (Dict.set done (rejoinAs L k) (readBack L v)) fields

end

mutual

/-- No object in `v` has two members of one name once it is read back. -/
def Unambiguous : Json → Prop
  | .arr items => UnambiguousItems items
  | .obj fields => ((rereadFields fields).map Prod.fst).Nodup ∧ UnambiguousFields fields
  | _ => True

def UnambiguousItems : List Json → Prop
  | [] => True
  | v :: items => Unambiguous v ∧ UnambiguousItems items

def UnambiguousFields : List (Text × Json) → Prop
  | [] => True
  | (_, v) :: fields => Unambiguous v ∧ UnambiguousFields fields

end

namespace Layout

variable {L : Layout} {budget : Nat} {frames : List Frame} {level : Nat}

/-- The items of a container after its first one. -/
def further (L : Layout) (level : Nat) (items : List Text) : Text :=
  items.flatMap (L.separator level ++ ·)

theorem intercalate_cons (separator first : Text) (items : List Text) :
    List.intercalate separator (first :: items) = first ++ items.flatMap (separator ++ ·) := by
  induction items generalizing first with
  | nil => simp [List.intercalate]
  | cons second items ih =>
    have step : List.intercalate separator (first :: second :: items) =
        first ++ (separator ++ List.intercalate separator (second :: items)) := by
      simp [List.intercalate]
    rw [step, ih]
    simp

theorem newline_blank (L : Layout) (level : Nat) : ∀ c ∈ L.newline level, blank c = true := by
  unfold newline
  cases L.indent with
  | none => intro c member; exact absurd member List.not_mem_nil
  | some width =>
    intro c member
    rcases List.mem_cons.mp member with rfl | later
    · rfl
    · rw [List.eq_of_mem_replicate later]; rfl

/-- A separator is a comma and blanks. -/
theorem separator_eq (L : Layout) (level : Nat) :
    ∃ blanks, L.separator level = 44 :: blanks ∧ ∀ c ∈ blanks, blank c = true := by
  unfold separator
  split
  · exact ⟨_, rfl, L.newline_blank level⟩
  · split
    · exact ⟨[], rfl, by decide⟩
    · exact ⟨[32], rfl, by decide⟩

/-- The first character of a value is no blank and ends no array. -/
theorem dump_head (L : Layout) (level : Nat) {v : Json} {room : Nat} (readable : Readable room v) :
    ∃ c t, L.dump level v = c :: t ∧ blank c = false ∧ c ≠ 93 := by
  cases v with
  | null => exact ⟨_, _, rfl, by decide, by decide⟩
  | bool b => cases b <;> exact ⟨_, _, rfl, by decide, by decide⟩
  | int n =>
    obtain ⟨c, t, whole⟩ := List.exists_cons_of_ne_nil (intText_ne_nil n)
    have kind := mem_intText (whole ▸ List.mem_cons_self : c ∈ intText n)
    have low : 45 ≤ c ∧ c ≤ 57 := by
      simp only [isDigit, decide_eq_true_eq] at kind
      omega
    refine ⟨c, t, by rw [dump, whole], ?_, by omega⟩
    simp only [blank, decide_eq_false_iff_not]
    omega
  | float d =>
    obtain ⟨c, t, whole, kind⟩ := floatText_head d
    have low : 45 ≤ c ∧ c ≤ 57 := by
      simp only [isDigit, decide_eq_true_eq] at kind
      omega
    refine ⟨c, t, by rw [dump, whole], ?_, by omega⟩
    simp only [blank, decide_eq_false_iff_not]
    omega
  | constant name =>
    rcases readable with rfl | rfl | rfl <;> exact ⟨_, _, rfl, by decide, by decide⟩
  | str s => exact ⟨34, _, rfl, by decide, by decide⟩
  | arr items =>
    rw [dump, wrap]
    split <;> exact ⟨91, _, rfl, by decide, by decide⟩
  | obj fields =>
    rw [dump, wrap]
    split <;> exact ⟨123, _, rfl, by decide, by decide⟩

/-- Where an array's first item is looked for, a value is read as anywhere. -/
theorem scans_item {c : Nat} {t : Text} {s : Scan} (visible : blank c = false) (notEnd : c ≠ 93)
    (scans : Scans budget ⟨frames, .value⟩ (c :: t) s) : Scans budget ⟨frames, .item⟩ (c :: t) s := by
  obtain ⟨middle, first, rest⟩ := scans.uncons
  refine .cons ?_ rest
  rw [← first]
  simp [step, plain, visible, notEnd, start]

theorem newline_head (L : Layout) (level : Nat) {c : Nat} (other : inLexeme c = false) :
    ∃ d t, L.newline level ++ [c] = d :: t ∧ inLexeme d = false := by
  unfold newline
  cases L.indent with
  | none => exact ⟨c, [], rfl, other⟩
  | some width => exact ⟨10, _, rfl, by decide⟩

/-- A container ends after its last value. -/
theorem scans_closing (L : Layout) (level : Nat) {v : Json} {s s' : Scan} {c : Nat} (ended : Ended v frames s) (other : inLexeme c = false)
    (after : (give v frames).mode = .after) (closes : step budget (give v frames) c = .ok s') :
    Scans budget s (L.newline level ++ [c]) s' := by
  obtain ⟨d, t, whole, out⟩ := L.newline_head level other
  have passing : passes (give v frames).mode = true := by
    rw [after]
    rfl
  have blanks : Scans budget ⟨(give v frames).frames, (give v frames).mode⟩ (L.newline level) (give v frames) :=
    .blanks passing (L.newline_blank level)
  have rest := blanks.append (.char closes)
  rw [whole] at rest ⊢
  exact ended.scans out rest

/-- A further value begins after a comma. -/
theorem scans_separator (L : Layout) (level : Nat) {v : Json} {s : Scan} (frame : Frame) (m : Mode) (ended : Ended v frames s)
    (comma : step budget (give v frames) 44 = .ok ⟨frame :: frames.tail, m⟩) (passing : passes m = true) :
    Scans budget s (L.separator level) ⟨frame :: frames.tail, m⟩ := by
  obtain ⟨blanks, whole, all⟩ := L.separator_eq level
  rw [whole]
  exact ended.scans (by decide) (.cons comma (.blanks passing all))

mutual

/-- What is written of a value is read as that value. -/
theorem scans_dump (plain : L.sortKeys = false) (v : Json) (frames : List Frame) (level : Nat)
    (readable : Readable (budget - frames.length) v) :
    ∃ s, Scans budget ⟨frames, .value⟩ (L.dump level v) s ∧ Ended (readBack L v) frames s := by
  match v, readable with
  | .null, _ => exact Scans.named (t := text "null") rfl (by decide) (by decide)
  | .bool true, _ => exact Scans.named (t := text "true") rfl (by decide) (by decide)
  | .bool false, _ => exact Scans.named (t := text "false") rfl (by decide) (by decide)
  | .int n, small =>
    refine Scans.named (named_intText small) (intText_ne_nil n) fun c member => ?_
    rcases mem_intText member with digit | minus
    · simp [inLexeme, digit]
    · simp [inLexeme, minus]
  | .float d, _ =>
    have nonempty : floatText d ≠ [] := by simp [floatText, intText_ne_nil]
    refine Scans.named (named_float d) nonempty fun c member => ?_
    rcases mem_floatText member with digit | minus | e
    · simp [inLexeme, digit]
    · simp [inLexeme, minus]
    · rw [e]
      rfl
  | .constant name, known =>
    rcases known with rfl | rfl | rfl
    · exact Scans.named (t := text "NaN") rfl (by decide) (by decide)
    · exact Scans.named (t := text "Infinity") rfl (by decide) (by decide)
    · exact Scans.named (t := text "-Infinity") rfl (by decide) (by decide)
  | .str s, _ => exact ⟨_, .quotedValue s, .given⟩
  | .arr [], ⟨more, _⟩ =>
    have opens : step budget ⟨frames, .value⟩ 91 = .ok ⟨.arr [] :: frames, .item⟩ := by
      simp [step, Scan.plain, start, blank, Nat.not_le.mpr (Nat.lt_of_sub_pos more)]
    exact ⟨_, .cons opens (.char rfl), .given⟩
  | .arr (v :: items), ⟨more, first, rest⟩ =>
    have opens : step budget ⟨frames, .value⟩ 91 = .ok ⟨.arr [] :: frames, .item⟩ := by
      simp [step, Scan.plain, start, blank, Nat.not_le.mpr (Nat.lt_of_sub_pos more)]
    rw [Nat.sub_sub] at first rest
    obtain ⟨s, scans, ended⟩ := scans_dump plain v (.arr [] :: frames) (level + 1) first
    obtain ⟨s', w, done, scans', ended', whole⟩ := scans_items plain items frames (level + 1) ended rest
    obtain ⟨c, t, text, visible, notEnd⟩ := L.dump_head (level + 1) first
    rw [text] at scans
    have leading : Scans budget ⟨.arr [] :: frames, .item⟩ (L.newline (level + 1)) ⟨.arr [] :: frames, .item⟩ :=
      .blanks rfl (L.newline_blank (level + 1))
    have inside := leading.append ((scans_item visible notEnd scans).append scans')
    have closed : Scans budget s' (L.newline level ++ [93]) (give (.arr (w :: done).reverse) frames) :=
      L.scans_closing level ended' (by decide) rfl rfl
    refine ⟨_, ?_, .given⟩
    have shape : L.dump level (.arr (v :: items)) = 91 :: ((L.newline (level + 1) ++ (L.dump (level + 1) v ++
        L.further (level + 1) (L.dumpItems (level + 1) items))) ++ (L.newline level ++ [93])) := by
      simp [dump, dumpItems, wrap, intercalate_cons, further]
    rw [shape, text, readBack, readBackItems]
    have same : (w :: done).reverse = readBack L v :: readBackItems L items := by simp [whole]
    rw [← same]
    exact .cons opens (inside.append closed)
  | .obj [], ⟨more, _⟩ =>
    have opens : step budget ⟨frames, .value⟩ 123 = .ok ⟨.obj [] [] :: frames, .member⟩ := by
      simp [step, Scan.plain, start, blank, Nat.not_le.mpr (Nat.lt_of_sub_pos more)]
    have shape : L.dump level (.obj []) = [123, 125] := by simp [dump, dumpFields, wrap, inOrder, plain]
    rw [shape]
    exact ⟨_, .cons opens (.char rfl), .given⟩
  | .obj ((k, v) :: fields), ⟨more, first, rest⟩ =>
    have opens : step budget ⟨frames, .value⟩ 123 = .ok ⟨.obj [] [] :: frames, .member⟩ := by
      simp [step, Scan.plain, start, blank, Nat.not_le.mpr (Nat.lt_of_sub_pos more)]
    rw [Nat.sub_sub] at first rest
    obtain ⟨s, scans, ended⟩ := scans_field plain k v (.member) [] [] frames (level + 1) (Or.inr rfl) first
    obtain ⟨s', w, done, k', scans', ended', whole⟩ := scans_fields plain fields frames (level + 1) ended rest
    have leading : Scans budget ⟨.obj [] [] :: frames, .member⟩ (L.newline (level + 1)) ⟨.obj [] [] :: frames, .member⟩ :=
      .blanks rfl (L.newline_blank (level + 1))
    have inside := leading.append (scans.append scans')
    have closed : Scans budget s' (L.newline level ++ [125]) (give (.obj (Dict.set done k' w)) frames) :=
      L.scans_closing level ended' (by decide) rfl rfl
    refine ⟨_, ?_, .given⟩
    have shape : L.dump level (.obj ((k, v) :: fields)) = 123 :: ((L.newline (level + 1) ++
        ((L.quoted k ++ L.colon ++ L.dump (level + 1) v) ++ L.further (level + 1)
          ((L.dumpFields (level + 1) fields).map fun u => L.quoted u.1 ++ L.colon ++ u.2))) ++
        (L.newline level ++ [125])) := by
      simp [dump, dumpFields, wrap, inOrder, plain, intercalate_cons, further]
    rw [shape, readBack, readBackFields]
    rw [whole] at closed
    exact .cons opens (inside.append closed)

theorem scans_field (plain : L.sortKeys = false) (k : Text) (v : Json) (mode : Mode) (done : List (Text × Json))
    (last : Text) (frames : List Frame) (level : Nat) (atKey : mode = .key ∨ mode = .member)
    (readable : Readable (budget - (frames.length + 1)) v) :
    ∃ s, Scans budget ⟨.obj done last :: frames, mode⟩ (L.quoted k ++ L.colon ++ L.dump level v) s ∧
      Ended (readBack L v) (.obj done (rejoinAs L k) :: frames) s := by
  obtain ⟨s, scans, ended⟩ := scans_dump plain v (.obj done (rejoinAs L k) :: frames) level readable
  have colon : Scans budget ⟨.obj done last :: frames, .colon (rejoinAs L k)⟩ L.colon
      ⟨.obj done (rejoinAs L k) :: frames, .value⟩ := by
    unfold Layout.colon
    split <;> rfl
  exact ⟨s, ((Scans.quotedKey atKey k).append colon).append scans, ended⟩

theorem scans_items (plain : L.sortKeys = false) (items : List Json) (frames : List Frame) (level : Nat)
    {v : Json} {done : List Json} {s : Scan} (ended : Ended v (.arr done :: frames) s)
    (readable : ReadableItems (budget - (frames.length + 1)) items) :
    ∃ s' w done', Scans budget s (L.further level (L.dumpItems level items)) s' ∧ Ended w (.arr done' :: frames) s' ∧
      w :: done' = (readBackItems L items).reverse ++ v :: done := by
  match items, readable with
  | [], _ => exact ⟨s, v, done, .nil, ended, rfl⟩
  | x :: items, ⟨first, rest⟩ =>
    have comma : Scans budget s (L.separator level) ⟨.arr (v :: done) :: frames, .value⟩ :=
      L.scans_separator level _ _ ended rfl rfl
    obtain ⟨s₁, scans, ended₁⟩ := scans_dump plain x (.arr (v :: done) :: frames) level first
    obtain ⟨s', w, done', scans', ended', whole⟩ := scans_items plain items frames level ended₁ rest
    refine ⟨s', w, done', ?_, ended', ?_⟩
    · exact (comma.append scans).append scans'
    · rw [whole, readBackItems]
      simp

theorem scans_fields (plain : L.sortKeys = false) (fields : List (Text × Json)) (frames : List Frame) (level : Nat)
    {v : Json} {done : List (Text × Json)} {k : Text} {s : Scan} (ended : Ended v (.obj done k :: frames) s)
    (readable : ReadableFields (budget - (frames.length + 1)) fields) :
    ∃ s' w done' k', Scans budget s
        (L.further level ((L.dumpFields level fields).map fun u => L.quoted u.1 ++ L.colon ++ u.2)) s' ∧
      Ended w (.obj done' k' :: frames) s' ∧ Dict.set done' k' w = readBackFields L (Dict.set done k v) fields := by
  match fields, readable with
  | [], _ => exact ⟨s, v, done, k, .nil, ended, rfl⟩
  | (k₂, x) :: fields, ⟨first, rest⟩ =>
    have comma : Scans budget s (L.separator level) ⟨.obj (Dict.set done k v) k :: frames, .key⟩ :=
      L.scans_separator level _ _ ended rfl rfl
    obtain ⟨s₁, scans, ended₁⟩ := scans_field plain k₂ x .key (Dict.set done k v) k frames level (Or.inl rfl) first
    obtain ⟨s', w, done', k', scans', ended', whole⟩ := scans_fields plain fields frames level ended₁ rest
    refine ⟨s', w, done', k', ?_, ended', whole⟩
    exact (comma.append scans).append scans'

end

end Layout

/-- What `json.dumps` has written, `json.loads` reads back. -/
theorem loads_dumps_readBack {L : Layout} (plain : L.sortKeys = false) {budget : Nat} {v : Json} (readable : Readable budget v) :
    loads budget (dumps L v) = .ok (readBack L v) := by
  obtain ⟨s, scans, ended⟩ : ∃ s, Scans budget ⟨[], .value⟩ (dumps L v) s ∧ Ended (readBack L v) [] s :=
    L.scans_dump plain v [] 0 readable
  have noMark : (dumps L v).head? ≠ some 0xfeff := by
    intro mark
    obtain ⟨t, whole⟩ := List.head?_eq_some_iff.mp mark
    rw [whole] at scans
    obtain ⟨s', first, _⟩ := scans.uncons
    cases first
  have finish : s.finish = .ok (readBack L v) := by
    cases ended with
    | given => rfl
    | lexeme names => simp [Scan.finish, names]
  unfold loads
  rw [if_neg noMark]
  unfold Scans at scans
  rw [scans]
  exact finish

mutual

/-- A value whose objects name each member once is read back member by member. -/
theorem readBack_eq_reread {L : Layout} (ascii : L.ensureAscii = true) (v : Json) (clear : Unambiguous v) :
    readBack L v = reread v := by
  match v, clear with
  | .null, _ | .bool _, _ | .int _, _ | .float _, _ | .constant _, _ => rfl
  | .str s, _ => rw [readBack, reread, rejoinAs_of_ascii ascii]
  | .arr items, clear => rw [readBack, reread, readBackItems_eq_reread ascii items clear]
  | .obj fields, ⟨distinct, clear⟩ =>
    rw [readBack, reread, readBackFields_eq_reread ascii fields [] (by simpa using distinct) clear, List.nil_append]

theorem readBackItems_eq_reread {L : Layout} (ascii : L.ensureAscii = true) (items : List Json)
    (clear : UnambiguousItems items) : readBackItems L items = rereadItems items := by
  match items, clear with
  | [], _ => rfl
  | v :: items, ⟨first, rest⟩ =>
    rw [readBackItems, rereadItems, readBack_eq_reread ascii v first, readBackItems_eq_reread ascii items rest]

theorem readBackFields_eq_reread {L : Layout} (ascii : L.ensureAscii = true) (fields done : List (Text × Json))
    (distinct : ((done ++ rereadFields fields).map Prod.fst).Nodup) (clear : UnambiguousFields fields) :
    readBackFields L done fields = done ++ rereadFields fields := by
  match fields, clear with
  | [], _ => simp [readBackFields, rereadFields]
  | (k, v) :: fields, ⟨first, rest⟩ =>
    have absent : rejoin k ∉ done.map Prod.fst := by
      intro member
      rw [List.map_append, List.nodup_append] at distinct
      exact distinct.2.2 _ member _ List.mem_cons_self rfl
    have grown := Dict.set_of_not_mem absent (reread v)
    rw [readBackFields, rejoinAs_of_ascii ascii, readBack_eq_reread ascii v first, grown,
      readBackFields_eq_reread ascii fields _ (by rw [List.append_assoc]; exact distinct) rest, List.append_assoc]
    rfl

end

theorem loads_dumps {L : Layout} (plain : L.sortKeys = false) (ascii : L.ensureAscii = true) {budget : Nat} {v : Json}
    (readable : Readable budget v) (clear : Unambiguous v) : loads budget (dumps L v) = .ok (reread v) := by
  rw [loads_dumps_readBack plain readable, readBack_eq_reread ascii v clear]

/-! Which characters are written. -/

/-- A character that `json.dumps` writes outside strings, and in ASCII. -/
def ascii (c : Nat) : Bool :=
  c = 10 ∨ 32 ≤ c ∧ c ≤ 126

theorem ascii_hexDigits (n : Nat) : (hexDigits n).all ascii = true := by
  have digit : ∀ d, ascii (if d % 16 < 10 then 48 + d % 16 else 87 + d % 16) = true := by
    intro d
    simp only [ascii, decide_eq_true_eq]
    split <;> omega
  simp only [hexDigits, List.map_cons, List.map_nil, List.all_cons, List.all_nil, digit, Bool.and_self]

theorem ascii_escaped (c : Nat) : (escaped c).all ascii = true := by
  unfold escaped
  repeat' split
  · rename_i special
    rcases special with rfl | rfl <;> decide
  · decide
  · decide
  · decide
  · decide
  · decide
  · rename_i printable
    simp [ascii, printable]
  · rw [List.all_append, ascii_hexDigits]
    decide
  · simp only [List.all_append, ascii_hexDigits]
    decide

mutual

/-- The texts in `v`, the names of members among them. -/
def texts : Json → List Text
  | .str s => [s]
  | .arr items => textsItems items
  | .obj fields => textsFields fields
  | _ => []

def textsItems : List Json → List Text
  | [] => []
  | v :: items => texts v ++ textsItems items

def textsFields : List (Text × Json) → List Text
  | [] => []
  | (k, v) :: fields => k :: (texts v ++ textsFields fields)

end

namespace Layout

variable {L : Layout} {P : Nat → Bool}

theorem ascii_quoted (only : L.ensureAscii = true) (t : Text) : (L.quoted t).all ascii = true := by
  have inside : (t.flatMap fun c => if L.escapes c then escaped c else [c]).all ascii = true := by
    simp only [escapes, only, true_or, decide_true, if_true, List.all_flatMap, ascii_escaped, List.all_eq_true, implies_true]
  simp only [quoted, List.all_append, inside]
  decide

theorem all_of_ascii (prints : ∀ c, ascii c = true → P c = true) {t : Text} (plain : t.all ascii = true) :
    t.all P = true := by
  rw [List.all_eq_true] at plain ⊢
  exact fun c member => prints c (plain c member)

theorem ascii_colon (L : Layout) : L.colon.all ascii = true := by
  unfold colon
  split <;> decide

theorem ascii_newline (L : Layout) (level : Nat) : (L.newline level).all ascii = true := by
  unfold newline
  cases L.indent with
  | none => rfl
  | some width =>
    rw [Option.elim_some, List.all_cons, List.all_eq_true.mpr]
    · rfl
    · intro c member
      rw [List.eq_of_mem_replicate member]
      rfl

theorem ascii_separator (L : Layout) (level : Nat) : (L.separator level).all ascii = true := by
  unfold separator
  split
  · rw [List.all_append, ascii_newline]
    decide
  · split <;> decide

theorem all_wrap (prints : ∀ c, ascii c = true → P c = true) (L : Layout) (level : Nat) {opening closing : Nat}
    (opens : ascii opening = true) (closes : ascii closing = true) (items : List Text) :
    (L.wrap level opening closing items).all P = items.all (·.all P) := by
  have around : P opening = true ∧ P closing = true := ⟨prints _ opens, prints _ closes⟩
  unfold wrap
  cases items with
  | nil => simp [around]
  | cons t items =>
    have separator := all_of_ascii prints (L.ascii_separator (level + 1))
    have further : (items.flatMap (L.separator (level + 1) ++ ·)).all P = items.all (·.all P) := by
      simp only [List.all_flatMap, List.all_append, separator, Bool.true_and]
    rw [if_neg (by simp), intercalate_cons]
    simp only [List.all_append, List.all_cons, List.all_nil, around, further, Bool.and_true, Bool.true_and,
      all_of_ascii prints (L.ascii_newline _)]

mutual

/-- Outside its strings a value is written in ASCII. -/
theorem all_dump (prints : ∀ c, ascii c = true → P c = true) (plain : L.sortKeys = false) (v : Json) (level : Nat)
    {room : Nat} (readable : Readable room v) :
    (L.dump level v).all P = (texts v).all fun t => (L.quoted t).all P := by
  match v, readable with
  | .null, _ | .bool true, _ | .bool false, _ => exact all_of_ascii prints rfl
  | .int n, _ =>
    refine all_of_ascii prints (List.all_eq_true.mpr fun c member => ?_)
    have kind := mem_intText member
    simp only [isDigit, ascii, decide_eq_true_eq] at kind ⊢
    omega
  | .float d, _ =>
    refine all_of_ascii prints (List.all_eq_true.mpr fun c member => ?_)
    have kind := mem_floatText member
    simp only [isDigit, ascii, decide_eq_true_eq] at kind ⊢
    omega
  | .constant name, known => rcases known with rfl | rfl | rfl <;> exact all_of_ascii prints rfl
  | .str s, _ => simp [dump, texts]
  | .arr items, ⟨_, inside⟩ =>
    rw [dump, texts, all_wrap prints L level (by decide) (by decide), all_items prints plain items (level + 1) inside]
  | .obj fields, ⟨_, inside⟩ =>
    rw [dump, texts, all_wrap prints L level (by decide) (by decide), inOrder, plain,
      ← all_fields prints plain fields (level + 1) inside, List.all_map]
    rfl

theorem all_items (prints : ∀ c, ascii c = true → P c = true) (plain : L.sortKeys = false) (items : List Json)
    (level : Nat) {room : Nat} (readable : ReadableItems room items) :
    (L.dumpItems level items).all (·.all P) = (textsItems items).all fun t => (L.quoted t).all P := by
  match items, readable with
  | [], _ => rfl
  | v :: items, ⟨first, rest⟩ =>
    rw [dumpItems, textsItems, List.all_cons, List.all_append, all_dump prints plain v level first,
      all_items prints plain items level rest]

theorem all_fields (prints : ∀ c, ascii c = true → P c = true) (plain : L.sortKeys = false)
    (fields : List (Text × Json)) (level : Nat) {room : Nat} (readable : ReadableFields room fields) :
    (L.dumpFields level fields).all (fun u => (L.quoted u.1 ++ L.colon ++ u.2).all P) =
      (textsFields fields).all fun t => (L.quoted t).all P := by
  match fields, readable with
  | [], _ => rfl
  | (k, v) :: fields, ⟨first, rest⟩ =>
    simp only [dumpFields, textsFields, List.all_cons, List.all_append, all_dump prints plain v level first,
      all_of_ascii prints L.ascii_colon, Bool.and_true, Bool.and_assoc]
    rw [← all_fields prints plain fields level rest]
    simp only [List.all_append, all_of_ascii prints L.ascii_colon, Bool.and_true]

end

end Layout

theorem ascii_dumps {L : Layout} (plain : L.sortKeys = false) (only : L.ensureAscii = true) {v : Json} {room : Nat}
    (readable : Readable room v) : (dumps L v).all ascii = true := by
  rw [dumps, Layout.all_dump (fun _ => id) plain v 0 readable]
  simp [Layout.ascii_quoted only]

end Json
