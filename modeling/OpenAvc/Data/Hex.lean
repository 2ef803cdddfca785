import Mathlib.Data.Nat.Digits.Defs
import Mathlib.Data.Nat.Digits.Lemmas
import OpenAvc.Data.FloatText

/-! Hexadecimal words as text: `int(t, 16)`, the format `04X`, and words between white space. -/

namespace Hex

def digit (d : Nat) : Nat :=
  if d < 10 then 48 + d else 55 + d

/-- `f"{n:04X}"` -/
def word (n : Nat) : Text :=
  ((Nat.digits 16 n).reverse.map digit).leftpad 4 48

/-- The digits of a number from the left, with single underscores between them. The flag says that no
underscore may come next, nor the end. -/
def read : Bool → Nat → Text → Option Nat
  | bar, n, [] => if bar then none else some n
  | bar, n, c :: t =>
    if c = 95 then if bar then none else read true n t
    else match Json.Scan.hexValue c with
      | some d => read false (n * 16 + d) t
      | none => none

/-- A text without the prefix `0x`, behind which one underscore may stand. -/
def unprefixed : Text → Text
  | 48 :: 120 :: 95 :: t => t
  | 48 :: 88 :: 95 :: t => t
  | 48 :: 120 :: t => t
  | 48 :: 88 :: t => t
  | t => t

/-- `int(t, 16)` of a text whose digits and blanks are ASCII. -/
def readInt (t : Text) : Option Int :=
  let (negative, body) := FloatText.signed (FloatText.trim FloatText.asciiSpace t)
  (read true 0 (unprefixed body)).map fun n => if negative then -(n : Int) else n

/-- `int(t, 16)`, or `none` where it raises. -/
def pyInt (decimal : Nat → Option (Fin 10)) (t : Text) : Option Int :=
  readInt (t.map (FloatText.toAscii decimal))

/-- `t.split()` -/
def split (t : Text) : List Text :=
  (t.splitOnP isSpace).filter (· ≠ [])

theorem hexValue_digit {d : Nat} (small : d < 16) : Json.Scan.hexValue (digit d) = some d := by
  unfold digit Json.Scan.hexValue isDigit
  split_ifs with low <;> simp_all <;> omega

/-- A digit is a digit or a capital letter up to F. -/
theorem digit_range {d : Nat} (small : d < 16) : (48 ≤ digit d ∧ digit d ≤ 57) ∨ (65 ≤ digit d ∧ digit d ≤ 70) := by
  unfold digit
  split_ifs <;> omega

theorem read_digits {ds : List Nat} (small : ∀ d ∈ ds, d < 16) (bar : Bool) (n : Nat) (some' : ds ≠ []) :
    read bar n (ds.map digit) = some (ds.foldl (fun n d => n * 16 + d) n) := by
  induction ds generalizing bar n with
  | nil => exact absurd rfl some'
  | cons d ds ih =>
    have here := small d List.mem_cons_self
    have notBar : digit d ≠ 95 := by
      have range := digit_range here
      omega
    rw [List.map_cons, read, if_neg notBar, hexValue_digit here]
    dsimp only
    cases ds with
    | nil => rfl
    | cons e ds => exact ih (fun x member => small x (List.mem_cons_of_mem _ member)) _ _ (List.cons_ne_nil _ _)

/-- The digits of a word, padded on the left. -/
def padded (n : Nat) : List Nat :=
  (Nat.digits 16 n).reverse.leftpad 4 0

theorem word_eq (n : Nat) : word n = (padded n).map digit := by
  unfold word padded List.leftpad
  rw [List.map_append, List.map_replicate, List.length_map]
  rfl

theorem padded_lt (n : Nat) : ∀ d ∈ padded n, d < 16 := by
  intro d member
  unfold padded List.leftpad at member
  rcases List.mem_append.mp member with zero | digit
  · rw [List.eq_of_mem_replicate zero]
    decide
  · exact Nat.digits_lt_base (by decide) (List.mem_reverse.mp digit)

theorem length_padded (n : Nat) : 4 ≤ (padded n).length := by
  unfold padded List.leftpad
  rw [List.length_append, List.length_replicate]
  omega

theorem foldl_padded (n : Nat) : (padded n).foldl (fun n d => n * 16 + d) 0 = n := by
  have zeros (k : Nat) : (List.replicate k 0).foldl (fun n d => n * 16 + d) 0 = 0 := by
    induction k with
    | zero => rfl
    | succ k ih => exact ih
  unfold padded List.leftpad
  rw [List.foldl_append, zeros, List.foldl_reverse]
  have value := Nat.ofDigits_digits 16 n
  rw [Nat.ofDigits_eq_foldr] at value
  conv_rhs => rw [← value]
  congr 1
  funext d m
  simp only [Nat.cast_id]
  omega

/-- A word is read as the number it was written for. -/
theorem pyInt_word (decimal : Nat → Option (Fin 10)) (n : Nat) : pyInt decimal (word n) = some (n : Int) := by
  have range : ∀ c ∈ word n, (48 ≤ c ∧ c ≤ 57) ∨ (65 ≤ c ∧ c ≤ 70) := by
    intro c member
    rw [word_eq] at member
    obtain ⟨d, inside, rfl⟩ := List.mem_map.mp member
    exact digit_range (padded_lt n d inside)
  have ascii : (word n).map (FloatText.toAscii decimal) = word n := by
    conv_rhs => rw [← List.map_id (word n)]
    refine List.map_congr_left fun c member => ?_
    have bounds := range c member
    exact FloatText.toAscii_of_plain decimal ⟨by omega, by omega, by omega⟩
  have length := length_padded n
  have longer : 4 ≤ (word n).length := by
    rw [word_eq, List.length_map]
    exact length
  have some' : word n ≠ [] := by
    intro empty
    rw [empty] at longer
    cases longer
  have trimmed : FloatText.trim FloatText.asciiSpace (word n) = word n := by
    have kept : ∀ c ∈ word n, FloatText.asciiSpace c = false := by
      intro c member
      have bounds := range c member
      unfold FloatText.asciiSpace
      rw [decide_eq_false_iff_not]
      omega
    have whole := @FloatText.trim_between _ [] _ [] (by simp) (by simp) some' kept
    rwa [List.nil_append, List.append_nil] at whole
  have value : read true 0 (word n) = some n := by
    have nonempty : padded n ≠ [] := by
      intro empty
      rw [empty] at length
      cases length
    rw [word_eq, read_digits (padded_lt n) true 0 nonempty, foldl_padded]
  -- neither a sign nor a second letter x
  obtain ⟨a, b, t, whole⟩ : ∃ a b t, word n = a :: b :: t := by
    match word n, longer with
    | a :: b :: t, _ => exact ⟨a, b, t, rfl⟩
  have first := range a (whole ▸ List.mem_cons_self)
  have second := range b (whole ▸ List.mem_cons_of_mem a List.mem_cons_self)
  have unsigned : FloatText.signed (word n) = (false, word n) := by
    rw [whole]
    unfold FloatText.signed
    split
    · rename_i same
      have here := (List.cons.inj same).1
      omega
    · rename_i same
      have here := (List.cons.inj same).1
      omega
    · rfl
  have plain : unprefixed (word n) = word n := by
    rw [whole]
    unfold unprefixed
    split
    all_goals first
      | rfl
      | (rename_i same
         have here := (List.cons.inj (List.cons.inj same).2).1
         omega)
  rw [pyInt, readInt, ascii, trimmed, unsigned]
  dsimp only
  rw [plain, value]
  rfl

theorem word_ne_nil (n : Nat) : word n ≠ [] := by
  intro empty
  have length := length_padded n
  rw [word_eq, List.map_eq_nil_iff] at empty
  rw [empty] at length
  cases length

theorem isSpace_word {n c : Nat} (member : c ∈ word n) : isSpace c = false := by
  rw [word_eq] at member
  obtain ⟨d, inside, rfl⟩ := List.mem_map.mp member
  have range := digit_range (padded_lt n d inside)
  unfold isSpace
  rw [decide_eq_false_iff_not]
  omega

/-- Words that a blank joins are split as they are. -/
theorem split_join {ts : List Text} (some' : ∀ t ∈ ts, t ≠ []) (solid : ∀ t ∈ ts, ∀ c ∈ t, isSpace c = false) :
    split (List.intercalate [32] ts) = ts := by
  have blank : isSpace 32 = true := by decide
  induction ts with
  | nil => rfl
  | cons t ts ih =>
    have here := some' t List.mem_cons_self
    have solid' := solid t List.mem_cons_self
    have later := ih (fun u member => some' u (List.mem_cons_of_mem _ member)) fun u member => solid u (List.mem_cons_of_mem _ member)
    cases ts with
    | nil =>
      have whole : List.intercalate [32] [t] = t := by simp [List.intercalate]
      rw [split, whole, List.splitOnP_eq_singleton solid', List.filter_cons_of_pos (by simpa using here)]
      rfl
    | cons u ts =>
      have whole : List.intercalate [32] (t :: u :: ts) = t ++ 32 :: List.intercalate [32] (u :: ts) := by
        simp [List.intercalate]
      rw [split] at later ⊢
      rw [whole, List.splitOnP_append_cons_of_forall_mem solid' 32 blank, List.filter_cons_of_pos (by simpa using here), later]

/-- The words of numbers are read as these numbers. -/
theorem split_words (decimal : Nat → Option (Fin 10)) (ns : List Nat) :
    (split (List.intercalate [32] (ns.map word))).mapM (pyInt decimal) = some (ns.map Int.ofNat) := by
  rw [split_join]
  · induction ns with
    | nil => rfl
    | cons n ns ih =>
      rw [List.map_cons, List.mapM_cons, pyInt_word, ih]
      rfl
  · intro t member
    obtain ⟨n, _, rfl⟩ := List.mem_map.mp member
    exact word_ne_nil n
  · intro t member c inside
    obtain ⟨n, _, rfl⟩ := List.mem_map.mp member
    exact isSpace_word inside

end Hex
