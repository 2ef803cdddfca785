import OpenAvc.Driver.Conversion

/-! A value's own word on the wire, and the value that a word stands for. -/

namespace OpenAvc.Driver

/-- White space at the ends of a text is all that `strip` takes off. -/
theorem strip_parts (t : Text) :
    ∃ front back, t = front ++ t.strip ++ back ∧ (∀ c ∈ front, isSpace c = true) ∧ ∀ c ∈ back, isSpace c = true := by
  refine ⟨t.takeWhile isSpace, ((t.dropWhile isSpace).reverse.takeWhile isSpace).reverse, ?_, fun c => List.mem_takeWhile_imp,
    fun c member => List.mem_takeWhile_imp (List.mem_reverse.mp member)⟩
  have rest : t.strip ++ ((t.dropWhile isSpace).reverse.takeWhile isSpace).reverse = t.dropWhile isSpace := by
    unfold Text.strip
    rw [← List.reverse_append, List.takeWhile_append_dropWhile, List.reverse_reverse]
  rw [List.append_assoc, rest, List.takeWhile_append_dropWhile]

/-- `str.lower`: white space around a text stays, and makes no difference to the rest. -/
structure Casing where
  lower : Text → Text
  lower_blanks (front t back : Text) (first : ∀ c ∈ front, isSpace c = true) (last : ∀ c ∈ back, isSpace c = true) :
    lower (front ++ t ++ back) = front ++ lower t ++ back

/-- Only what has no white space at its ends has the lower case of its middle. -/
theorem Casing.strip_eq_of_lower (casing : Casing) {t : Text} (same : casing.lower t.strip = casing.lower t) : t.strip = t := by
  obtain ⟨front, back, parts, first, last⟩ := strip_parts t
  have longer := casing.lower_blanks front t.strip back first last
  rw [← parts, ← same] at longer
  have lengths := congrArg List.length longer
  simp only [List.length_append] at lengths
  have noFront : front = [] := List.length_eq_zero_iff.mp (by omega)
  have noBack : back = [] := List.length_eq_zero_iff.mp (by omega)
  rw [noFront, noBack, List.nil_append, List.append_nil] at parts
  exact parts.symm

namespace ValueMap

open Conversion

/-- A dict from values to words. -/
abbrev Entries := List (Value × Value)

variable (py : Conversion.Python) (casing : Casing)

/-- `_map_key_matches` -/
def mapKeyMatches (key value : Value) : Bool :=
  match value with
  | .bool b => casing.lower (str py key).strip = if b then text "true" else text "false"
  | value => str py key = str py value

/-- `map_word`; `valueMap` is there where it is a dict. -/
def mapWord (value : Value) (valueMap : Option Entries) : Option Text :=
  match valueMap with
  | none => none
  | some entries => (entries.find? fun u => mapKeyMatches py casing u.1 value).map fun u => str py u.2

/-- `value_for_map_word`; `none` is `(False, None)`. -/
def valueForMapWord (word : Value) (valueMap : Option Entries) : Option Value :=
  match valueMap with
  | none => none
  | some entries =>
    let stripped := (str py word).strip
    match entries.find? fun u => str py u.2 = stripped with
    | some u => some u.1
    | none => (entries.find? fun u => casing.lower (str py u.2) = casing.lower stripped).map Prod.fst

/-- No two keys name one value, and no two words differ only in their case. -/
structure Clear (entries : Entries) : Prop where
  keys : ∀ u ∈ entries, ∀ w ∈ entries, ∀ value, mapKeyMatches py casing u.1 value = true →
    mapKeyMatches py casing w.1 value = true → u = w
  words : ∀ u ∈ entries, ∀ w ∈ entries, casing.lower (str py u.2) = casing.lower (str py w.2) → u = w

theorem find?_only {l : List α} {p : α → Bool} {u : α} (member : u ∈ l) (holds : p u = true)
    (only : ∀ w ∈ l, p w = true → w = u) : l.find? p = some u := by
  cases found : l.find? p with
  | none => exact absurd holds (by simpa using List.find?_eq_none.mp found u member)
  | some w => rw [only w (List.mem_of_find?_eq_some found) (List.find?_some found)]

variable {py casing}

theorem mapWord_eq {entries : Entries} (clear : Clear py casing entries) {u : Value × Value} (member : u ∈ entries)
    {value : Value} (named : mapKeyMatches py casing u.1 value = true) : mapWord py casing value (some entries) = some (str py u.2) := by
  have first : entries.find? (fun w => mapKeyMatches py casing w.1 value) = some u :=
    find?_only member named fun w held other => clear.keys w held u member value other named
  unfold mapWord
  simp only [first]
  rfl

/-- What a word is read as names some entry that the word is the word of, white space and
case apart. -/
theorem valueForMapWord_some {entries : Entries} {word : Text} {key : Value}
    (read : valueForMapWord py casing (.str word) (some entries) = some key) :
    ∃ w ∈ entries, w.1 = key ∧ casing.lower (str py w.2) = casing.lower word.strip := by
  have written : str py (.str word) = word := rfl
  unfold valueForMapWord at read
  simp only [written] at read
  split at read
  · rename_i w found
    have same : str py w.2 = word.strip := of_decide_eq_true (List.find?_some found :)
    exact ⟨w, List.mem_of_find?_eq_some found, Option.some.inj read, congrArg casing.lower same⟩
  · obtain ⟨w, found, here⟩ := Option.map_eq_some_iff.mp read
    exact ⟨w, List.mem_of_find?_eq_some found, here, of_decide_eq_true (List.find?_some found :)⟩

theorem valueForMapWord_eq {entries : Entries} (clear : Clear py casing entries) {u : Value × Value} (member : u ∈ entries)
    (bare : (str py u.2).strip = str py u.2) : valueForMapWord py casing (.str (str py u.2)) (some entries) = some u.1 := by
  have first : entries.find? (fun w => decide (str py w.2 = (str py u.2).strip)) = some u := by
    refine find?_only member (decide_eq_true bare.symm) fun w held other => ?_
    have same : str py w.2 = str py u.2 := (of_decide_eq_true other).trans bare
    exact clear.words w held u member (congrArg casing.lower same)
  have written : str py (.str (str py u.2)) = str py u.2 := rfl
  unfold valueForMapWord
  simp only [written, first]

/-- A value comes back from its word exactly where the word has no white space at its ends. -/
theorem word_reads_back (py : Conversion.Python) (casing : Casing) (entries : Entries) (clear : Clear py casing entries)
    (u : Value × Value) (member : u ∈ entries) (value : Value) (named : mapKeyMatches py casing u.1 value = true) :
    ((mapWord py casing value (some entries)).bind fun word => valueForMapWord py casing (.str word) (some entries)) = some u.1 ↔
      (str py u.2).strip = str py u.2 := by
  rw [mapWord_eq clear member named, Option.bind_some]
  constructor
  · intro read
    obtain ⟨w, held, same, word⟩ := valueForMapWord_some read
    have named' : mapKeyMatches py casing w.1 value = true := by rw [same]; exact named
    have here : w = u := clear.keys w held u member value named' named
    rw [here] at word
    exact casing.strip_eq_of_lower word.symm
  · exact valueForMapWord_eq clear member

/-- Keys whose texts differ in more than white space and case name different values. -/
theorem mapKeyMatches_apart {key key' value : Value} (first : mapKeyMatches py casing key value = true)
    (second : mapKeyMatches py casing key' value = true) :
    casing.lower (str py key).strip = casing.lower (str py key').strip := by
  have texts : casing.lower (str py key).strip = casing.lower (str py key').strip ∨ str py key = str py key' := by
    cases value with
    | bool b => exact Or.inl ((of_decide_eq_true first).trans (of_decide_eq_true second).symm)
    | _ => exact Or.inr ((of_decide_eq_true first).trans (of_decide_eq_true second).symm)
  rcases texts with same | same
  · exact same
  · rw [same]

/-- Entries that differ, by their keys' texts and their words' in small letters, are clear. -/
theorem Clear.of_texts {entries : Entries}
    (keys : ∀ u ∈ entries, ∀ w ∈ entries, casing.lower (str py u.1).strip = casing.lower (str py w.1).strip → u = w)
    (words : ∀ u ∈ entries, ∀ w ∈ entries, casing.lower (str py u.2) = casing.lower (str py w.2) → u = w) :
    Clear py casing entries :=
  ⟨fun u held w held' _ first second => keys u held w held' (mapKeyMatches_apart first second), words⟩

/-- Lower case, as far as ASCII goes. -/
def asciiCasing : Casing where
  lower t := t.map FloatText.lowerAscii
  lower_blanks front t back first last := by
    have kept (blanks : Text) (all : ∀ c ∈ blanks, isSpace c = true) : blanks.map FloatText.lowerAscii = blanks := by
      have each : ∀ c ∈ blanks, FloatText.lowerAscii c = id c := by
        intro c member
        have space := all c member
        unfold isSpace at space
        rw [decide_eq_true_eq] at space
        have small : ¬(65 ≤ c ∧ c ≤ 90) := by omega
        rw [FloatText.lowerAscii, if_neg small, id]
      rw [List.map_congr_left each, List.map_id]
    rw [List.map_append, List.map_append, kept front first, kept back last]

/-- A map whose words a device pads to two characters. -/
def padded : Entries := [(.str (text "low"), .str (text "L ")), (.str (text "high"), .str (text "HI"))]

theorem word_reads_back_padded :
    ((mapWord .plain asciiCasing (.str (text "high")) (some padded)).bind fun word =>
      valueForMapWord .plain asciiCasing (.str word) (some padded)) = some (.str (text "high")) ↔
      (str .plain (.str (text "HI"))).strip = str .plain (.str (text "HI")) :=
  word_reads_back .plain asciiCasing padded (.of_texts (by decide) (by decide)) (.str (text "high"), .str (text "HI"))
    (by decide) (.str (text "high")) (by decide)

/-- The padded word is not found again; where another value has it unpadded, that one is read. -/
theorem word_lost_by_padding :
    Clear .plain asciiCasing padded ∧ mapKeyMatches .plain asciiCasing (.str (text "low")) (.str (text "low")) = true ∧
    mapWord .plain asciiCasing (.str (text "low")) (some padded) = some (text "L ") ∧
    valueForMapWord .plain asciiCasing (.str (text "L ")) (some padded) = none ∧
    Clear .plain asciiCasing ((.str (text "off"), .str (text "l")) :: padded) ∧
    valueForMapWord .plain asciiCasing (.str (text "L ")) (some ((.str (text "off"), .str (text "l")) :: padded)) =
      some (.str (text "off")) := by
  have clear : Clear .plain asciiCasing padded := .of_texts (by decide) (by decide)
  have clear' : Clear .plain asciiCasing ((.str (text "off"), .str (text "l")) :: padded) := .of_texts (by decide) (by decide)
  exact ⟨clear, by decide, by decide, by decide, clear', by decide⟩

end ValueMap

end OpenAvc.Driver
