import OpenAvc.Data.Json

/-! Base64: octets written as text, and a strict reading that takes nothing besides. -/

namespace Base64

/-- The character of a six-bit value. -/
def symbol (v : Nat) : Nat :=
  if v < 26 then 65 + v else if v < 52 then 71 + v else if v < 62 then v - 4 else if v = 62 then 43 else 47

/-- The value of a character of the alphabet. -/
def value (c : Nat) : Option Nat :=
  if 65 ≤ c ∧ c ≤ 90 then some (c - 65)
  else if 97 ≤ c ∧ c ≤ 122 then some (c - 71)
  else if 48 ≤ c ∧ c ≤ 57 then some (c + 4)
  else if c = 43 then some 62
  else if c = 47 then some 63
  else none

/-- `base64.b64encode` -/
def encode : List Nat → Text
  | a :: b :: c :: rest =>
    symbol (a / 4) :: symbol (a % 4 * 16 + b / 16) :: symbol (b % 16 * 4 + c / 64) :: symbol (c % 64) :: encode rest
  | [a, b] => [symbol (a / 4), symbol (a % 4 * 16 + b / 16), symbol (b % 16 * 4), 61]
  | [a] => [symbol (a / 4), symbol (a % 4 * 16), 61, 61]
  | [] => []

/-- The rest of a text after `quad` characters of a group of four, whose bits not yet given
are `left`, and after `pads` of the padding. -/
def read (quad left pads : Nat) (padded : Bool) : Text → Option (List Nat)
  | [] => if quad = 0 then some [] else none
  | c :: rest =>
    if c = 61 then
      if quad = 0 then none
      else if 2 ≤ quad ∧ 3 ≤ quad + pads then if rest.isEmpty then some [] else none
      else read quad left (if 2 ≤ quad then pads + 1 else pads) true rest
    else match value c with
      | none => none
      | some v =>
        if padded then none
        else match quad with
          | 0 => read 1 v 0 false rest
          | 1 => (read 2 (v % 16) 0 false rest).map ((left * 4 + v / 16) :: ·)
          | 2 => (read 3 (v % 4) 0 false rest).map ((left * 16 + v / 4) :: ·)
          | _ => (read 0 0 0 false rest).map ((left * 64 + v) :: ·)

/-- `base64.b64decode(t, validate=True)`; `none` where it raises. -/
def decode (t : Text) : Option (List Nat) :=
  read 0 0 0 false t

theorem value_symbol {v : Nat} (small : v < 64) : value (symbol v) = some v ∧ symbol v ≠ 61 := by
  unfold symbol value
  split_ifs <;> first | omega | exact ⟨congrArg some (by omega), by omega⟩

section

variable {v : Nat} (small : v < 64) (left pads : Nat) (rest : Text)
include small

/-! A character of the alphabet, at each place of a group. -/

theorem read_first : read 0 left pads false (symbol v :: rest) = read 1 v 0 false rest := by
  obtain ⟨reads, other⟩ := value_symbol small
  simp [read, other, reads]

theorem read_second :
    read 1 left pads false (symbol v :: rest) = (read 2 (v % 16) 0 false rest).map ((left * 4 + v / 16) :: ·) := by
  obtain ⟨reads, other⟩ := value_symbol small
  simp [read, other, reads]

theorem read_third :
    read 2 left pads false (symbol v :: rest) = (read 3 (v % 4) 0 false rest).map ((left * 16 + v / 4) :: ·) := by
  obtain ⟨reads, other⟩ := value_symbol small
  simp [read, other, reads]

theorem read_fourth :
    read 3 left pads false (symbol v :: rest) = (read 0 0 0 false rest).map ((left * 64 + v) :: ·) := by
  obtain ⟨reads, other⟩ := value_symbol small
  simp [read, other, reads]

end

/-- What is written is read. -/
theorem decode_encode (l : List Nat) (octets : ∀ b ∈ l, b < 256) : decode (encode l) = some l := by
  unfold decode
  fun_induction encode l with
  | case1 a b c rest ih =>
    have la := octets a (by simp)
    have lb := octets b (by simp)
    have lc := octets c (by simp)
    have first : (a / 4) * 4 + (a % 4 * 16 + b / 16) / 16 = a := by omega
    have second : (a % 4 * 16 + b / 16) % 16 * 16 + (b % 16 * 4 + c / 64) / 4 = b := by omega
    have third : (b % 16 * 4 + c / 64) % 4 * 64 + c % 64 = c := by omega
    rw [read_first (by omega), read_second (by omega), read_third (by omega), read_fourth (by omega),
      ih fun x member => octets x (by simp [member]), first, second, third]
    rfl
  | case2 a b =>
    have la := octets a (by simp)
    have lb := octets b (by simp)
    have first : (a / 4) * 4 + (a % 4 * 16 + b / 16) / 16 = a := by omega
    have second : (a % 4 * 16 + b / 16) % 16 * 16 + (b % 16 * 4) / 4 = b := by omega
    rw [read_first (by omega), read_second (by omega), read_third (by omega), first, second]
    rfl
  | case3 a =>
    have la := octets a (by simp)
    have first : (a / 4) * 4 + (a % 4 * 16) / 16 = a := by omega
    rw [read_first (by omega), read_second (by omega), first]
    rfl
  | case4 => rfl

theorem length_encode (l : List Nat) : (encode l).length = 4 * ((l.length + 2) / 3) := by
  fun_induction encode l with
  | case1 a b c rest ih =>
    simp only [List.length_cons, ih]
    omega
  | case2 | case3 => simp only [List.length_cons, List.length_nil]
  | case4 => rfl

theorem symbol_plain (v : Nat) : 43 ≤ symbol v ∧ symbol v ≤ 122 ∧ symbol v ≠ 92 := by
  unfold symbol
  split_ifs <;> omega

/-- Nothing is written that a JSON text would escape. -/
theorem mem_encode {l : List Nat} {c : Nat} (member : c ∈ encode l) : 43 ≤ c ∧ c ≤ 122 ∧ c ≠ 92 := by
  fun_induction encode l with
  | case1 a b d rest ih =>
    simp only [List.mem_cons] at member
    rcases member with rfl | rfl | rfl | rfl | later
    · exact symbol_plain _
    · exact symbol_plain _
    · exact symbol_plain _
    · exact symbol_plain _
    · exact ih later
  | case2 a b =>
    simp only [List.mem_cons, List.not_mem_nil, or_false] at member
    rcases member with rfl | rfl | rfl | rfl
    · exact symbol_plain _
    · exact symbol_plain _
    · exact symbol_plain _
    · omega
  | case3 a =>
    simp only [List.mem_cons, List.not_mem_nil, or_false] at member
    rcases member with rfl | rfl | rfl | rfl
    · exact symbol_plain _
    · exact symbol_plain _
    · omega
    · omega
  | case4 => cases member

end Base64
