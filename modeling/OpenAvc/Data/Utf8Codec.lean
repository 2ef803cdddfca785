import OpenAvc.Data.Json

/-! UTF-8 as bytes: `str.encode`, and `bytes.decode` with replacement. -/

namespace Utf8

/-- A code point that UTF-8 can encode: any but a surrogate. -/
def scalar (c : Nat) : Bool :=
  c < 0xd800 ∨ (0xdfff < c ∧ c < 0x110000)

def octets (c : Nat) : List Nat :=
  if c < 0x80 then [c]
  else if c < 0x800 then [0xc0 + c / 64, 0x80 + c % 64]
  else if c < 0x10000 then [0xe0 + c / 4096, 0x80 + c / 64 % 64, 0x80 + c % 64]
  else [0xf0 + c / 262144, 0x80 + c / 4096 % 64, 0x80 + c / 64 % 64, 0x80 + c % 64]

/-- `t.encode("utf-8")`, or `none` where it raises. -/
def encode (t : Text) : Option (List Nat) :=
  if t.all scalar then some (t.flatMap octets) else none

/-- A sequence that has begun: its value so far, how many bytes it lacks, and between
which bounds the next one is. -/
structure Pending where
  value : Nat
  lacks : Nat
  low : Nat
  high : Nat

/-- What the first byte of a sequence gives. -/
def start (b : Nat) : Text × Option Pending :=
  if b < 0x80 then ([b], none)
  else if 0xc2 ≤ b ∧ b ≤ 0xdf then ([], some ⟨b - 0xc0, 1, 0x80, 0xbf⟩)
  else if 0xe0 ≤ b ∧ b ≤ 0xef then
    ([], some ⟨b - 0xe0, 2, if b = 0xe0 then 0xa0 else 0x80, if b = 0xed then 0x9f else 0xbf⟩)
  else if 0xf0 ≤ b ∧ b ≤ 0xf4 then
    ([], some ⟨b - 0xf0, 3, if b = 0xf0 then 0x90 else 0x80, if b = 0xf4 then 0x8f else 0xbf⟩)
  else ([0xfffd], none)

/-- A sequence that is broken off is replaced, and the byte begins a new one. -/
def step : Option Pending → Nat → Text × Option Pending
  | none, b => start b
  | some p, b =>
    if p.low ≤ b ∧ b ≤ p.high then
      let value := p.value * 64 + (b - 0x80)
      if p.lacks = 1 then ([value], none) else ([], some ⟨value, p.lacks - 1, 0x80, 0xbf⟩)
    else (0xfffd :: (start b).1, (start b).2)

def decodeFrom : Option Pending → List Nat → Text
  | none, [] => []
  | some _, [] => [0xfffd]
  | p, b :: bytes => (step p b).1 ++ decodeFrom (step p b).2 bytes

/-- `bytes.decode("utf-8", errors="replace")` -/
def decode (bytes : List Nat) : Text :=
  decodeFrom none bytes

theorem decodeFrom_cons (p : Option Pending) (b : Nat) (bytes : List Nat) :
    decodeFrom p (b :: bytes) = (step p b).1 ++ decodeFrom (step p b).2 bytes := by
  cases p <;> rfl

/-- A byte that continues a sequence, and does not end it. -/
theorem decodeFrom_more {value lacks low high b : Nat} (inside : low ≤ b ∧ b ≤ high) (more : lacks ≠ 1) (bytes : List Nat) :
    decodeFrom (some ⟨value, lacks, low, high⟩) (b :: bytes) =
      decodeFrom (some ⟨value * 64 + (b - 0x80), lacks - 1, 0x80, 0xbf⟩) bytes := by
  rw [decodeFrom_cons, step, if_pos inside, if_neg more, List.nil_append]

theorem decodeFrom_last {value low high b : Nat} (inside : low ≤ b ∧ b ≤ high) (bytes : List Nat) :
    decodeFrom (some ⟨value, 1, low, high⟩) (b :: bytes) = (value * 64 + (b - 0x80)) :: decodeFrom none bytes := by
  rw [decodeFrom_cons, step, if_pos inside, if_pos rfl]
  rfl

/-- A code point is read back as it was written. -/
theorem decodeFrom_octets {c : Nat} (valid : scalar c = true) (bytes : List Nat) :
    decodeFrom none (octets c ++ bytes) = c :: decodeFrom none bytes := by
  have bounds : c < 0xd800 ∨ (0xdfff < c ∧ c < 0x110000) := of_decide_eq_true valid
  unfold octets
  split
  · rename_i one
    rw [List.singleton_append, decodeFrom_cons, step, start, if_pos one]
    rfl
  split
  · rename_i one two
    have lead : start (0xc0 + c / 64) = ([], some ⟨c / 64, 1, 0x80, 0xbf⟩) := by
      rw [start, if_neg (by omega), if_pos (by omega), Nat.add_sub_cancel_left]
    have value : c / 64 * 64 + (0x80 + c % 64 - 0x80) = c := by omega
    rw [List.cons_append, decodeFrom_cons, step, lead, List.nil_append, List.singleton_append,
      decodeFrom_last (by omega), value]
  split
  · rename_i one two three
    have lead : start (0xe0 + c / 4096) = ([], some ⟨c / 4096, 2, if c / 4096 = 0 then 0xa0 else 0x80,
        if c / 4096 = 13 then 0x9f else 0xbf⟩) := by
      have low : (0xe0 + c / 4096 = 0xe0) = (c / 4096 = 0) := by simp
      have high : (0xe0 + c / 4096 = 0xed) = (c / 4096 = 13) := propext (by omega)
      rw [start, if_neg (by omega), if_neg (by omega), if_pos (by omega), Nat.add_sub_cancel_left]
      simp only [low, high]
    have value : (c / 4096 * 64 + (0x80 + c / 64 % 64 - 0x80)) * 64 + (0x80 + c % 64 - 0x80) = c := by omega
    rw [List.cons_append, decodeFrom_cons, step, lead, List.nil_append, List.cons_append, List.singleton_append,
      decodeFrom_more (by constructor <;> split <;> omega) (by decide), decodeFrom_last (by omega), value]
  · rename_i one two three
    have lead : start (0xf0 + c / 262144) = ([], some ⟨c / 262144, 3, if c / 262144 = 0 then 0x90 else 0x80,
        if c / 262144 = 4 then 0x8f else 0xbf⟩) := by
      have low : (0xf0 + c / 262144 = 0xf0) = (c / 262144 = 0) := by simp
      have high : (0xf0 + c / 262144 = 0xf4) = (c / 262144 = 4) := propext (by omega)
      rw [start, if_neg (by omega), if_neg (by omega), if_neg (by omega), if_pos (by omega), Nat.add_sub_cancel_left]
      simp only [low, high]
    have value : ((c / 262144 * 64 + (0x80 + c / 4096 % 64 - 0x80)) * 64 + (0x80 + c / 64 % 64 - 0x80)) * 64
        + (0x80 + c % 64 - 0x80) = c := by omega
    rw [List.cons_append, decodeFrom_cons, step, lead, List.nil_append, List.cons_append, List.cons_append,
      List.singleton_append, decodeFrom_more (by constructor <;> split <;> omega) (by decide),
      decodeFrom_more (by omega) (by decide), decodeFrom_last (by omega), value]

theorem decode_encode {t : Text} {bytes : List Nat} (encodes : encode t = some bytes) : decode bytes = t := by
  rw [encode, Option.ite_none_right_eq_some, Option.some.injEq] at encodes
  obtain ⟨valid, rfl⟩ := encodes
  rw [List.all_eq_true] at valid
  rw [decode]
  induction t with
  | nil => rfl
  | cons c t ih =>
    rw [List.flatMap_cons, decodeFrom_octets (valid c List.mem_cons_self), ih fun d member => valid d (List.mem_cons_of_mem _ member)]

example : decode [0x61, 0xe2, 0x82, 0x62, 0xed, 0xa0] = [0x61, 0xfffd, 0x62, 0xfffd, 0xfffd] := rfl

end Utf8
