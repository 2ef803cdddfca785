import Mathlib.Data.List.Chain
import Mathlib.Data.List.Lex
import OpenAvc.Data.Json

/-! UTF-16: round trip, and where its order is not the order of the code points. -/

/-- How two values stand. -/
def order {α : Type*} [LinearOrder α] (a b : α) : Ordering :=
  cmp a b

section

variable {α : Type*} [LinearOrder α] {a b : α}

theorem order_lt : order a b = .lt ↔ a < b := cmp_eq_lt_iff a b

theorem order_eq : order a b = .eq ↔ a = b := cmp_eq_eq_iff a b

theorem order_gt : order a b = .gt ↔ b < a := cmp_eq_gt_iff a b

end

namespace Utf16

def isHigh (c : Nat) : Prop :=
  0xD800 ≤ c ∧ c < 0xDC00

def isLow (c : Nat) : Prop :=
  0xDC00 ≤ c ∧ c < 0xE000

instance (c : Nat) : Decidable (isHigh c) := inferInstanceAs (Decidable (_ ∧ _))

instance (c : Nat) : Decidable (isLow c) := inferInstanceAs (Decidable (_ ∧ _))

/-- Two surrogates in a row that UTF-16 reads as one code point. -/
def Pair (c d : Nat) : Prop :=
  isHigh c ∧ isLow d

instance (c d : Nat) : Decidable (Pair c d) := inferInstanceAs (Decidable (_ ∧ _))

/-- The units of a code point. -/
def units (c : Nat) : List Nat :=
  if c < 0x10000 then [c] else [0xD800 + (c - 0x10000) / 0x400, 0xDC00 + (c - 0x10000) % 0x400]

def encode (points : Text) : List Nat :=
  points.flatMap units

/-- The code points of units, a surrogate that is not paired standing for itself. -/
def decode : List Nat → Text
  | u :: v :: rest =>
    if Pair u v then (0x10000 + (u - 0xD800) * 0x400 + (v - 0xDC00)) :: decode rest else u :: decode (v :: rest)
  | rest => rest

end Utf16

open Utf16

/-- A text that has a JSON text: where a high surrogate comes before a low one,
`json.loads` has joined them. -/
structure Str where
  points : Text
  bounded : ∀ c ∈ points, c < 0x110000
  joined : points.IsChain fun c d => ¬Pair c d
  deriving DecidableEq

/-- A string of the browser. -/
structure JsStr where
  units : List Nat
  bounded : ∀ u ∈ units, u < 0x10000
  deriving DecidableEq

namespace Utf16

theorem encode_cons (c : Nat) (points : Text) : encode (c :: points) = units c ++ encode points :=
  List.flatMap_cons

theorem units_ne_nil (c : Nat) : units c ≠ [] := by
  unfold units
  split <;> simp

theorem units_bounded {c u : Nat} (bound : c < 0x110000) (member : u ∈ units c) : u < 0x10000 := by
  unfold units at member
  split at member
  · rw [List.mem_singleton] at member
    omega
  · simp only [List.mem_cons, List.not_mem_nil, or_false] at member
    omega

/-- The first unit of what is written of a text is no low surrogate, unless the text begins with it. -/
theorem first_unit {c : Nat} (points : Text) (bound : c < 0x110000) :
    ∃ u rest, encode (c :: points) = u :: rest ∧ (isLow u → c = u) := by
  rw [encode_cons]
  unfold units
  split
  · exact ⟨c, _, rfl, fun _ => rfl⟩
  · refine ⟨_, _, rfl, fun low => ?_⟩
    unfold isLow at low
    omega

theorem decode_encode (points : Text) (bounded : ∀ c ∈ points, c < 0x110000) (joined : points.IsChain fun c d => ¬Pair c d) :
    decode (encode points) = points := by
  induction points with
  | nil => rfl
  | cons c points ih =>
    have bound := bounded c List.mem_cons_self
    have back := ih (fun d member => bounded d (List.mem_cons_of_mem _ member)) joined.tail
    rw [encode_cons]
    unfold units
    split
    · cases points with
      | nil => rfl
      | cons d points =>
        obtain ⟨u, rest, first, low⟩ := first_unit points (bounded d (by simp))
        have apart : ¬Pair c u := by
          intro pair
          have same := low pair.2
          exact (List.isChain_cons_cons.mp joined).1 (same ▸ pair)
        rw [first] at back ⊢
        rw [List.singleton_append, decode, if_neg apart, back]
    · have pair : Pair (0xD800 + (c - 0x10000) / 0x400) (0xDC00 + (c - 0x10000) % 0x400) := by
        unfold Pair isHigh isLow
        omega
      have whole : 0x10000 + (0xD800 + (c - 0x10000) / 0x400 - 0xD800) * 0x400 +
          (0xDC00 + (c - 0x10000) % 0x400 - 0xDC00) = c := by omega
      rw [List.cons_append, List.cons_append, List.nil_append, decode, if_pos pair, back, whole]

theorem decode_bounded (us : List Nat) (bounded : ∀ u ∈ us, u < 0x10000) : ∀ c ∈ decode us, c < 0x110000 := by
  fun_induction decode us with
  | case1 u v rest pair ih =>
    intro c member
    rcases List.mem_cons.mp member with same | later
    · obtain ⟨⟨_, high⟩, _, low⟩ := pair
      omega
    · exact ih (fun w inside => bounded w (by simp [inside])) c later
  | case2 u v rest apart ih =>
    intro c member
    rcases List.mem_cons.mp member with rfl | later
    · have := bounded c List.mem_cons_self
      omega
    · exact ih (fun w inside => bounded w (List.mem_cons_of_mem _ inside)) c later
  | case3 rest _ =>
    intro c member
    have := bounded c member
    omega

theorem decode_joined (us : List Nat) (bounded : ∀ u ∈ us, u < 0x10000) :
    (decode us).IsChain (fun c d => ¬Pair c d) ∧ ∀ c ∈ (decode us).head?, c < 0x10000 → us.head? = some c := by
  fun_induction decode us with
  | case1 u v rest pair ih =>
    obtain ⟨chain, _⟩ := ih fun w inside => bounded w (by simp [inside])
    refine ⟨List.isChain_cons.mpr ⟨fun d _ wide => ?_, chain⟩, fun c head small => ?_⟩
    · have := wide.1
      unfold isHigh at this
      omega
    · have same : 0x10000 + (u - 0xD800) * 0x400 + (v - 0xDC00) = c := by simpa using head
      omega
  | case2 u v rest apart ih =>
    obtain ⟨chain, first⟩ := ih fun w inside => bounded w (List.mem_cons_of_mem _ inside)
    refine ⟨List.isChain_cons.mpr ⟨fun d head pair => ?_, chain⟩, fun c head _ => ?_⟩
    · have low := pair.2
      have same := first d head (by unfold isLow at low; omega)
      cases same
      exact apart pair
    · simpa using head
  | case3 rest short =>
    refine ⟨?_, fun c head _ => head⟩
    match rest, short with
    | [], _ => exact List.IsChain.nil
    | [u], _ => exact List.IsChain.singleton u
    | u :: v :: rest, short => exact absurd rfl (short u v rest)

/-- Without high surrogates the units are the code points. -/
theorem encode_eq_iff {points us : Text} (bounded : ∀ c ∈ points, c < 0x110000) (low : ∀ u ∈ us, u < 0x10000 ∧ ¬isHigh u) :
    encode points = us ↔ points = us := by
  induction points generalizing us with
  | nil => simp [encode, eq_comm]
  | cons c points ih =>
    have bound := bounded c List.mem_cons_self
    have inside := fun d member => bounded d (List.mem_cons_of_mem c member)
    rw [encode_cons]
    unfold units
    cases us with
    | nil => split <;> simp
    | cons u us =>
      have rest := fun w member => low w (List.mem_cons_of_mem _ member)
      split
      · simp [ih inside rest]
      · have first := low u List.mem_cons_self
        unfold isHigh at first
        constructor
        · intro same
          have head := (List.cons.inj same).1
          omega
        · intro same
          have head := (List.cons.inj same).1
          omega

end Utf16

namespace Str

theorem ext {s t : Str} (same : s.points = t.points) : s = t := by
  cases s
  cases t
  cases same
  rfl

/-- The text in the browser. -/
def utf16 (s : Str) : JsStr where
  units := encode s.points
  bounded := by
    intro u member
    obtain ⟨c, inside, unit⟩ := List.mem_flatMap.mp member
    exact units_bounded (s.bounded c inside) unit

end Str

namespace JsStr

theorem ext {s t : JsStr} (same : s.units = t.units) : s = t := by
  cases s
  cases t
  cases same
  rfl

/-- The code points of a string, as the methods that know Unicode see it. -/
def toStr (s : JsStr) : Str where
  points := decode s.units
  bounded := decode_bounded _ s.bounded
  joined := (decode_joined _ s.bounded).1

@[simp] theorem toStr_utf16 (s : Str) : s.utf16.toStr = s :=
  Str.ext (decode_encode _ s.bounded s.joined)

theorem utf16_inj {s t : Str} : s.utf16 = t.utf16 ↔ s = t := by
  constructor
  · intro same
    rw [← toStr_utf16 s, same, toStr_utf16]
  · intro same
    rw [same]

end JsStr

namespace Utf16

/-- The first unit of the code point `e` is below what a text writes that begins
with `b`, and goes on with `rest`, though `e` is above `b`. -/
def Passes (b : Nat) (rest : Text) (e : Nat) : Prop :=
  b < 0x10000 ∧ 0x10000 ≤ e ∧ (0xD800 + (e - 0x10000) / 0x400 < b ∨
    b = 0xD800 + (e - 0x10000) / 0x400 ∧ ∃ x ∈ rest.head?, 0xE000 ≤ x ∧ x < 0x10000)

/-- Where the texts differ first, the code points are in another order than their units. -/
def Crossed : Text → Text → Prop
  | c :: s, d :: t => if c = d then Crossed s t else Passes c s d ∨ Passes d t c
  | _, _ => False

theorem passes_iff {b e : Nat} {rest others : Text} (small : b < 0x10000) (large : 0x10000 ≤ e) (top : e < 0x110000)
    (bounded : ∀ c ∈ rest, c < 0x110000) (joined : (b :: rest).IsChain fun c d => ¬Pair c d) :
    (encode (e :: others) < encode (b :: rest) ↔ Passes b rest e) ∧
      (encode (b :: rest) < encode (e :: others) ↔ ¬Passes b rest e) := by
  have single : units b = [b] := if_pos small
  have double : units e = [0xD800 + (e - 0x10000) / 0x400, 0xDC00 + (e - 0x10000) % 0x400] := if_neg (by omega)
  rw [encode_cons, encode_cons, single, double]
  generalize highUnit : 0xD800 + (e - 0x10000) / 0x400 = h
  generalize lowUnit : 0xDC00 + (e - 0x10000) % 0x400 = l
  have low : 0xDC00 ≤ l ∧ l < 0xE000 := by omega
  simp only [List.cons_append, List.nil_append, List.cons_lt_cons_iff, Passes, highUnit, small, large, true_and]
  by_cases same : b = h
  · have high : isHigh b := by
      unfold isHigh
      omega
    subst same
    cases rest with
    | nil => simp [encode]
    | cons x rest =>
      obtain ⟨u, after, first, lowOnly⟩ := first_unit rest (bounded x List.mem_cons_self)
      have apart : ¬Pair b x := (List.isChain_cons_cons.mp joined).1
      have notLow : ¬isLow u := fun lows => apart ⟨high, by rw [lowOnly lows]; exact lows⟩
      have above : 0xE000 ≤ u ↔ 0xE000 ≤ x ∧ x < 0x10000 := by
        rw [encode_cons] at first
        have bound := bounded x List.mem_cons_self
        unfold units at first
        split at first
        · have head := (List.cons.inj first).1
          omega
        · have head := (List.cons.inj first).1
          omega
      have differs : u ≠ l := by
        unfold isLow at notLow
        omega
      unfold isLow at notLow
      rw [first]
      simp only [lt_irrefl, false_or, true_and, List.cons_lt_cons_iff, List.head?_cons, Option.mem_some_iff, exists_eq_left',
        differs, differs.symm, false_and, or_false, ← above]
      omega
  · simp only [same, Ne.symm same, false_and, or_false, true_and]
    omega

theorem encode_lt_iff (s t : Text) (bounded : ∀ c ∈ s, c < 0x110000) (bounded' : ∀ c ∈ t, c < 0x110000)
    (joined : s.IsChain fun c d => ¬Pair c d) (joined' : t.IsChain fun c d => ¬Pair c d) :
    (Crossed s t → (encode s < encode t ↔ t < s)) ∧ (¬Crossed s t → (encode s < encode t ↔ s < t)) := by
  induction s generalizing t with
  | nil =>
    refine ⟨nofun, fun _ => ?_⟩
    cases t with
    | nil => simp [encode]
    | cons d t =>
      obtain ⟨u, rest, first, _⟩ := first_unit t (bounded' d List.mem_cons_self)
      rw [first]
      simp [encode]
  | cons c s ih =>
    have inside := fun d member => bounded d (List.mem_cons_of_mem c member)
    cases t with
    | nil => exact ⟨nofun, fun _ => by simp [encode]⟩
    | cons d t =>
      have inside' := fun e member => bounded' e (List.mem_cons_of_mem d member)
      have top := bounded c List.mem_cons_self
      have top' := bounded' d List.mem_cons_self
      by_cases same : c = d
      · subst same
        have step := ih t inside inside' joined.tail joined'.tail
        have units : encode (c :: s) < encode (c :: t) ↔ encode s < encode t := by
          rw [encode_cons, encode_cons]
          unfold Utf16.units
          split <;> simp
        have points : ∀ x y : Text, c :: x < c :: y ↔ x < y := by simp
        have crossed : Crossed (c :: s) (c :: t) ↔ Crossed s t := by simp [Crossed]
        rw [units, points, points, crossed]
        exact step
      · have order : ∀ x y : Text, (c :: x < d :: y ↔ c < d) ∧ (d :: y < c :: x ↔ d < c) := by
          intro x y
          simp [List.cons_lt_cons_iff, same, Ne.symm same]
        have crossed : Crossed (c :: s) (d :: t) ↔ Passes c s d ∨ Passes d t c := by simp [Crossed, same]
        rw [crossed, (order s t).1, (order s t).2]
        by_cases small : c < 0x10000
        · by_cases small' : d < 0x10000
          · have neither : ¬(Passes c s d ∨ Passes d t c) := by
              unfold Passes
              omega
            have single : units c = [c] := if_pos small
            have single' : units d = [d] := if_pos small'
            refine ⟨fun either => absurd either neither, fun _ => ?_⟩
            rw [encode_cons, encode_cons, single, single']
            simp [List.cons_lt_cons_iff, same]
          · have only : ¬Passes d t c := fun passes => small' passes.1
            rw [(passes_iff small (not_lt.mp small') top' inside joined).2]
            constructor
            · intro either
              have passes := either.resolve_right only
              simp only [passes, not_true_eq_false, false_iff]
              omega
            · intro none
              have avoids := (not_or.mp none).1
              simp only [avoids, not_false_eq_true, true_iff]
              omega
        · by_cases small' : d < 0x10000
          · have only : ¬Passes c s d := fun passes => small passes.1
            rw [(passes_iff small' (not_lt.mp small) top inside' joined').1]
            constructor
            · intro either
              have passes := either.resolve_left only
              simp only [passes, true_iff]
              omega
            · intro none
              have avoids := (not_or.mp none).2
              simp only [avoids, false_iff]
              omega
          · have neither : ¬(Passes c s d ∨ Passes d t c) := fun either =>
              either.elim (fun passes => small passes.1) fun passes => small' passes.1
            have double : units c = [0xD800 + (c - 0x10000) / 0x400, 0xDC00 + (c - 0x10000) % 0x400] := if_neg small
            have double' : units d = [0xD800 + (d - 0x10000) / 0x400, 0xDC00 + (d - 0x10000) % 0x400] := if_neg small'
            refine ⟨fun either => absurd either neither, fun _ => ?_⟩
            rw [encode_cons, encode_cons, double, double']
            simp only [List.cons_append, List.nil_append, List.cons_lt_cons_iff]
            omega

theorem Crossed.symm : ∀ {s t : Text}, Crossed s t → Crossed t s
  | c :: s, d :: t, crossed => by
    unfold Crossed at crossed ⊢
    by_cases same : c = d
    · rw [if_pos same] at crossed
      rw [if_pos same.symm]
      exact crossed.symm
    · rw [if_neg same] at crossed
      rw [if_neg (Ne.symm same)]
      exact Or.symm crossed

theorem Crossed.ne : ∀ {s t : Text}, Crossed s t → s ≠ t
  | c :: s, d :: t, crossed, same => by
    obtain ⟨rfl, rfl⟩ := List.cons.inj same
    unfold Crossed at crossed
    rw [if_pos rfl] at crossed
    exact crossed.ne rfl

end Utf16

/-- The browser orders two texts as Python does unless they are crossed. -/
theorem JsStr.order_utf16 (s t : Str) :
    order s.utf16.units t.utf16.units = order s.points t.points ↔ ¬Crossed s.points t.points := by
  have forth := encode_lt_iff s.points t.points s.bounded t.bounded s.joined t.joined
  have back := encode_lt_iff t.points s.points t.bounded s.bounded t.joined s.joined
  have symm : Crossed s.points t.points ↔ Crossed t.points s.points := ⟨Crossed.symm, Crossed.symm⟩
  rw [← symm] at back
  rcases lt_trichotomy s.points t.points with less | equal | more
  · have notMore := less.not_gt
    rw [order_lt.mpr less, order_lt]
    change encode s.points < encode t.points ↔ _
    tauto
  · have avoids : ¬Crossed s.points t.points := fun crossed => crossed.ne equal
    have units : s.utf16.units = t.utf16.units := congrArg encode equal
    rw [order_eq.mpr equal, order_eq.mpr units]
    simpa using avoids
  · have notLess := more.not_gt
    rw [order_gt.mpr more, order_gt]
    change encode t.points < encode s.points ↔ _
    tauto
