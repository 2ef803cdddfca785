import OpenAvc.Conditions.Evaluation

/-! Where the Programmer's preview of a condition is what the runtime decides. -/

namespace Number

theorem order_rounded {x y : Double.Extended} :
    order (Double.rounded x) (Double.rounded y) = order x y ↔ x = y ∨ Double.rounded x ≠ Double.rounded y := by
  rcases lt_trichotomy x y with less | equal | more
  · have bound := Double.rounded_mono less.le
    rw [order_lt.mpr less, order_lt, bound.lt_iff_ne]
    simp [less.ne]
  · rw [order_eq.mpr equal, order_eq]
    simp [equal]
  · have bound := Double.rounded_mono more.le
    rw [order_gt.mpr more, order_gt, bound.lt_iff_ne]
    simp [more.ne', ne_comm]

/-- Rounding changes how two numbers stand only if it makes them the same. -/
theorem cmp_rounded (x y : Number) : x.cmp y = x.rounded.cmp y.rounded ↔ x = y ∨ x.rounded ≠ y.rounded := by
  match x, y with
  | none, none => simp [cmp, rounded]
  | none, some y => simp [cmp, rounded]
  | some x, none => simp [cmp, rounded]
  | some x, some y =>
    have orders := order_rounded (x := x) (y := y)
    simp only [cmp, rounded, Option.map_some, Option.some.injEq, ne_eq]
    rw [eq_comm]
    exact orders

theorem cmp_eq_none (x y : Number) : x.cmp y = none ↔ x = none ∨ y = none := by
  match x, y with
  | none, _ => simp [cmp]
  | some x, none => simp [cmp]
  | some x, some y => simp [cmp]

theorem rounded_ofInt {n : ℤ} (small : |n| ≤ 2 ^ 53) : (ofRat n).rounded = ofRat n :=
  congrArg some (Double.nearest_int small)

end Number

namespace Condition

/-- Both reject the operator, or give the same answer. -/
def Agree : Except Text Bool → Except Text Bool → Prop
  | .ok a, .ok b => a = b
  | .error _, .error _ => True
  | _, _ => False

def operators : List Text :=
  [text "eq", text "ne", text "gt", text "lt", text "gte", text "lte", text "truthy", text "falsy"]

variable (u : Unicode)

/-- The documented difference: outside ASCII, lower case tells apart what case
folding does not, or the other way round. -/
def FoldsApart (op : Text) (a t : Value) : Prop :=
  (operatorAliases.lookup op).getD op ∈ [text "eq", text "ne"] ∧ ∃ s s', a = .str s ∧ t = .str s' ∧
    ¬((∀ c ∈ s.points, c < 128) ∧ ∀ c ∈ s'.points, c < 128) ∧
    ¬(u.casefold s = u.casefold s' ↔ u.lower s = u.lower s')

/-- Two values that are not both text. Where both read them as numbers, rounding
must not make one number of two; where only one does, one of them must be NaN. -/
def NumbersAlike (a t : Value) : Prop :=
  match both (a.coerceNumeric u) (t.coerceNumeric u), both a.inBrowser.coerceNumeric t.inBrowser.coerceNumeric with
  | some (x, y), some _ => x = y ∨ x.rounded ≠ y.rounded
  | some (x, y), none => x = none ∨ y = none
  | none, some (x, y) => x = none ∨ y = none
  | none, none => True

/-- Two texts. Where only one reads them as numbers, these must stand as the texts
do for the other; where none does, the texts must not be crossed. -/
def TextsAlike (s s' : Str) : Prop :=
  match both (FloatText.pyFloat u.decimal s.points) (FloatText.pyFloat u.decimal s'.points),
    both (FloatText.jsFloat s.utf16.units) (FloatText.jsFloat s'.utf16.units) with
  | some _, some _ => True
  | some (x, y), none => x.cmp y = some (order s.utf16.units s'.utf16.units)
  | none, some (x, y) => x.cmp y = some (order s.points s'.points)
  | none, none => ¬Utf16.Crossed s.points s'.points

/-- The values on which the two decide alike. -/
def Alike (a t : Value) : Prop :=
  match a, t with
  | .null, _ | _, .null => True
  | .str s, .str s' => TextsAlike u s s'
  | a, t => NumbersAlike u a t

/-! Numbers and words. -/

variable {u}

/-- A number in the browser is the rounded one. -/
theorem coerceNumeric_inBrowser {v : Value} {x y : Number} (runtime : v.coerceNumeric u = some x)
    (browser : v.inBrowser.coerceNumeric = some y) : y = x.rounded := by
  match v with
  | .null => cases runtime
  | .bool b =>
    cases runtime
    cases browser
    cases b
    · exact (Number.rounded_ofInt (n := 0) (by norm_num)).symm
    · exact (Number.rounded_ofInt (n := 1) (by norm_num)).symm
  | .int n =>
    cases runtime
    cases browser
    rfl
  | .float d =>
    cases runtime
    cases browser
    exact d.exact.symm
  | .str s =>
    have same := FloatText.pyFloat_eq_jsFloat u.decimal_mark s runtime browser
    rw [← same]
    exact (FloatText.read_exact runtime).symm

theorem encode_ascii {w : Text} (ascii : w.all (· < 128) = true) (s : Str) : s.utf16.units = w ↔ s.points = w := by
  refine Utf16.encode_eq_iff s.bounded fun c member => ?_
  have small := List.all_eq_true.mp ascii c member
  rw [decide_eq_true_eq] at small
  unfold Utf16.isHigh
  omega

theorem mem_ascii {ws : List Text} (ascii : (ws.all fun w => w.all (· < 128)) = true) (s : Str) :
    s.utf16.units ∈ ws ↔ s.points ∈ ws := by
  have known := List.all_eq_true.mp ascii
  constructor
  · intro member
    have same := (encode_ascii (known _ member) s).mp rfl
    exact same ▸ member
  · intro member
    have same := (encode_ascii (known _ member) s).mpr rfl
    exact same ▸ member

theorem boolWord_utf16 (s : Str) : boolWord s.utf16.units = boolWord s.points := by
  have yes := mem_ascii (by decide : ([text "true", text "1", text "yes", text "on"].all fun w => w.all (· < 128)) = true) s
  have no := mem_ascii (by decide : ([text "false", text "0", text "no", text "off"].all fun w => w.all (· < 128)) = true) s
  unfold boolWord
  simp only [yes, no]

theorem toLowerCase_utf16 (s : Str) : toLowerCase u s.utf16 = (u.lower s).utf16 := by
  rw [toLowerCase, JsStr.toStr_utf16]

theorem coerceBool_inBrowser (v : Value) : v.inBrowser.coerceBool u = v.coerceBool u := by
  match v with
  | .null | .bool _ | .int _ | .float _ => rfl
  | .str s =>
    change boolWord (toLowerCase u s.utf16).units = boolWord (u.lower s).points
    rw [toLowerCase_utf16, boolWord_utf16]

theorem nearest_eq_zero (n : ℤ) : Double.nearest n = (((0 : ℚ) : WithTop ℚ) : Double.Extended) ↔ n = 0 := by
  have zero : Double.nearest ((0 : ℤ) : ℚ) = (((0 : ℤ) : ℚ) : WithTop ℚ) := Double.nearest_int (by norm_num)
  have one : Double.nearest ((1 : ℤ) : ℚ) = (((1 : ℤ) : ℚ) : WithTop ℚ) := Double.nearest_int (by norm_num)
  have minus : Double.nearest ((-1 : ℤ) : ℚ) = (((-1 : ℤ) : ℚ) : WithTop ℚ) := Double.nearest_int (by norm_num)
  constructor
  · intro rounds
    rcases lt_trichotomy n 0 with below | same | above
    · have least : (n : ℚ) ≤ ((-1 : ℤ) : ℚ) := by exact_mod_cast Int.le_sub_one_of_lt below
      have bound := Double.nearest_mono least
      rw [rounds, minus] at bound
      have wrong : (0 : ℚ) ≤ ((-1 : ℤ) : ℚ) := by exact_mod_cast bound
      norm_num at wrong
    · exact same
    · have least : ((1 : ℤ) : ℚ) ≤ n := by exact_mod_cast above
      have bound := Double.nearest_mono least
      rw [rounds, one] at bound
      have wrong : ((1 : ℤ) : ℚ) ≤ 0 := by exact_mod_cast bound
      norm_num at wrong
  · rintro rfl
    exact_mod_cast zero

theorem truth_inBrowser (v : Value) : v.inBrowser.pythonTruthy = v.truth := by
  match v with
  | .null | .bool _ | .float _ => rfl
  | .int n =>
    have zero := nearest_eq_zero n
    change decide (some (Double.nearest n) ≠ Number.ofRat 0) = decide (n ≠ 0)
    rw [decide_eq_decide, Number.ofRat, ne_eq, Option.some.injEq, zero]
  | .str s =>
    have empty := @Utf16.encode_eq_iff s.points [] s.bounded nofun
    change decide (Utf16.encode s.points ≠ []) = decide (s.points ≠ [])
    rw [decide_eq_decide, ne_eq, empty]

/-! What one operator says. -/

/-- How the runtime has two values stand. -/
def Value.stand (u : Unicode) (a t : Value) : Option Ordering :=
  match both (a.coerceNumeric u) (t.coerceNumeric u) with
  | some (x, y) => x.cmp y
  | none => match a, t with
    | .str s, .str s' => some (order s.points s'.points)
    | _, _ => none

/-- How the Programmer has two values stand. -/
def JsValue.stand (a t : JsValue) : Option Ordering :=
  match both a.coerceNumeric t.coerceNumeric with
  | some (x, y) => x.cmp y
  | none => match a, t with
    | .string s, .string s' => some (order s.units s'.units)
    | _, _ => none

def comparisons : List Text :=
  [text "gt", text "lt", text "gte", text "lte"]

theorem compare_none (op : Text) : compare op none = false := by
  unfold compare
  split
  · rfl
  · split
    · rfl
    · split <;> rfl

theorem Value.evalOperator_compare {op : Text} (known : op ∈ comparisons) {a t : Value} (reported : ¬(a = .null ∨ t = .null)) :
    a.evalOperator u op t = .ok (compare op (a.stand u t)) := by
  have names : ∀ op ∈ comparisons, (operatorAliases.lookup op).getD op = op ∧ ¬(op = text "eq" ∨ op = text "ne") ∧
      (op = text "gt" ∨ op = text "lt" ∨ op = text "gte" ∨ op = text "lte") := by decide
  obtain ⟨name, other, this⟩ := names op known
  unfold evalOperator stand
  dsimp only
  rw [name, if_neg other, if_pos this, if_neg reported]
  cases both (a.coerceNumeric u) (t.coerceNumeric u) with
  | some numbers => rfl
  | none => cases a <;> cases t <;> simp [compare_none]

theorem JsValue.evalOperator_compare {op : Text} (known : op ∈ comparisons) {a t : JsValue}
    (reported : ¬(a = .null ∨ t = .null)) : a.evalOperator u op t = .ok (compare op (a.stand t)) := by
  have names : ∀ op ∈ comparisons, canonicalName op = some op ∧ ¬(op = text "eq" ∨ op = text "ne") ∧
      (op = text "gt" ∨ op = text "lt" ∨ op = text "gte" ∨ op = text "lte") := by decide
  obtain ⟨name, other, this⟩ := names op known
  unfold evalOperator stand
  rw [name]
  dsimp only
  rw [if_neg other, if_pos this, if_neg reported]
  cases both a.coerceNumeric t.coerceNumeric with
  | some numbers => rfl
  | none => cases a <;> cases t <;> simp [compare_none]

theorem ofBool_cmp (b b' : Bool) : (ofBool b).cmp (ofBool b') = some .eq ↔ b = b' := by
  cases b <;> cases b' <;> simp [ofBool, Number.ofRat, Number.cmp, order_eq]

/-- What `eq` says of two reported values in the runtime. -/
def Value.same (u : Unicode) (a t : Value) : Bool :=
  match if a.isBool ∨ t.isBool then both (a.coerceBool u) (t.coerceBool u) else none with
  | some (x, y) => x = y
  | none => match a, t with
    | .str s, .str s' => u.casefold s = u.casefold s'
    | _, _ => a.stand u t = some .eq

def JsValue.same (u : Unicode) (a t : JsValue) : Bool :=
  match if a.isBoolean ∨ t.isBoolean then both (a.coerceBool u) (t.coerceBool u) else none with
  | some (x, y) => x = y
  | none => match a, t with
    | .string s, .string s' => toLowerCase u s = toLowerCase u s'
    | _, _ => a.stand t = some .eq

def equalities : List Text :=
  [text "eq", text "ne"]

theorem Value.evalOperator_equal {op : Text} (known : op ∈ equalities) {a t : Value} (reported : ¬(a = .null ∨ t = .null)) :
    a.evalOperator u op t = .ok (if op = text "eq" then a.same u t else !a.same u t) := by
  have names : ∀ op ∈ equalities, (operatorAliases.lookup op).getD op = op ∧ (op = text "eq" ∨ op = text "ne") := by decide
  obtain ⟨name, this⟩ := names op known
  unfold evalOperator same
  dsimp only
  rw [name, if_pos this, if_neg reported]
  cases (if a.isBool ∨ t.isBool then both (a.coerceBool u) (t.coerceBool u) else none) with
  | some words => rfl
  | none =>
    match a, t with
    | null, t | bool _, null | int _, null | float _, null | str _, null => simp at reported
    | bool _, bool _ | bool _, int _ | bool _, float _ | int _, bool _ | int _, int _ | int _, float _ => rfl
    | float _, bool _ | float _, int _ | float _, float _ | str _, str _ => rfl
    | str s, bool b | str s, int b | str s, float b | bool b, str s | int b, str s | float b, str s =>
      cases number : FloatText.pyFloat u.decimal s.points <;>
        simp [stand, coerceNumeric, number, both, sameType, equals, Value.number]

theorem JsValue.evalOperator_equal {op : Text} (known : op ∈ equalities) {a t : JsValue} (reported : ¬(a = .null ∨ t = .null)) :
    a.evalOperator u op t = .ok (if op = text "eq" then a.same u t else !a.same u t) := by
  have names : ∀ op ∈ equalities, canonicalName op = some op ∧ (op = text "eq" ∨ op = text "ne") := by decide
  obtain ⟨name, this⟩ := names op known
  unfold evalOperator same
  rw [name]
  dsimp only
  rw [if_pos this, if_neg reported]
  cases (if a.isBoolean ∨ t.isBoolean then both (a.coerceBool u) (t.coerceBool u) else none) with
  | some words => rfl
  | none =>
    match a, t with
    | null, t | boolean _, null | number _, null | string _, null => simp at reported
    | boolean b, boolean b' =>
      have equal := ofBool_cmp b b'
      simp [stand, coerceNumeric, both, sameType, equals, equal]
    | boolean _, number _ | number _, boolean _ | number _, number _ | string _, string _ => rfl
    | string s, boolean b | string s, number b | boolean b, string s | number b, string s =>
      cases read : FloatText.jsFloat s.units <;> simp [stand, coerceNumeric, read, both, sameType, equals]

/-! The two values decide. -/

theorem both_eq_some {α : Type} {a t : Option α} {x y : α} : both a t = some (x, y) ↔ a = some x ∧ t = some y := by
  cases a <;> cases t <;> simp [both]

theorem both_inBrowser {a t : Value} {x y x' y' : Number} (runtime : both (a.coerceNumeric u) (t.coerceNumeric u) = some (x, y))
    (browser : both a.inBrowser.coerceNumeric t.inBrowser.coerceNumeric = some (x', y')) :
    x' = x.rounded ∧ y' = y.rounded := by
  obtain ⟨ra, rt⟩ := both_eq_some.mp runtime
  obtain ⟨ba, bt⟩ := both_eq_some.mp browser
  exact ⟨coerceNumeric_inBrowser ra ba, coerceNumeric_inBrowser rt bt⟩

theorem Value.stand_of_mixed {a t : Value} (mixed : ∀ s s', ¬(a = .str s ∧ t = .str s')) :
    a.stand u t = match both (a.coerceNumeric u) (t.coerceNumeric u) with
      | some (x, y) => x.cmp y
      | none => none := by
  match a, t with
  | .str s, .str s' => exact absurd ⟨rfl, rfl⟩ (mixed s s')
  | .null, _ | .bool _, _ | .int _, _ | .float _, _ => rfl
  | .str _, .null | .str _, .bool _ | .str _, .int _ | .str _, .float _ => rfl

theorem JsValue.stand_of_mixed {a t : Value} (mixed : ∀ s s', ¬(a = .str s ∧ t = .str s')) :
    a.inBrowser.stand t.inBrowser = match both a.inBrowser.coerceNumeric t.inBrowser.coerceNumeric with
      | some (x, y) => x.cmp y
      | none => none := by
  match a, t with
  | .str s, .str s' => exact absurd ⟨rfl, rfl⟩ (mixed s s')
  | .null, _ | .bool _, _ | .int _, _ | .float _, _ => rfl
  | .str _, .null | .str _, .bool _ | .str _, .int _ | .str _, .float _ => rfl

/-- Values that are not both text stand as their numbers. -/
theorem numbersAlike_iff {a t : Value} (mixed : ∀ s s', ¬(a = .str s ∧ t = .str s')) :
    NumbersAlike u a t ↔ a.stand u t = a.inBrowser.stand t.inBrowser := by
  rw [Value.stand_of_mixed mixed, JsValue.stand_of_mixed mixed]
  unfold NumbersAlike
  cases runtime : both (a.coerceNumeric u) (t.coerceNumeric u) with
  | some numbers =>
    obtain ⟨x, y⟩ := numbers
    cases browser : both a.inBrowser.coerceNumeric t.inBrowser.coerceNumeric with
    | some doubles =>
      obtain ⟨x', y'⟩ := doubles
      obtain ⟨rfl, rfl⟩ := both_inBrowser runtime browser
      exact (Number.cmp_rounded x y).symm
    | none => exact (Number.cmp_eq_none x y).symm
  | none =>
    cases browser : both a.inBrowser.coerceNumeric t.inBrowser.coerceNumeric with
    | some doubles =>
      obtain ⟨x, y⟩ := doubles
      exact (Number.cmp_eq_none x y).symm.trans eq_comm
    | none => exact ⟨fun _ => rfl, fun _ => trivial⟩

theorem textsAlike_iff (s s' : Str) :
    TextsAlike u s s' ↔ (Value.str s).stand u (.str s') = (JsValue.string s.utf16).stand (.string s'.utf16) := by
  have exact' : ∀ {x y x' y' : Number}, both (FloatText.pyFloat u.decimal s.points) (FloatText.pyFloat u.decimal s'.points) =
      some (x, y) → both (FloatText.jsFloat s.utf16.units) (FloatText.jsFloat s'.utf16.units) = some (x', y') →
      x = x' ∧ y = y' := by
    intro x y x' y' runtime browser
    obtain ⟨rs, rs'⟩ := both_eq_some.mp runtime
    obtain ⟨bs, bs'⟩ := both_eq_some.mp browser
    exact ⟨FloatText.pyFloat_eq_jsFloat u.decimal_mark s rs bs, FloatText.pyFloat_eq_jsFloat u.decimal_mark s' rs' bs'⟩
  unfold TextsAlike Value.stand JsValue.stand
  dsimp only [Value.coerceNumeric, JsValue.coerceNumeric]
  cases runtime : both (FloatText.pyFloat u.decimal s.points) (FloatText.pyFloat u.decimal s'.points) with
  | some numbers =>
    obtain ⟨x, y⟩ := numbers
    cases browser : both (FloatText.jsFloat s.utf16.units) (FloatText.jsFloat s'.utf16.units) with
    | some doubles =>
      obtain ⟨x', y'⟩ := doubles
      obtain ⟨rfl, rfl⟩ := exact' runtime browser
      simp
    | none => rfl
  | none =>
    cases browser : both (FloatText.jsFloat s.utf16.units) (FloatText.jsFloat s'.utf16.units) with
    | some doubles => exact eq_comm
    | none =>
      have orders := JsStr.order_utf16 s s'
      dsimp only
      rw [Option.some.injEq, ← orders]
      exact eq_comm

theorem alike_of_mixed {a t : Value} (reported : ¬(a = .null ∨ t = .null)) (mixed : ∀ s s', ¬(a = .str s ∧ t = .str s')) :
    Alike u a t ↔ NumbersAlike u a t := by
  match a, t with
  | .null, t | .bool _, .null | .int _, .null | .float _, .null | .str _, .null => simp at reported
  | .str s, .str s' => exact absurd ⟨rfl, rfl⟩ (mixed s s')
  | .bool _, .bool _ | .bool _, .int _ | .bool _, .float _ | .bool _, .str _ => exact Iff.rfl
  | .int _, .bool _ | .int _, .int _ | .int _, .float _ | .int _, .str _ => exact Iff.rfl
  | .float _, .bool _ | .float _, .int _ | .float _, .float _ | .float _, .str _ => exact Iff.rfl
  | .str _, .bool _ | .str _, .int _ | .str _, .float _ => exact Iff.rfl

theorem alike_iff {a t : Value} (reported : ¬(a = .null ∨ t = .null)) :
    Alike u a t ↔ a.stand u t = a.inBrowser.stand t.inBrowser := by
  by_cases texts : ∃ s s', a = .str s ∧ t = .str s'
  · obtain ⟨s, s', rfl, rfl⟩ := texts
    exact textsAlike_iff s s'
  · have mixed : ∀ s s', ¬(a = .str s ∧ t = .str s') := fun s s' both => texts ⟨s, s', both⟩
    exact (alike_of_mixed reported mixed).trans (numbersAlike_iff mixed)

theorem Value.same_of_mixed {a t : Value} (mixed : ∀ s s', ¬(a = .str s ∧ t = .str s')) :
    a.same u t = match if a.isBool ∨ t.isBool then both (a.coerceBool u) (t.coerceBool u) else none with
      | some (x, y) => decide (x = y)
      | none => decide (a.stand u t = some .eq) := by
  match a, t with
  | .str s, .str s' => exact absurd ⟨rfl, rfl⟩ (mixed s s')
  | .null, _ | .bool _, _ | .int _, _ | .float _, _ => rfl
  | .str _, .null | .str _, .bool _ | .str _, .int _ | .str _, .float _ => rfl

theorem JsValue.same_of_mixed {a t : Value} (mixed : ∀ s s', ¬(a = .str s ∧ t = .str s')) :
    a.inBrowser.same u t.inBrowser = match if a.isBool ∨ t.isBool then both (a.coerceBool u) (t.coerceBool u) else none with
      | some (x, y) => decide (x = y)
      | none => decide (a.inBrowser.stand t.inBrowser = some .eq) := by
  have kinds : ∀ v : Value, v.inBrowser.isBoolean = v.isBool := by
    intro v
    cases v <;> rfl
  rw [← coerceBool_inBrowser a, ← coerceBool_inBrowser t, ← kinds, ← kinds]
  match a, t with
  | .str s, .str s' => exact absurd ⟨rfl, rfl⟩ (mixed s s')
  | .null, _ | .bool _, _ | .int _, _ | .float _, _ => rfl
  | .str _, .null | .str _, .bool _ | .str _, .int _ | .str _, .float _ => rfl

/-- Values that stand alike are alike for `eq`, where they are not both text. -/
theorem same_inBrowser {a t : Value} (mixed : ∀ s s', ¬(a = .str s ∧ t = .str s'))
    (stand : a.stand u t = a.inBrowser.stand t.inBrowser) : a.inBrowser.same u t.inBrowser = a.same u t := by
  rw [Value.same_of_mixed mixed, JsValue.same_of_mixed mixed, stand]

theorem same_texts (s s' : Str) : (Value.str s).same u (.str s') = decide (u.casefold s = u.casefold s') ∧
    (Value.str s).inBrowser.same u (Value.str s').inBrowser = decide (u.lower s = u.lower s') := by
  refine ⟨rfl, ?_⟩
  change decide (toLowerCase u s.utf16 = toLowerCase u s'.utf16) = _
  rw [decide_eq_decide, toLowerCase_utf16, toLowerCase_utf16, JsStr.utf16_inj]

/-! Every operator name. -/

theorem lookup_ascii (d : List (Text × Text)) (ascii : (d.all fun e => e.1.all (· < 128)) = true) (s : Str) :
    d.lookup s.utf16.units = d.lookup s.points := by
  induction d with
  | nil => rfl
  | cons e d ih =>
    obtain ⟨first, rest⟩ := Bool.and_eq_true_iff.mp ascii
    have key := encode_ascii first s
    rw [List.lookup_cons, List.lookup_cons, ih rest]
    have same : (s.utf16.units == e.1) = (s.points == e.1) := by
      rw [Bool.eq_iff_iff, beq_iff_eq, beq_iff_eq]
      exact key
    rw [same]

/-- The two sides name the same operator, or neither names one. -/
theorem operator_cases (op : Str) :
    (∃ name ∈ operators, (operatorAliases.lookup op.points).getD op.points = name ∧ canonicalName op.utf16.units = some name) ∨
      (operatorAliases.lookup op.points).getD op.points ∉ operators ∧
        ∀ name ∈ operators, canonicalName op.utf16.units ≠ some name := by
  have aliases := lookup_ascii operatorAliases (by decide) op
  have known : ∀ e ∈ operatorAliases, e.2 ∈ operators := by decide
  have plain := mem_ascii (by decide : (operators.all fun w => w.all (· < 128)) = true) op
  unfold canonicalName
  rw [aliases]
  cases found : operatorAliases.lookup op.points with
  | some name =>
    left
    exact ⟨name, known _ (List.mem_of_lookup_eq_some found), rfl, rfl⟩
  | none =>
    by_cases member : op.points ∈ operators
    · left
      have units : op.utf16.units ∈ operators := plain.mpr member
      have own : ∀ name ∈ operators, name ∉ objectPrototype := by decide
      have same : op.utf16.units = op.points := by
        have ascii : ∀ name ∈ operators, name.all (· < 128) = true := by decide
        exact (encode_ascii (ascii _ member) op).mpr rfl
      exact ⟨op.points, member, rfl, by rw [if_neg (own _ units), same]⟩
    · right
      refine ⟨member, fun name inside => ?_⟩
      by_cases inherited : op.utf16.units ∈ objectPrototype
      · rw [if_pos inherited]
        nofun
      · rw [if_neg inherited]
        intro same
        exact member (plain.mp (Option.some.inj same ▸ inside))

theorem Value.evalOperator_name {op name : Text} (names : (operatorAliases.lookup op).getD op = name) (known : name ∈ operators)
    (a t : Value) : a.evalOperator u op t = a.evalOperator u name t := by
  have own : ∀ name ∈ operators, (operatorAliases.lookup name).getD name = name := by decide
  unfold evalOperator
  rw [names, own name known]

theorem JsValue.evalOperator_name {op : List Nat} {name : Text} (names : canonicalName op = some name) (known : name ∈ operators)
    (a t : JsValue) : a.evalOperator u op t = a.evalOperator u name t := by
  have own : ∀ name ∈ operators, canonicalName name = some name := by decide
  unfold evalOperator
  rw [names, own name known]
  dsimp only
  simp only [operators, List.mem_cons, List.not_mem_nil, or_false] at known
  by_cases equal : name = text "eq" ∨ name = text "ne"
  · rw [if_pos equal, if_pos equal]
  · rw [if_neg equal, if_neg equal]
    by_cases comparison : name = text "gt" ∨ name = text "lt" ∨ name = text "gte" ∨ name = text "lte"
    · rw [if_pos comparison, if_pos comparison]
    · rw [if_neg comparison, if_neg comparison]
      by_cases truthy : name = text "truthy"
      · rw [if_pos truthy, if_pos truthy]
      · have falsy : name = text "falsy" := by tauto
        rw [if_neg truthy, if_neg truthy, if_pos falsy, if_pos falsy]

theorem Value.evalOperator_unknown {op : Text} (unknown : (operatorAliases.lookup op).getD op ∉ operators) (a t : Value) :
    ∃ message, a.evalOperator u op t = .error message := by
  simp only [operators, List.mem_cons, List.not_mem_nil, or_false, not_or] at unknown
  obtain ⟨eq, ne, gt, lt, gte, lte, truthy, falsy⟩ := unknown
  unfold evalOperator
  dsimp only
  rw [if_neg (by tauto), if_neg (by tauto), if_neg truthy, if_neg falsy]
  exact ⟨_, rfl⟩

theorem JsValue.evalOperator_unknown {op : List Nat} (unknown : ∀ name ∈ operators, canonicalName op ≠ some name) (a t : JsValue) :
    ∃ message, a.evalOperator u op t = .error message := by
  unfold evalOperator
  cases named : canonicalName op with
  | none => exact ⟨_, rfl⟩
  | some name =>
    have other : name ∉ operators := fun member => unknown name member named
    simp only [operators, List.mem_cons, List.not_mem_nil, or_false, not_or] at other
    obtain ⟨eq, ne, gt, lt, gte, lte, truthy, falsy⟩ := other
    dsimp only
    rw [if_neg (by tauto), if_neg (by tauto), if_neg truthy, if_neg falsy]
    exact ⟨_, rfl⟩

theorem evalOperator_truth {op : Text} (known : op ∈ [text "truthy", text "falsy"]) (a t : Value) :
    Agree (a.evalOperator u op t) (a.inBrowser.evalOperator u op t.inBrowser) := by
  have truth := truth_inBrowser a
  simp only [List.mem_cons, List.not_mem_nil, or_false] at known
  rcases known with rfl | rfl
  · exact truth.symm
  · exact congrArg Bool.not truth.symm

theorem null_inBrowser {a t : Value} : (a.inBrowser = .null ∨ t.inBrowser = .null) ↔ (a = .null ∨ t = .null) := by
  cases a <;> cases t <;> simp [Value.inBrowser]

theorem evalOperator_null {op : Text} (known : op ∈ equalities ++ comparisons) {a t : Value} (missing : a = .null ∨ t = .null) :
    Agree (a.evalOperator u op t) (a.inBrowser.evalOperator u op t.inBrowser) := by
  have missing' := null_inBrowser.mpr missing
  have names : ∀ op ∈ equalities ++ comparisons, (operatorAliases.lookup op).getD op = op ∧ canonicalName op = some op ∧
      ((op = text "eq" ∨ op = text "ne") ∨ (op = text "gt" ∨ op = text "lt" ∨ op = text "gte" ∨ op = text "lte")) := by decide
  obtain ⟨name, name', kind⟩ := names op known
  have runtime : a.evalOperator u op t = .ok false := by
    unfold Value.evalOperator
    dsimp only
    rw [name, if_pos missing, if_pos missing]
    split
    · rfl
    · rw [if_pos (kind.resolve_left ‹_›)]
  have browser : a.inBrowser.evalOperator u op t.inBrowser = .ok false := by
    unfold JsValue.evalOperator
    rw [name']
    dsimp only
    rw [if_pos missing', if_pos missing']
    split
    · rfl
    · rw [if_pos (kind.resolve_left ‹_›)]
  rw [runtime, browser]
  rfl

/-- Orderings that all comparisons answer alike are the same. -/
theorem compare_inj {o o' : Option Ordering} (alike : ∀ op ∈ comparisons, compare op o = compare op o') : o = o' := by
  have gt := alike (text "gt") (by decide)
  have lt := alike (text "lt") (by decide)
  have gte := alike (text "gte") (by decide)
  have lte := alike (text "lte") (by decide)
  revert gt lt gte lte
  match o, o' with
  | none, none | none, some .lt | none, some .eq | none, some .gt => decide
  | some .lt, none | some .eq, none | some .gt, none => decide
  | some .lt, some .lt | some .lt, some .eq | some .lt, some .gt => decide
  | some .eq, some .lt | some .eq, some .eq | some .eq, some .gt => decide
  | some .gt, some .lt | some .gt, some .eq | some .gt, some .gt => decide

theorem evalOperator_alike (op : Str) {a t : Value} (alike : Alike u a t) :
    FoldsApart u op.points a t ∨ Agree (a.evalOperator u op.points t) (a.inBrowser.evalOperator u op.utf16.units t.inBrowser) := by
  rcases operator_cases op with ⟨name, known, names, names'⟩ | ⟨unknown, unknown'⟩
  · rw [Value.evalOperator_name names known, JsValue.evalOperator_name names' known]
    unfold FoldsApart
    rw [names]
    have kinds : name ∈ equalities ∨ name ∈ comparisons ∨ name ∈ [text "truthy", text "falsy"] := by
      have all : ∀ name ∈ operators, name ∈ equalities ∨ name ∈ comparisons ∨ name ∈ [text "truthy", text "falsy"] := by decide
      exact all name known
    by_cases missing : a = .null ∨ t = .null
    · right
      rcases kinds with equality | comparison | truth
      · exact evalOperator_null (List.mem_append_left _ equality) missing
      · exact evalOperator_null (List.mem_append_right _ comparison) missing
      · exact evalOperator_truth truth a t
    · have stand := (alike_iff missing).mp alike
      have missing' := mt null_inBrowser.mp missing
      rcases kinds with equality | comparison | truth
      · rw [Value.evalOperator_equal equality missing, JsValue.evalOperator_equal equality missing']
        by_cases texts : ∃ s s', a = .str s ∧ t = .str s'
        · obtain ⟨s, s', rfl, rfl⟩ := texts
          obtain ⟨runtime, browser⟩ := same_texts (u := u) s s'
          by_cases folds : u.casefold s = u.casefold s' ↔ u.lower s = u.lower s'
          · right
            rw [runtime, browser, decide_eq_decide.mpr folds]
            rfl
          · left
            refine ⟨equality, s, s', rfl, rfl, fun ascii => folds ?_, folds⟩
            rw [u.casefold_ascii s ascii.1, u.casefold_ascii s' ascii.2]
        · right
          rw [same_inBrowser (fun s s' both => texts ⟨s, s', both⟩) stand]
          rfl
      · right
        rw [Value.evalOperator_compare comparison missing, JsValue.evalOperator_compare comparison missing', stand]
        rfl
      · exact Or.inr (evalOperator_truth truth a t)
  · right
    obtain ⟨message, runtime⟩ := Value.evalOperator_unknown (u := u) unknown a t
    obtain ⟨message', browser⟩ := JsValue.evalOperator_unknown (u := u) unknown' a.inBrowser t.inBrowser
    rw [runtime, browser]
    trivial

theorem alike_of_evalOperator {a t : Value} (agree : ∀ op : Str, FoldsApart u op.points a t ∨
      Agree (a.evalOperator u op.points t) (a.inBrowser.evalOperator u op.utf16.units t.inBrowser)) : Alike u a t := by
  by_cases missing : a = .null ∨ t = .null
  · unfold Alike
    rcases missing with rfl | rfl
    · trivial
    · cases a <;> trivial
  · have missing' := mt null_inBrowser.mp missing
    have compares : ∀ op ∈ comparisons, compare op (a.stand u t) = compare op (a.inBrowser.stand t.inBrowser) := by
      intro op known
      have shape : ∀ op ∈ comparisons, (∀ c ∈ op, c < 0x110000) ∧ op.IsChain (fun c d => ¬Utf16.Pair c d) ∧
          op.all (· < 128) = true ∧ (operatorAliases.lookup op).getD op = op ∧ op ∉ [text "eq", text "ne"] := by decide
      obtain ⟨bounded, joined, ascii, name, other⟩ := shape op known
      have units := (encode_ascii ascii ⟨op, bounded, joined⟩).mpr rfl
      rcases agree ⟨op, bounded, joined⟩ with folds | agree
      · exact absurd (name ▸ folds.1) other
      · rw [units, Value.evalOperator_compare known missing, JsValue.evalOperator_compare known missing'] at agree
        exact agree
    exact (alike_iff missing).mpr (compare_inj compares)

/-! Equality in each of the two. -/

theorem Number.cmp_eq_comm (x y : Number) : x.cmp y = some .eq ↔ y.cmp x = some .eq := by
  match x, y with
  | none, none => exact Iff.rfl
  | none, some y | some x, none => simp [Number.cmp]
  | some x, some y =>
    simp only [Number.cmp, Option.some.injEq, order_eq]
    exact eq_comm

theorem Value.stand_comm (a t : Value) : a.stand u t = some .eq ↔ t.stand u a = some .eq := by
  unfold stand
  cases a.coerceNumeric u with
  | some x =>
    cases t.coerceNumeric u with
    | some y => exact Number.cmp_eq_comm x y
    | none =>
      cases a <;> cases t <;> simp [both, order_eq]
      exact eq_comm
  | none => cases t.coerceNumeric u <;> cases a <;> cases t <;> simp [both, order_eq] <;> exact eq_comm

theorem JsValue.stand_comm (a t : JsValue) : a.stand t = some .eq ↔ t.stand a = some .eq := by
  unfold stand
  cases a.coerceNumeric with
  | some x =>
    cases t.coerceNumeric with
    | some y => exact Number.cmp_eq_comm x y
    | none =>
      cases a <;> cases t <;> simp [both, order_eq]
      exact eq_comm
  | none => cases t.coerceNumeric <;> cases a <;> cases t <;> simp [both, order_eq] <;> exact eq_comm

theorem both_comm {α : Type} (a t : Option α) : both t a = (both a t).map Prod.swap := by
  cases a <;> cases t <;> rfl

theorem Value.same_comm (a t : Value) : a.same u t = t.same u a := by
  have stand := a.stand_comm (u := u) t
  have equal : (if t.isBool ∨ a.isBool then both (t.coerceBool u) (a.coerceBool u) else none) =
      (if a.isBool ∨ t.isBool then both (a.coerceBool u) (t.coerceBool u) else none).map Prod.swap := by
    by_cases either : a.isBool ∨ t.isBool
    · rw [if_pos either, if_pos either.symm, both_comm]
    · rw [if_neg either, if_neg (mt Or.symm either)]
      rfl
  unfold same
  rw [equal]
  cases (if a.isBool ∨ t.isBool then both (a.coerceBool u) (t.coerceBool u) else none) with
  | some words => exact decide_eq_decide.mpr eq_comm
  | none =>
    cases a <;> cases t <;> first | exact decide_eq_decide.mpr stand | exact decide_eq_decide.mpr eq_comm

theorem JsValue.same_comm (a t : JsValue) : a.same u t = t.same u a := by
  have stand := a.stand_comm t
  have equal : (if t.isBoolean ∨ a.isBoolean then both (t.coerceBool u) (a.coerceBool u) else none) =
      (if a.isBoolean ∨ t.isBoolean then both (a.coerceBool u) (t.coerceBool u) else none).map Prod.swap := by
    by_cases either : a.isBoolean ∨ t.isBoolean
    · rw [if_pos either, if_pos either.symm, both_comm]
    · rw [if_neg either, if_neg (mt Or.symm either)]
      rfl
  unfold same
  rw [equal]
  cases (if a.isBoolean ∨ t.isBoolean then both (a.coerceBool u) (t.coerceBool u) else none) with
  | some words => exact decide_eq_decide.mpr eq_comm
  | none =>
    cases a <;> cases t <;> first | exact decide_eq_decide.mpr stand | exact decide_eq_decide.mpr eq_comm

/-- For two reported values `eq` is symmetric, and `ne` is its negation. -/
theorem Value.equality (a t : Value) : a.evalOperator u (text "eq") t = t.evalOperator u (text "eq") a ∧
    ((a = null ∨ t = null) ∨ a.evalOperator u (text "ne") t = (a.evalOperator u (text "eq") t).map not) := by
  by_cases missing : a = null ∨ t = null
  · have nothing : ∀ {a t : Value}, a = null ∨ t = null → a.evalOperator u (text "eq") t = .ok false := by
      intro a t missing
      exact if_pos missing
    exact ⟨(nothing missing).trans (nothing missing.symm).symm, Or.inl missing⟩
  · rw [evalOperator_equal (by decide) missing, evalOperator_equal (by decide) (mt Or.symm missing),
      evalOperator_equal (by decide) missing, a.same_comm t]
    exact ⟨rfl, Or.inr rfl⟩

theorem JsValue.equality (a t : JsValue) : a.evalOperator u (text "eq") t = t.evalOperator u (text "eq") a ∧
    ((a = null ∨ t = null) ∨ a.evalOperator u (text "ne") t = (a.evalOperator u (text "eq") t).map not) := by
  by_cases missing : a = null ∨ t = null
  · have nothing : ∀ {a t : JsValue}, a = null ∨ t = null → a.evalOperator u (text "eq") t = .ok false := by
      intro a t missing
      exact if_pos missing
    exact ⟨(nothing missing).trans (nothing missing.symm).symm, Or.inl missing⟩
  · rw [evalOperator_equal (by decide) missing, evalOperator_equal (by decide) (mt Or.symm missing),
      evalOperator_equal (by decide) missing, a.same_comm t]
    exact ⟨rfl, Or.inr rfl⟩

variable (u)

/-- The preview decides two values as the runtime does, for every operator name,
exactly when they are alike; and in each of the two `eq` and `ne` are what they should be. -/
theorem preview_decides_alike :
    (∀ a t : Value, (∀ op : Str, FoldsApart u op.points a t ∨
        Agree (a.evalOperator u op.points t) (a.inBrowser.evalOperator u op.utf16.units t.inBrowser)) ↔ Alike u a t) ∧
      (∀ a t : Value, a.evalOperator u (text "eq") t = t.evalOperator u (text "eq") a ∧
        ((a = .null ∨ t = .null) ∨ a.evalOperator u (text "ne") t = (a.evalOperator u (text "eq") t).map not)) ∧
      ∀ a t : JsValue, a.evalOperator u (text "eq") t = t.evalOperator u (text "eq") a ∧
        ((a = .null ∨ t = .null) ∨ a.evalOperator u (text "ne") t = (a.evalOperator u (text "eq") t).map not) :=
  ⟨fun _ _ => ⟨alike_of_evalOperator, fun alike op => evalOperator_alike op alike⟩, Value.equality, JsValue.equality⟩

/-- `2 ^ 53 + 1` is halfway between two doubles, and the even one is `2 ^ 53`. -/
theorem nearest_odd : Double.nearest (9007199254740993 : ℤ) = Double.nearest (9007199254740992 : ℤ) := by
  have log : Int.log 2 |((9007199254740993 : ℤ) : ℚ)| = 53 := by
    have natural : |((9007199254740993 : ℤ) : ℚ)| = ((9007199254740993 : ℕ) : ℚ) := by norm_num
    have natLog : Nat.log 2 9007199254740993 = 53 := Nat.log_eq_of_pow_le_of_lt_pow (by norm_num) (by norm_num)
    rw [natural, Int.log_natCast, natLog]
    rfl
  have exponent : Double.exponent ((9007199254740993 : ℤ) : ℚ) = 53 := by
    unfold Double.exponent
    rw [if_neg (by norm_num), log]
    rfl
  have ulp : Double.ulp ((9007199254740993 : ℤ) : ℚ) = 2 := by
    unfold Double.ulp
    rw [exponent]
    norm_num
  have half : Double.roundEven (((9007199254740993 : ℤ) : ℚ) / 2) = 4503599627370496 := by
    have floor : ⌊((9007199254740993 : ℤ) : ℚ) / 2⌋ = 4503599627370496 := by
      rw [Int.floor_eq_iff]
      norm_num
    unfold Double.roundEven
    rw [floor]
    norm_num
  have grid : Double.onGrid ((9007199254740993 : ℤ) : ℚ) = ((9007199254740992 : ℤ) : ℚ) := by
    unfold Double.onGrid
    rw [ulp, half]
    norm_num
  have even : Double.onGrid ((9007199254740992 : ℤ) : ℚ) = ((9007199254740992 : ℤ) : ℚ) :=
    Double.onGrid_of_multiple (k := 9007199254740992) (j := 0) (by norm_num) (by omega) (by norm_num)
  unfold Double.nearest
  rw [grid, even]

theorem lowerAscii_chain {points : Text} (joined : points.IsChain fun c d => ¬Utf16.Pair c d) :
    (points.map FloatText.lowerAscii).IsChain fun c d => ¬Utf16.Pair c d := by
  rw [List.isChain_map]
  refine joined.imp fun c d apart pair => apart ?_
  obtain ⟨⟨high, _⟩, low, _⟩ := pair
  have same : ∀ e, 0xD800 ≤ FloatText.lowerAscii e → FloatText.lowerAscii e = e := by
    intro e large
    unfold FloatText.lowerAscii at large ⊢
    split at large
    · omega
    · rw [if_neg ‹_›]
  rw [← same c high, ← same d (by omega)]
  exact ⟨⟨high, ‹_›⟩, low, ‹_›⟩

/-- Unicode as far as ASCII and the Arabic digits. -/
def arabic : Unicode where
  lower s := ⟨s.points.map FloatText.lowerAscii, by
    intro c member
    obtain ⟨d, inside, rfl⟩ := List.mem_map.mp member
    have bound := s.bounded d inside
    unfold FloatText.lowerAscii
    split <;> omega, lowerAscii_chain s.joined⟩
  casefold s := ⟨s.points.map FloatText.lowerAscii, by
    intro c member
    obtain ⟨d, inside, rfl⟩ := List.mem_map.mp member
    have bound := s.bounded d inside
    unfold FloatText.lowerAscii
    split <;> omega, lowerAscii_chain s.joined⟩
  decimal c := if 0x660 ≤ c ∧ c ≤ 0x669 then some (Fin.ofNat 10 (c - 0x660)) else none
  casefold_ascii _ _ := rfl
  decimal_mark := rfl

/-- A text of one code point that is no surrogate. -/
def single (c : Nat) (bounded : c < 0x110000) : Str :=
  ⟨[c], by simpa using bounded, List.IsChain.singleton c⟩

/-- Two integers that are one double; a text that comes later in UTF-16; a digit of another script. -/
theorem preview_differs :
    (Value.int 9007199254740993).evalOperator arabic (text "eq") (.int 9007199254740992) = .ok false ∧
    (Value.int 9007199254740993).inBrowser.evalOperator arabic (text "eq") (Value.int 9007199254740992).inBrowser = .ok true ∧
    (Value.str (single 0xff5e (by decide))).evalOperator arabic (text "lt") (.str (single 0x1f600 (by decide))) = .ok true ∧
    (Value.str (single 0xff5e (by decide))).inBrowser.evalOperator arabic (text "lt")
      (Value.str (single 0x1f600 (by decide))).inBrowser = .ok false ∧
    (Value.str (single 0x661 (by decide))).evalOperator arabic (text "eq") (.int 1) = .ok true ∧
    (Value.str (single 0x661 (by decide))).inBrowser.evalOperator arabic (text "eq") (Value.int 1).inBrowser = .ok false := by
  have one : Double.nearest (Decimal.value ⟨false, 1, 0⟩) = ((((1 : ℤ) : ℚ) : WithTop ℚ) : Double.Extended) := by
    have whole : Decimal.value ⟨false, 1, 0⟩ = ((1 : ℤ) : ℚ) := by simp [Decimal.value, Decimal.mantissa]
    rw [whole]
    exact Double.nearest_int (by norm_num)
  have runtime : ∀ m n : ℤ, (Value.int m).evalOperator arabic (text "eq") (.int n) =
      .ok (decide ((Number.ofRat m).cmp (Number.ofRat n) = some .eq)) := fun _ _ => rfl
  have browser : ∀ m n : ℤ, (Value.int m).inBrowser.evalOperator arabic (text "eq") (Value.int n).inBrowser =
      .ok (decide (Number.cmp (some (Double.nearest m)) (some (Double.nearest n)) = some .eq)) := fun _ _ => rfl
  have digit : (Value.str (single 0x661 (by decide))).evalOperator arabic (text "eq") (.int 1) =
      .ok (decide (Number.cmp (some (Double.nearest (Decimal.value ⟨false, 1, 0⟩))) (Number.ofRat (1 : ℤ)) = some .eq)) := rfl
  refine ⟨?_, ?_, by decide, by decide, ?_, rfl⟩
  · rw [runtime]
    simp [Number.cmp, Number.ofRat, order_eq]
  · rw [browser, nearest_odd]
    simp [Number.cmp, order_eq]
  · rw [digit, one]
    simp [Number.cmp, Number.ofRat, order_eq]

end Condition
