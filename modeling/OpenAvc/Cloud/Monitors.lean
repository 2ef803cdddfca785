import OpenAvc.Cloud.StateRelay
import OpenAvc.Data.FloatText

/-! The monitored readings of a project: what is normal for one, and the alert rules that its
declaration is compiled to. -/

namespace OpenAvc.Cloud

/-- What the alerts take from outside: the decimal digits, the platform's `normcase`, how a list
and a float are written, what `re.search` finds, and what `regex_safety_error` refuses. -/
structure Python where
  decimal : Nat → Option (Fin 10)
  normcase : Text → Text
  listText : List Primitive → Text
  numberText : Number → Text
  search : Text → Text → Bool
  refused : Text → Bool

/-- `str(value)` -/
def Primitive.written : Primitive → Text
  | .none => text "None"
  | .bool b => if b then text "True" else text "False"
  | .int n => intText n
  | .float d => floatText d
  | .nonFinite x => text x.str
  | .str s => s

/-- `str.lower`, as far as it makes words of ASCII letters. -/
def lowered (t : Text) : Text :=
  t.map FloatText.lowerAscii

/-- `_norm`, and `_norm_for_set`. -/
def norm : Primitive → Text
  | .bool b => if b then text "true" else text "false"
  | value =>
    let t := value.written
    if lowered t = text "true" ∨ lowered t = text "false" then lowered t else t

/-- `_NUMERIC_RE`: a sign, digits with a point among them, and an exponent. -/
def numericRe (t : Text) : Bool :=
  let (_, body) := FloatText.signed t
  let (whole, rest) := body.span isDigit
  let (fraction, rest) := match rest with
    | 46 :: more => more.span isDigit
    | _ => ([], rest)
  (whole ≠ [] ∨ fraction ≠ []) && match rest with
    | [] => true
    | c :: more =>
      let (_, digits) := FloatText.signed more
      (c = 101 ∨ c = 69) && !digits.isEmpty && digits.all isDigit

section

variable (py : Python)

/-- `as_number` -/
def asNumber : Primitive → Option Number
  | .none => none
  | .bool _ => none
  | .int n => some (Number.ofRat n).rounded
  | .float d => some (Number.ofRat d.value).rounded
  | .nonFinite .nan => some none
  | .nonFinite .infinity => some (some ⊤)
  | .nonFinite .negativeInfinity => some (some ⊥)
  | .str s =>
    if numericRe (Text.strip (s.map (FloatText.toAscii py.decimal))) then FloatText.pyFloat py.decimal s else none

/-- `x < y` -/
def less (x y : Number) : Bool :=
  Number.cmp x y = some .lt

/-- One monitored reading. `states` tells of each value whether it is declared normal. -/
structure Monitor where
  key : Text
  states : List (Text × Option Bool) := []
  normalMin : Primitive := .none
  normalMax : Primitive := .none
  durationSeconds : ℚ := 0
  deriving DecidableEq

namespace Monitor

variable (m : Monitor)

/-- `normal_bounds` -/
def normalBounds : Option Number × Option Number :=
  (asNumber py m.normalMin, asNumber py m.normalMax)

/-- `normal_values` -/
def normalValues : List Text :=
  (m.states.filter fun entry => entry.2 = some true).map fun entry => norm (.str entry.1)

def hasLimits : Bool :=
  (m.normalBounds py).1.isSome || (m.normalBounds py).2.isSome || !m.normalValues.isEmpty

inductive Status
  | unset
  | noValue
  | normal
  | abnormal
  deriving DecidableEq

/-- `monitor_status` -/
def status (value : Primitive) : Status :=
  if !m.hasLimits py then .unset
  else if value = .none then .noValue
  else if m.normalValues ≠ [] then
    if norm value ∈ m.normalValues then .normal else .abnormal
  else
    match asNumber py value with
    | none => .unset
    | some number =>
      if (m.normalBounds py).1.any (less number ·) then .abnormal
      else if (m.normalBounds py).2.any (less · number) then .abnormal
      else .normal

end Monitor

/-- The operators of an alert rule, and any other text in their place. -/
inductive Operator
  | isIn
  | notIn
  | equal
  | notEqual
  | greater
  | less
  | atLeast
  | atMost
  | contains
  | notContains
  | isMatch
  | other
  deriving DecidableEq

/-- What a rule compares with: a value, a float that was read from one, or a list. -/
inductive Target
  | one (value : Primitive)
  | number (x : Number)
  | many (values : List Primitive)

namespace Target

def isNone : Target → Bool
  | .one .none => true
  | _ => false

def isBool : Target → Bool
  | .one (.bool _) => true
  | _ => false

/-- `str(threshold)` -/
def str : Target → Text
  | .one value => value.written
  | .number x => py.numberText x
  | .many values => py.listText values

/-- `as_number(threshold)` -/
def asNumber : Target → Option Number
  | .one value => Cloud.asNumber py value
  | .number x => some x
  | .many _ => none

/-- The options of a set, as they are compared. -/
def options : Target → List Text
  | .one value => [norm value]
  | .number x => [py.numberText x]
  | .many values => values.map norm

end Target

def Primitive.isBool : Primitive → Bool
  | .bool _ => true
  | _ => false

/-- `a in b`, for texts. -/
def occurs (a b : Text) : Bool :=
  b.tails.any fun rest => a.isPrefixOf rest

/-- `_compare`, of two numbers. -/
def compareNumbers (operator : Operator) (v t : Number) : Bool :=
  match operator with
  | .greater => less t v
  | .less => less v t
  | .atLeast => Number.cmp v t = some .eq || less t v
  | .atMost => Number.cmp v t = some .eq || less v t
  | _ => false

/-- `_compare` -/
def compare (value : Primitive) (operator : Operator) (threshold : Target) : Bool :=
  if operator = .isIn ∨ operator = .notIn then
    if value = .none then false
    else if operator = .isIn then norm value ∈ threshold.options py
    else norm value ∉ threshold.options py
  else if value = .none then operator = .equal && threshold.isNone
  else if threshold.isNone then operator = .notEqual
  else if value.isBool || threshold.isBool then
    if operator = .equal then lowered value.written = lowered (threshold.str py)
    else if operator = .notEqual then lowered value.written ≠ lowered (threshold.str py)
    else false
  else if operator ∈ [.greater, .less, .atLeast, .atMost] then
    match asNumber py value, threshold.asNumber py with
    | some v, some t => compareNumbers operator v t
    | _, _ => false
  else
    match operator with
    | .equal => value.written = threshold.str py
    | .notEqual => value.written ≠ threshold.str py
    | .contains => occurs (threshold.str py) value.written
    | .notContains => !occurs (threshold.str py) value.written
    | .isMatch => py.search (threshold.str py) value.written
    | _ => false

/-- `_INVERSE` -/
def Operator.inverse : Operator → Option Operator
  | .greater => some .atMost
  | .atLeast => some .atMost
  | .less => some .atLeast
  | .atMost => some .atLeast
  | _ => none

/-- `_check_resolved` -/
def checkResolved (value : Primitive) (fireOperator : Operator) (resolveValue : Target) : Bool :=
  match fireOperator.inverse with
  | some inverse => compare py value inverse resolveValue
  | none => !compare py value fireOperator resolveValue

inductive RuleType
  | threshold
  | pattern
  | absence
  | other
  deriving DecidableEq

/-- A rule's condition. A missing value and `None` are the same to it. An absence rule has its last
two fields only. -/
structure Condition where
  key : Text := []
  operator : Option Operator := none
  value : Target := .one .none
  resolveValue : Option Target := none
  durationSeconds : ℚ := 0
  thresholdSeconds : ℚ := 120
  keyPrefix : Text := []

structure Rule where
  id : Text
  ruleType : RuleType
  enabled : Bool := true
  condition : Condition

namespace Rule

variable (rule : Rule)

/-- The operator, or the one that a rule of its type has when it names none. -/
def operator : Operator :=
  rule.condition.operator.getD (if rule.ruleType = .threshold then .greater else .equal)

/-- The value is one to tell of. -/
def triggers (value : Primitive) : Bool :=
  compare py value rule.operator rule.condition.value

/-- An open alert is over at the value, which does not trigger the rule. A pattern rule has no
hysteresis. -/
def clears (value : Primitive) : Bool :=
  match rule.ruleType with
  | .threshold =>
    checkResolved py value rule.operator (rule.condition.resolveValue.getD rule.condition.value)
  | _ => true

/-- `_duration_of` -/
def duration : ℚ :=
  max 0 rule.condition.durationSeconds

end Rule

/-- `rule_id_for` -/
def ruleIdFor (key : Text) : Text :=
  text "monitor." ++ key

namespace Monitor

variable (m : Monitor)

/-- One rule of `compile_alert_rules`. The duration is that of `_duration_seconds`. -/
def rule (ending : Text) (ruleType : RuleType) (operator : Operator) (value : Target) : Rule where
  id := ruleIdFor m.key ++ ending
  ruleType := ruleType
  condition := { key := m.key, operator := some operator, value, durationSeconds := max 0 m.durationSeconds }

/-- `compile_alert_rules`, for one monitor. -/
def rules : List Rule :=
  if m.key = [] ∨ !m.hasLimits py then []
  else if m.normalValues ≠ [] then
    [m.rule [] .pattern .notIn (.many (m.normalValues.map .str))]
  else
    (((m.normalBounds py).1.map fun low => m.rule (text ".below") .threshold .less (.number low)).toList ++
      ((m.normalBounds py).2.map fun high => m.rule (text ".above") .threshold .greater (.number high)).toList)

end Monitor

def compileAlertRules (monitors : List Monitor) : List Rule :=
  monitors.flatMap (Monitor.rules py)

/-! ### The tile and the rules -/

theorem norm_str (t : Text) : norm (.str t) = if lowered t = text "true" ∨ lowered t = text "false" then lowered t else t :=
  rfl

theorem norm_norm (value : Primitive) : norm (.str (norm value)) = norm value := by
  have again (t : Text) : norm (.str (norm (.str t))) = norm (.str t) := by
    rw [norm_str t]
    by_cases word : lowered t = text "true" ∨ lowered t = text "false"
    · rw [if_pos word]
      rcases word with word | word <;> rw [word] <;> decide
    · rw [if_neg word, norm_str, if_neg word]
  cases value with
  | bool b => cases b <;> decide
  | _ => exact again _

variable {py}

theorem asNumber_none_of_isBool {value : Primitive} (bool : value.isBool = true) : asNumber py value = none := by
  cases value with
  | bool b => rfl
  | _ => cases bool

/-- What `_compare` makes of an order and a float. -/
theorem compare_number {operator : Operator} (ordering : operator ∈ [.greater, .less, .atLeast, .atMost])
    (value : Primitive) (x : Number) :
    compare py value operator (.number x) = (asNumber py value).any (compareNumbers operator · x) := by
  have scalar : ¬(operator = .isIn ∨ operator = .notIn) := by
    rintro (rfl | rfl) <;> simp at ordering
  have plain : operator ≠ .equal ∧ operator ≠ .notEqual := by
    constructor <;> rintro rfl <;> simp at ordering
  unfold compare
  rw [if_neg scalar]
  by_cases missing : value = .none
  · rw [if_pos missing, missing]
    simp [plain.1, asNumber]
  · have present : (Target.number x).isNone ≠ true := by simp [Target.isNone]
    rw [if_neg missing, if_neg present]
    cases bool : value.isBool with
    | true => simp [plain.1, plain.2, asNumber_none_of_isBool bool]
    | false =>
      have number : (Target.number x).asNumber py = some x := rfl
      rw [if_neg (by simp [Target.isBool]), if_pos ordering, number]
      cases asNumber py value <;> rfl

theorem less_eq (x y : Double.Extended) : less (some x) (some y) = decide (x < y) := by
  simp [less, Number.cmp, order_lt]

/-- What is not below a bound is at it or above it. -/
theorem atLeast_of_not_less {x y : Number} (real : x ≠ none) (real' : y ≠ none) :
    compareNumbers .atLeast x y = !compareNumbers .less x y := by
  obtain ⟨x, rfl⟩ := Option.ne_none_iff_exists'.mp real
  obtain ⟨y, rfl⟩ := Option.ne_none_iff_exists'.mp real'
  have equal : decide (Number.cmp (some x) (some y) = some .eq) = decide (x = y) := by simp [Number.cmp, order_eq]
  simp only [compareNumbers, less_eq, equal]
  rcases lt_trichotomy x y with lower | rfl | higher
  · simp [lower, lower.ne, lower.not_gt]
  · simp
  · simp [higher, higher.not_gt]

theorem atMost_of_not_greater {x y : Number} (real : x ≠ none) (real' : y ≠ none) :
    compareNumbers .atMost x y = !compareNumbers .greater x y := by
  obtain ⟨x, rfl⟩ := Option.ne_none_iff_exists'.mp real
  obtain ⟨y, rfl⟩ := Option.ne_none_iff_exists'.mp real'
  have equal : decide (Number.cmp (some x) (some y) = some .eq) = decide (x = y) := by simp [Number.cmp, order_eq]
  simp only [compareNumbers, less_eq, equal]
  rcases lt_trichotomy x y with lower | rfl | higher
  · simp [lower, lower.not_gt]
  · simp
  · simp [higher, higher.ne', higher.not_gt]

namespace Monitor

variable {m : Monitor} {value : Primitive}

theorem norm_of_mem_normalValues {t : Text} (member : t ∈ m.normalValues) : norm (.str t) = t := by
  obtain ⟨entry, _, rfl⟩ := List.mem_map.mp member
  exact norm_norm _

theorem mem_options : norm value ∈ (Target.many (m.normalValues.map .str)).options py ↔ norm value ∈ m.normalValues := by
  have same : (Target.many (m.normalValues.map .str)).options py = m.normalValues := by
    rw [Target.options, List.map_map]
    conv_rhs => rw [← List.map_id m.normalValues]
    exact List.map_congr_left fun t member => norm_of_mem_normalValues member
  rw [same]

theorem triggers_values :
    (m.rule [] .pattern .notIn (.many (m.normalValues.map .str))).triggers py value = true ↔
      value ≠ .none ∧ norm value ∉ m.normalValues := by
  have operator : (m.rule [] .pattern .notIn (.many (m.normalValues.map .str))).operator = .notIn := rfl
  rw [Rule.triggers, operator]
  unfold compare
  by_cases missing : value = .none
  · simp [missing]
  · simp [missing, rule, mem_options]

theorem triggers_range {ending : Text} {operator : Operator} (ordering : operator ∈ [.greater, .less]) {x : Number} :
    (m.rule ending .threshold operator (.number x)).triggers py value =
      (asNumber py value).any (compareNumbers operator · x) := by
  have known : operator ∈ [.greater, .less, .atLeast, .atMost] := by
    rcases List.mem_pair.mp ordering with rfl | rfl <;> simp
  exact compare_number known value x

/-- A range rule that is not triggered is cleared by a number that is one. -/
theorem clears_range {ending : Text} {operator : Operator} (ordering : operator ∈ [.greater, .less]) {x v : Number}
    (real : x ≠ none) (number : asNumber py value = some v) (real' : v ≠ none) :
    (m.rule ending .threshold operator (.number x)).clears py value =
      !(m.rule ending .threshold operator (.number x)).triggers py value := by
  rw [triggers_range ordering, number, Option.any_some]
  rcases List.mem_pair.mp ordering with rfl | rfl
  · have resolved : (m.rule ending .threshold .greater (.number x)).clears py value = compare py value .atMost (.number x) := rfl
    rw [resolved, compare_number (by simp), number, Option.any_some, atMost_of_not_greater real' real]
  · have resolved : (m.rule ending .threshold .less (.number x)).clears py value = compare py value .atLeast (.number x) := rfl
    rw [resolved, compare_number (by simp), number, Option.any_some, atLeast_of_not_less real' real]

theorem hasLimits_iff : m.hasLimits py = true ↔
    (m.normalBounds py).1 ≠ none ∨ (m.normalBounds py).2 ≠ none ∨ m.normalValues ≠ [] := by
  simp [hasLimits, Option.isSome_iff_ne_none, or_assoc]

/-- The rules of a reading with a range. -/
theorem rules_range (named : m.key ≠ []) (limits : m.hasLimits py = true) (range : m.normalValues = []) :
    m.rules py = ((m.normalBounds py).1.map fun low => m.rule (text ".below") .threshold .less (.number low)).toList ++
      ((m.normalBounds py).2.map fun high => m.rule (text ".above") .threshold .greater (.number high)).toList := by
  rw [rules, if_neg (by simp [named, limits]), if_neg (not_not.mpr range)]

theorem rules_values (named : m.key ≠ []) (values : m.normalValues ≠ []) :
    m.rules py = [m.rule [] .pattern .notIn (.many (m.normalValues.map .str))] := by
  have limits : m.hasLimits py = true := hasLimits_iff.mpr (.inr (.inr values))
  rw [rules, if_neg (by simp [named, limits]), if_pos values]

theorem mem_rules_range (named : m.key ≠ []) (range : m.normalValues = []) {r : Rule} (member : r ∈ m.rules py) :
    (∃ low, (m.normalBounds py).1 = some low ∧ m.rule (text ".below") .threshold .less (.number low) = r) ∨
      ∃ high, (m.normalBounds py).2 = some high ∧ m.rule (text ".above") .threshold .greater (.number high) = r := by
  cases limits : m.hasLimits py with
  | false => simp [rules, limits] at member
  | true =>
    rw [rules_range named limits range, List.mem_append, Option.mem_toList, Option.mem_toList] at member
    rcases member with low | high
    · exact .inl (Option.map_eq_some_iff.mp low)
    · exact .inr (Option.map_eq_some_iff.mp high)

/-- The reading is a number outside the range. -/
def Outside (py : Python) (m : Monitor) (value : Primitive) : Prop :=
  ∃ v, asNumber py value = some v ∧
    ((∃ low, (m.normalBounds py).1 = some low ∧ less v low = true) ∨
      ∃ high, (m.normalBounds py).2 = some high ∧ less high v = true)

theorem Outside.limits (outside : m.Outside py value) : m.hasLimits py = true := by
  obtain ⟨v, _, ⟨low, bound, _⟩ | ⟨high, bound, _⟩⟩ := outside
  · exact hasLimits_iff.mpr (.inl (by simp [bound]))
  · exact hasLimits_iff.mpr (.inr (.inl (by simp [bound])))

theorem triggered_range (named : m.key ≠ []) (range : m.normalValues = []) (value : Primitive) :
    (∃ r ∈ m.rules py, r.triggers py value = true) ↔ m.Outside py value := by
  constructor
  · rintro ⟨r, member, hit⟩
    rcases mem_rules_range named range member with ⟨low, bound, rfl⟩ | ⟨high, bound, rfl⟩
    · rw [triggers_range (by simp), Option.any_eq_true] at hit
      obtain ⟨v, number, below⟩ := hit
      exact ⟨v, number, .inl ⟨low, bound, below⟩⟩
    · rw [triggers_range (by simp), Option.any_eq_true] at hit
      obtain ⟨v, number, above⟩ := hit
      exact ⟨v, number, .inr ⟨high, bound, above⟩⟩
  · intro outside
    have listed := rules_range named outside.limits range
    obtain ⟨v, number, ⟨low, bound, below⟩ | ⟨high, bound, above⟩⟩ := outside
    · refine ⟨m.rule (text ".below") .threshold .less (.number low), by simp [listed, bound], ?_⟩
      rw [triggers_range (by simp), number]
      exact below
    · refine ⟨m.rule (text ".above") .threshold .greater (.number high), by simp [listed, bound], ?_⟩
      rw [triggers_range (by simp), number]
      exact above

theorem abnormal_range (range : m.normalValues = []) (value : Primitive) :
    m.status py value = .abnormal ↔ m.Outside py value := by
  cases limits : m.hasLimits py with
  | false =>
    have inside : ¬m.Outside py value := fun outside => Bool.false_ne_true (limits.symm.trans outside.limits)
    simp [status, limits, inside]
  | true =>
    by_cases missing : value = .none
    · subst missing
      have inside : ¬m.Outside py .none := by
        rintro ⟨v, number, _⟩
        cases number
      simp [status, limits, inside]
    · cases number : asNumber py value with
      | none =>
        have inside : ¬m.Outside py value := by simp [Outside, number]
        simp [status, limits, missing, range, number, inside]
      | some v =>
        have outside : m.Outside py value ↔ (m.normalBounds py).1.any (less v ·) = true ∨
            (m.normalBounds py).2.any (less · v) = true := by
          simp only [Outside, number, Option.some.injEq, exists_eq_left', Option.any_eq_true]
        rw [outside]
        cases below : (m.normalBounds py).1.any (less v ·) <;> cases above : (m.normalBounds py).2.any (less · v) <;>
          simp [status, limits, missing, range, number, below, above]

/-- A reading is abnormal exactly when one of its rules is triggered. -/
theorem abnormal_iff (named : m.key ≠ []) (value : Primitive) :
    m.status py value = .abnormal ↔ ∃ r ∈ m.rules py, r.triggers py value = true := by
  by_cases range : m.normalValues = []
  · rw [abnormal_range range, triggered_range named range]
  · have limits : m.hasLimits py = true := hasLimits_iff.mpr (.inr (.inr range))
    have one : (∃ r ∈ m.rules py, r.triggers py value = true) ↔ value ≠ .none ∧ norm value ∉ m.normalValues := by
      rw [rules_values named range, ← @triggers_values py]
      simp
    rw [one]
    by_cases missing : value = .none
    · simp [status, limits, missing]
    · by_cases present : norm value ∈ m.normalValues <;> simp [status, limits, missing, range, present]

/-- Where neither the reading nor a bound is NaN, a normal reading clears its rules. -/
theorem clears_of_normal (named : m.key ≠ []) (real : asNumber py value ≠ some none)
    (realLow : (m.normalBounds py).1 ≠ some none) (realHigh : (m.normalBounds py).2 ≠ some none)
    (normal : m.status py value = .normal) {r : Rule} (member : r ∈ m.rules py) :
    r.triggers py value = false ∧ r.clears py value = true := by
  have calm : r.triggers py value = false := by
    refine Bool.eq_false_iff.mpr fun hit => ?_
    have abnormal := (abnormal_iff named value).mpr ⟨r, member, hit⟩
    rw [normal] at abnormal
    cases abnormal
  refine ⟨calm, ?_⟩
  by_cases range : m.normalValues = []
  · cases number : asNumber py value with
    | none =>
      have unset : m.status py value ≠ .normal := by
        unfold status
        by_cases missing : value = .none <;> cases m.hasLimits py <;> simp [range, number, missing]
      exact absurd normal unset
    | some v =>
      have real' : v ≠ none := fun nan => real (number.trans (congrArg some nan))
      rcases mem_rules_range named range member with ⟨low, bound, rfl⟩ | ⟨high, bound, rfl⟩
      · rw [clears_range (by simp) (fun nan => realLow (bound.trans (congrArg some nan))) number real', calm]
        rfl
      · rw [clears_range (by simp) (fun nan => realHigh (bound.trans (congrArg some nan))) number real', calm]
        rfl
  · rw [rules_values named range, List.mem_singleton] at member
    rw [member]
    rfl

end Monitor

end

end OpenAvc.Cloud
