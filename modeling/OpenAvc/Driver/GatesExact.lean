import OpenAvc.Driver.Gates
import OpenAvc.Data.Lookup

/-! The inputs on which the gates pass on only what was declared. -/

theorem Number.finite_ofRat (q : ℚ) : (Number.ofRat q).finite = some q := rfl

theorem FiniteDouble.finite_number (x : FiniteDouble) : x.number.finite = some x.value := rfl

theorem Double.finite_eq_some {f : Double} {x : FiniteDouble} (finite : f.finite = some x) : f.number = x.number := by
  obtain ⟨number, exact⟩ := f
  match number with
  | some ((q : ℚ) : WithTop ℚ) =>
    have same : (⟨q, Option.some.inj exact⟩ : FiniteDouble) = x := Option.some.inj finite
    rw [← same]
    rfl
  | some (⊤ : WithTop ℚ) => exact absurd finite nofun
  | some ⊥ => exact absurd finite nofun
  | none => exact absurd finite nofun

theorem Double.finite_isSome {f : Double} {q : ℚ} (finite : f.number.finite = some q) : ∃ x, f.finite = some x := by
  obtain ⟨number, exact⟩ := f
  match number with
  | some ((q : ℚ) : WithTop ℚ) => exact ⟨_, rfl⟩
  | some (⊤ : WithTop ℚ) => exact absurd finite nofun
  | some ⊥ => exact absurd finite nofun
  | none => exact absurd finite nofun

theorem FiniteDouble.finite_round (x : FiniteDouble) (n : ℕ) : ∃ q, (x.round n).number.finite = some q := by
  obtain ⟨r, same⟩ := Double.toDecimals_finite x.exact n
  refine ⟨r, ?_⟩
  have number : (x.round n).number = .ofRat r := congrArg some same
  rw [number]
  rfl

namespace OpenAvc.Driver

/-- What a driver may be given: a finite number within the bounds, and a whole one where
an `integer` is declared. -/
def Declared.Admits (d : Declared) (x : Number) : Prop :=
  x.finite.isSome ∧ d.below x = false ∧ d.above x = false ∧ (d.type = text "integer" → x.integer.isSome)

/-- The number that is passed on, a text read as the gates read it. -/
def Arg.passed (py : Python) : Arg → Option Number
  | .str t => (py.float t).map Double.number
  | v => v.number

/-- A gate accepts with a good result or refuses, and never fails in another way. -/
def Gated {α : Type} (good : α → Prop) : Except Failure α → Prop
  | .ok a => good a
  | .error (.refused _) => True
  | .error (.raised _) => False

/-- A number passed on for this param is as declared. -/
def Params.Good (py : Python) (out : Params) (p : Text × ParamDef) : Prop :=
  p.2.type ∈ numericTypes → ∀ v x, out.lookup p.1 = some v → v.passed py = some x → p.2.Admits x

/-! ### The conditions -/

/-- Python writes this value. -/
def Arg.Writable : Arg → Prop
  | .int n => n.natAbs < 10 ^ Json.Scan.intLimit
  | .container written => written.isSome
  | _ => True

/-- An `int` beyond the doubles. -/
def Arg.Huge : Arg → Prop
  | .int n => Double.nearest n = ⊤ ∨ Double.nearest n = ⊥
  | _ => False

namespace Declared

def OutOfRange (d : Declared) (x : Number) : Prop :=
  d.below x = true ∨ d.above x = true

/-- The bound that refuses a number cannot be written. -/
def Unwritable (d : Declared) (x : Number) : Prop :=
  d.below x = true ∧ ¬d.min.Writable ∨ d.below x = false ∧ d.above x = true ∧ ¬d.max.Writable

/-- A bound lies between two numbers, on the side of the first or at it. -/
def Between (d : Declared) (x y : Number) : Prop :=
  d.below x = false ∧ d.below y = true ∨ d.above x = false ∧ d.above y = true

end Declared

namespace ParamDef

variable (py : Python) (pdef : ParamDef)

/-- The value that is checked: nothing, if none or a blank is supplied. -/
def given (value : Option Arg) : Option Arg :=
  (value.filter (· ≠ .null)).bind fun v => if pdef.trimmed v = .str [] then none else some (pdef.trimmed v)

/-- The value cannot be read or the message about it cannot be written. -/
def Raises (v : Arg) : Prop :=
  pdef.type ∈ numericTypes ∧ (v.Huge ∨ asNumber py pdef.type v = .ok none ∧ ¬v.Writable ∨
    ∃ x, asNumber py pdef.type v = .ok (some x) ∧ pdef.Unwritable x.number)

/-- The value is not what was declared. -/
def Refuses (v : Arg) : Prop :=
  if pdef.type ∈ numericTypes then
    asNumber py pdef.type v = .ok none ∨ ∃ x, asNumber py pdef.type v = .ok (some x) ∧ pdef.OutOfRange x.number
  else ∃ t pattern, v = .str t ∧ pdef.pattern = some pattern ∧ pattern.fullmatch (pdef.wireValue t) = false

/-- A bound lies between the double that is checked and the number that is passed on: the
rounding to the declared decimals, or an `int` that is no double. -/
def Crosses (v : Arg) (x : FiniteDouble) : Prop :=
  match v, pdef.decimals.int? with
  | .str _, _ => False
  | _, some d => pdef.Between x.number (if d ≤ 0 then .ofRat (Double.roundEven x.value) else (x.round d.toNat).number)
  | .int n, none => pdef.Between x.number (.ofRat n)
  | _, none => False

/-- The value is checked before it is rounded, and a bound lies between. -/
def Breaks (v : Arg) : Prop :=
  (pdef.type ∈ numericTypes ∧ pdef.type ≠ text "integer") ∧ ∃ x, asNumber py pdef.type v = .ok (some x) ∧ pdef.Crosses v x

end ParamDef

namespace Params

variable (py : Python) (params : Params) (p : Text × ParamDef)

def Raises : Prop := ∃ v ∈ p.2.given (params.lookup p.1), p.2.Raises py v

def Refuses : Prop := ∃ v ∈ p.2.given (params.lookup p.1), p.2.Refuses py v

def Breaks : Prop := ∃ v ∈ p.2.given (params.lookup p.1), p.2.Breaks py v

/-- No value raises, unless another is refused before it. -/
def Fair : List (Text × ParamDef) → Prop
  | [] => True
  | p :: l => ¬params.Raises py p ∧ (params.Refuses py p ∨ Fair l)

/-- The condition of the command gate: the call is refused before a value raises, and where
nothing is refused no bound lies between a value and what is passed on for it. -/
def Sound (defs : List (Text × ParamDef)) : Prop :=
  missingRequiredParams defs params ≠ [] ∨
    (withDeclaredDefaults defs params).Fair py defs ∧
      ((∀ p ∈ defs, ¬(withDeclaredDefaults defs params).Refuses py p) →
        ∀ p ∈ defs, ¬(withDeclaredDefaults defs params).Breaks py p)

end Params

namespace SettingDef

/-- A number that the gate stops or that may be passed on: a finite one, or one that a bound
refuses. An `integer` that is not whole is stopped before. -/
def SoundNumber (sdef : SettingDef) (x : Number) : Prop :=
  if sdef.type = text "integer" then x.integer.isSome → ¬sdef.Unwritable x
  else ¬sdef.Unwritable x ∧ (x.finite.isSome ∨ sdef.OutOfRange x)

/-- The condition of the setting gate. An `int` beyond the doubles is let through where no
`integer` is declared and no bound refuses it. -/
def Sound (py : Python) (sdef : SettingDef) : Arg → Prop
  | .null => True
  | .int n => ((Arg.int n).Huge → sdef.type ≠ text "integer" ∧ ¬sdef.OutOfRange (.ofRat n)) ∧ ¬sdef.Unwritable (.ofRat n)
  | .float x => sdef.SoundNumber x.number
  | .str t => ∀ x ∈ py.float t.strip, sdef.SoundNumber x.number
  | v => v.Writable

end SettingDef

theorem Arg.intStr_cases (n : Int) :
    ((Arg.int n).Writable ∧ ∃ t, Arg.intStr n = .ok t) ∨
      (¬(Arg.int n).Writable ∧ Arg.intStr n = .error (.raised .valueError)) := by
  have writable : (Arg.int n).Writable ↔ n.natAbs < 10 ^ Json.Scan.intLimit := Iff.rfl
  by_cases short : n.natAbs < 10 ^ Json.Scan.intLimit
  · exact Or.inl ⟨writable.mpr short, intText n, by rw [Arg.intStr, if_pos short]⟩
  · exact Or.inr ⟨fun written => short (writable.mp written), by rw [Arg.intStr, if_neg short]⟩

theorem Arg.writable_cases (py : Python) (v : Arg) :
    (v.Writable ∧ ∃ t, v.repr py = .ok t) ∨ (¬v.Writable ∧ v.repr py = .error (.raised .valueError)) := by
  cases v with
  | null => exact Or.inl ⟨trivial, _, rfl⟩
  | bool b => exact Or.inl ⟨trivial, _, rfl⟩
  | int n => exact Arg.intStr_cases n
  | float x => exact Or.inl ⟨trivial, _, rfl⟩
  | str t => exact Or.inl ⟨trivial, _, rfl⟩
  | container written =>
    cases written with
    | none => exact Or.inr ⟨nofun, rfl⟩
    | some t => exact Or.inl ⟨rfl, t, rfl⟩

theorem Arg.writable_str_cases (py : Python) (v : Arg) :
    (v.Writable ∧ ∃ t, v.str' py = .ok t) ∨ (¬v.Writable ∧ v.str' py = .error (.raised .valueError)) := by
  cases v with
  | str t => exact Or.inl ⟨trivial, t, rfl⟩
  | null => exact Arg.writable_cases py .null
  | bool b => exact Arg.writable_cases py (.bool b)
  | int n => exact Arg.writable_cases py (.int n)
  | float x => exact Arg.writable_cases py (.float x)
  | container written => exact Arg.writable_cases py (.container written)

theorem Arg.floatOfInt_cases (n : Int) :
    ((Arg.int n).Huge ∧ Arg.floatOfInt n = .error (.raised .overflowError)) ∨
      (¬(Arg.int n).Huge ∧ ∃ x, Arg.floatOfInt n = .ok x) := by
  have huge : (Arg.int n).Huge ↔ Double.nearest n = ⊤ ∨ Double.nearest n = ⊥ := Iff.rfl
  rw [huge, Arg.floatOfInt]
  cases near : (Double.of (.ofRat n)).finite with
  | none =>
    refine Or.inl ⟨?_, rfl⟩
    match found : Double.nearest n with
    | ⊥ => exact Or.inr rfl
    | (⊤ : WithTop ℚ) => exact Or.inl rfl
    | ((q : ℚ) : WithTop ℚ) =>
      have number : (Double.of (.ofRat n)).number.finite = some q := by
        have same : (Double.of (.ofRat n)).number = some (Double.nearest n) := rfl
        rw [same, found]
        rfl
      obtain ⟨x, finite⟩ := Double.finite_isSome number
      rw [near] at finite
      exact absurd finite nofun
  | some x =>
    refine Or.inr ⟨?_, x, rfl⟩
    have same : some (Double.nearest n) = x.number := Double.finite_eq_some near
    rw [Option.some.inj same]
    exact not_or.mpr ⟨nofun, nofun⟩

/-- The range check refuses a number out of range, unless its message fails. -/
theorem Declared.checkRange_cases (py : Python) (d : Declared) (subject : Text) (num : Arg) (x : Number) (passed : Arg)
    (written : d.OutOfRange x → ∃ t, num.general py = .ok t) :
    (d.Unwritable x ∧ ∃ e, d.checkRange py subject num x passed = .error (.raised e)) ∨
      (d.OutOfRange x ∧ ¬d.Unwritable x ∧ ∃ m, d.checkRange py subject num x passed = .error (.refused m)) ∨
      (¬d.OutOfRange x ∧ d.checkRange py subject num x passed = .ok passed) := by
  unfold Declared.checkRange Declared.OutOfRange Declared.Unwritable at *
  cases low : d.below x with
  | true =>
    obtain ⟨t, general⟩ := written (Or.inl low)
    rcases Arg.writable_str_cases py d.min with ⟨writable, bound, str⟩ | ⟨unwritable, str⟩
    · refine Or.inr (Or.inl ⟨Or.inl rfl, by simp [writable], ?_⟩)
      rw [if_pos rfl, str, general]
      exact ⟨_, rfl⟩
    · refine Or.inl ⟨Or.inl ⟨rfl, unwritable⟩, .valueError, ?_⟩
      rw [if_pos rfl, str]
      rfl
  | false =>
    cases high : d.above x with
    | true =>
      obtain ⟨t, general⟩ := written (Or.inr high)
      rcases Arg.writable_str_cases py d.max with ⟨writable, bound, str⟩ | ⟨unwritable, str⟩
      · refine Or.inr (Or.inl ⟨Or.inr rfl, by simp [writable], ?_⟩)
        rw [if_neg Bool.false_ne_true, if_pos rfl, str, general]
        exact ⟨_, rfl⟩
      · refine Or.inl ⟨Or.inr ⟨rfl, rfl, unwritable⟩, .valueError, ?_⟩
        rw [if_neg Bool.false_ne_true, if_pos rfl, str]
        rfl
    | false => exact Or.inr (Or.inr ⟨by simp, rfl⟩)

theorem Declared.notANumber_cases (py : Python) (d : Declared) (subject : Text) (value : Arg) :
    (¬value.Writable ∧ ∃ e, d.notANumber py subject value = .error (.raised e)) ∨
      (value.Writable ∧ ∃ m, d.notANumber py subject value = .error (.refused m)) := by
  unfold Declared.notANumber
  rcases Arg.writable_cases py value with ⟨writable, t, written⟩ | ⟨unwritable, written⟩
  · exact Or.inr ⟨writable, _, by rw [written]; rfl⟩
  · exact Or.inl ⟨unwritable, _, by rw [written]; rfl⟩

/-! ### One value -/

theorem asNumber_cases (py : Python) (ptype : Text) (v : Arg) :
    (v.Huge ∧ ∃ e, asNumber py ptype v = .error (.raised e)) ∨ (¬v.Huge ∧ ∃ o, asNumber py ptype v = .ok o) := by
  cases v with
  | int n =>
    rcases Arg.floatOfInt_cases n with ⟨huge, raised⟩ | ⟨near, x, float⟩
    · exact Or.inl ⟨huge, .overflowError, by rw [asNumber, raised]; rfl⟩
    · exact Or.inr ⟨near, _, by rw [asNumber, float]; rfl⟩
  | null => exact Or.inr ⟨nofun, _, rfl⟩
  | bool b => exact Or.inr ⟨nofun, _, rfl⟩
  | float x => exact Or.inr ⟨nofun, _, rfl⟩
  | str t => exact Or.inr ⟨nofun, _, rfl⟩
  | container written => exact Or.inr ⟨nofun, _, rfl⟩

theorem asNumber_eq_some {py : Python} {ptype : Text} {v : Arg} {x : FiniteDouble} (reads : asNumber py ptype v = .ok (some x)) :
    (ptype = text "integer" → x.number.integer.isSome) ∧
      ((∃ t, v = .str t ∧ (py.float t).map Double.number = some x.number) ∨
        (∃ f : Double, v = .float f ∧ f.number = x.number) ∨ ∃ n, v = .int n) := by
  have filtered : ∃ o : Option FiniteDouble, o.filter (fun f => ptype = text "integer" → f.number.integer.isSome) = some x ∧
      ((∃ t, v = .str t ∧ o = (py.float t).bind Double.finite) ∨ (∃ f : Double, v = .float f ∧ o = f.finite) ∨ ∃ n, v = .int n) := by
    cases v with
    | int n =>
      rcases Arg.floatOfInt_cases n with ⟨_, raised⟩ | ⟨_, y, float⟩
      · rw [asNumber, raised] at reads
        exact absurd reads nofun
      · rw [asNumber, float] at reads
        exact ⟨some y, Except.ok.inj reads, Or.inr (Or.inr ⟨n, rfl⟩)⟩
    | float f => exact ⟨f.finite, Except.ok.inj reads, Or.inr (Or.inl ⟨f, rfl, rfl⟩)⟩
    | str t => exact ⟨_, Except.ok.inj reads, Or.inl ⟨t, rfl, rfl⟩⟩
    | null => exact absurd reads nofun
    | bool b => exact absurd reads nofun
    | container written => exact absurd reads nofun
  obtain ⟨o, kept, origin⟩ := filtered
  obtain ⟨read, whole⟩ := Option.filter_eq_some_iff.mp kept
  refine ⟨of_decide_eq_true whole, ?_⟩
  rcases origin with ⟨t, rfl, rfl⟩ | ⟨f, rfl, rfl⟩ | int
  · obtain ⟨f, float, finite⟩ := Option.bind_eq_some_iff.mp read
    refine Or.inl ⟨t, rfl, ?_⟩
    rw [float, Option.map_some, Double.finite_eq_some finite]
  · exact Or.inr (Or.inl ⟨f, rfl, Double.finite_eq_some read⟩)
  · exact Or.inr (Or.inr int)

theorem Number.eq_ofRat_of_integer {q : ℚ} (whole : (Number.ofRat q).integer.isSome) : Number.ofRat ⌊q⌋ = Number.ofRat q := by
  have den : q.den = 1 := by
    by_contra fraction
    have none : (Number.ofRat q).integer = none := if_neg fraction
    rw [none] at whole
    exact absurd whole nofun
  have int : (q.num : ℚ) = q := (Rat.den_eq_one_iff q).mp den
  rw [← int, Int.floor_intCast]

namespace Declared

variable {d : Declared} {x y : Number}

theorem admits_of_inRange (inRange : ¬d.OutOfRange x) (finite : x.finite.isSome)
    (whole : d.type = text "integer" → x.integer.isSome) : d.Admits x := by
  have bounds := not_or.mp inRange
  exact ⟨finite, Bool.eq_false_of_not_eq_true bounds.1, Bool.eq_false_of_not_eq_true bounds.2, whole⟩

theorem admits_iff_not_between (inRange : ¬d.OutOfRange x) (finite : y.finite.isSome) (type : d.type ≠ text "integer") :
    d.Admits y ↔ ¬d.Between x y := by
  have bounds := not_or.mp inRange
  have low := Bool.eq_false_of_not_eq_true bounds.1
  have high := Bool.eq_false_of_not_eq_true bounds.2
  unfold Admits Between
  rw [low, high]
  cases d.below y <;> cases d.above y <;> simp [finite, type]

end Declared

/-- What is passed on of a number in range is as declared, unless a bound is crossed
on the way. -/
theorem ParamDef.passed_normalized {py : Python} {pdef : ParamDef} {v : Arg} {x : FiniteDouble}
    (numeric : pdef.type ∈ numericTypes) (reads : asNumber py pdef.type v = .ok (some x)) (inRange : ¬pdef.OutOfRange x.number) :
    ∃ y, (pdef.normalized v x).passed py = some y ∧ (pdef.Admits y ↔ ¬pdef.Breaks py v) := by
  obtain ⟨whole, origin⟩ := asNumber_eq_some reads
  have checked : pdef.Admits x.number := Declared.admits_of_inRange inRange rfl whole
  have breaks (type : pdef.type ≠ text "integer") : pdef.Breaks py v ↔ pdef.Crosses v x := by
    constructor
    · rintro ⟨_, x', reads', crosses⟩
      rw [reads] at reads'
      rwa [← Option.some.inj (Except.ok.inj reads')] at crosses
    · exact fun crosses => ⟨⟨numeric, type⟩, x, reads, crosses⟩
  by_cases type : pdef.type = text "integer"
  · have unbroken : ¬pdef.Breaks py v := fun breaks => breaks.1.2 type
    refine ⟨x.number, ?_, iff_of_true checked unbroken⟩
    rcases origin with ⟨t, rfl, float⟩ | ⟨f, rfl, _⟩ | ⟨n, rfl⟩
    · exact float
    · rw [normalized, if_pos type]
      · exact congrArg some (Number.eq_ofRat_of_integer (whole type))
      · exact nofun
    · rw [normalized, if_pos type]
      · exact congrArg some (Number.eq_ofRat_of_integer (whole type))
      · exact nofun
  · rw [breaks type]
    -- what a declared number of decimals makes of a number
    have rounded (d : Int) : ∃ y, (if d ≤ 0 then Arg.int (Double.roundEven x.value) else .float (x.round d.toNat)).passed py =
        some y ∧ (pdef.Admits y ↔
          ¬pdef.Between x.number (if d ≤ 0 then .ofRat (Double.roundEven x.value) else (x.round d.toNat).number)) := by
      by_cases whole : d ≤ 0
      · rw [if_pos whole, if_pos whole]
        exact ⟨_, rfl, Declared.admits_iff_not_between inRange rfl type⟩
      · rw [if_neg whole, if_neg whole]
        obtain ⟨q, finite⟩ := x.finite_round d.toNat
        exact ⟨_, rfl, Declared.admits_iff_not_between inRange (by rw [finite]; rfl) type⟩
    rcases origin with ⟨t, rfl, float⟩ | ⟨f, rfl, same⟩ | ⟨n, rfl⟩
    · exact ⟨x.number, float, iff_of_true checked not_false⟩
    · unfold normalized Crosses
      simp only [if_neg type]
      cases pdef.decimals.int? with
      | none => exact ⟨f.number, rfl, by rw [same]; exact iff_of_true checked not_false⟩
      | some d => exact rounded d
    · unfold normalized Crosses
      simp only [if_neg type]
      cases pdef.decimals.int? with
      | none => exact ⟨_, rfl, Declared.admits_iff_not_between inRange rfl type⟩
      | some d => exact rounded d

theorem ParamDef.admitNumber_cases (py : Python) {pdef : ParamDef} (subject : Text) (v : Arg) (numeric : pdef.type ∈ numericTypes) :
    (pdef.Raises py v ∧ ∃ e, pdef.admitNumber py subject v = .error (.raised e)) ∨
      (¬pdef.Raises py v ∧ pdef.Refuses py v ∧ ∃ m, pdef.admitNumber py subject v = .error (.refused m)) ∨
      (¬pdef.Refuses py v ∧ ¬pdef.Raises py v ∧ ∃ w y, pdef.admitNumber py subject v = .ok w ∧ w.passed py = some y ∧
        (pdef.Admits y ↔ ¬pdef.Breaks py v)) := by
  unfold Raises Refuses admitNumber
  simp only [numeric, true_and]
  rcases asNumber_cases py pdef.type v with ⟨huge, e, raised⟩ | ⟨near, o, reads⟩
  · exact Or.inl ⟨Or.inl huge, e, by rw [raised]; rfl⟩
  · rw [reads]
    cases o with
    | none =>
      rcases pdef.notANumber_cases py subject v with ⟨unwritable, e, raised⟩ | ⟨writable, m, refused⟩
      · exact Or.inl ⟨Or.inr (Or.inl ⟨rfl, unwritable⟩), e, raised⟩
      · refine Or.inr (Or.inl ⟨?_, Or.inl rfl, m, refused⟩)
        rintro (huge | ⟨_, unwritable⟩ | ⟨x, some, _⟩)
        · exact near huge
        · exact unwritable writable
        · exact absurd some nofun
    | some x =>
      have only {P : FiniteDouble → Prop} : (∃ x', (Except.ok (some x) : Except Failure _) = .ok (some x') ∧ P x') ↔ P x := by
        simp
      have none : ¬(Except.ok (some x) : Except Failure _) = .ok none := nofun
      simp only [only, none, near, false_and, false_or]
      rcases pdef.checkRange_cases py subject (.float x.double) x.number (pdef.normalized v x) (fun _ => ⟨_, rfl⟩) with
        ⟨unwritable, e, raised⟩ | ⟨out, writable, m, refused⟩ | ⟨inRange, passed⟩
      · exact Or.inl ⟨unwritable, e, raised⟩
      · exact Or.inr (Or.inl ⟨writable, out, m, refused⟩)
      · obtain ⟨y, number, admits⟩ := passed_normalized numeric reads inRange
        have writable : ¬pdef.Unwritable x.number := by
          rintro (⟨low, _⟩ | ⟨_, high, _⟩)
          · exact inRange (Or.inl low)
          · exact inRange (Or.inr high)
        exact Or.inr (Or.inr ⟨inRange, writable, _, y, passed, number, admits⟩)

theorem ParamDef.admitText_cases (py : Python) {pdef : ParamDef} (subject : Text) (v : Arg) (other : pdef.type ∉ numericTypes) :
    ¬pdef.Raises py v ∧ ((pdef.Refuses py v ∧ ∃ m, pdef.admitText py subject v = .error (.refused m)) ∨
      (¬pdef.Refuses py v ∧ ∃ w, pdef.admitText py subject v = .ok w)) := by
  refine ⟨fun raises => other raises.1, ?_⟩
  unfold Refuses admitText
  rw [if_neg other]
  cases v with
  | str t =>
    cases declared : pdef.pattern with
    | none => exact Or.inr ⟨by simp, _, rfl⟩
    | some pattern =>
      simp only
      by_cases fits : pattern.fullmatch (pdef.wireValue t) = true
      · rw [if_pos fits]
        refine Or.inr ⟨?_, _, rfl⟩
        rintro ⟨t', pattern', same, same', unfit⟩
        cases same
        cases same'
        rw [fits] at unfit
        exact absurd unfit nofun
      · rw [if_neg fits]
        exact Or.inl ⟨⟨t, pattern, rfl, rfl, Bool.eq_false_of_not_eq_true fits⟩, _, rfl⟩
  | null => exact Or.inr ⟨by simp, _, rfl⟩
  | bool b => exact Or.inr ⟨by simp, _, rfl⟩
  | int n => exact Or.inr ⟨by simp, _, rfl⟩
  | float x => exact Or.inr ⟨by simp, _, rfl⟩
  | container written => exact Or.inr ⟨by simp, _, rfl⟩

/-! ### The loop over the params -/

section

variable (py : Python) (command : Text) {params out : Params} {p : Text × ParamDef}

theorem Params.good_congr {out' : Params} (same : out.lookup p.1 = out'.lookup p.1) : out.Good py p ↔ out'.Good py p := by
  unfold Params.Good
  rw [same]

theorem Python.float_nil : py.float [] = none := rfl

/-- What one round of the loop does. -/
theorem normalizeParam_cases :
    (out.Raises py p ∧ ∃ e, normalizeParam py command out p = .error (.raised e)) ∨
      (¬out.Raises py p ∧ out.Refuses py p ∧ ∃ m, normalizeParam py command out p = .error (.refused m)) ∨
      (¬out.Raises py p ∧ ¬out.Refuses py p ∧ ∃ out', normalizeParam py command out p = .ok out' ∧
        (∀ k, k ≠ p.1 → out'.lookup k = out.lookup k) ∧ (out'.Good py p ↔ ¬out.Breaks py p)) := by
  have nothing (none : p.2.given (out.lookup p.1) = none) :
      ¬out.Raises py p ∧ ¬out.Refuses py p ∧ ¬out.Breaks py p := by
    unfold Params.Raises Params.Refuses Params.Breaks
    rw [none]
    simp
  have one {v : Arg} (given : p.2.given (out.lookup p.1) = some v) :
      (out.Raises py p ↔ p.2.Raises py v) ∧ (out.Refuses py p ↔ p.2.Refuses py v) ∧
        (out.Breaks py p ↔ p.2.Breaks py v) := by
    unfold Params.Raises Params.Refuses Params.Breaks
    rw [given]
    simp
  unfold normalizeParam
  cases found : out.lookup p.1 with
  | none =>
    have none := nothing (by rw [found]; rfl)
    refine Or.inr (Or.inr ⟨none.1, none.2.1, out, rfl, fun _ _ => rfl, iff_of_true (fun _ v x here => ?_) none.2.2⟩)
    rw [found] at here
    exact absurd here nofun
  | some value =>
    by_cases null : value = .null
    · subst null
      have none := nothing (by rw [found]; rfl)
      refine Or.inr (Or.inr ⟨none.1, none.2.1, out, rfl, fun _ _ => rfl, iff_of_true (fun _ v x here number => ?_) none.2.2⟩)
      rw [found] at here
      cases here
      exact absurd number nofun
    · have kept : (some value).filter (· ≠ Arg.null) = some value := by simp [null]
      by_cases blank : p.2.trimmed value = .str []
      · have none := nothing (by rw [found, ParamDef.given, kept, Option.bind_some, if_pos blank])
        refine Or.inr (Or.inr ⟨none.1, none.2.1, Dict.set out p.1 (p.2.trimmed value), by simp [blank], fun k other =>
          Dict.lookup_set_of_ne other _ _, iff_of_true (fun _ v x here number => ?_) none.2.2⟩)
        rw [Dict.lookup_set_self, blank] at here
        cases here
        rw [Arg.passed, Python.float_nil] at number
        exact absurd number nofun
      · have given : p.2.given (out.lookup p.1) = some (p.2.trimmed value) := by
          rw [found, ParamDef.given, kept, Option.bind_some, if_neg blank]
        obtain ⟨raises, refuses, breaks⟩ := one given
        rw [raises, refuses, breaks]
        simp only [blank, if_false]
        have others (w : Arg) (k : Text) (other : k ≠ p.1) : (Dict.set out p.1 w).lookup k = out.lookup k :=
          Dict.lookup_set_of_ne other _ _
        by_cases numeric : p.2.type ∈ numericTypes
        · simp only [numeric, if_true]
          rcases p.2.admitNumber_cases py (quote command ++ text ": " ++ quote p.1) (p.2.trimmed value) numeric with
            ⟨raises, e, raised⟩ | ⟨fine, refuses, m, refused⟩ | ⟨accepts, fine, w, y, passed, number, admits⟩
          · exact Or.inl ⟨raises, e, by rw [raised]; rfl⟩
          · exact Or.inr (Or.inl ⟨fine, refuses, m, by rw [refused]; rfl⟩)
          · refine Or.inr (Or.inr ⟨fine, accepts, Dict.set out p.1 w, by rw [passed]; rfl, others w, ?_⟩)
            rw [← admits]
            constructor
            · exact fun good => good numeric w y (Dict.lookup_set_self ..) number
            · intro admitted _ v x here number'
              rw [Dict.lookup_set_self] at here
              cases here
              rw [number] at number'
              rwa [← Option.some.inj number']
        · simp only [numeric, if_false]
          have vacuous (w : Arg) : Params.Good py (Dict.set out p.1 w) p ↔ ¬p.2.Breaks py (p.2.trimmed value) :=
            iff_of_true (fun declared => absurd declared numeric) (fun breaks => numeric breaks.1.1)
          obtain ⟨fine, ⟨refuses, m, refused⟩ | ⟨accepts, w, passed⟩⟩ :=
            p.2.admitText_cases py (quote command ++ text ": " ++ quote p.1) (p.2.trimmed value) numeric
          · exact Or.inr (Or.inl ⟨fine, refuses, m, by rw [refused]; rfl⟩)
          · exact Or.inr (Or.inr ⟨fine, accepts, Dict.set out p.1 w, by rw [passed]; rfl, others w, vacuous w⟩)

/-- What the loop does. Each param is checked as it was given, since the rounds before it
write to other names. -/
theorem loop_cases {l : List (Text × ParamDef)} (distinct : (l.map Prod.fst).Nodup)
    (same : ∀ p ∈ l, out.lookup p.1 = params.lookup p.1) :
    (¬params.Fair py l ∧ ∃ e, l.foldlM (normalizeParam py command) out = .error (.raised e)) ∨
      (params.Fair py l ∧ (∃ p ∈ l, params.Refuses py p) ∧
        ∃ m, l.foldlM (normalizeParam py command) out = .error (.refused m)) ∨
      (params.Fair py l ∧ (∀ p ∈ l, ¬params.Refuses py p) ∧ ∃ out', l.foldlM (normalizeParam py command) out = .ok out' ∧
        (∀ k, k ∉ l.map Prod.fst → out'.lookup k = out.lookup k) ∧ ∀ p ∈ l, out'.Good py p ↔ ¬params.Breaks py p) := by
  induction l generalizing out with
  | nil => exact Or.inr (Or.inr ⟨trivial, by simp, out, rfl, by simp⟩)
  | cons p l ih =>
    have here := same p List.mem_cons_self
    obtain ⟨fresh, distinct⟩ := List.nodup_cons.mp distinct
    have raisesIff : out.Raises py p ↔ params.Raises py p := by rw [Params.Raises, here, Params.Raises]
    have refusesIff : out.Refuses py p ↔ params.Refuses py p := by rw [Params.Refuses, here, Params.Refuses]
    have breaksIff : out.Breaks py p ↔ params.Breaks py p := by rw [Params.Breaks, here, Params.Breaks]
    have step := @normalizeParam_cases py command out p
    rw [raisesIff, refusesIff, breaksIff] at step
    rw [List.foldlM_cons]
    rcases step with ⟨raises, e, raised⟩ | ⟨fine, refuses, m, refused⟩ | ⟨fine, accepts, out₁, passed, others, good⟩
    · exact Or.inl ⟨fun fair => fair.1 raises, e, by rw [raised]; rfl⟩
    · exact Or.inr (Or.inl ⟨⟨fine, Or.inl refuses⟩, ⟨p, List.mem_cons_self, refuses⟩, m, by rw [refused]; rfl⟩)
    · have later : ∀ q ∈ l, out₁.lookup q.1 = params.lookup q.1 := by
        intro q member
        have other : q.1 ≠ p.1 := fun clash => fresh (clash ▸ List.mem_map_of_mem member)
        rw [others q.1 other]
        exact same q (List.mem_cons_of_mem _ member)
      have fairIff : params.Fair py (p :: l) ↔ params.Fair py l := by
        rw [Params.Fair]
        simp [fine, accepts]
      rw [passed, fairIff]
      rcases ih distinct later with raised | ⟨fair, ⟨q, member, refuses⟩, refused⟩ | ⟨fair, all, out', passed', others', goods⟩
      · exact Or.inl raised
      · exact Or.inr (Or.inl ⟨fair, ⟨q, List.mem_cons_of_mem _ member, refuses⟩, refused⟩)
      · refine Or.inr (Or.inr ⟨fair, List.forall_mem_cons.mpr ⟨accepts, all⟩, out', passed', fun k absent => ?_,
          List.forall_mem_cons.mpr ⟨?_, goods⟩⟩)
        · obtain ⟨other, absent⟩ := not_or.mp (mt List.mem_cons.mpr absent)
          rw [others' k absent, others k other]
        · rw [← good]
          exact Params.good_congr py (others' p.1 fresh)

end

theorem command_gated (py : Python) (command : Text) {defs : List (Text × ParamDef)} (distinct : (defs.map Prod.fst).Nodup)
    (params : Params) :
    Gated (fun out => ∀ p ∈ defs, out.Good py p) (normalizeAndValidateCommandParams py command defs params) ↔
      params.Sound py defs := by
  unfold Params.Sound normalizeAndValidateCommandParams
  cases missing : missingRequiredParams defs params with
  | cons name rest => exact iff_of_true trivial (Or.inl (by simp))
  | nil =>
    -- a call without params goes through the loop unchanged
    have empty (l : List (Text × ParamDef)) : l.foldlM (normalizeParam py command) [] = .ok [] := by
      induction l with
      | nil => rfl
      | cons p l ih => exact ih
    have looped : (if withDeclaredDefaults defs params = [] then .ok (withDeclaredDefaults defs params)
        else defs.foldlM (normalizeParam py command) (withDeclaredDefaults defs params)) =
        defs.foldlM (normalizeParam py command) (withDeclaredDefaults defs params) := by
      split
      · rename_i none
        rw [none, empty]
      · rfl
    simp only [looped, ne_eq, not_true_eq_false, false_or]
    rcases loop_cases py command distinct (fun _ _ => rfl : ∀ p ∈ defs, _ = (withDeclaredDefaults defs params).lookup p.1) with
      ⟨unfair, e, raised⟩ | ⟨fair, ⟨p, member, refuses⟩, m, refused⟩ | ⟨fair, accepts, out', passed, _, good⟩
    · rw [raised]
      exact iff_of_false id fun sound => unfair sound.1
    · rw [refused]
      exact iff_of_true trivial ⟨fair, fun accepts => absurd refuses (accepts p member)⟩
    · rw [passed]
      constructor
      · exact fun gated => ⟨fair, fun _ p member => (good p member).mp (gated p member)⟩
      · exact fun sound p member => (good p member).mpr (sound.2 accepts p member)

/-! ### The setting gate -/

namespace SettingDef

variable {py : Python} {sdef : SettingDef} {subject : Text} {num : Arg} {x : Number} {passed : Arg} {good : Arg → Prop}

theorem gated_checkRange (written : sdef.OutOfRange x → ∃ t, num.general py = .ok t) :
    Gated good (sdef.checkRange py subject num x passed) ↔ ¬sdef.Unwritable x ∧ (sdef.OutOfRange x ∨ good passed) := by
  rcases sdef.checkRange_cases py subject num x passed written with
    ⟨unwritable, e, raised⟩ | ⟨out, writable, m, refused⟩ | ⟨inRange, same⟩
  · rw [raised]
    exact iff_of_false id fun sound => sound.1 unwritable
  · rw [refused]
    exact iff_of_true trivial ⟨writable, Or.inl out⟩
  · have writable : ¬sdef.Unwritable x := by
      rintro (⟨low, _⟩ | ⟨_, high, _⟩)
      · exact inRange (Or.inl low)
      · exact inRange (Or.inr high)
    rw [same]
    simp [Gated, writable, inRange]

theorem raises_of_general {e : Exc} (out : sdef.OutOfRange x) (raises : num.general py = .error (.raised e)) :
    ¬Gated good (sdef.checkRange py subject num x passed) := by
  unfold Declared.checkRange
  cases low : sdef.below x with
  | true =>
    rw [if_pos rfl]
    rcases Arg.writable_str_cases py sdef.min with ⟨_, bound, str⟩ | ⟨_, str⟩
    · rw [str, raises]
      exact id
    · rw [str]
      exact id
  | false =>
    have high : sdef.above x = true := out.resolve_left (by rw [low]; exact Bool.false_ne_true)
    rw [if_neg Bool.false_ne_true, if_pos high]
    rcases Arg.writable_str_cases py sdef.max with ⟨_, bound, str⟩ | ⟨_, str⟩
    · rw [str, raises]
      exact id
    · rw [str]
      exact id

theorem gated_notANumber (value : Arg) : Gated good (sdef.notANumber py subject value) ↔ value.Writable := by
  rcases sdef.notANumber_cases py subject value with ⟨unwritable, e, raised⟩ | ⟨writable, m, refused⟩
  · rw [raised]
    exact iff_of_false id unwritable
  · rw [refused]
    exact iff_of_true trivial writable

theorem not_huge_of_integer {x : Double} {n : Int} (whole : x.number.integer = some n) :
    x.number = .ofRat n ∧ ¬(Arg.int n).Huge := by
  obtain ⟨q, finite, den⟩ := Option.bind_eq_some_iff.mp whole
  have number : x.number = .ofRat q := by
    obtain ⟨y, same⟩ := Double.finite_isSome finite
    have value := Double.finite_eq_some same
    rw [value] at finite ⊢
    rw [← Option.some.inj finite]
    rfl
  split at den
  · rename_i one
    have int : (q.num : ℚ) = q := (Rat.den_eq_one_iff q).mp one
    rw [Option.some.inj den] at int
    rw [number, ← int]
    refine ⟨rfl, ?_⟩
    have exact := x.exact
    rw [number, ← int] at exact
    have near : Double.nearest n = (((n : ℚ) : WithTop ℚ) : Double.Extended) := Option.some.inj exact
    have huge : (Arg.int n).Huge ↔ Double.nearest n = ⊤ ∨ Double.nearest n = ⊥ := Iff.rfl
    rw [huge, near]
    exact not_or.mpr ⟨nofun, nofun⟩
  · exact absurd den nofun

theorem general_int {n : Int} (near : ¬(Arg.int n).Huge) : ∃ t, (Arg.int n).general py = .ok t := by
  rcases Arg.floatOfInt_cases n with ⟨huge, _⟩ | ⟨_, x, float⟩
  · exact absurd huge near
  · exact ⟨_, by rw [Arg.general, float]; rfl⟩

theorem integer_ofRat (n : Int) : (Number.ofRat n).integer = some n := by
  have int : (Number.ofRat n).finite = some (n : ℚ) := rfl
  rw [Number.integer, int, Option.bind_some, if_pos (Rat.den_intCast n), Rat.num_intCast]

end SettingDef

/-- What a setting passes on is as declared. -/
def SettingDef.Good (py : Python) (sdef : SettingDef) (w : Arg) : Prop :=
  ∀ x, w.passed py = some x → sdef.Admits x

namespace SettingDef

variable {py : Python} {sdef : SettingDef} {subject : Text}

theorem good_iff {w : Arg} {x : Number} (passed : w.passed py = some x) : sdef.Good py w ↔ sdef.Admits x := by
  unfold Good
  rw [passed]
  simp

theorem gated_int {n : Int} (near : (Arg.int n).Huge → ¬sdef.OutOfRange (.ofRat n)) :
    Gated (sdef.Good py) (sdef.checkRange py subject (.int n) (.ofRat n) (.int n)) ↔ ¬sdef.Unwritable (.ofRat n) := by
  rw [gated_checkRange fun out => general_int fun huge => near huge out]
  rw [@good_iff py sdef (.int n) (.ofRat n) rfl]
  have inside : sdef.OutOfRange (.ofRat n) ∨ sdef.Admits (.ofRat n) := by
    by_cases out : sdef.OutOfRange (.ofRat n)
    · exact Or.inl out
    · exact Or.inr (Declared.admits_of_inRange out rfl fun _ => by rw [integer_ofRat]; rfl)
  simp [inside]

/-- A setting given as a float, or as the text of one. -/
theorem gated_float {value : Arg} (writable : value.Writable) (x : Double) :
    Gated (sdef.Good py) (match if sdef.type = text "integer" then x.number.integer.map Arg.int else some (.float x) with
      | none => sdef.notANumber py subject value
      | some num => sdef.checkRange py subject num (num.number.getD none) num) ↔ sdef.SoundNumber x.number := by
  unfold SoundNumber
  by_cases type : sdef.type = text "integer"
  · rw [if_pos type, if_pos type]
    cases whole : x.number.integer with
    | none => exact iff_of_true ((gated_notANumber value).mpr writable) nofun
    | some n =>
      obtain ⟨number, near⟩ := not_huge_of_integer whole
      have gated := @gated_int py sdef subject n (fun huge => absurd huge near)
      rw [number]
      simp only [Option.isSome_some, forall_const]
      exact gated
  · rw [if_neg type, if_neg type]
    have gated := @gated_checkRange py sdef subject (.float x) x.number (.float x) (sdef.Good py) (fun _ => ⟨_, rfl⟩)
    rw [@good_iff py sdef (.float x) x.number rfl] at gated
    refine gated.trans (and_congr_right fun _ => ?_)
    by_cases out : sdef.OutOfRange x.number
    · simp [out]
    · simp only [out, false_or, or_false]
      exact ⟨fun admits => admits.1, fun finite => Declared.admits_of_inRange out finite fun integer => absurd integer type⟩

theorem coerced_float {value : Arg} {x : Double} (reads : (∃ t, value = .str t ∧ py.float t.strip = some x) ∨ value = .float x) :
    sdef.coerced py value =
      .ok (if sdef.type = text "integer" then x.number.integer.map Arg.int else some (.float x)) := by
  rcases reads with ⟨t, rfl, float⟩ | rfl
  · unfold coerced
    simp only [float, Option.map_some]
    split <;> rfl
  · unfold coerced
    simp only
    split <;> rfl

theorem coerced_none {value : Arg} (no : (∃ b, value = .bool b) ∨ (∃ w, value = .container w) ∨
    ∃ t, value = .str t ∧ py.float t.strip = none) : sdef.coerced py value = .ok none := by
  unfold coerced
  by_cases type : sdef.type = text "integer"
  · rcases no with ⟨b, rfl⟩ | ⟨w, rfl⟩ | ⟨t, rfl, float⟩
    · simp only [if_pos type]
    · simp only [if_pos type]
    · simp only [if_pos type, float, Option.map_none]
  · rcases no with ⟨b, rfl⟩ | ⟨w, rfl⟩ | ⟨t, rfl, float⟩
    · simp only [if_neg type]
    · simp only [if_neg type]
    · simp only [if_neg type, float, Option.map_none]

end SettingDef

theorem setting_gated (py : Python) (key : Text) (sdef : SettingDef) (numeric : sdef.type ∈ numericTypes) (value : Arg) :
    Gated (sdef.Good py) (validateDeviceSettingValue py key sdef value) ↔ sdef.Sound py value := by
  have other : sdef.type ≠ text "boolean" := by
    intro boolean
    rw [boolean] at numeric
    exact absurd numeric (by decide)
  unfold validateDeviceSettingValue
  by_cases null : value = .null
  · subst null
    exact iff_of_true trivial trivial
  · rw [if_neg null, if_neg other, if_pos numeric, SettingDef.validateNumber]
    cases value with
    | null => exact absurd rfl null
    | bool b =>
      rw [SettingDef.coerced_none (Or.inl ⟨b, rfl⟩)]
      exact @SettingDef.gated_notANumber py _ _ _ (.bool b)
    | container written =>
      rw [SettingDef.coerced_none (Or.inr (Or.inl ⟨written, rfl⟩))]
      exact @SettingDef.gated_notANumber py _ _ _ (.container written)
    | float x =>
      rw [SettingDef.coerced_float (Or.inr rfl)]
      exact @SettingDef.gated_float py sdef (quote key) (.float x) trivial x
    | str t =>
      have sound : sdef.Sound py (.str t) ↔ ∀ x ∈ py.float t.strip, sdef.SoundNumber x.number := Iff.rfl
      rw [sound]
      cases float : py.float t.strip with
      | none =>
        rw [SettingDef.coerced_none (Or.inr (Or.inr ⟨t, rfl, float⟩))]
        exact iff_of_true ((SettingDef.gated_notANumber (.str t)).mpr trivial) nofun
      | some x =>
        rw [SettingDef.coerced_float (Or.inl ⟨t, rfl, float⟩)]
        have gated := @SettingDef.gated_float py sdef (quote key) (.str t) trivial x
        simp only [Option.mem_some_iff, forall_eq']
        exact gated
    | int n =>
      have sound : sdef.Sound py (.int n) ↔ ((Arg.int n).Huge → sdef.type ≠ text "integer" ∧ ¬sdef.OutOfRange (.ofRat n)) ∧
          ¬sdef.Unwritable (.ofRat n) := Iff.rfl
      rw [sound]
      by_cases type : sdef.type = text "integer"
      · rcases Arg.floatOfInt_cases n with ⟨huge, raised⟩ | ⟨near, x, float⟩
        · have coerced : sdef.coerced py (.int n) = .error (.raised .overflowError) := by
            rw [SettingDef.coerced, if_pos type, raised]
            rfl
          rw [coerced]
          exact iff_of_false id fun sound => (sound.1 huge).1 type
        · have coerced : sdef.coerced py (.int n) = .ok (some (.int n)) := by
            rw [SettingDef.coerced, if_pos type, float]
            rfl
          rw [coerced]
          have gated := @SettingDef.gated_int py sdef (quote key) n (fun huge => absurd huge near)
          refine gated.trans ⟨fun writable => ⟨fun huge => absurd huge near, writable⟩, fun sound => sound.2⟩
      · have coerced : sdef.coerced py (.int n) = .ok (some (.int n)) := by
          rw [SettingDef.coerced, if_neg type]
        rw [coerced]
        by_cases beyond : (Arg.int n).Huge ∧ sdef.OutOfRange (.ofRat n)
        · obtain ⟨huge, out⟩ := beyond
          have raises : (Arg.int n).general py = .error (.raised .overflowError) := by
            rcases Arg.floatOfInt_cases n with ⟨_, raised⟩ | ⟨near, _⟩
            · rw [Arg.general, raised]
              rfl
            · exact absurd huge near
          have gated := @SettingDef.raises_of_general py sdef (quote key) (.int n) (.ofRat n) (.int n) (sdef.Good py) _ out raises
          exact iff_of_false gated fun sound => (sound.1 huge).2 out
        · have inRange : (Arg.int n).Huge → ¬sdef.OutOfRange (.ofRat n) := fun huge out => beyond ⟨huge, out⟩
          have gated := @SettingDef.gated_int py sdef (quote key) n inRange
          refine gated.trans ⟨fun writable => ⟨fun huge => ⟨type, inRange huge⟩, writable⟩, fun sound => sound.2⟩

/-- The gates pass on only what was declared exactly where their conditions hold. -/
theorem gates_exact (py : Python) :
    (∀ (command : Text) (defs : List (Text × ParamDef)) (params : Params), (defs.map Prod.fst).Nodup →
      (Gated (fun out => ∀ p ∈ defs, out.Good py p) (normalizeAndValidateCommandParams py command defs params) ↔
        params.Sound py defs)) ∧
    ∀ (key : Text) (sdef : SettingDef) (value : Arg), sdef.type ∈ numericTypes →
      (Gated (sdef.Good py) (validateDeviceSettingValue py key sdef value) ↔ sdef.Sound py value) :=
  ⟨fun command _ params distinct => command_gated py command distinct params,
    fun key sdef value numeric => setting_gated py key sdef numeric value⟩

/-- Python, as far as ASCII goes. -/
def Python.ascii : Python where
  decimal _ := none
  lower t := t.map FloatText.lowerAscii
  repr _ := []
  general _ := []
  quoted t := quote t

/-- A number of halves. -/
def half (n : Int) (small : |(n : ℚ) / 2| ≤ 2 ^ 52) : Double where
  number := .ofRat (n / 2)
  exact := by
    have multiple : (n : ℚ) / 2 = n * 2 ^ (-1 : ℤ) := by
      rw [zpow_neg_one]
      rfl
    have bound : |(n : ℚ) / 2| ≤ 2 ^ ((-1 : ℤ) + 53) := by exact_mod_cast small
    have far : (2 : ℚ) ^ 52 < 2 ^ 1024 := pow_lt_pow_right₀ one_lt_two (by omega)
    exact congrArg some (Double.nearest_of_multiple multiple (by omega) bound (small.trans_lt far))

/-- A level of a fader, sent without decimals. -/
def level : ParamDef where
  type := text "number"
  min := .int 0
  max := .float (half 23 (by norm_num))
  required := false
  trim := true
  decimals := .int 0
  default := .null
  values := []
  pattern := none

/-- A gain that is kept by the device. -/
def gain : SettingDef where
  type := text "number"
  min := .int 0
  max := .int 100
  values := []
  regex := none
  pattern := none

theorem gates_exact_level :
    (Gated (fun out => ∀ p ∈ [(text "level", level)], out.Good Python.ascii p)
        (normalizeAndValidateCommandParams Python.ascii (text "set") [(text "level", level)] [(text "level", .int 3)]) ↔
      Params.Sound Python.ascii [(text "level", .int 3)] [(text "level", level)]) ∧
    (Gated (gain.Good Python.ascii) (validateDeviceSettingValue Python.ascii (text "gain") gain (.str (text "12.5"))) ↔
      gain.Sound Python.ascii (.str (text "12.5"))) :=
  ⟨(gates_exact Python.ascii).1 (text "set") [(text "level", level)] [(text "level", .int 3)] (by decide),
    (gates_exact Python.ascii).2 (text "gain") gain (.str (text "12.5")) (by decide)⟩

/-- NaN passes both bounds of a setting, and a level of 11.5 goes out as 12 where 11.5 is
the most that may. -/
theorem undeclared_numbers_pass :
    ¬Gated (gain.Good Python.ascii) (validateDeviceSettingValue Python.ascii (text "gain") gain (.str (text "nan"))) ∧
    ¬Gated (fun out => ∀ p ∈ [(text "level", level)], out.Good Python.ascii p)
      (normalizeAndValidateCommandParams Python.ascii (text "set") [(text "level", level)]
        [(text "level", .float (half 23 (by norm_num)))]) := by
  constructor
  · have passed : validateDeviceSettingValue Python.ascii (text "gain") gain (.str (text "nan")) = .ok (.float (.of none)) := rfl
    rw [passed]
    intro good
    exact absurd (good none rfl).1 nofun
  · have passed : normalizeAndValidateCommandParams Python.ascii (text "set") [(text "level", level)]
        [(text "level", .float (half 23 (by norm_num)))] = .ok [(text "level", .int 12)] := by decide +kernel
    rw [passed]
    intro good
    have admitted := good (text "level", level) List.mem_cons_self (by decide) (.int 12) (.ofRat 12) rfl rfl
    exact absurd admitted.2.2.1 (by decide +kernel)

end OpenAvc.Driver
