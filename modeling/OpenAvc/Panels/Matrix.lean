import OpenAvc.Data.FloatText
import OpenAvc.Snmp.Ber

/-! The destinations of a matrix, and how a press finds its own. -/

namespace OpenAvc.Panels.Matrix

inductive Exc
  | overflowError
  | valueError
  | typeError
  deriving DecidableEq

/-- What a matrix uses of Python: which characters are digits, lower case, and how a
float or a container is written. -/
structure Python where
  decimal : Nat → Option (Fin 10)
  lower : Text → Text
  repr : Json → Except Exc Text

variable (py : Python)

/-- `str(value)` -/
def str : Json → Except Exc Text
  | .null => .ok (text "None")
  | .bool b => .ok (if b then text "True" else text "False")
  | .int n => if n.natAbs < 10 ^ Json.Scan.intLimit then .ok (intText n) else .error .valueError
  | .str t => .ok t
  | value => py.repr value

/-! ### The comparison -/

/-- A routed value in comparable form: a number that is not NaN, or a text. -/
inductive Routed
  | number (x : Double.Extended)
  | text (t : Text)
  deriving DecidableEq

/-- `\d` -/
def digit (c : Nat) : Bool :=
  isDigit (FloatText.toAscii py.decimal c)

/-- `_NUMERIC` -/
def isNumeric (t : Text) : Bool :=
  let (whole, rest) := (FloatText.signed t).2.span (digit py)
  match rest with
  | [] => whole ≠ []
  | 46 :: fraction => whole ≠ [] && fraction ≠ [] && fraction.all (digit py)
  | _ => false

/-- What `route_value` makes of a text. -/
def routeText (t : Text) : Except Exc (Option Routed) :=
  if t = [] ∨ t = text "0" then .ok none
  else if isNumeric py t then
    match FloatText.pyFloat py.decimal t with
    | some (some number) => .ok (some (.number number))
    | _ => .error .valueError
  else .ok (some (.text (py.lower t)))

/-- `route_value` -/
def routeValue : Json → Except Exc (Option Routed)
  | .null | .constant _ => .ok none
  | .int n =>
    match Double.nearest n with
    | ((_ : ℚ) : WithTop ℚ) => .ok (if n = 0 then none else some (.number (((n : ℚ) : WithTop ℚ) : Double.Extended)))
    -- `math.isfinite` raises on an `int` that is too large for a float
    | _ => .error .overflowError
  | .float d =>
    match Double.nearest d.value with
    | ((q : ℚ) : WithTop ℚ) => .ok (if q = 0 then none else some (.number ((q : WithTop ℚ) : Double.Extended)))
    | _ => .ok none
  | value => do routeText py (← str py value).strip

/-- `_route_digits` -/
def routeDigits (t : Text) : Except Exc (Option Double.Extended) :=
  match (t.splitOnP fun c => !digit py c).filter (· ≠ []) with
  | [run] =>
    match Snmp.pyInt py.decimal run with
    | some n => .ok (some (((n : ℚ) : WithTop ℚ) : Double.Extended))
    | none => .error .valueError
  | _ => .ok none

def Routed.digits : Routed → Except Exc (Option Double.Extended)
  | .number x => .ok (some x)
  | .text t => routeDigits py t

/-- What `route_matches` says of two values that are routed. -/
def Routed.matches (x y : Routed) : Except Exc Bool :=
  if x = y then .ok true
  else do
    let dx ← x.digits py
    let dy ← y.digits py
    return dx ≠ none && dx = dy

/-- `route_matches` -/
def routeMatches (a b : Json) : Except Exc Bool := do
  match ← routeValue py a, ← routeValue py b with
  | some x, some y => x.matches py y
  | _, _ => return false

/-! ### Resolution -/

abbrev Entry := List (Text × Json)

inductive Axis
  | sources
  | destinations
  deriving DecidableEq

def Axis.key : Axis → Text
  | .sources => text "sources"
  | .destinations => text "destinations"

/-- `_DEFAULT_LABEL_PREFIX` -/
def Axis.caption : Axis → Text
  | .sources => text "In"
  | .destinations => text "Out"

def Entry.has (entry : Entry) (key : String) : Bool :=
  (entry.lookup (text key)).any Json.truthy

/-- The label of an entry that neither has one nor names where it comes from. -/
def labelled (entry : Entry) (axis : Axis) (position : Nat) : Entry :=
  if !Entry.has entry "label" && !Entry.has entry "label_key" then
    Dict.set entry (text "label") (.str (axis.caption ++ [32] ++ intText (position + 1)))
  else entry

/-- `_normalise_entry` -/
def normaliseEntry (raw : Json) (axis : Axis) (position : Nat) : Option Entry := do
  let entry ← match raw with
    | .obj fields => some fields
    | .str _ | .int _ | .float _ | .constant _ => some [(text "value", raw)]
    | _ => none
  if (entry.lookup (text "value")).isNone then none
  else some (labelled entry axis position)

/-- `pattern.replace("*", value, 1)` -/
def replaceStar (value : Text) : Text → Text
  | [] => []
  | 42 :: rest => value ++ rest
  | c :: rest => c :: replaceStar value rest

/-- `_substitute` -/
def substitute (pattern : Option Json) (value : Json) : Except Exc (Option Text) :=
  match pattern with
  | some (.str (c :: pattern)) => do return some (replaceStar (← str py value) (c :: pattern))
  | _ => .ok none

/-- `int(source.get("count") or 0)`, zero where it raises what is caught. -/
def countOf : Option Json → Except Exc Int
  | some (.bool true) => .ok 1
  | some (.int n) => .ok n
  | some (.float d) =>
    match Double.nearest d.value with
    | ((q : ℚ) : WithTop ℚ) => .ok (q.num.tdiv q.den)
    | _ => .error .overflowError
  | some (.constant name) => if name = "NaN" then .ok 0 else .error .overflowError
  | some (.str t) => .ok ((Snmp.pyInt py.decimal t).getD 0)
  | _ => .ok 0

/-- What `value or ()` goes through. -/
def iterate (value : Option Json) : Except Exc (List Json) :=
  if !value.any Json.truthy then .ok []
  else match value with
    | some (.arr items) => .ok items
    | some (.obj fields) => .ok (fields.map fun u => .str u.1)
    | some (.str t) => .ok (t.map fun c => .str [c])
    | _ => .error .typeError

/-- `value` where it is a mapping, and else an empty one. -/
def mapping : Option Json → Entry
  | some (.obj fields) => fields
  | _ => []

/-- `entry.update(override)` -/
def update (entry override : Entry) : Entry :=
  override.foldl (fun entry u => Dict.set entry u.1 u.2) entry

/-- One round of the loop of `_generate`. -/
def generateEntry (source : Entry) (labels : List Json) (excluded : List Text) (overrides : Entry) (axis : Axis)
    (value : Json) (position : Nat) : Except Exc (Option Entry) := do
  let key ← str py value
  if key ∈ excluded then return none
  let mut entry : Entry := [(text "value", value)]
  match labels[position]? with
  | some label => if label.truthy then entry := Dict.set entry (text "label") (.str (← str py label))
  | none => pure ()
  for pattern in [text "label_key", text "route_key", text "audio_route_key", text "lock_key"] do
    match ← substitute py (source.lookup pattern) value with
    | some (c :: resolved) => entry := Dict.set entry pattern (.str (c :: resolved))
    | _ => pure ()
  match source.lookup (text "route") with
  | some (.arr actions) => entry := Dict.set entry (text "route") (.arr actions)
  | _ => pure ()
  return some (labelled (update entry (mapping (overrides.lookup key))) axis position)

/-- `_generate` -/
def generate (spec : Entry) (axis : Axis) : Except Exc (List Entry) := do
  let source := mapping (spec.lookup (text "from"))
  let values ← match source.lookup (text "values") with
    | some (.arr values) => pure values
    | _ => do
      let count ← countOf py (source.lookup (text "count"))
      -- `list` raises on a range that is too long for an index
      if 2 ^ 63 ≤ count then throw .overflowError
      pure ((List.range count.toNat).map fun (n : Nat) => Json.int (n + 1))
  let labels := match source.lookup (text "labels") with
    | some (.arr labels) => labels
    | _ => []
  let excluded ← (← iterate (spec.lookup (text "exclude"))).mapM (str py)
  let overrides := mapping (spec.lookup (text "overrides"))
  let entries ← values.zipIdx.mapM fun u => generateEntry py source labels excluded overrides axis u.1 u.2
  return entries.reduceOption

/-- `resolve_axis` -/
def resolveAxis (config : Json) (axis : Axis) : Except Exc (List Entry) :=
  match config.get? axis.key with
  | some (.obj spec) => generate py spec axis
  | some (.arr spec) => .ok (spec.zipIdx.filterMap fun u => normaliseEntry u.1 axis u.2)
  | _ => .ok []

def Entry.value (entry : Entry) : Json :=
  (entry.lookup (text "value")).getD .null

/-- `destination_for` -/
def destinationFor (config value : Json) : Except Exc (Option Entry) := do
  (← resolveAxis py config .destinations).findM? fun entry => routeMatches py (Entry.value entry) value


variable {py}

/-! ### A press finds its own row -/

theorem mem_of_findM? {α ε : Type} {p : α → Except ε Bool} {l : List α} {a : α} (found : l.findM? p = .ok (some a)) : a ∈ l := by
  induction l with
  | nil => cases found
  | cons b l ih =>
    rw [List.findM?] at found
    cases tested : p b with
    | error e =>
      rw [tested] at found
      cases found
    | ok hit =>
      rw [tested] at found
      cases hit with
      | true =>
        cases found
        exact List.mem_cons_self
      | false => exact List.mem_cons_of_mem b (ih found)

/-- A search by a comparison that may raise finds what each query is for. -/
theorem findM?_own {α β ε : Type} {l : List α} (f : α → β → Except ε Bool) (query : α → β) (distinct : l.Nodup) :
    (∀ d ∈ l, (l.findM? fun e => f e (query d)) = .ok (some d)) ↔
      (∀ d ∈ l, f d (query d) = .ok true) ∧ l.Pairwise fun e d => f e (query d) = .ok false := by
  induction l with
  | nil => simp
  | cons a l ih =>
    obtain ⟨fresh, rest⟩ := List.nodup_cons.mp distinct
    have ih := ih rest
    have unfold' (d : α) : (a :: l).findM? (fun e => f e (query d)) =
        (f a (query d) >>= fun hit => if hit then pure (some a) else l.findM? fun e => f e (query d)) := by
      rw [List.findM?]
      congr 1
      funext hit
      cases hit <;> rfl
    constructor
    · intro finds
      have own : f a (query a) = .ok true := by
        have found := finds a List.mem_cons_self
        rw [unfold'] at found
        cases tested : f a (query a) with
        | error e =>
          rw [tested] at found
          cases found
        | ok hit =>
          cases hit with
          | true => rfl
          | false =>
            rw [tested] at found
            have later : (l.findM? fun e => f e (query a)) = .ok (some a) := found
            exact absurd (mem_of_findM? later) fresh
      have passed (d : α) (member : d ∈ l) : f a (query d) = .ok false := by
        have found := finds d (List.mem_cons_of_mem a member)
        rw [unfold'] at found
        cases tested : f a (query d) with
        | error e =>
          rw [tested] at found
          cases found
        | ok hit =>
          cases hit with
          | false => rfl
          | true =>
            rw [tested] at found
            have same : a = d := Option.some.inj (Except.ok.inj found)
            exact absurd (same ▸ member) fresh
      have later := ih.mp fun d member => by
        have found := finds d (List.mem_cons_of_mem a member)
        rw [unfold', passed d member] at found
        exact found
      exact ⟨List.forall_mem_cons.mpr ⟨own, later.1⟩, List.pairwise_cons.mpr ⟨passed, later.2⟩⟩
    · rintro ⟨own, apart⟩
      obtain ⟨here, later⟩ := List.forall_mem_cons.mp own
      obtain ⟨passed, apart⟩ := List.pairwise_cons.mp apart
      refine List.forall_mem_cons.mpr ⟨?_, fun d member => ?_⟩
      · rw [unfold', here]
        rfl
      · rw [unfold', passed d member]
        exact ih.mpr ⟨later, apart⟩ d member

theorem digits_of_matches {x y : Routed} (alike : x.matches py y = .ok true) (differ : x ≠ y) :
    ∃ n, x.digits py = .ok (some n) ∧ y.digits py = .ok (some n) := by
  unfold Routed.matches at alike
  rw [if_neg differ] at alike
  cases first : x.digits py with
  | error e =>
    rw [first] at alike
    cases alike
  | ok dx =>
    cases second : y.digits py with
    | error e =>
      rw [first, second] at alike
      cases alike
    | ok dy =>
      rw [first, second] at alike
      have equal : (dx ≠ none && dx = dy) = true := Except.ok.inj alike
      cases dx with
      | none => simp at equal
      | some n => exact ⟨n, rfl, by simpa [eq_comm] using equal⟩

/-- What names one port is alike to a third value or not, whichever of them is asked. -/
theorem matches_congr {x y : Routed} (alike : x.matches py y = .ok true) (z : Routed) : z.matches py x = z.matches py y := by
  by_cases differ : x = y
  · rw [differ]
  · obtain ⟨n, first, second⟩ := digits_of_matches alike differ
    have other {u v : Routed} (digits : v.digits py = .ok (some n)) (digits' : u.digits py = .ok (some n)) (ne : u ≠ v) :
        u.matches py v = .ok true := by
      rw [Routed.matches, if_neg ne, digits, digits']
      simp [bind, Except.bind, pure, Except.pure]
    by_cases same : z = x
    · rw [same, alike]
      exact if_pos rfl
    · by_cases same' : z = y
      · rw [same', other first second (Ne.symm differ)]
        exact (if_pos rfl).symm
      · rw [Routed.matches, if_neg same, Routed.matches, if_neg same', first, second]

theorem routeMatches_cases {a b : Json} (alike : routeMatches py a b = .ok true) :
    ∃ x y, routeValue py a = .ok (some x) ∧ routeValue py b = .ok (some y) ∧ x.matches py y = .ok true := by
  unfold routeMatches at alike
  cases first : routeValue py a with
  | error e =>
    rw [first] at alike
    cases alike
  | ok x =>
    cases second : routeValue py b with
    | error e =>
      rw [first, second] at alike
      cases alike
    | ok y =>
      rw [first, second] at alike
      cases x with
      | none => cases alike
      | some x =>
        cases y with
        | none => cases alike
        | some y => exact ⟨x, y, rfl, rfl, alike⟩

theorem routeMatches_of {a b : Json} {x y : Routed} (first : routeValue py a = .ok (some x))
    (second : routeValue py b = .ok (some y)) : routeMatches py a b = x.matches py y := by
  rw [routeMatches, first, second]
  rfl

theorem routeMatches_self {a b : Json} (alike : routeMatches py a b = .ok true) : routeMatches py a a = .ok true := by
  obtain ⟨x, y, first, second, _⟩ := routeMatches_cases alike
  rw [routeMatches_of first first]
  exact if_pos rfl

theorem routeMatches_congr {a b : Json} (alike : routeMatches py a b = .ok true) (c : Json) :
    routeMatches py c a = routeMatches py c b := by
  obtain ⟨x, y, first, second, same⟩ := routeMatches_cases alike
  cases third : routeValue py c with
  | error e =>
    rw [routeMatches, routeMatches, third]
    rfl
  | ok z =>
    cases z with
    | none =>
      rw [routeMatches, routeMatches, third, first, second]
      rfl
    | some z => rw [routeMatches_of third first, routeMatches_of third second, matches_congr same]

/-- The resolved destinations carry different values as text. -/
def DistinctTexts (py : Python) (entries : List Entry) : Prop :=
  ∃ texts : Entry → Text, (∀ d ∈ entries, str py (Entry.value d) = .ok (texts d)) ∧ (entries.map texts).Nodup

/-- A press finds its own row by the value and by its text. -/
def RunsOwnRow (py : Python) (config : Json) (entries : List Entry) : Prop :=
  ∀ d ∈ entries, destinationFor py config (Entry.value d) = .ok (some d) ∧
    ∀ t, str py (Entry.value d) = .ok t → destinationFor py config (.str t) = .ok (some d)

/-- Each value is taken for its own text, and none for a later one. -/
structure Apart (py : Python) (entries : List Entry) : Prop where
  own : ∀ d ∈ entries, ∀ t, str py (Entry.value d) = .ok t → routeMatches py (Entry.value d) (.str t) = .ok true
  others : entries.Pairwise fun e d => routeMatches py (Entry.value e) (Entry.value d) = .ok false

/-- When a press runs its own row. -/
theorem press_runs_own_row (py : Python) (config : Json) (entries : List Entry)
    (resolved : resolveAxis py config .destinations = .ok entries) (distinct : DistinctTexts py entries) :
    RunsOwnRow py config entries ↔ Apart py entries := by
  obtain ⟨texts, written, nodup⟩ := distinct
  have entriesNodup : entries.Nodup := List.Nodup.of_map texts nodup
  have found (value : Json) : destinationFor py config value =
      entries.findM? fun e => routeMatches py (Entry.value e) value := by
    rw [destinationFor, resolved]
    rfl
  have byValue := findM?_own (fun e value => routeMatches py (Entry.value e) value) Entry.value entriesNodup
  have byText := findM?_own (fun e value => routeMatches py (Entry.value e) value) (fun d => .str (texts d)) entriesNodup
  constructor
  · intro runs
    have value := byValue.mp fun d member => (found (Entry.value d)) ▸ (runs d member).1
    have text := byText.mp fun d member => (found (.str (texts d))) ▸ (runs d member).2 _ (written d member)
    refine ⟨fun d member t same => ?_, value.2⟩
    rw [written d member] at same
    cases same
    exact text.1 d member
  · intro apart
    have own (d : Entry) (member : d ∈ entries) := apart.own d member _ (written d member)
    have value := byValue.mpr ⟨fun d member => routeMatches_self (own d member), apart.others⟩
    have text := byText.mpr ⟨own, apart.others.imp_of_mem fun {e d} _ member differ => by
      rw [← routeMatches_congr (own d member)]
      exact differ⟩
    intro d member
    refine ⟨(found _).trans (value d member), fun t same => ?_⟩
    rw [written d member] at same
    cases same
    exact (found _).trans (text d member)

/-- What Python does with texts of ASCII. -/
def ascii : Python where
  decimal _ := none
  lower t := t.map FloatText.lowerAscii
  repr _ := .error .typeError

def rows (values : List Json) : Json :=
  .obj [(text "destinations", .arr values)]

/-- The entry of a bare text. -/
def row (value label : String) : Entry :=
  [(text "value", .str (text value)), (text "label", .str (text label))]

theorem press_runs_own_row_rooms :
    RunsOwnRow ascii (rows [.str (text "Stage"), .str (text "Booth")]) [row "Stage" "Out 1", row "Booth" "Out 2"] ↔
      Apart ascii [row "Stage" "Out 1", row "Booth" "Out 2"] :=
  press_runs_own_row ascii (rows [.str (text "Stage"), .str (text "Booth")]) [row "Stage" "Out 1", row "Booth" "Out 2"]
    (by rfl) ⟨fun d => ((Entry.value d).asStr).getD [], by simp [row]; decide, by decide⟩

/-- Two rooms with one number: a press on the second runs the row of the first. A row of
the value `"0"` is never found. -/
theorem press_runs_other_row :
    (resolveAxis ascii (rows [.str (text "Stage 1"), .str (text "Booth 1")]) .destinations =
        .ok [row "Stage 1" "Out 1", row "Booth 1" "Out 2"] ∧
      DistinctTexts ascii [row "Stage 1" "Out 1", row "Booth 1" "Out 2"] ∧
      ¬RunsOwnRow ascii (rows [.str (text "Stage 1"), .str (text "Booth 1")])
        [row "Stage 1" "Out 1", row "Booth 1" "Out 2"]) ∧
    destinationFor ascii (rows [.str (text "0")]) (.str (text "0")) = .ok none := by
  refine ⟨⟨by rfl, ⟨fun d => ((Entry.value d).asStr).getD [], by simp [row]; decide, by decide⟩, fun runs => ?_⟩, by rfl⟩
  have pressed := (runs (row "Booth 1" "Out 2") (List.mem_cons_of_mem _ List.mem_cons_self)).1
  have found : destinationFor ascii (rows [.str (text "Stage 1"), .str (text "Booth 1")])
      (Entry.value (row "Booth 1" "Out 2")) = .ok (some (row "Stage 1" "Out 1")) := by rfl
  rw [found] at pressed
  have label := congrArg (fun e : Entry => (e.lookup (text "label")).bind Json.asStr) (Option.some.inj (Except.ok.inj pressed))
  exact absurd label (by decide)

end OpenAvc.Panels.Matrix
