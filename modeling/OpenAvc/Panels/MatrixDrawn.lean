import OpenAvc.Data.Attempted
import OpenAvc.Panels.MatrixCheck

/-! A matrix that passes the check, drawn as it is written. -/

namespace OpenAvc.Panels.Matrix

variable (py : Python)

/-- `resolve_matrix_config` -/
def resolveMatrixConfig (config : Json) : Except Exc Entry := do
  let resolved := mapping (some config)
  let sources ← resolveAxis py config .sources
  let destinations ← resolveAxis py config .destinations
  return Dict.set (Dict.set resolved (text "sources") (.arr (sources.map .obj))) (text "destinations")
    (.arr (destinations.map .obj))

/-! ### What is written -/

def upTo (n : Int) : List Json :=
  (List.range n.toNat).map fun (i : Nat) => Json.int (i + 1)

/-- The values a generator lists, or else those up to the count that it states as a
number or as text. -/
def listed (source : Entry) : List Json :=
  match source.lookup (text "values") with
  | some (.arr values) => values
  | _ =>
    match source.lookup (text "count") with
    | some (.int n) => upTo n
    | some (.str t) => upTo ((Snmp.pyInt py.decimal t).getD 0)
    | _ => []

def items : Option Json → List Json
  | some (.arr items) => items
  | _ => []

/-- Both have the same name: the text that each is written as. -/
def sameName (v e : Json) : Bool :=
  match str py v, str py e with
  | .ok t, .ok t' => t = t'
  | _, _ => false

/-- A generator does not leave out this value. -/
def keeps (spec : Entry) (v : Json) : Bool :=
  !(items (spec.lookup (text "exclude"))).any (sameName py v)

/-- The override of what is named so. -/
def overrideOf (spec : Entry) (name : Text) : Entry :=
  mapping ((mapping (spec.lookup (text "overrides"))).lookup name)

/-- An entry has what its override says. A label that is blank is none. -/
def Overridden (override entry : Entry) : Prop :=
  ∀ u ∈ override, ∃ v, (u.1, v) ∈ override ∧
    (entry.lookup u.1 = some v ∨ u.1 = text "label" ∧ v.truthy = false)

/-- The entries of a generator are those it lists, less the excluded ones. -/
structure DrawsGenerator (spec : Entry) (entries : List Entry) : Prop where
  values : entries.map Entry.value = (listed py (mapping (spec.lookup (text "from")))).filter (keeps py spec)
  scalar : ∀ entry ∈ entries, isScalar (Entry.value entry) = true
  overridden : ∀ entry ∈ entries, ∀ name, str py (Entry.value entry) = .ok name →
    Overridden (overrideOf spec name) entry

/-- The value of an entry as it is written: itself, or the one it holds. -/
def writtenValue : Json → Json
  | .obj fields => (fields.lookup (text "value")).getD .null
  | value => value

/-- The entries of one axis are those that are written. -/
def DrawsAxis (entries : List Entry) : Option Json → Prop
  | some (.arr spec) => entries.map Entry.value = spec.map writtenValue
  | some (.obj spec) => DrawsGenerator py spec entries
  | _ => entries = []

def Labelled (entry : Entry) : Prop :=
  Entry.has entry "label" = true ∨ Entry.has entry "label_key" = true

/-- A matrix is drawn as it is written. -/
def DrawnAsWritten (config : Json) : Prop :=
  ∃ resolved, resolveMatrixConfig py config = .ok resolved ∧ ∀ axis : Axis, ∃ entries : List Entry,
    resolved.lookup axis.key = some (.arr (entries.map .obj)) ∧ DrawsAxis py entries (config.get? axis.key) ∧
      ∀ entry ∈ entries, Labelled entry

/-! ### When it is drawn so -/

/-- `str(value)` does not raise. -/
def Written (v : Json) : Prop :=
  ∃ t, str py v = .ok t

/-- The count of a generator is a number that a list can have, and no `true` unless the one
entry that it draws is excluded. -/
def CountDrawn (spec : Entry) : Option Json → Prop
  | some (.int n) => n < 2 ^ 63
  | some (.str t) => (Snmp.pyInt py.decimal t).getD 0 < 2 ^ 63
  | some (.bool true) => keeps py spec (.int 1) = false
  | _ => True

/-- Every name that a generator compares can be written, what it does not exclude is a
number or a text, and its count, where it gives no values, is one. -/
structure Drawable (spec : Entry) : Prop where
  excluded : ∀ v ∈ items (spec.lookup (text "exclude")), Written py v
  named : ∀ v ∈ listed py (mapping (spec.lookup (text "from"))), Written py v
  scalar : ∀ v ∈ listed py (mapping (spec.lookup (text "from"))), keeps py spec v = true → isScalar v = true
  labels : ∀ (i : Nat) (v label : Json), (listed py (mapping (spec.lookup (text "from"))))[i]? = some v →
    keeps py spec v = true → (items ((mapping (spec.lookup (text "from"))).lookup (text "labels")))[i]? = some label →
    label.truthy = true → Written py label
  count : (mapping (spec.lookup (text "from"))).lookup (text "values") = none →
    CountDrawn py spec ((mapping (spec.lookup (text "from"))).lookup (text "count"))

/-- Each axis that is a generator is drawable. -/
def AxesDrawable (config : Json) : Prop :=
  ∀ (axis : Axis) (spec : Entry), config.get? axis.key = some (.obj spec) → Drawable py spec

variable {py}

theorem written_one : Written py (.int 1) := by
  have limit : Json.Scan.intLimit ≠ 0 := by decide
  have small : (1 : Int).natAbs < 10 ^ Json.Scan.intLimit := Nat.one_lt_pow limit (by decide)
  exact ⟨intText 1, by rw [str, if_pos small]⟩

/-! ### One entry -/

/-- A caption given by the list of labels. -/
def captioned (py : Python) (label : Option Json) (entry : Entry) : Except Exc Entry :=
  match label with
  | some label => if label.truthy then do return Dict.set entry (text "label") (.str (← str py label)) else .ok entry
  | none => .ok entry

/-- The key of an entry that a pattern gives. -/
def keyedBy (py : Python) (source : Entry) (value : Json) (entry : Entry) (pattern : Text) : Except Exc Entry := do
  match ← substitute py (source.lookup pattern) value with
  | some (c :: resolved) => return Dict.set entry pattern (.str (c :: resolved))
  | _ => return entry

def keyed (py : Python) (source : Entry) (value : Json) (entry : Entry) : Except Exc Entry :=
  [text "label_key", text "route_key", text "audio_route_key", text "lock_key"].foldlM (keyedBy py source value) entry

def routed (source entry : Entry) : Entry :=
  match source.lookup (text "route") with
  | some (.arr actions) => Dict.set entry (text "route") (.arr actions)
  | _ => entry

theorem generateEntry_of {source : Entry} {labels : List Json} {excluded : List Text} {overrides : Entry} {axis : Axis}
    {value : Json} {position : Nat} {key : Text} (named : str py value = .ok key) :
    generateEntry py source labels excluded overrides axis value position =
      if key ∈ excluded then .ok none
      else do
        let entry ← captioned py labels[position]? [(text "value", value)]
        let entry ← keyed py source value entry
        return some (labelled (update (routed source entry) (mapping (overrides.lookup key))) axis position) := by
  have loop (entry : Entry) : (forIn [text "label_key", text "route_key", text "audio_route_key", text "lock_key"] entry
        fun pattern entry => do
          match ← substitute py (source.lookup pattern) value with
          | some (c :: resolved) => pure (ForInStep.yield (Dict.set entry pattern (.str (c :: resolved))))
          | _ => pure (ForInStep.yield entry)) = keyed py source value entry := by
    have body : (fun pattern entry => do
          match ← substitute py (source.lookup pattern) value with
          | some (c :: resolved) => pure (ForInStep.yield (Dict.set entry pattern (.str (c :: resolved))))
          | _ => pure (ForInStep.yield entry)) =
        fun pattern entry => ForInStep.yield <$> keyedBy py source value entry pattern := by
      funext pattern entry
      unfold keyedBy
      cases substitute py (source.lookup pattern) value with
      | error e => rfl
      | ok resolved =>
        rcases resolved with _ | _ | ⟨c, resolved⟩ <;> rfl
    have folded := @List.forIn_yield_eq_foldlM _ _ _ _ _ _
      [text "label_key", text "route_key", text "audio_route_key", text "lock_key"] (fun pattern entry => keyedBy py source value entry pattern) (fun _ _ entry => entry) entry
    rw [body, keyed]
    simpa only [id_map'] using folded
  have tail (entry : Entry) : (keyed py source value entry >>= fun entry => 
      match source.lookup (text "route") with
      | some (.arr actions) =>
        let override := mapping (overrides.lookup key)
        let entry := update (Dict.set entry (text "route") (.arr actions)) override
        (pure (some (labelled entry axis position)) : Except Exc (Option Entry))
      | _ => pure (some (labelled (update entry (mapping (overrides.lookup key))) axis position))) =
      keyed py source value entry >>= fun entry =>
        pure (some (labelled (update (routed source entry) (mapping (overrides.lookup key))) axis position)) := by
    congr 1
    funext entry
    unfold routed
    split <;> rfl
  unfold generateEntry
  rw [named]
  change (if key ∈ excluded then _ else _) = _
  by_cases out : key ∈ excluded
  · rw [if_pos out, if_pos out]
    rfl
  · rw [if_neg out, if_neg out]
    cases labels[position]? with
    | none => exact (congrArg (· >>= _) (loop _)).trans (tail _)
    | some label =>
      by_cases shown : label.truthy = true
      · simp only [captioned, if_pos shown]
        cases str py label with
        | error e => rfl
        | ok t => exact (congrArg (· >>= _) (loop _)).trans (tail _)
      · simp only [captioned, if_neg shown]
        exact (congrArg (· >>= _) (loop _)).trans (tail _)

theorem keyed_ok {value : Json} {key : Text} (named : str py value = .ok key) (source entry : Entry) :
    ∃ entry', keyed py source value entry = .ok entry' ∧ entry'.lookup (text "value") = entry.lookup (text "value") := by
  refine List.exists_foldlM_ok (P := fun e : Entry => e.lookup (text "value") = entry.lookup (text "value")) ?_ rfl
  intro e same pattern member
  have other : text "value" ≠ pattern := by
    rintro rfl
    exact absurd member (by decide)
  have substituted : ∃ resolved, substitute py (source.lookup pattern) value = .ok resolved := by
    unfold substitute
    rw [named]
    split <;> exact ⟨_, rfl⟩
  obtain ⟨resolved, substituted⟩ := substituted
  unfold keyedBy
  rw [substituted]
  rcases resolved with _ | _ | ⟨c, resolved⟩
  · exact ⟨e, rfl, same⟩
  · exact ⟨e, rfl, same⟩
  · exact ⟨_, rfl, by rw [Dict.lookup_set_of_ne other, same]⟩

theorem lookup_routed (source entry : Entry) : (routed source entry).lookup (text "value") = entry.lookup (text "value") := by
  unfold routed
  split
  · exact Dict.lookup_set_of_ne (by decide) _ _
  · rfl

theorem lookup_labelled {k : Text} (other : k ≠ text "label") (entry : Entry) (axis : Axis) (position : Nat) :
    (labelled entry axis position).lookup k = entry.lookup k := by
  unfold labelled
  split
  · exact Dict.lookup_set_of_ne other _ _
  · rfl

/-- A label that an entry has stays. -/
theorem labelled_of_has {entry : Entry} (has : Entry.has entry "label" = true) (axis : Axis) (position : Nat) :
    labelled entry axis position = entry := by
  simp [labelled, has]

theorem labelled_labelled (entry : Entry) (axis : Axis) (position : Nat) : Labelled (labelled entry axis position) := by
  by_cases label : Entry.has entry "label" = true
  · rw [labelled_of_has label]
    exact Or.inl label
  · by_cases live : Entry.has entry "label_key" = true
    · have same : labelled entry axis position = entry := by simp [labelled, live]
      rw [same]
      exact Or.inr live
    · have given : labelled entry axis position =
          Dict.set entry (text "label") (.str (axis.caption ++ [32] ++ intText (position + 1))) := by
        simp [labelled, label, live]
      left
      rw [given, Entry.has, Dict.lookup_set_self]
      simp [Json.truthy]

theorem lookup_update (entry override : Entry) (k : Text) :
    (update entry override).lookup k = entry.lookup k ∧ (∀ u ∈ override, u.1 ≠ k) ∨
      ∃ u ∈ override, u.1 = k ∧ (update entry override).lookup k = some u.2 :=
  Dict.lookup_walk Prod.fst Prod.snd override entry k

theorem overridden_labelled (entry override : Entry) (axis : Axis) (position : Nat) :
    Overridden override (labelled (update entry override) axis position) := by
  intro u member
  rcases lookup_update entry override u.1 with ⟨_, absent⟩ | ⟨w, inside, same, found⟩
  · exact absurd rfl (absent u member)
  · refine ⟨w.2, same ▸ inside, ?_⟩
    by_cases label : u.1 = text "label"
    · by_cases shown : w.2.truthy = true
      · have has : Entry.has (update entry override) "label" = true := by
          rw [Entry.has, ← label, found]
          exact shown
        rw [labelled_of_has has]
        exact Or.inl found
      · exact Or.inr ⟨label, by simpa using shown⟩
    · rw [lookup_labelled label]
      exact Or.inl found

theorem captioned_ok {label : Option Json} (written : ∀ l, label = some l → l.truthy = true → Written py l) (entry : Entry) :
    ∃ entry', captioned py label entry = .ok entry' ∧ entry'.lookup (text "value") = entry.lookup (text "value") := by
  cases label with
  | none => exact ⟨entry, rfl, rfl⟩
  | some label =>
    by_cases shown : label.truthy = true
    · obtain ⟨t, written⟩ := written label rfl shown
      refine ⟨Dict.set entry (text "label") (.str t), ?_, Dict.lookup_set_of_ne (by decide) _ _⟩
      simp only [captioned, if_pos shown, written]
      rfl
    · exact ⟨entry, if_neg shown, rfl⟩

theorem written_of_captioned {label : Json} {entry entry' : Entry} (ok : captioned py (some label) entry = .ok entry')
    (shown : label.truthy = true) : Written py label := by
  simp only [captioned, if_pos shown] at ok
  obtain ⟨t, written, _⟩ := Except.bind_eq_ok.mp ok
  exact ⟨t, written⟩

section Entry

variable {source overrides : Entry} {labels : List Json} {excluded : List Text} {axis : Axis} {value : Json}
  {position : Nat} {key : Text}

theorem generateEntry_excluded (named : str py value = .ok key) (out : key ∈ excluded) :
    generateEntry py source labels excluded overrides axis value position = .ok none := by
  rw [generateEntry_of named, if_pos out]

/-- What a round makes of a value that is not excluded, where it does not raise. -/
theorem generateEntry_made (named : str py value = .ok key) (fresh : key ∉ excluded)
    (fits : ∀ u ∈ mapping (overrides.lookup key), u.1 ≠ text "value")
    {made : Option Entry} (ok : generateEntry py source labels excluded overrides axis value position = .ok made) :
    (∀ label, labels[position]? = some label → label.truthy = true → Written py label) ∧
      ∃ entry, made = some entry ∧ Entry.value entry = value ∧
        Overridden (mapping (overrides.lookup key)) entry ∧ Labelled entry := by
  rw [generateEntry_of named, if_neg fresh] at ok
  obtain ⟨first, labelling, ok⟩ := Except.bind_eq_ok.mp ok
  have written : ∀ label, labels[position]? = some label → label.truthy = true → Written py label := by
    intro label here shown
    rw [here] at labelling
    exact written_of_captioned labelling shown
  obtain ⟨second, keying, ok⟩ := Except.bind_eq_ok.mp ok
  obtain ⟨first', labelling', atFirst⟩ := captioned_ok written [(text "value", value)]
  obtain ⟨second', keying', atSecond⟩ := keyed_ok named source first
  have sameFirst : first' = first := Except.ok.inj (labelling'.symm.trans labelling)
  have sameSecond : second' = second := Except.ok.inj (keying'.symm.trans keying)
  subst sameFirst sameSecond
  have started : ([(text "value", value)] : Entry).lookup (text "value") = some value := by simp
  have kept : (update (routed source second') (mapping (overrides.lookup key))).lookup (text "value") = some value := by
    rcases lookup_update (routed source second') (mapping (overrides.lookup key)) (text "value") with
      ⟨same, _⟩ | ⟨u, member, here, _⟩
    · rw [same, lookup_routed, atSecond, atFirst, started]
    · exact absurd here (fits u member)
  refine ⟨written, _, (Except.ok.inj ok).symm, ?_, overridden_labelled _ _ _ _, labelled_labelled _ _ _⟩
  rw [Entry.value, lookup_labelled (by decide), kept]
  rfl

theorem generateEntry_ok (named : str py value = .ok key)
    (written : key ∉ excluded → ∀ label, labels[position]? = some label → label.truthy = true → Written py label) :
    ∃ made, generateEntry py source labels excluded overrides axis value position = .ok made := by
  by_cases out : key ∈ excluded
  · exact ⟨none, generateEntry_excluded named out⟩
  · obtain ⟨first, labelling, _⟩ := captioned_ok (written out) [(text "value", value)]
    obtain ⟨second, keying, _⟩ := keyed_ok named source first
    rw [generateEntry_of named, if_neg out, labelling]
    change ∃ made, (keyed py source value first >>= fun entry => pure _) = Except.ok made
    rw [keying]
    exact ⟨_, rfl⟩

theorem written_of_generateEntry {made : Option Entry}
    (ok : generateEntry py source labels excluded overrides axis value position = .ok made) : Written py value := by
  unfold generateEntry at ok
  obtain ⟨key, named, _⟩ := Except.bind_eq_ok.mp ok
  exact ⟨key, named⟩

end Entry

/-! ### A generator -/

/-- The values that `_generate` goes through. -/
def drawnValues (py : Python) (source : Entry) : Except Exc (List Json) :=
  match source.lookup (text "values") with
  | some (.arr values) => .ok values
  | _ => do
    let count ← countOf py (source.lookup (text "count"))
    if 2 ^ 63 ≤ count then throw .overflowError
    return upTo count

/-- What `_generate` makes of them. -/
def generateFrom (py : Python) (spec : Entry) (axis : Axis) (values : List Json) : Except Exc (List Entry) := do
  let source := mapping (spec.lookup (text "from"))
  let names ← iterate (spec.lookup (text "exclude"))
  let excluded ← names.mapM (str py)
  let entries ← values.zipIdx.mapM fun u =>
    generateEntry py source (items (source.lookup (text "labels"))) excluded
      (mapping (spec.lookup (text "overrides"))) axis u.1 u.2
  return entries.reduceOption

theorem generate_eq (spec : Entry) (axis : Axis) :
    generate py spec axis =
      (drawnValues py (mapping (spec.lookup (text "from"))) >>= generateFrom py spec axis) := by
  have counted (rest : List Json → Except Exc (List Entry)) (read : Except Exc Int) :
      (do
        let count ← read
        if 2 ^ 63 ≤ count then throw .overflowError
        rest (upTo count)) =
      (do
        let count ← read
        if 2 ^ 63 ≤ count then throw .overflowError
        return upTo count) >>= rest := by
    cases read with
    | error e => rfl
    | ok count =>
      change (if 2 ^ 63 ≤ count then _ else _) = (if 2 ^ 63 ≤ count then _ else _) >>= rest
      by_cases long : 2 ^ 63 ≤ count
      · rw [if_pos long, if_pos long]
        rfl
      · rw [if_neg long, if_neg long]
        rfl
  unfold generate drawnValues
  dsimp only
  cases (mapping (spec.lookup (text "from"))).lookup (text "values") with
  | none => exact counted (generateFrom py spec axis) _
  | some value =>
    cases value with
    | arr values => rfl
    | null | bool | int | float | constant | str | obj => exact counted (generateFrom py spec axis) _

theorem iterate_items {value : Option Json} (list : ∀ v, value = some v → isList v = true) :
    iterate value = .ok (items value) := by
  cases value with
  | none => rfl
  | some v =>
    have shape := list v rfl
    cases v with
    | arr l => cases l <;> rfl
    | null | bool | int | float | constant | str | obj => cases shape

theorem mem_names_iff {spec : Entry} {excluded : List Text}
    (names : (items (spec.lookup (text "exclude"))).mapM (str py) = .ok excluded) {value : Json} {key : Text}
    (named : str py value = .ok key) : key ∈ excluded ↔ keeps py spec value = false := by
  have pairs := List.mapM_eq_ok.mp names
  rw [keeps, Bool.not_eq_false', List.any_eq_true]
  constructor
  · intro member
    obtain ⟨v, inside, same⟩ := pairs.exists_left member
    exact ⟨v, inside, by rw [sameName, named, same]; simp⟩
  · rintro ⟨v, inside, same⟩
    obtain ⟨t, member, other⟩ := pairs.exists_right inside
    rw [sameName, named, other] at same
    exact (of_decide_eq_true same) ▸ member

/-- What each name of a generator can be written as, so far as `_generate` writes it. -/
structure Readable (py : Python) (spec : Entry) (values : List Json) : Prop where
  excluded : ∀ v ∈ items (spec.lookup (text "exclude")), Written py v
  named : ∀ v ∈ values, Written py v
  labels : ∀ (i : Nat) (v label : Json), values[i]? = some v → keeps py spec v = true →
    (items ((mapping (spec.lookup (text "from"))).lookup (text "labels")))[i]? = some label →
    label.truthy = true → Written py label

section Generator

variable {spec : Entry} {axis : Axis} {values : List Json} (checked : Generator spec axis)
include checked

theorem Generator.override_fits (name : Text) : ∀ u ∈ overrideOf spec name, u.1 ≠ text "value" := by
  intro u member here
  unfold overrideOf at member
  cases found : (mapping (spec.lookup (text "overrides"))).lookup name with
  | none =>
    rw [found] at member
    cases member
  | some override =>
    obtain ⟨fields, same, fits⟩ := checked.overrides (name, override) (List.mem_of_lookup_eq_some found)
    rw [found] at member
    dsimp only at same
    subst same
    have among := fits u member
    rw [here] at among
    cases axis with
    | sources => exact absurd among (by decide)
    | destinations => exact absurd among (by decide)

theorem generateFrom_ok {entries : List Entry} (ok : generateFrom py spec axis values = .ok entries) :
    Readable py spec values ∧ entries.map Entry.value = values.filter (keeps py spec) ∧
      ∀ entry ∈ entries, Labelled entry ∧ ∀ name, str py (Entry.value entry) = .ok name →
        Overridden (overrideOf spec name) entry := by
  unfold generateFrom at ok
  rw [iterate_items checked.exclude] at ok
  change (List.mapM (str py) (items (spec.lookup (text "exclude"))) >>= _) = _ at ok
  obtain ⟨excluded, written, ok⟩ := Except.bind_eq_ok.mp ok
  obtain ⟨made, rounds, ok⟩ := Except.bind_eq_ok.mp ok
  have same := Except.ok.inj ok
  subst same
  have rounds := List.mapM_eq_ok.mp rounds
  have named : ∀ v ∈ values, Written py v := by
    intro v member
    obtain ⟨i, here⟩ := List.getElem?_of_mem member
    obtain ⟨m, _, round⟩ := rounds.exists_right (List.mk_mem_zipIdx_iff_getElem?.mpr here)
    exact written_of_generateEntry round
  refine ⟨⟨?_, named, ?_⟩, ?_, ?_⟩
  · intro v member
    obtain ⟨t, _, same⟩ := (List.mapM_eq_ok.mp written).exists_right member
    exact ⟨t, same⟩
  · intro i v label here kept at' shown
    obtain ⟨m, _, round⟩ := rounds.exists_right (List.mk_mem_zipIdx_iff_getElem?.mpr here)
    obtain ⟨key, name⟩ := written_of_generateEntry round
    have fresh : key ∉ excluded := by
      rw [mem_names_iff written name, kept]
      exact Bool.noConfusion
    exact (generateEntry_made name fresh (checked.override_fits key) round).1 label at' shown
  · have mapped := rounds.map_reduceOption (fun u : Json × Nat => keeps py spec u.1) Prod.fst Entry.value (fun u m round dropped => by
        obtain ⟨key, name⟩ := written_of_generateEntry round
        rw [generateEntry_excluded name ((mem_names_iff written name).mpr dropped)] at round
        exact (Except.ok.inj round).symm) (fun u m round kept => by
        obtain ⟨key, name⟩ := written_of_generateEntry round
        have fresh : key ∉ excluded := by
          rw [mem_names_iff written name, kept]
          exact Bool.noConfusion
        obtain ⟨_, entry, made, same, _⟩ := generateEntry_made name fresh (checked.override_fits key) round
        exact ⟨entry, made, same⟩)
    rw [mapped]
    have filtered := List.filter_map (f := Prod.fst) (p := keeps py spec) (l := values.zipIdx)
    rw [List.zipIdx_map_fst] at filtered
    exact filtered.symm
  · intro entry member
    obtain ⟨⟨v, i⟩, _, round⟩ := rounds.exists_left (List.reduceOption_mem_iff.mp member)
    obtain ⟨key, name⟩ := written_of_generateEntry round
    by_cases out : key ∈ excluded
    · rw [generateEntry_excluded name out] at round
      cases round
    · obtain ⟨_, entry', same, value, overridden, has⟩ :=
        generateEntry_made name out (checked.override_fits key) round
      cases same
      refine ⟨has, fun key' name' => ?_⟩
      rw [value, name] at name'
      cases name'
      exact overridden

theorem exists_generateFrom (readable : Readable py spec values) :
    ∃ entries, generateFrom py spec axis values = .ok entries := by
  obtain ⟨excluded, written⟩ := List.exists_mapM_ok readable.excluded
  obtain ⟨made, rounds⟩ := List.exists_mapM_ok (l := values.zipIdx)
    (f := fun u : Json × Nat => generateEntry py (mapping (spec.lookup (text "from")))
      (items ((mapping (spec.lookup (text "from"))).lookup (text "labels"))) excluded
      (mapping (spec.lookup (text "overrides"))) axis u.1 u.2) (by
    rintro ⟨v, i⟩ member
    have here := List.mk_mem_zipIdx_iff_getElem?.mp member
    obtain ⟨key, name⟩ := readable.named v (List.mem_of_getElem? here)
    refine generateEntry_ok name fun fresh label at' shown => readable.labels i v label here ?_ at' shown
    rw [mem_names_iff written name, Bool.not_eq_false] at fresh
    exact fresh)
  refine ⟨made.reduceOption, ?_⟩
  unfold generateFrom
  rw [iterate_items checked.exclude]
  change (List.mapM (str py) (items (spec.lookup (text "exclude"))) >>= _) = _
  exact Except.bind_eq_ok.mpr ⟨excluded, written, Except.bind_eq_ok.mpr ⟨made, rounds, rfl⟩⟩

/-- What a generator goes through: what it lists, the one entry of a count that is `true`,
or nothing, as the count is too large for a list. -/
theorem drawnValues_cases :
    (drawnValues py (mapping (spec.lookup (text "from"))) = .ok (listed py (mapping (spec.lookup (text "from")))) ∧
      ((mapping (spec.lookup (text "from"))).lookup (text "values") = none →
        CountDrawn py spec ((mapping (spec.lookup (text "from"))).lookup (text "count")))) ∨
    (drawnValues py (mapping (spec.lookup (text "from"))) = .ok [.int 1] ∧
      listed py (mapping (spec.lookup (text "from"))) = [] ∧
      (mapping (spec.lookup (text "from"))).lookup (text "values") = none ∧
      (mapping (spec.lookup (text "from"))).lookup (text "count") = some (.bool true)) ∨
    (drawnValues py (mapping (spec.lookup (text "from"))) = .error .overflowError ∧
      (mapping (spec.lookup (text "from"))).lookup (text "values") = none ∧
      ¬CountDrawn py spec ((mapping (spec.lookup (text "from"))).lookup (text "count"))) := by
  have counted (n : Int) : (if 2 ^ 63 ≤ n then (throw Exc.overflowError : Except Exc (List Json)) else pure (upTo n)) =
      if n < 2 ^ 63 then .ok (upTo n) else .error .overflowError := by
    by_cases short : n < 2 ^ 63
    · rw [if_pos short, if_neg (by omega)]
      rfl
    · rw [if_neg short, if_pos (by omega)]
      rfl
  have shaped := checked.values
  have counts := checked.count
  generalize mapping (spec.lookup (text "from")) = source at shaped counts ⊢
  unfold drawnValues listed
  cases given : source.lookup (text "values") with
  | some value =>
    have list := shaped value given
    cases value with
    | arr values => exact Or.inl ⟨rfl, fun absent => nomatch absent⟩
    | null | bool | int | float | constant | str | obj => cases list
  | none =>
    cases number : source.lookup (text "count") with
    | none => exact Or.inl ⟨rfl, fun _ => trivial⟩
    | some value =>
      have shape := counts value number
      have stated (n : Int) (read : countOf py (some value) = .ok n) :
          (do
            let count ← countOf py (some value)
            if 2 ^ 63 ≤ count then throw .overflowError
            return upTo count) = if n < 2 ^ 63 then Except.ok (upTo n) else .error .overflowError := by
        rw [read, ← counted n]
        rfl
      cases value with
      | bool b =>
        cases b with
        | false => exact Or.inl ⟨rfl, fun _ => trivial⟩
        | true => exact Or.inr (Or.inl ⟨rfl, rfl, rfl, rfl⟩)
      | int n =>
        dsimp only
        rw [stated n rfl]
        by_cases short : n < 2 ^ 63
        · exact Or.inl ⟨if_pos short, fun _ => short⟩
        · exact Or.inr (Or.inr ⟨if_neg short, rfl, short⟩)
      | str t =>
        dsimp only
        rw [stated ((Snmp.pyInt py.decimal t).getD 0) rfl]
        by_cases short : (Snmp.pyInt py.decimal t).getD 0 < 2 ^ 63
        · exact Or.inl ⟨if_pos short, fun _ => short⟩
        · exact Or.inr (Or.inr ⟨if_neg short, rfl, short⟩)
      | null | float | constant | arr | obj => cases shape

/-- A generator draws what it lists where it is drawable. -/
theorem generate_draws_iff :
    (∃ entries, generate py spec axis = .ok entries ∧ DrawsGenerator py spec entries ∧
      ∀ entry ∈ entries, Labelled entry) ↔ Drawable py spec := by
  rw [generate_eq]
  constructor
  · rintro ⟨entries, made, draws, _⟩
    obtain ⟨values, read, made⟩ := Except.bind_eq_ok.mp made
    obtain ⟨readable, mapped, _⟩ := generateFrom_ok checked made
    rcases @drawnValues_cases py spec axis checked with ⟨all, count⟩ | ⟨one, none', absent, given⟩ | ⟨fails, _⟩
    · rw [all] at read
      cases read
      refine ⟨readable.excluded, readable.named, fun v member kept => ?_, readable.labels, count⟩
      have among : v ∈ entries.map Entry.value := mapped ▸ List.mem_filter.mpr ⟨member, kept⟩
      obtain ⟨entry, inside, rfl⟩ := List.mem_map.mp among
      exact draws.scalar entry inside
    · rw [one] at read
      cases read
      have nothing : entries.map Entry.value = [] := by rw [draws.values, none', List.filter_nil]
      have out : keeps py spec (.int 1) = false := by
        rw [mapped] at nothing
        have left := List.filter_eq_nil_iff.mp nothing (.int 1) List.mem_cons_self
        simpa using left
      refine ⟨readable.excluded, ?_, ?_, ?_, fun _ => by rw [given]; exact out⟩
      · rw [none']
        exact fun v member => absurd member List.not_mem_nil
      · rw [none']
        exact fun v member => absurd member List.not_mem_nil
      · rw [none']
        exact fun i v label here => nomatch here
    · rw [fails] at read
      cases read
  · intro drawable
    rcases @drawnValues_cases py spec axis checked with ⟨all, _⟩ | ⟨one, none', absent, given⟩ | ⟨_, absent, over'⟩
    · rw [all]
      obtain ⟨entries, made⟩ := exists_generateFrom checked
        ⟨drawable.excluded, drawable.named, drawable.labels⟩
      obtain ⟨_, mapped, each⟩ := generateFrom_ok checked made
      refine ⟨entries, made, ⟨mapped, fun entry member => ?_, fun entry member => (each entry member).2⟩,
        fun entry member => (each entry member).1⟩
      have among : Entry.value entry ∈ entries.map Entry.value := List.mem_map_of_mem member
      rw [mapped] at among
      obtain ⟨inside, kept⟩ := List.mem_filter.mp among
      exact drawable.scalar _ inside kept
    · rw [one]
      have out : keeps py spec (.int 1) = false := by
        have count := drawable.count absent
        rw [given] at count
        exact count
      have readable : Readable py spec [.int 1] := by
        refine ⟨drawable.excluded, fun v member => ?_, fun i v label here kept => ?_⟩
        · rw [List.mem_singleton.mp member]
          exact written_one
        · rw [List.mem_singleton.mp (List.mem_of_getElem? here), out] at kept
          cases kept
      obtain ⟨entries, made⟩ := exists_generateFrom checked readable
      obtain ⟨_, mapped, _⟩ := generateFrom_ok checked made
      have nothing : entries = [] := by
        rw [List.filter_cons_of_neg (by simp [out]), List.filter_nil] at mapped
        exact List.map_eq_nil_iff.mp mapped
      subst nothing
      refine ⟨[], made, ⟨by rw [none']; rfl, ?_, ?_⟩, ?_⟩ <;> exact fun entry member => absurd member List.not_mem_nil
    · exact absurd (drawable.count absent) over'

end Generator

/-! ### A whole matrix -/

variable {quote : Text → Text}

/-- A written entry that passes the check is drawn with its own value. -/
theorem normaliseEntry_of_problems {entry : Json} {axis : Axis} {position : Nat} {place : Text}
    (passes : entryProblems quote entry axis position place = []) :
    ∃ drawn, normaliseEntry entry axis position = some drawn ∧ Entry.value drawn = writtenValue entry ∧ Labelled drawn := by
  have filled (fields : Entry) (value : Json) (found : fields.lookup (text "value") = some value) :
      Entry.value (labelled fields axis position) = value ∧ Labelled (labelled fields axis position) := by
    rw [Entry.value, lookup_labelled (by decide), found]
    exact ⟨rfl, labelled_labelled _ _ _⟩
  rcases entry_of_problems passes with bare | ⟨fields, value, rfl, found⟩
  · have own : ([(text "value", entry)] : Entry).lookup (text "value") = some entry := by simp
    have drawn : normaliseEntry entry axis position = some (labelled [(text "value", entry)] axis position) ∧
        writtenValue entry = entry := by
      cases entry with
      | str | int | float | constant => exact ⟨by rfl, rfl⟩
      | null | bool | arr | obj => cases bare
    rw [drawn.2]
    exact ⟨_, drawn.1, filled _ _ own⟩
  · refine ⟨labelled fields axis position, ?_, ?_⟩
    · change (if (fields.lookup (text "value")).isNone then none else some (labelled fields axis position)) = _
      rw [found]
      rfl
    · rw [writtenValue, found]
      exact filled fields value found

theorem draws_list {spec : List Json} {axis : Axis} {place : Text}
    (passes : ∀ u ∈ spec.zipIdx, entryProblems quote u.1 axis u.2 place = []) :
    (spec.zipIdx.filterMap fun u => normaliseEntry u.1 axis u.2).map Entry.value = spec.map writtenValue ∧
      ∀ entry ∈ spec.zipIdx.filterMap fun u => normaliseEntry u.1 axis u.2, Labelled entry := by
  have each (l : List (Json × Nat)) (passes : ∀ u ∈ l, entryProblems quote u.1 axis u.2 place = []) :
      (l.filterMap fun u => normaliseEntry u.1 axis u.2).map Entry.value = l.map (fun u => writtenValue u.1) := by
    induction l with
    | nil => rfl
    | cons u l ih =>
      obtain ⟨drawn, made, same, _⟩ := normaliseEntry_of_problems (passes u List.mem_cons_self)
      have rest := ih fun v member => passes v (List.mem_cons_of_mem _ member)
      rw [@List.filterMap_cons_some _ _ (fun u : Json × Nat => normaliseEntry u.1 axis u.2) u l drawn made,
        List.map_cons, List.map_cons, same, rest]
  refine ⟨?_, fun entry member => ?_⟩
  · have values := congrArg (List.map writtenValue) (List.zipIdx_map_fst 0 spec)
    rw [List.map_map] at values
    rw [each _ passes, ← values]
    rfl
  · obtain ⟨u, inside, made⟩ := List.mem_filterMap.mp member
    obtain ⟨drawn, made', _, has⟩ := normaliseEntry_of_problems (passes u inside)
    rw [made] at made'
    exact Option.some.inj made' ▸ has

/-- An axis that passes the check is drawn as it is written where it is no generator, or a
drawable one. -/
theorem resolveAxis_obj (fields : Entry) (axis : Axis) : resolveAxis py (.obj fields) axis =
    match fields.lookup axis.key with
    | some (.obj spec) => generate py spec axis
    | some (.arr spec) => .ok (spec.zipIdx.filterMap fun u => normaliseEntry u.1 axis u.2)
    | _ => .ok [] := rfl

theorem resolveAxis_draws_iff {fields : Entry} {axis : Axis} {place : Text}
    (passes : axisProblems quote fields axis place = []) :
    (∃ entries, resolveAxis py (.obj fields) axis = .ok entries ∧ DrawsAxis py entries (fields.lookup axis.key) ∧
      ∀ entry ∈ entries, Labelled entry) ↔
    ∀ spec, fields.lookup axis.key = some (.obj spec) → Drawable py spec := by
  unfold axisProblems at passes
  rw [resolveAxis_obj]
  cases found : fields.lookup axis.key with
  | none => exact ⟨by rintro _ _ ⟨⟩, fun _ => ⟨[], rfl, rfl, fun _ member => absurd member List.not_mem_nil⟩⟩
  | some value =>
    rw [found] at passes
    cases value with
    | obj spec =>
      have iff := @generate_draws_iff py spec axis (Generator.of_problems passes)
      exact ⟨fun drawn other same => by cases same; exact iff.mp drawn, fun drawable => iff.mpr (drawable spec rfl)⟩
    | arr spec =>
      have drawn := draws_list (List.flatMap_eq_nil_iff.mp passes)
      exact ⟨by rintro _ _ ⟨⟩, fun _ => ⟨_, rfl, drawn⟩⟩
    | null | bool | int | float | constant | str => cases passes

theorem drawnAsWritten_iff {config : Json} :
    DrawnAsWritten py config ↔ ∀ axis : Axis, ∃ entries, resolveAxis py config axis = .ok entries ∧
      DrawsAxis py entries (config.get? axis.key) ∧ ∀ entry ∈ entries, Labelled entry := by
  have objects {l l' : List Entry} (same : Json.arr (l.map .obj) = .arr (l'.map .obj)) : l = l' :=
    List.map_injective_iff.mpr (fun _ _ equal => Json.obj.inj equal) (Json.arr.inj same)
  have placed (fields : Entry) (s d : Json) :
      (Dict.set (Dict.set fields (text "sources") s) (text "destinations") d).lookup Axis.sources.key = some s := by
    rw [Axis.key, Dict.lookup_set_of_ne (by decide), Dict.lookup_set_self]
  constructor
  · rintro ⟨resolved, ok, drawn⟩ axis
    obtain ⟨sources, first, ok⟩ := Except.bind_eq_ok.mp ok
    obtain ⟨destinations, second, ok⟩ := Except.bind_eq_ok.mp ok
    cases ok
    obtain ⟨entries, found, drawn⟩ := drawn axis
    cases axis with
    | sources =>
      rw [placed] at found
      exact ⟨sources, first, objects (Option.some.inj found) ▸ drawn⟩
    | destinations =>
      rw [Axis.key, Dict.lookup_set_self] at found
      exact ⟨destinations, second, objects (Option.some.inj found) ▸ drawn⟩
  · intro drawn
    obtain ⟨sources, first, drawnSources⟩ := drawn .sources
    obtain ⟨destinations, second, drawnDestinations⟩ := drawn .destinations
    refine ⟨_, Except.bind_eq_ok.mpr ⟨sources, first, Except.bind_eq_ok.mpr ⟨destinations, second, rfl⟩⟩, fun axis => ?_⟩
    cases axis with
    | sources => exact ⟨sources, placed _ _ _, drawnSources⟩
    | destinations => exact ⟨destinations, Dict.lookup_set_self _ _ _, drawnDestinations⟩

/-- When a matrix that passes the check is drawn as it is written. -/
theorem passing_matrix_drawn (py : Python) (quote : Text → Text) (config : Json) (place : Text)
    (passes : matrixConfigProblems quote config place = []) : DrawnAsWritten py config ↔ AxesDrawable py config := by
  rw [drawnAsWritten_iff]
  cases config with
  | obj fields => exact forall_congr' fun axis => resolveAxis_draws_iff (axis_of_problems passes axis)
  | null =>
    exact ⟨fun _ _ _ absent => (nomatch absent), fun _ _ => ⟨[], rfl, rfl, fun _ member => absurd member List.not_mem_nil⟩⟩
  | bool | int | float | constant | str | arr => cases passes

/-- Two rows and a generator of three destinations less one, with a caption of its own. -/
def patched : Json :=
  .obj [(text "sources", .arr [.int 1, .obj [(text "value", .str (text "HDMI")), (text "label", .str (text "Laptop"))]]),
    (text "destinations", .obj [(text "from", .obj [(text "count", .str (text "3")),
        (text "route_key", .str (text "device.mx.output.*.input"))]),
      (text "exclude", .arr [.int 2]),
      (text "overrides", .obj [(text "3", .obj [(text "label", .str (text "Lobby"))])])])]

theorem passing_matrix_drawn_patched : DrawnAsWritten ascii patched ↔ AxesDrawable ascii patched :=
  passing_matrix_drawn ascii id patched (text "matrix_config") (by decide +kernel)

def generated (source : Entry) : Json :=
  .obj [(text "destinations", .obj [(text "from", .obj source)])]

/-- The check passes a generator whose values are none that a device has, one that counts
`true`, and one that cannot be drawn at all. -/
theorem passing_matrix_not_drawn :
    (matrixConfigProblems id (generated [(text "values", .arr [.null])]) (text "matrix_config") = [] ∧
      ¬DrawnAsWritten ascii (generated [(text "values", .arr [.null])])) ∧
    (matrixConfigProblems id (generated [(text "count", .bool true)]) (text "matrix_config") = [] ∧
      ¬DrawnAsWritten ascii (generated [(text "count", .bool true)])) ∧
    (matrixConfigProblems id (generated [(text "count", .int (2 ^ 63))]) (text "matrix_config") = [] ∧
      resolveMatrixConfig ascii (generated [(text "count", .int (2 ^ 63))]) = .error .overflowError) := by
  have undrawn {source : Entry} (passes : matrixConfigProblems id (generated source) (text "matrix_config") = [])
      (bad : ¬Drawable ascii [(text "from", .obj source)]) : ¬DrawnAsWritten ascii (generated source) := fun drawn =>
    bad ((resolveAxis_draws_iff (axis_of_problems passes .destinations)).mp (drawnAsWritten_iff.mp drawn .destinations) _ rfl)
  have nothing : matrixConfigProblems id (generated [(text "values", .arr [.null])]) (text "matrix_config") = [] := by
    decide +kernel
  have counting : matrixConfigProblems id (generated [(text "count", .bool true)]) (text "matrix_config") = [] := by
    decide +kernel
  refine ⟨⟨nothing, undrawn nothing fun drawable => ?_⟩, ⟨counting, undrawn counting fun drawable => ?_⟩,
    by decide +kernel, by rfl⟩
  · exact absurd (drawable.scalar .null (by exact List.mem_cons_self) (by rfl)) (by decide)
  · have out : keeps ascii [(text "from", .obj [(text "count", .bool true)])] (.int 1) = false := drawable.count (by rfl)
    exact absurd out (by decide +kernel)

end OpenAvc.Panels.Matrix
