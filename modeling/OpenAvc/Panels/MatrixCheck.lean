import OpenAvc.Panels.Matrix

/-! What a matrix may say: the check of its structure, one sentence for each fault. -/

namespace OpenAvc.Panels.Matrix

-- `repr(t)` of a text
variable (quote : Text → Text)

/-- `GENERATOR_KEYS` -/
def generatorKeys : List Text :=
  [text "from", text "exclude", text "overrides"]

/-- `_GENERATOR_FROM_KEYS` -/
def generatorFromKeys : Axis → List Text
  | .sources => [text "count", text "values", text "labels", text "label_key"]
  | .destinations =>
    [text "count", text "values", text "labels", text "label_key", text "route_key", text "audio_route_key",
      text "route", text "lock_key"]

/-- `_ENTRY_KEYS`: `SOURCE_KEYS` and `DESTINATION_KEYS` -/
def entryKeys : Axis → List Text
  | .sources => [text "value", text "label", text "label_key", text "report_value"]
  | .destinations =>
    [text "value", text "label", text "label_key", text "route_key", text "audio_route_key", text "route",
      text "lock_key"]

/-- `_PRESET_KEYS` -/
def presetKeys : List Text :=
  [text "name", text "macro"]

/-- `_FLAG_KEYS` -/
def flagKeys : List Text :=
  [text "audio_follow_video", text "show_lock", text "show_mute"]

/-- `axis[:-1]` -/
def Axis.singular (axis : Axis) : Text :=
  axis.key.dropLast

/-- `_type_name` -/
def typeName : Json → Text
  | .bool _ => text "true/false"
  | .obj _ => text "an object"
  | .str _ => text "text"
  | .int _ | .float _ | .constant _ => text "a number"
  | .arr _ => text "a list"
  | .null => text "nothing"

/-- `', '.join(sorted(keys))` -/
def joined (keys : List Text) : Text :=
  List.intercalate (text ", ") (keys.insertionSort (· ≤ ·))

/-- `_unknown` -/
def unknown (fields : Entry) (allowed : List Text) : List Text :=
  ((fields.map Prod.fst).filter (· ∉ allowed)).insertionSort (· ≤ ·)

/-- `', '.join(repr(s) for s in stray)` -/
def quoted (stray : List Text) : Text :=
  List.intercalate (text ", ") (stray.map quote)

/-- A sentence about the keys that are not known, where there are any. -/
def strayProblem (fields : Entry) (allowed : List Text) (say : Text → Text) : List Text :=
  match unknown fields allowed with
  | [] => []
  | stray => [say (quoted quote stray)]

/-- `isinstance(value, str | int | float) and not isinstance(value, bool)` -/
def isScalar : Json → Bool
  | .str _ | .int _ | .float _ | .constant _ => true
  | _ => false

def isList : Json → Bool
  | .arr _ => true
  | _ => false

def isBool : Json → Bool
  | .bool _ => true
  | _ => false

/-- `isinstance(value, int | str)`: a `bool` is an `int`. -/
def isCount : Json → Bool
  | .bool _ | .int _ | .str _ => true
  | _ => false

/-- A sentence about the value of a key, where it is there and is not of its shape. -/
def shapeProblem (fields : Entry) (key : Text) (ok : Json → Bool) (say : Text → Text) : List Text :=
  match fields.lookup key with
  | some value => if ok value then [] else [say (typeName value)]
  | none => []

/-- What `_generator_problems` says of `from`. -/
def fromProblems (source : Entry) (axis : Axis) (place : Text) : List Text :=
  strayProblem quote source (generatorFromKeys axis) (fun stray =>
    place ++ text "." ++ axis.key ++ text ".from sets " ++ stray ++ text ", which nothing expands. It may say " ++
      joined (generatorFromKeys axis) ++ text ".") ++
  shapeProblem source (text "count") isCount (fun type =>
    place ++ text "." ++ axis.key ++ text ".from.count must be a whole number, not " ++ type ++ text ".") ++
  [text "values", text "labels", text "route"].flatMap fun key => shapeProblem source key isList fun type =>
    place ++ text "." ++ axis.key ++ text ".from." ++ key ++ text " must be a list, not " ++ type ++ text "."

/-- What `_generator_problems` says of one override. -/
def overrideProblems (axis : Axis) (place key : Text) : Json → List Text
  | .obj fields =>
    strayProblem quote fields ((entryKeys axis).erase (text "value")) fun stray =>
      place ++ text "." ++ axis.key ++ text ".overrides['" ++ key ++ text "'] sets " ++ stray ++ text ", which a " ++
        axis.singular ++ text " does not have."
  | value =>
    [place ++ text "." ++ axis.key ++ text ".overrides['" ++ key ++ text "'] must be an object of the fields to change, not " ++
      typeName value ++ text "."]

/-- `_generator_problems` -/
def generatorProblems (spec : Entry) (axis : Axis) (place : Text) : List Text :=
  strayProblem quote spec generatorKeys (fun stray =>
    place ++ text "." ++ axis.key ++ text " is a generator, so it may only say " ++ joined generatorKeys ++
      text " -- not " ++ stray ++ text ". A count goes inside 'from'.") ++
  (match spec.lookup (text "from") with
    | none => []
    | some (.obj source) => fromProblems quote source axis place
    | some source =>
      [place ++ text "." ++ axis.key ++ text ".from must be an object saying what to generate, not " ++
        typeName source ++ text "."]) ++
  shapeProblem spec (text "exclude") isList (fun type =>
    place ++ text "." ++ axis.key ++ text ".exclude must be a list of the values to leave out, not " ++ type ++ text ".") ++
  match spec.lookup (text "overrides") with
  | none => []
  | some (.obj overrides) => overrides.flatMap fun u => overrideProblems quote axis place u.1 u.2
  | some overrides =>
    [place ++ text "." ++ axis.key ++ text ".overrides must be an object keyed by value, not " ++
      typeName overrides ++ text "."]

/-- `_entry_problems` -/
def entryProblems (entry : Json) (axis : Axis) (position : Nat) (place : Text) : List Text :=
  let at' := place ++ text "." ++ axis.key ++ text "[" ++ intText position ++ text "]"
  if isScalar entry then []
  else match entry with
    | .obj fields =>
      (match fields.lookup (text "value") with
        | none =>
          [at' ++ text " has no 'value', so it is dropped and the list draws one entry shorter. A value is whatever the device reports and accepts for it (a port number, a name, an address)."]
        | some value =>
          if isScalar value then []
          else [at' ++ text ".value must be a number or text, not " ++ typeName value ++ text "."]) ++
      strayProblem quote fields (entryKeys axis) (fun stray =>
        at' ++ text " sets " ++ stray ++ text ", which a " ++ axis.singular ++ text " does not have. It may say " ++
          joined (entryKeys axis) ++ text ".") ++
      shapeProblem fields (text "route") isList (fun type =>
        at' ++ text ".route must be a list of actions (an empty list makes the row deliberately do nothing), not " ++
          type ++ text ".") ++
      shapeProblem fields (text "report_value") isScalar fun type =>
        at' ++ text ".report_value must be a number or text -- it is what the device calls this source when it reports one -- not " ++
          type ++ text "."
    | _ =>
      [at' ++ text " must be an entry object or a bare value, not " ++ typeName entry ++
        text " -- and an entry the renderer cannot read is dropped, so the list draws shorter than it was written."]

/-- What `matrix_config_problems` says of one axis. -/
def axisProblems (fields : Entry) (axis : Axis) (place : Text) : List Text :=
  match fields.lookup axis.key with
  | none => []
  | some (.obj spec) => generatorProblems quote spec axis place
  | some (.arr spec) => spec.zipIdx.flatMap fun u => entryProblems quote u.1 axis u.2 place
  | some spec =>
    [place ++ text "." ++ axis.key ++ text " must be a list of entries or a generator object, not " ++
      typeName spec ++ text "."]

/-- What `matrix_config_problems` says of one preset. -/
def presetProblems (preset : Json) (position : Nat) (place : Text) : List Text :=
  let at' := place ++ text ".presets[" ++ intText position ++ text "]"
  match preset with
  | .obj fields =>
    strayProblem quote fields presetKeys fun stray =>
      at' ++ text " sets " ++ stray ++ text "; a preset button is a 'name' and the 'macro' it runs."
  | _ => [at' ++ text " must be an object with a name and the macro it runs, not " ++ typeName preset ++ text "."]

/-- `matrix_config_problems` -/
def matrixConfigProblems (config : Json) (place : Text) : List Text :=
  match config with
  | .null => []
  | .obj fields =>
    axisProblems quote fields .sources place ++ axisProblems quote fields .destinations place ++
    flagKeys.flatMap (fun flag => shapeProblem fields flag isBool fun type =>
      place ++ text "." ++ flag ++ text " must be true or false, not " ++ type ++ text ".") ++
    match fields.lookup (text "presets") with
    | none => []
    | some (.arr presets) => presets.zipIdx.flatMap fun u => presetProblems quote u.1 u.2 place
    | some presets => [place ++ text ".presets must be a list, not " ++ typeName presets ++ text "."]
  | _ => [place ++ text " must be an object, not " ++ typeName config ++ text "."]

variable {quote}

/-! ### What passes -/

theorem strayProblem_eq_nil {fields : Entry} {allowed : List Text} {say : Text → Text} :
    strayProblem quote fields allowed say = [] ↔ ∀ u ∈ fields, u.1 ∈ allowed := by
  have none' : unknown fields allowed = [] ↔ ∀ u ∈ fields, u.1 ∈ allowed := by
    have sorted := List.perm_insertionSort (· ≤ ·) ((fields.map Prod.fst).filter (· ∉ allowed))
    rw [unknown, ← List.length_eq_zero_iff, sorted.length_eq, List.length_eq_zero_iff, List.filter_eq_nil_iff]
    simp
  rw [← none', strayProblem]
  cases unknown fields allowed with
  | nil => simp
  | cons stray rest => simp

theorem shapeProblem_eq_nil {fields : Entry} {key : Text} {ok : Json → Bool} {say : Text → Text} :
    shapeProblem fields key ok say = [] ↔ ∀ value, fields.lookup key = some value → ok value = true := by
  rw [shapeProblem]
  cases fields.lookup key with
  | none => simp
  | some value =>
    by_cases fits : ok value = true
    · simp [fits]
    · simp [fits]

/-- The field of a dict that is a list where it is there, and the items of the list. -/
theorem exists_items {fields : Entry} {key : Text} {say : Text → Text}
    (passes : shapeProblem fields key isList say = []) {value : Json} (found : fields.lookup key = some value) :
    ∃ items, value = .arr items := by
  have list := shapeProblem_eq_nil.mp passes value found
  cases value with
  | arr items => exact ⟨items, rfl⟩
  | null | bool | int | float | constant | str | obj => cases list

/-- What a generator that passes the check is like. -/
structure Generator (spec : Entry) (axis : Axis) : Prop where
  source : ∀ value, spec.lookup (text "from") = some value → ∃ source, value = .obj source
  count : ∀ value, (mapping (spec.lookup (text "from"))).lookup (text "count") = some value → isCount value = true
  values : ∀ value, (mapping (spec.lookup (text "from"))).lookup (text "values") = some value → isList value = true
  exclude : ∀ value, spec.lookup (text "exclude") = some value → isList value = true
  overrides : ∀ u ∈ mapping (spec.lookup (text "overrides")), ∃ fields, u.2 = .obj fields ∧
    ∀ v ∈ fields, v.1 ∈ (entryKeys axis).erase (text "value")

theorem Generator.of_problems {spec : Entry} {axis : Axis} {place : Text}
    (passes : generatorProblems quote spec axis place = []) : Generator spec axis := by
  unfold generatorProblems at passes
  obtain ⟨passes, override⟩ := List.append_eq_nil_iff.mp passes
  obtain ⟨passes, exclude⟩ := List.append_eq_nil_iff.mp passes
  obtain ⟨_, source⟩ := List.append_eq_nil_iff.mp passes
  have written : (∀ value, spec.lookup (text "from") = some value → ∃ source, value = .obj source) ∧
      fromProblems quote (mapping (spec.lookup (text "from"))) axis place = [] := by
    cases found : spec.lookup (text "from") with
    | none => exact ⟨fun _ absent => (nomatch absent), rfl⟩
    | some value =>
      rw [found] at source
      cases value with
      | obj fields => exact ⟨fun _ same => ⟨fields, (Option.some.inj same).symm⟩, source⟩
      | null | bool | int | float | constant | str | arr => cases source
  obtain ⟨mapped, source⟩ := written
  unfold fromProblems at source
  obtain ⟨source, lists⟩ := List.append_eq_nil_iff.mp source
  have counted := shapeProblem_eq_nil.mp (List.append_eq_nil_iff.mp source).2
  have valued := shapeProblem_eq_nil.mp (List.flatMap_eq_nil_iff.mp lists (text "values") List.mem_cons_self)
  refine ⟨mapped, counted, valued, shapeProblem_eq_nil.mp exclude, ?_⟩
  intro u member
  cases found : spec.lookup (text "overrides") with
  | none =>
    rw [found] at member
    cases member
  | some value =>
    rw [found] at member override
    cases value with
    | obj overrides =>
      have fits := List.flatMap_eq_nil_iff.mp override u member
      cases which : u.2 with
      | obj fields =>
        rw [which, overrideProblems] at fits
        exact ⟨fields, rfl, strayProblem_eq_nil.mp fits⟩
      | null | bool | int | float | constant | str | arr =>
        rw [which] at fits
        cases fits
    | null | bool | int | float | constant | str | arr => cases member

/-- What a written entry that passes the check is like: a bare value, or an object with one. -/
theorem entry_of_problems {entry : Json} {axis : Axis} {position : Nat} {place : Text}
    (passes : entryProblems quote entry axis position place = []) :
    isScalar entry = true ∨ ∃ fields value, entry = .obj fields ∧ fields.lookup (text "value") = some value := by
  unfold entryProblems at passes
  by_cases bare : isScalar entry = true
  · exact Or.inl bare
  · rw [if_neg bare] at passes
    cases entry with
    | obj fields =>
      obtain ⟨passes, _⟩ := List.append_eq_nil_iff.mp passes
      obtain ⟨passes, _⟩ := List.append_eq_nil_iff.mp passes
      obtain ⟨passes, _⟩ := List.append_eq_nil_iff.mp passes
      cases found : fields.lookup (text "value") with
      | none =>
        rw [found] at passes
        cases passes
      | some value => exact Or.inr ⟨fields, value, rfl, found⟩
    | null | bool | int | float | constant | str | arr => cases passes

theorem axis_of_problems {fields : Entry} {place : Text} (passes : matrixConfigProblems quote (.obj fields) place = [])
    (axis : Axis) : axisProblems quote fields axis place = [] := by
  unfold matrixConfigProblems at passes
  obtain ⟨passes, _⟩ := List.append_eq_nil_iff.mp passes
  obtain ⟨passes, _⟩ := List.append_eq_nil_iff.mp passes
  obtain ⟨sources, destinations⟩ := List.append_eq_nil_iff.mp passes
  cases axis with
  | sources => exact sources
  | destinations => exact destinations

end OpenAvc.Panels.Matrix
