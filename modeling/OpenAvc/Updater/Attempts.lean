import OpenAvc.Updater.Marker

namespace OpenAvc.Updater

variable {P : Python} {file : Option Bytes}

theorem lift_ok {α : Type} (a : α) : (lift (.ok a) : Op α) file = .ok a file := rfl

theorem lift_error {α : Type} (e : Raise) : (lift (.error e) : Op α) file = .error e file := rfl

/-- What is read of the marker, and the file as it was. -/
def marker (P : Python) (file : Option Bytes) : Except Raise Json :=
  match file with
  | none => .ok .null
  | some bytes =>
    match decodeUtf8 bytes with
    | none => .error .unicode
    | some t => (loads P t).map (·.getD .null)

theorem readPendingMarker_eq : readPendingMarker P file = lift (marker P file) file := by
  unfold readPendingMarker marker
  rw [EStateM.get_bind]
  cases file with
  | none => rfl
  | some bytes =>
    dsimp only
    cases decodeUtf8 bytes with
    | none => rfl
    | some t =>
      dsimp only
      cases loads P t <;> rfl

/-- The counter can be raised: it is missing, or a number that is not the
longest one there is. -/
def countable : Option Json → Prop
  | none => True
  | some (.int n) => n + 1 < 10 ^ Json.Scan.intLimit
  | some (.bool _) | some (.float _) | some (.constant _) => True
  | some _ => False

/-- A marker that a startup in the boot `boot` reads and rewrites without raising. -/
def Sound (boot : Option Text) : Json → Prop
  | .null => True
  | .obj data => sameBoot boot (data.lookup (text "boot")) = true → countable (data.lookup (text "attempts"))
  | _ => False

/-- A marker file that a startup in the boot `boot` reads and rewrites without
raising: it is not there, or it is text in UTF-8 that is no JSON, `null` or an
object whose counter can be raised. -/
def Quiet (P : Python) (boot : Option Text) (file : Option Bytes) : Prop :=
  ∀ bytes, file = some bytes → ∃ t, decodeUtf8 bytes = some t ∧
    (loads P t = .ok none ∨ ∃ v, loads P t = .ok (some v) ∧ Sound boot v)

theorem quiet_iff {boot : Option Text} :
    Quiet P boot file ↔ ∃ v, marker P file = .ok v ∧ Sound boot v := by
  cases file with
  | none => exact ⟨fun _ => ⟨.null, rfl, trivial⟩, fun _ => nofun⟩
  | some bytes =>
    constructor
    · intro quiet
      obtain ⟨t, decoded, noJson | ⟨v, reads, sound⟩⟩ := quiet bytes rfl
      · exact ⟨.null, by simp [marker, decoded, noJson, Except.map], trivial⟩
      · exact ⟨v, by simp [marker, decoded, reads, Except.map], sound⟩
    · rintro ⟨v, reads, sound⟩ _ ⟨⟩
      simp only [marker] at reads
      cases decoded : decodeUtf8 bytes with
      | none => rw [decoded] at reads; cases reads
      | some t =>
        rw [decoded] at reads
        refine ⟨t, rfl, ?_⟩
        cases loaded : loads P t with
        | error e => simp [loaded, Except.map] at reads
        | ok w =>
          simp only [loaded, Except.map, Except.ok.injEq] at reads
          cases w with
          | none => exact Or.inl rfl
          | some w =>
            obtain rfl : w = v := reads
            exact Or.inr ⟨w, rfl, sound⟩

theorem marker_writable {v : Json} (reads : marker P file = .ok v) : Json.writable P.room v = true := by
  unfold marker at reads
  cases file with
  | none => cases reads; rfl
  | some bytes =>
    cases decoded : decodeUtf8 bytes with
    | none => simp [decoded] at reads
    | some t =>
      simp only [decoded, loads] at reads
      cases loaded : Json.loads P.room t with
      | ok w =>
        simp only [loaded, Except.map, Except.ok.injEq] at reads
        obtain rfl : w = v := reads
        exact Json.loads_writable loaded
      | error e =>
        cases e with
        | recursion => simp [loaded, Except.map] at reads
        | value =>
          simp only [loaded] at reads
          split at reads
          · cases reads
          · cases reads; rfl

theorem set_writable {data : List (Text × Json)} {v : Json} (k : Text)
    (fits : Json.writable P.room (.obj data) = true) (value : ∀ room, Json.writable room v = true) : Json.writable P.room (.obj (Dict.set data k v)) = true := by
  simp only [Json.writable, Bool.and_eq_true, Json.writableFields_iff] at fits ⊢
  refine ⟨fits.1, fun u member => ?_⟩
  rcases Dict.mem_set member with rfl | old
  · exact value _
  · exact fits.2 u old

theorem writeMarker_ok {data : Json} (fits : Json.writable P.room data = true) (file : Option Bytes) :
    writeMarker P data file = .ok () (some (encodeUtf8 (Json.dumps {} data))) := by
  unfold writeMarker dumps
  rw [if_pos fits]
  rfl

/-- What a startup leaves behind where the marker is an object. -/
theorem recordStartupAttempt_obj {boot : Option Text} {data : List (Text × Json)}
    (reads : marker P file = .ok (.obj data)) :
    recordStartupAttempt P boot file =
      if sameBoot boot (data.lookup (text "boot")) then
        (do
          let attempts ← lift (plusOne P ((data.lookup (text "attempts")).getD (.int 0)))
          writeMarker P (.obj (Dict.set data (text "attempts") attempts))
          return attempts : Op Json) file
      else
        (do
          writeMarker P (.obj (Dict.set (Dict.set data (text "attempts") (.int 1)) (text "boot") (boot.elim .null .str)))
          return .int 1 : Op Json) file := by
  have first : readPendingMarker P file = .ok (.obj data) file := by
    rw [readPendingMarker_eq, reads]
    rfl
  unfold recordStartupAttempt
  rw [EStateM.bind_of_ok first]
  dsimp only
  split <;> rfl

theorem int_writable {n : Int} (small : n.natAbs < 10 ^ Json.Scan.intLimit) (room : Nat) :
    Json.writable room (.int n) = true := by
  simpa only [Json.writable, decide_eq_true_eq] using small

theorem one_small : (1 : Int).natAbs < 10 ^ Json.Scan.intLimit := Nat.one_lt_pow (by decide) (by decide)

/-- One more attempt is counted and can be written, or it cannot. -/
theorem plusOne_cases {v : Option Json} {within : Nat} (fits : ∀ w, v = some w → Json.writable within w = true) :
    (countable v ∧ ∃ w, plusOne P (v.getD (.int 0)) = .ok w ∧ ∀ room, Json.writable room w = true) ∨
      ¬countable v ∧ ∀ w, plusOne P (v.getD (.int 0)) = .ok w → ∀ room, Json.writable room w = false := by
  match v, fits with
  | none, _ => exact Or.inl ⟨trivial, .int 1, rfl, int_writable one_small⟩
  | some (.int n), fits =>
    have old := fits _ rfl
    simp only [Json.writable, decide_eq_true_eq] at old
    have cast : ((10 ^ Json.Scan.intLimit : Nat) : Int) = 10 ^ Json.Scan.intLimit := by push_cast; rfl
    by_cases room : n + 1 < 10 ^ Json.Scan.intLimit
    · refine Or.inl ⟨room, .int (n + 1), rfl, int_writable ?_⟩
      rw [← cast] at room
      omega
    · refine Or.inr ⟨room, ?_⟩
      rintro w ⟨⟩ _
      rw [← cast] at room
      simp only [Json.writable, decide_eq_false_iff_not]
      omega
  | some (.bool b), _ =>
    refine Or.inl ⟨trivial, _, rfl, int_writable ?_⟩
    have two : (2 : Nat) < 10 ^ Json.Scan.intLimit :=
      lt_of_lt_of_le (by decide : 2 < 10 ^ 1) (Nat.pow_le_pow_right (by decide) (by decide))
    cases b
    · exact one_small
    · exact two
  | some (.float d), _ =>
    refine Or.inl ⟨trivial, _, rfl, fun room => ?_⟩
    rcases P.plusOne_float d with ⟨e, same⟩ | ⟨name, same⟩ <;> rw [same] <;> rfl
  | some (.constant name), _ => exact Or.inl ⟨trivial, _, rfl, fun _ => rfl⟩
  | some .null, _ | some (.str _), _ | some (.arr _), _ | some (.obj _), _ => exact Or.inr ⟨id, nofun⟩

theorem writeMarker_error {data : Json} (long : Json.writable P.room data = false) :
    writeMarker P data file = .error .value file := by
  unfold writeMarker dumps
  rw [if_neg (by simp [long])]
  rfl

/-- An attempt is counted, or the file stays as it was. -/
theorem recordStartupAttempt_cases (boot : Option Text) {data : List (Text × Json)}
    (reads : marker P file = .ok (.obj data)) :
    (Sound boot (.obj data) ∧ ∃ n file', recordStartupAttempt P boot file = .ok n file') ∨
      ¬Sound boot (.obj data) ∧ ∃ e, recordStartupAttempt P boot file = .error e file := by
  rw [recordStartupAttempt_obj reads]
  have fits := marker_writable reads
  by_cases same : sameBoot boot (data.lookup (text "boot")) = true
  · rw [if_pos same]
    have values : ∀ w, data.lookup (text "attempts") = some w → Json.writable (P.room - 1) w = true := by
      intro w found
      simp only [Json.writable, Bool.and_eq_true, Json.writableFields_iff] at fits
      exact fits.2 _ (List.mem_of_lookup_eq_some found)
    rcases plusOne_cases (P := P) values with ⟨counts, w, sum, short⟩ | ⟨countless, long⟩
    · obtain ⟨file', written⟩ : ∃ file', writeMarker P (.obj (Dict.set data (text "attempts") w)) file = .ok () file' :=
        ⟨_, writeMarker_ok (set_writable _ fits short) file⟩
      refine Or.inl ⟨fun _ => counts, w, file', ?_⟩
      rw [sum, EStateM.bind_of_ok (lift_ok w), EStateM.bind_of_ok written]
      rfl
    · refine Or.inr ⟨fun sound => countless (sound same), ?_⟩
      cases sum : plusOne P ((data.lookup (text "attempts")).getD (.int 0)) with
      | error e => exact ⟨e, by rw [EStateM.bind_of_error (lift_error e)]⟩
      | ok w =>
        have refused : Json.writable P.room (.obj (Dict.set data (text "attempts") w)) = false := by
          have member : (text "attempts", w) ∈ Dict.set data (text "attempts") w :=
            List.mem_of_lookup_eq_some (Dict.lookup_set_self data _ w)
          rw [Json.writable, Bool.and_eq_false_iff]
          refine Or.inr (Bool.eq_false_iff.mpr fun fits => ?_)
          have kept := Json.writableFields_iff.mp fits _ member
          rw [long w sum] at kept
          cases kept
        refine ⟨.value, ?_⟩
        rw [EStateM.bind_of_ok (lift_ok w), EStateM.bind_of_error (writeMarker_error refused)]
  · rw [if_neg same]
    have boots : ∀ room, Json.writable room (boot.elim .null .str) = true := by
      intro room
      cases boot <;> rfl
    obtain ⟨file', written⟩ : ∃ file', writeMarker P (.obj (Dict.set (Dict.set data (text "attempts") (.int 1))
        (text "boot") (boot.elim .null .str))) file = .ok () file' :=
      ⟨_, writeMarker_ok (set_writable _ (set_writable _ fits (int_writable one_small)) boots) file⟩
    refine Or.inl ⟨fun here => absurd here same, .int 1, file', ?_⟩
    rw [EStateM.bind_of_ok written]
    rfl

theorem checkRollbackNeeded_of_marker {boot : Option Text} {v : Json} (reads : marker P file = .ok v) (present : v ≠ .null) :
    checkRollbackNeeded P boot file = (do return atLeastTwo (← recordStartupAttempt P boot) : Op Bool) file := by
  have first : readPendingMarker P file = .ok v file := by
    rw [readPendingMarker_eq, reads]
    rfl
  unfold checkRollbackNeeded
  rw [EStateM.bind_of_ok first]
  cases v with
  | null => exact absurd rfl present
  | _ => rfl

theorem checkRollbackNeeded_of_no_marker {boot : Option Text} (reads : marker P file = .ok .null) :
    checkRollbackNeeded P boot file = .ok false file := by
  have first : readPendingMarker P file = .ok .null file := by
    rw [readPendingMarker_eq, reads]
    rfl
  unfold checkRollbackNeeded
  rw [EStateM.bind_of_ok first]
  rfl

/-- A marker that is no object has no `get`. -/
theorem checkRollbackNeeded_of_other {boot : Option Text} {v : Json} (reads : marker P file = .ok v) (present : v ≠ .null)
    (other : v.isObj = false) : checkRollbackNeeded P boot file = .error .attribute file := by
  have first : readPendingMarker P file = .ok v file := by
    rw [readPendingMarker_eq, reads]
    rfl
  have raises : recordStartupAttempt P boot file = .error .attribute file := by
    unfold recordStartupAttempt
    rw [EStateM.bind_of_ok first]
    cases v with
    | null => exact absurd rfl present
    | obj data => cases other
    | _ => rfl
  rw [checkRollbackNeeded_of_marker reads present, EStateM.bind_of_error raises]

/-- A startup reads and rewrites its marker, or raises. -/
theorem check_returns {boot : Option Text} :
    (∃ r file', checkRollbackNeeded P boot file = .ok r file') ↔ Quiet P boot file := by
  rw [quiet_iff]
  have first : readPendingMarker P file = lift (marker P file) file := readPendingMarker_eq
  cases reads : marker P file with
  | error e =>
    rw [reads] at first
    have raises : checkRollbackNeeded P boot file = .error e file := EStateM.bind_of_error first _
    simp [raises]
  | ok v =>
    rw [reads] at first
    by_cases absent : v = .null
    · subst absent
      exact ⟨fun _ => ⟨.null, rfl, trivial⟩, fun _ => ⟨false, file, checkRollbackNeeded_of_no_marker reads⟩⟩
    · cases v with
      | null => exact absurd rfl absent
      | obj data =>
        rw [checkRollbackNeeded_of_marker reads absent]
        rcases recordStartupAttempt_cases boot reads with ⟨sound, n, file', records⟩ | ⟨unsound, e, raises⟩
        · refine ⟨fun _ => ⟨_, rfl, sound⟩, fun _ => ⟨atLeastTwo n, file', ?_⟩⟩
          rw [EStateM.bind_of_ok records]
          rfl
        · rw [EStateM.bind_of_error raises]
          constructor
          · rintro ⟨_, _, ⟨⟩⟩
          · rintro ⟨_, ⟨⟩, sound⟩
            exact absurd sound unsound
      | _ =>
        rw [checkRollbackNeeded_of_other reads absent rfl]
        constructor
        · rintro ⟨_, _, ⟨⟩⟩
        · rintro ⟨_, ⟨⟩, sound⟩
          exact sound.elim

end OpenAvc.Updater
