import OpenAvc.Logins.Project
import OpenAvc.Run.Outcome

namespace OpenAvc.Logins

open Json (Path Step)

/-- A usable login stands at `q`. -/
def LoginAt (v : Json) (q : Path) : Prop :=
  ∃ t, v.heads q = some (.leaf (.str t)) ∧ usable t = true

/-- `p'` is `p` with the marker over each login in a place of `M`. -/
structure Marks (M : Path → Prop) (p p' : Json) : Prop where
  marked : ∀ q, M q → LoginAt p q → p'.heads q = some (.leaf marker)
  kept : ∀ q, ¬(M q ∧ LoginAt p q) → p'.heads q = p.heads q

/-- `p'` is `p` with the marker over some of the logins in places of `M`. -/
def OnlyMarks (M : Path → Prop) (p p' : Json) : Prop :=
  ∀ q, p'.heads q = p.heads q ∨ M q ∧ LoginAt p q ∧ p'.heads q = some (.leaf marker)

variable {M N : Path → Prop} {p p' p'' : Json} {q : Path}

theorem LoginAt.congr (same : p.heads q = p'.heads q) (login : LoginAt p q) : LoginAt p' q := by
  obtain ⟨t, here, valid⟩ := login
  exact ⟨t, same ▸ here, valid⟩

theorem marker_not_login (there : p.heads q = some (.leaf marker)) : ¬LoginAt p q := by
  rintro ⟨t, here, valid⟩
  rw [there] at here
  cases here
  exact absurd valid (by decide)

theorem Marks.refl (p : Json) : Marks (fun _ => False) p p := ⟨fun _ none => none.elim, fun _ _ => rfl⟩

theorem Marks.trans (first : Marks M p p') (second : Marks N p' p'') : Marks (fun q => M q ∨ N q) p p'' := by
  have unmarked : ∀ q, ¬(M q ∧ LoginAt p q) → (LoginAt p' q ↔ LoginAt p q) := fun q not =>
    ⟨LoginAt.congr (first.kept q not), LoginAt.congr (first.kept q not).symm⟩
  constructor
  · intro q either login
    by_cases early : M q
    · have there := first.marked q early login
      rw [second.kept q fun late => marker_not_login there late.2, there]
    · have not : ¬(M q ∧ LoginAt p q) := fun h => early h.1
      exact second.marked q (either.resolve_left early) ((unmarked q not).mpr login)
  · intro q neither
    have not : ¬(M q ∧ LoginAt p q) := fun h => neither ⟨Or.inl h.1, h.2⟩
    rw [second.kept q fun late => neither ⟨Or.inr late.1, (unmarked q not).mp late.2⟩, first.kept q not]

theorem Marks.congr (marks : Marks M p p') (same : ∀ q, LoginAt p q → (M q ↔ N q)) : Marks N p p' :=
  ⟨fun q place login => marks.marked q ((same q login).mpr place) login,
    fun q neither => marks.kept q fun both => neither ⟨(same q both.2).mp both.1, both.2⟩⟩

theorem Marks.only (marks : Marks M p p') : OnlyMarks M p p' := by
  intro q
  by_cases both : M q ∧ LoginAt p q
  · exact Or.inr ⟨both.1, both.2, marks.marked q both.1 both.2⟩
  · exact Or.inl (marks.kept q both)

theorem OnlyMarks.refl (M : Path → Prop) (p : Json) : OnlyMarks M p p := fun _ => Or.inl rfl

theorem OnlyMarks.mono (marks : OnlyMarks M p p') (more : ∀ q, M q → N q) : OnlyMarks N p p' := fun q =>
  (marks q).imp_right fun changed => ⟨more q changed.1, changed.2⟩

theorem OnlyMarks.trans (first : OnlyMarks M p p') (second : OnlyMarks M p' p'') : OnlyMarks M p p'' := by
  intro q
  rcases first q with same | ⟨place, login, there⟩
  · rcases second q with same' | ⟨place, login, there⟩
    · exact Or.inl (same'.trans same)
    · exact Or.inr ⟨place, login.congr same, there⟩
  · rcases second q with same' | ⟨_, login', _⟩
    · exact Or.inr ⟨place, login, same'.trans there⟩
    · exact absurd login' (marker_not_login there)

theorem usableText_eq {v : Json} {t : Text} : usableText v = some t ↔ v = .str t ∧ usable t = true := by
  cases v with
  | str s =>
    simp only [usableText, Json.str.injEq]
    constructor
    · intro same
      split at same
      · cases same
        exact ⟨rfl, by assumption⟩
      · cases same
    · rintro ⟨rfl, valid⟩
      rw [if_pos valid]
  | _ => simp [usableText]

/-- The heads of a holder that has been marked. -/
theorem heads_marked (names : List Text) (fields : List (Text × Json)) :
    Marks (fun q => ∃ n ∈ names, q = [.key n]) (.obj fields)
      (.obj (fields.map fun u => (u.1, if u.1 ∈ names ∧ (usableText u.2).isSome then marker else u.2))) := by
  have at_key : ∀ k r, (Json.obj (fields.map fun u => (u.1, if u.1 ∈ names ∧ (usableText u.2).isSome then marker else u.2))).heads
      (.key k :: r) = ((fields.lookup k).map fun v =>
        if k ∈ names ∧ (usableText v).isSome then marker else v).bind fun v => v.heads r := by
    intro k r
    have moved := List.lookup_map_items (f := id) Function.injective_id
      (fun k v => if k ∈ names ∧ (usableText v).isSome then marker else v) k fields
    simp only [id] at moved
    simp only [Json.heads, Json.node_obj_key, moved, Option.map_bind]
    rfl
  constructor
  · rintro q ⟨n, member, rfl⟩ ⟨t, here, valid⟩
    rw [Json.heads_eq_str] at here
    simp only [Json.node_obj_key, Json.node_nil, Option.bind_eq_some_iff] at here
    obtain ⟨v, found, same⟩ := here
    cases same
    have usableHere : usableText (.str t) = some t := usableText_eq.mpr ⟨rfl, valid⟩
    rw [at_key, found]
    simp [member, usableHere, marker, Json.head]
  · intro q neither
    cases q with
    | nil => simp [Json.head]
    | cons s r =>
      cases s with
      | idx i => simp [Json.heads, Json.node]
      | key k =>
        rw [at_key, Json.heads, Json.node_obj_key, Option.map_bind]
        cases found : fields.lookup k with
        | none => rfl
        | some v =>
          simp only [Option.map_some, Option.bind_some]
          by_cases login : k ∈ names ∧ (usableText v).isSome
          · obtain ⟨member, present⟩ := login
            obtain ⟨t, read⟩ := Option.isSome_iff_exists.mp present
            obtain ⟨rfl, valid⟩ := usableText_eq.mp read
            rw [if_pos ⟨member, present⟩]
            cases r with
            | nil =>
              refine absurd ⟨⟨k, member, rfl⟩, t, ?_, valid⟩ neither
              rw [Json.heads_eq_str]
              simp [found]
            | cons s r =>
              simp only [Function.comp, Json.heads, marker, Json.node_str_append _ (List.cons_ne_nil s r)]
          · rw [if_neg login]
            rfl

/-- A holder that is marked within a project. -/
theorem putMarked_marks (project : Json) (path : Path) (names : List Text) :
    Marks (fun q => ∃ n ∈ names, q = path ++ [.key n]) project (putMarked project path names) := by
  have under : ∀ {n : Text}, LoginAt project (path ++ [.key n]) →
      ∃ fields t, project.node path = some (.obj fields) ∧ fields.lookup n = some (.str t) ∧ usable t = true := by
    rintro n ⟨t, here, valid⟩
    rw [Json.heads_eq_str, Json.node_append, Option.bind_eq_some_iff] at here
    obtain ⟨c, found, inner⟩ := here
    cases c with
    | obj fields =>
      simp only [Json.node_obj_key, Json.node_nil, Option.bind_eq_some_iff] at inner
      obtain ⟨v, member, same⟩ := inner
      cases same
      exact ⟨fields, t, found, member, valid⟩
    | _ => simp [Json.node] at inner
  unfold putMarked
  cases holder : markHolder names (project.node path) with
  | none =>
    refine ⟨?_, fun _ _ => rfl⟩
    rintro q ⟨n, member, rfl⟩ login
    obtain ⟨fields, t, found, value, valid⟩ := under login
    have present : (names.any fun n => ((fields.lookup n).bind usableText).isSome) = true :=
      List.any_eq_true.mpr ⟨n, member, by rw [value]; simp [usableText_eq.mpr ⟨rfl, valid⟩]⟩
    rw [found, markHolder, if_pos present] at holder
    cases holder
  | some w =>
    cases found : project.node path with
    | none => rw [found] at holder; cases holder
    | some c =>
      cases c with
      | obj fields =>
        rw [found, markHolder] at holder
        split at holder
        · cases holder
          have inner := heads_marked names fields
          constructor
          · rintro q ⟨n, member, rfl⟩ login
            rw [Json.heads_put found]
            refine inner.marked _ ⟨n, member, rfl⟩ ?_
            obtain ⟨t, here, valid⟩ := login
            exact ⟨t, Json.heads_append found _ ▸ here, valid⟩
          · intro q neither
            by_cases inside : path <+: q
            · obtain ⟨r, rfl⟩ := inside
              rw [Json.heads_put found, Json.heads_append found]
              refine inner.kept r ?_
              rintro ⟨⟨n, member, rfl⟩, t, here, valid⟩
              exact neither ⟨⟨n, member, rfl⟩, t, (Json.heads_append found _).trans here, valid⟩
            · exact Json.heads_put_of_not_prefix found inside
        · cases holder
      | _ => rw [found] at holder; cases holder

/-! Devices. -/

/-- The device at index `i` has this id and this driver. -/
def DeviceAt (project : Json) (i : Nat) (deviceId driver : Text) : Prop :=
  (project.node (devicePath i)).bind deviceName = some (deviceId, driver)

theorem deviceAt_iff {i : Nat} {deviceId driver : Text} : DeviceAt p i deviceId driver ↔
    p.heads (devicePath i ++ [.key (text "id")]) = some (.leaf (.str deviceId)) ∧
      p.heads (devicePath i ++ [.key (text "driver")]) = some (.leaf (.str driver)) := by
  simp only [Json.heads_eq_str, Json.node_append, DeviceAt]
  cases p.node (devicePath i) with
  | none => simp
  | some device =>
    simp only [Option.bind_some, deviceName, ← Json.get?_eq_node]
    constructor
    · intro named
      split at named
      · rename_i a b first second
        cases named
        exact ⟨first, second⟩
      · cases named
    · rintro ⟨first, second⟩
      rw [first, second]

theorem DeviceAt.unique {i : Nat} {deviceId driver deviceId' driver' : Text} (here : DeviceAt p i deviceId driver)
    (here' : DeviceAt p i deviceId' driver') : deviceId = deviceId' ∧ driver = driver' := by
  have same := here.symm.trans here'
  cases same
  exact ⟨rfl, rfl⟩

/-- A place for a setting of a device: in its config or in its connection row. -/
inductive DevicePlace (project : Json) (deviceId driver name : Text) : Path → Prop
  | config {i : Nat} (device : DeviceAt project i deviceId driver) :
    DevicePlace project deviceId driver name (configPath i ++ [.key name])
  | row {i : Nat} (device : DeviceAt project i deviceId driver) :
    DevicePlace project deviceId driver name (rowPath deviceId ++ [.key name])

theorem texts_apart : text "connections" ≠ text "devices" ∧ text "plugins" ≠ text "devices" ∧
    text "plugins" ≠ text "connections" ∧ text "isc" ≠ text "devices" ∧ text "isc" ≠ text "connections" ∧
    text "isc" ≠ text "plugins" := by decide

theorem config_ne_device (i j : Nat) (n k : Text) : configPath i ++ [.key n] ≠ devicePath j ++ [.key k] := by
  intro same
  simpa [configPath, devicePath] using congrArg List.length same

theorem row_ne_device (deviceId : Text) (j : Nat) (n k : Text) :
    rowPath deviceId ++ [.key n] ≠ devicePath j ++ [.key k] := by
  intro same
  simp [rowPath, devicePath, texts_apart.1] at same

/-- Marks that leave every id and driver where they are. -/
theorem DeviceAt.kept {i : Nat} {deviceId driver : Text}
    (same : ∀ k, p'.heads (devicePath i ++ [.key k]) = p.heads (devicePath i ++ [.key k])) :
    DeviceAt p' i deviceId driver ↔ DeviceAt p i deviceId driver := by
  rw [deviceAt_iff, deviceAt_iff, same, same]

/-- The places that a turn of `_marked_devices` marks. -/
def Wanted (wanted : List ((Text × Text) × List Text)) (project : Json) (i : Nat) (q : Path) : Prop :=
  ∃ deviceId driver names, DeviceAt project i deviceId driver ∧ wanted.lookup (deviceId, driver) = some names ∧
    ((∃ n ∈ names, q = configPath i ++ [.key n]) ∨ ∃ n ∈ names, q = rowPath deviceId ++ [.key n])

theorem Wanted.not_device {wanted : List ((Text × Text) × List Text)} {i j : Nat} {k : Text}
    (place : Wanted wanted p i (devicePath j ++ [.key k])) : False := by
  obtain ⟨deviceId, driver, names, _, _, ⟨n, _, same⟩ | ⟨n, _, same⟩⟩ := place
  · exact config_ne_device i j n k same.symm
  · exact row_ne_device deviceId j n k same.symm

theorem markDevice_marks {wanted : List ((Text × Text) × List Text)} {i : Nat}
    (turn : markDevice wanted p i = .ok p') : Marks (Wanted wanted p i) p p' := by
  have nothing : (∀ deviceId driver names, DeviceAt p i deviceId driver →
      wanted.lookup (deviceId, driver) = some names → False) → Marks (Wanted wanted p i) p p := fun none =>
    ⟨fun _ ⟨deviceId, driver, names, device, found, _⟩ _ => (none deviceId driver names device found).elim,
      fun _ _ => rfl⟩
  unfold markDevice at turn
  cases found : p.node (devicePath i) with
  | none =>
    rw [found] at turn
    cases turn
    exact nothing fun deviceId driver names device _ => by simp [DeviceAt, found] at device
  | some device =>
    rw [found] at turn
    cases device with
    | obj fields =>
      dsimp only at turn
      split at turn
      · cases turn
      · cases named : deviceName (.obj fields) with
        | none =>
          rw [named] at turn
          cases turn
          exact nothing fun deviceId driver names device _ => by simp [DeviceAt, found, named] at device
        | some name =>
          obtain ⟨deviceId, driver⟩ := name
          have device : DeviceAt p i deviceId driver := by simp [DeviceAt, found, named]
          rw [named] at turn
          cases wants : wanted.lookup (deviceId, driver) with
          | none =>
            simp only [wants] at turn
            cases turn
            refine nothing fun deviceId' driver' names device' found' => ?_
            obtain ⟨rfl, rfl⟩ := device.unique device'
            rw [wants] at found'
            cases found'
          | some names =>
            simp only [wants] at turn
            cases turn
            refine ((putMarked_marks p (configPath i) names).trans (putMarked_marks _ (rowPath deviceId) names)).congr
              fun q _ => ⟨fun place => ⟨deviceId, driver, names, device, wants, place⟩, ?_⟩
            rintro ⟨deviceId', driver', names', device', found', place⟩
            obtain ⟨rfl, rfl⟩ := device.unique device'
            rw [wants] at found'
            cases found'
            exact place
    | _ =>
      cases turn
      exact nothing fun deviceId driver names device _ => by simp [DeviceAt, found, deviceName, Json.get?] at device

/-- The whole walk over the devices. -/
theorem markDevices_marks {wanted : List ((Text × Text) × List Text)} {n : Nat}
    (walk : (List.range n).foldlM (markDevice wanted) p = .ok p') :
    Marks (fun q => ∃ i < n, Wanted wanted p i q) p p' := by
  induction n generalizing p' with
  | zero =>
    cases walk
    exact (Marks.refl p).congr fun q _ => by simp
  | succ n ih =>
    rw [List.range_succ, List.foldlM_append] at walk
    cases before : (List.range n).foldlM (markDevice wanted) p with
    | error e => rw [before] at walk; cases walk
    | ok cur =>
      rw [before] at walk
      have turn : markDevice wanted cur n = .ok p' := by
        cases last : markDevice wanted cur n with
        | error e => simp [bind, Except.bind, last] at walk
        | ok w => simpa [bind, Except.bind, last, pure, Except.pure] using walk
      have earlier := ih before
      refine (earlier.trans (markDevice_marks turn)).congr fun q _ => ?_
      have kept : ∀ deviceId driver, DeviceAt cur n deviceId driver ↔ DeviceAt p n deviceId driver := fun _ _ =>
        DeviceAt.kept fun k => earlier.kept _ fun ⟨⟨i, _, place⟩, _⟩ => place.not_device
      have same : Wanted wanted cur n q ↔ Wanted wanted p n q := by
        simp only [Wanted, kept]
      rw [same]
      constructor
      · rintro (⟨i, before, place⟩ | place)
        · exact ⟨i, by omega, place⟩
        · exact ⟨n, by omega, place⟩
      · rintro ⟨i, before, place⟩
        rcases Nat.lt_succ_iff_lt_or_eq.mp before with early | rfl
        · exact Or.inl ⟨i, early, place⟩
        · exact Or.inr place

end OpenAvc.Logins
