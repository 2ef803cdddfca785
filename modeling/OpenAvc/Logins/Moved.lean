import OpenAvc.Logins.Filing
import OpenAvc.Logins.Restoring
import OpenAvc.Logins.Written

namespace OpenAvc.Logins

open Json (Path Step)

variable {P : Python} {F : Fernet} {R : Registry} {skip : Text → Bool} {typed : Bool} {library : Option Text}
  {project out cur : Json} {s s' : System} {q : Path}

/-! What a device dials. -/

/-- The usable value that stands at a place. -/
def shown (project : Json) (q : Path) : Option Text :=
  (project.node q).bind usableText

/-- The value a device dials for a setting: its connection row's over its config's. -/
def dialledAt (project : Json) (i : Nat) (deviceId name : Text) : Option Text :=
  (shown project (rowPath deviceId ++ [.key name])).or (shown project (configPath i ++ [.key name]))

/-- A login setting of a device that is not skipped, and the value it dials. -/
structure DeviceLogin (R : Registry) (skip : Text → Bool) (project : Json) (i : Nat) (deviceId driver name v : Text) :
    Prop where
  device : DeviceAt project i deviceId driver
  kept : skip deviceId = false
  declared : name ∈ R.loginFields driver
  dials : dialledAt project i deviceId name = some v

theorem loginAt_iff_shown : LoginAt project q ↔ ∃ t, shown project q = some t := by
  unfold LoginAt shown
  simp only [Json.heads_eq_str, Option.bind_eq_some_iff, usableText_eq]
  constructor
  · rintro ⟨t, here, valid⟩
    exact ⟨t, _, here, rfl, valid⟩
  · rintro ⟨t, _, here, rfl, valid⟩
    exact ⟨t, here, valid⟩

theorem shown_usable {t : Text} (value : shown project q = some t) : usable t = true := by
  obtain ⟨v, _, read⟩ := Option.bind_eq_some_iff.mp value
  exact (usableText_eq.mp read).2

theorem shown_of_str {v : Text} (there : project.heads q = some (.leaf (.str v))) (valid : usable v = true) :
    shown project q = some v := by
  unfold shown
  rw [Json.heads_eq_str.mp there]
  exact usableText_eq.mpr ⟨rfl, valid⟩

theorem shown_of_marker (there : project.heads q = some (.leaf marker)) : shown project q = none := by
  unfold shown
  rw [Json.heads_eq_str.mp there]
  decide

theorem shown_congr (same : out.heads q = project.heads q) : shown out q = shown project q := by
  have agree : ∀ t, shown out q = some t ↔ shown project q = some t := by
    intro t
    constructor
    · intro value
      have text : project.heads q = some (.leaf (.str t)) := by
        obtain ⟨v, here, read⟩ := Option.bind_eq_some_iff.mp value
        obtain ⟨rfl, _⟩ := usableText_eq.mp read
        exact same ▸ Json.heads_eq_str.mpr here
      exact shown_of_str text (shown_usable value)
    · intro value
      have text : out.heads q = some (.leaf (.str t)) := by
        obtain ⟨v, here, read⟩ := Option.bind_eq_some_iff.mp value
        obtain ⟨rfl, _⟩ := usableText_eq.mp read
        exact same.symm ▸ Json.heads_eq_str.mpr here
      exact shown_of_str text (shown_usable value)
  exact Option.ext agree

theorem dialledAt_usable {i : Nat} {deviceId name v : Text} (dials : dialledAt project i deviceId name = some v) :
    usable v = true := by
  unfold dialledAt at dials
  rcases Option.or_eq_some_iff.mp dials with row | ⟨_, config⟩
  · exact shown_usable row
  · exact shown_usable config

/-- A device goes on dialling a value when both its places keep what they
show or show that value. -/
theorem dials_of_places {i : Nat} {deviceId name v : Text} (dials : dialledAt project i deviceId name = some v)
    (row : shown out (rowPath deviceId ++ [.key name]) = shown project (rowPath deviceId ++ [.key name]) ∨
      shown out (rowPath deviceId ++ [.key name]) = some v)
    (config : shown out (configPath i ++ [.key name]) = shown project (configPath i ++ [.key name]) ∨
      shown out (configPath i ++ [.key name]) = some v) : dialledAt out i deviceId name = some v := by
  unfold dialledAt at *
  rcases row with row | row
  · rcases Option.or_eq_some_iff.mp dials with here | ⟨empty, here⟩
    · rw [row, here]
      rfl
    · rw [row, empty, Option.none_or]
      exact config.elim (fun same => same.trans here) id
  · rw [row]
    rfl

/-- The row of a device, and what it dials. -/
theorem DeviceAt.dialled {devices : List Json} (walks : devicesOf project = .ok devices) {i : Nat}
    {deviceId driver : Text} (here : DeviceAt project i deviceId driver) :
    ∃ row ∈ devices.filterMap (rowOf (connectionsOf project)), row.deviceId = deviceId ∧ row.driver = driver ∧
      ∀ n, row.dialled n = dialledAt project i deviceId n := by
  obtain ⟨row, member, sameId, sameDriver, config, connection⟩ := here.row walks
  refine ⟨row, member, sameId, sameDriver, fun n => ?_⟩
  unfold Row.dialled dialledAt shown
  rw [config, connection]

theorem Row.nodup_collected (row : Row) (names : List Text) {d : List (Text × Text)} (distinct : (d.map Prod.fst).Nodup) :
    ((names.foldl (fun values name =>
      match row.dialled name with
      | some v => Dict.set values name v
      | none => values) d).map Prod.fst).Nodup := by
  induction names generalizing d with
  | nil => exact distinct
  | cons name names ih =>
    rw [List.foldl_cons]
    refine ih ?_
    cases row.dialled name with
    | none => exact distinct
    | some v => exact Dict.nodup_set distinct name v

theorem Row.values_distinct (row : Row) : ((row.values R).map Prod.fst).Nodup :=
  row.nodup_collected (R.loginFields row.driver) List.nodup_nil

/-! What is on file. -/

/-- Stores with equal entries have the same logins. -/
theorem secret_of_same {entries entries' : Entries} (same : sameEntries entries entries' = true) (owner : Owner)
    (field : Text) (library : Option Text) :
    ({ entries } : Store).secret owner field library = ({ entries := entries' } : Store).secret owner field library := by
  unfold Store.secret
  dsimp only
  cases here : entries.lookup (library, owner) with
  | none => rw [Dict.lookup_same_none same here]
  | some e =>
    obtain ⟨e', there, equal⟩ := Dict.lookup_same same here
    unfold Entry.same at equal
    rw [Bool.and_eq_true] at equal
    rw [there, Option.bind_some, Option.bind_some, Dict.lookup_of_same equal.1]

/-- A login is in the login file. -/
def OnFile (P : Python) (F : Fernet) (d : Disk) (owner : Owner) (field : Text) (library : Option Text) : Prop :=
  ∃ entries, FileHolds P F d entries ∧ (({ entries } : Store).secret owner field library).isSome = true

/-- Logins are stored and read back before the project is marked. -/
theorem moveLogins_cases (moves : moveLogins P F R skip typed library project s = .ok out s') :
    ∃ found, findLogins R skip project = .ok found ∧
      (out = project ∧ (s' = s ∨ (stored P F found typed library).after s = s') ∨
        stored P F found typed library s = .ok true s' ∧ markedCopy project found = .ok out) := by
  unfold moveLogins at moves
  obtain ⟨found, s₁, first, rest₁⟩ := EStateM.bind_eq_ok.mp moves
  obtain ⟨finds, same⟩ := ofExcept_ok first
  subst same
  refine ⟨found, finds, ?_⟩
  split at rest₁
  · cases rest₁
    exact Or.inl ⟨rfl, Or.inl rfl⟩
  · obtain ⟨ok, s₂, second, rest₂⟩ := EStateM.bind_eq_ok.mp rest₁
    cases ok with
    | false =>
      cases rest₂
      exact Or.inl ⟨rfl, Or.inr (EStateM.after_of_ok second)⟩
    | true =>
      obtain ⟨copies, same⟩ := ofExcept_ok rest₂
      subst same
      exact Or.inr ⟨second, copies⟩

/-- The copy that comes back differs from the project only by markers over
logins, each of them in the login file. -/
theorem moveLogins_marks (dicts : project.Dicts)
    (moves : moveLogins P F R skip typed library project s = .ok out s') :
    OnlyMarks (fun q => ∃ owner name, LoginSetting R skip project owner name ∧ SettingPlace project owner name q ∧
      OnFile P F s'.disk owner name library) project out := by
  obtain ⟨found, finds, ⟨rfl, _⟩ | ⟨files, copies⟩⟩ := moveLogins_cases moves
  · exact OnlyMarks.refl _ _
  · obtain ⟨_, ⟨entries, holds, same⟩, all⟩ := stored_ok files
    refine (markedCopy_marks dicts finds copies).1.mono fun q ⟨login, member, u, field, place⟩ => ?_
    refine ⟨login.owner, u.1, findLogins_sound dicts finds member field, place, entries, holds, ?_⟩
    rw [secret_of_same same]
    exact all login member u field

/-! What `put_back` gives a device. -/

/-- A place belongs to one setting of one device. -/
theorem DevicePlace.owner (unique : UniqueIds project) {i : Nat} {deviceId driver name name' : Text} {owner : Owner}
    (here : DeviceAt project i deviceId driver)
    (at_q : q = rowPath deviceId ++ [.key name] ∨ q = configPath i ++ [.key name])
    (place : SettingPlace project owner name' q) : owner = deviceOwner deviceId driver ∧ name' = name := by
  have apart := texts_apart.1
  have device : DevicePlace project deviceId driver name q := by
    rcases at_q with rfl | rfl
    · exact .row here
    · exact .config here
  cases place with
  | device place =>
    cases place with
    | config there =>
      rcases at_q with same | same
      · simp only [configPath, devicePath, rowPath, List.cons_append, List.cons.injEq] at same
        exact absurd (Step.key.inj same.1).symm apart
      · simp only [configPath, devicePath, List.cons_append, List.nil_append, List.cons.injEq, Step.idx.injEq,
          Step.key.injEq, true_and, and_true] at same
        obtain ⟨rfl, rfl⟩ := same
        obtain ⟨rfl, rfl⟩ := there.unique here
        exact ⟨rfl, rfl⟩
    | row there =>
      rcases at_q with same | same
      · simp only [rowPath, List.cons_append, List.nil_append, List.cons.injEq, Step.key.injEq, true_and,
          and_true] at same
        obtain ⟨rfl, rfl⟩ := same
        have index := unique _ _ _ _ _ there here
        subst index
        obtain ⟨_, rfl⟩ := there.unique here
        exact ⟨rfl, rfl⟩
      · simp only [configPath, devicePath, rowPath, List.cons_append, List.cons.injEq] at same
        exact absurd (Step.key.inj same.1) apart
  | plugin there held => exact absurd (List.prefix_append _ _) (device.outside.1 _)
  | isc => exact absurd rfl device.outside.2

theorem FoundPlace.not_device {found : List FoundLogin} {i : Nat} {k : Text}
    (place : FoundPlace project found (devicePath i ++ [.key k])) : False := by
  obtain ⟨_, _, _, _, setting⟩ := place
  exact setting_ne_device setting

theorem secret_usable {st : Store} {owner : Owner} {field v : Text} (saved : st.secret owner field library = some v) :
    usable v = true := (Option.filter_eq_some_iff.mp saved).2

theorem view_secret (st : Store) (owner : Owner) (field : Text) :
    (st.view [library]).secret owner field = st.secret owner field library := by
  unfold Store.view
  dsimp only
  rw [List.findSome?_cons]
  cases st.secret owner field library <;> rfl

theorem view_usable (st : Store) (owner : Owner) (field v : Text)
    (saved : (st.view [library]).secret owner field = some v) : usable v = true := by
  rw [view_secret] at saved
  exact secret_usable saved

/-- What a place of a device shows once markers are put back: what it showed,
or the saved login. -/
theorem shown_restored {st : Store} (unique : UniqueIds out) {back : Json}
    (restores : OnlyRestores (Saved out (st.view [library])) out back) {i : Nat} {deviceId driver name : Text}
    (here : DeviceAt out i deviceId driver)
    (at_q : q = rowPath deviceId ++ [.key name] ∨ q = configPath i ++ [.key name]) :
    back.heads q = out.heads q ∨ out.heads q = some (.leaf marker) ∧
      ∃ v, st.secret (deviceOwner deviceId driver) name library = some v ∧ back.heads q = some (.leaf (.str v)) := by
  rcases restores q with same | ⟨marked, v, ⟨owner, name', place, saved⟩, _, there⟩
  · exact Or.inl same
  · obtain ⟨rfl, rfl⟩ := DevicePlace.owner unique here at_q place
    rw [view_secret] at saved
    exact Or.inr ⟨marked, v, saved, there⟩

/-! What is saved for a device. -/

theorem secret_of_hasFields {st : Store} {owner : Owner} {fields : List (Text × Text)} {name v : Text}
    (files : HasFields st.entries (library, owner) fields) (value : fields.lookup name = some v)
    (valid : usable v = true) : st.secret owner name library = some v := by
  obtain ⟨e, there, values⟩ := files
  unfold Store.secret
  rw [there, Option.bind_some, values, value]
  simp [valid]

theorem secret_of_hasNone {st : Store} {owner : Owner} (nothing : HasNone st.entries (library, owner)) (name : Text) :
    st.secret owner name library = none := by
  unfold Store.secret
  cases there : st.entries.lookup (library, owner) with
  | none => rfl
  | some e => simp [nothing e there]

/-- The store held nothing for the devices of a project, once it was loaded. -/
def HeldNothing (P : Python) (F : Fernet) (library : Option Text) (project : Json) (s : System) : Prop :=
  ∀ i deviceId driver, DeviceAt project i deviceId driver →
    HasNone ((load P F).after s).store.entries (library, deviceOwner deviceId driver)

/-- Filing what is found in a project saves the value each device dials. -/
theorem filed_login (unique : UniqueIds project) {found : List FoundLogin}
    (finds : findLogins R skip project = .ok found) {i : Nat} {deviceId driver name v : Text}
    (login : DeviceLogin R skip project i deviceId driver name v) {st : Store} {before : Entries}
    (nothing : HasNone before (library, deviceOwner deviceId driver))
    (filed : st.entries = (found.foldl (fileLogin library typed) (before, false)).1) :
    st.secret (deviceOwner deviceId driver) name library = some v := by
  obtain ⟨devices, walks⟩ := walks_of_finds finds
  obtain ⟨row, member, rfl, rfl, dialled⟩ := login.device.dialled walks
  have value : (row.values R).lookup name = some v := by
    rw [Row.lookup_values, if_pos login.declared, dialled]
    exact login.dials
  have nonempty : row.values R ≠ [] := fun empty => by rw [empty] at value; cases value
  have own := row_found walks finds member login.kept nonempty
  have mine : ∀ l ∈ found, l.owner = deviceOwner row.deviceId row.driver → l.fields = row.values R := by
    intro l listed same
    obtain ⟨row', member', _, _, rfl⟩ := found_device walks finds listed (by rw [same]; rfl)
    have ids := congrArg Owner.name same
    rw [rows_unique unique walks member member' ids]
  refine secret_of_hasFields ?_ value (dialledAt_usable login.dials)
  rw [filed]
  exact (fileLogins_fields row.values_distinct mine (before, false)).2 nothing ⟨_, own, rfl⟩

/-- Once logins were moved, the store has the value a device dials or none,
and has it when the project came back changed. -/
theorem moved_login (unique : UniqueIds project) (moves : moveLogins P F R skip typed library project s = .ok out s')
    (nothing : HeldNothing P F library project s) {s₂ : System} (loads : load P F s' = .ok () s₂) {i : Nat}
    {deviceId driver name v : Text} (login : DeviceLogin R skip project i deviceId driver name v) :
    s₂.store.secret (deviceOwner deviceId driver) name library = some v ∨
      out = project ∧ s₂.store.secret (deviceOwner deviceId driver) name library = none := by
  have held := nothing i deviceId driver login.device
  obtain ⟨found, finds, ⟨rfl, ended⟩ | ⟨files, _⟩⟩ := moveLogins_cases moves
  · have untouched : s' = s → s₂.store.secret (deviceOwner deviceId driver) name library = none := by
      rintro rfl
      rw [EStateM.after_of_ok loads] at held
      exact secret_of_hasNone held name
    rcases ended with same | ended
    · exact Or.inr ⟨rfl, untouched same⟩
    · have ends := EStateM.ends_iff.mp (stored_ends (P := P) (F := F) found library typed s)
      rw [ended] at ends
      rcases ends with same | ⟨loaded, before | filed⟩
      · exact Or.inr ⟨rfl, untouched same⟩
      · have same := (load_ok loads).2 loaded
        subst same
        exact Or.inr ⟨rfl, secret_of_hasNone (before ▸ held) name⟩
      · have same := (load_ok loads).2 loaded
        subst same
        exact Or.inl (filed_login unique finds login held filed)
  · obtain ⟨⟨loaded, s₁, first, filed⟩, _, _⟩ := stored_ok files
    have same := (load_ok loads).2 loaded
    subst same
    rw [EStateM.after_of_ok first] at held
    exact Or.inl (filed_login unique finds login held filed)

/-- A project that only got markers has its devices where they were. -/
theorem OnlyMarks.device {M : Path → Prop} (marks : OnlyMarks M project out)
    (settings : ∀ q, M q → ∃ owner name, SettingPlace project owner name q) {i : Nat} {deviceId driver : Text} :
    DeviceAt out i deviceId driver ↔ DeviceAt project i deviceId driver :=
  DeviceAt.kept fun _ => (marks _).resolve_right fun ⟨place, _, _⟩ => by
    obtain ⟨_, _, setting⟩ := settings _ place
    exact setting_ne_device setting

/-- What moving and putting back makes of one place of a device's login. -/
theorem place_returned (dicts : project.Dicts) (unique : UniqueIds project)
    (moves : moveLogins P F R skip typed library project s = .ok out s') (nothing : HeldNothing P F library project s)
    {s₂ : System} (loads : load P F s' = .ok () s₂) {back : Option Json}
    (puts : putBack out (s₂.store.view [library]) = .ok back) {i : Nat} {deviceId driver name v : Text}
    (login : DeviceLogin R skip project i deviceId driver name v)
    (at_q : q = rowPath deviceId ++ [.key name] ∨ q = configPath i ++ [.key name]) :
    (shown (back.getD out) q = shown project q ∨ shown (back.getD out) q = some v) ∧
      (out ≠ project → LoginAt project q → (back.getD out).node q = some (.str v)) := by
  have marks := moveLogins_marks dicts moves
  have devices : ∀ {j deviceId driver}, DeviceAt out j deviceId driver ↔ DeviceAt project j deviceId driver :=
    marks.device fun _ ⟨owner, name, _, place, _⟩ => ⟨owner, name, place⟩
  have unique' : UniqueIds out := fun i j a b c first second => unique i j a b c (devices.mp first) (devices.mp second)
  obtain ⟨restores, settled⟩ := putBack_restores (marks.dicts dicts) (view_usable s₂.store) puts
  have saved := moved_login unique moves nothing loads login
  have restored := shown_restored unique' restores (devices.mpr login.device) at_q
  have place : ∀ {p : Json}, DeviceAt p i deviceId driver → DevicePlace p deviceId driver name q := by
    intro p here
    rcases at_q with rfl | rfl
    · exact .row here
    · exact .config here
  rcases restored with same | ⟨_, w, value, there⟩
  · rcases marks q with kept | ⟨_, here, marked⟩
    · refine ⟨Or.inl (shown_congr (same.trans kept)), fun changed here => ?_⟩
      obtain ⟨found, finds, ⟨unchanged, _⟩ | ⟨_, copies⟩⟩ := moveLogins_cases moves
      · exact absurd unchanged changed
      · have marked := markedCopy_device dicts unique finds copies (place login.device) login.kept login.declared here
        exact absurd here (marker_not_login (kept ▸ marked))
    · -- a marked place has a saved login, and is restored
      have changed : out ≠ project := by
        rintro rfl
        exact marker_not_login marked here
      have value := saved.resolve_right fun unchanged => changed unchanged.1
      have isSaved : ((s₂.store.view [library]).secret (deviceOwner deviceId driver) name).isSome = true := by
        rw [view_secret, value]
        rfl
      exact absurd (same.trans marked) (settled _ _ _ _ (place (devices.mpr login.device)) isSaved)
  · have same : w = v := by
      rcases saved with saved | ⟨_, none⟩
      · exact Option.some.inj (value.symm.trans saved)
      · rw [none] at value
        cases value
    subst same
    exact ⟨Or.inr (shown_of_str there (dialledAt_usable login.dials)), fun _ _ => Json.heads_eq_str.mp there⟩

/-- A store that logins were moved into stays loaded. -/
theorem moved_loads (moves : moveLogins P F R skip typed library project s = .ok out s') (changed : out ≠ project) :
    load P F s' = .ok () s' := by
  obtain ⟨_, _, ⟨unchanged, _⟩ | ⟨files, _⟩⟩ := moveLogins_cases moves
  · exact absurd unchanged changed
  · exact load_of_loaded (stored_ok files).1.1

/-- A project with one device, whose password is in the clear, and the marker for its mesh key. -/
def oneLogin : Json :=
  .obj [(text "devices", .arr [.obj [(text "id", .str (text "d1")), (text "driver", .str (text "pjlink")),
      (text "config", .obj [(text "password", .str (text "secret"))])]]),
    (text "isc", .obj [(iscField, marker)])]

/-- Drivers and plugins that declare nothing. -/
def bareRegistry : Registry where
  secretSettings _ := []
  declaredFor _ := {}

/-- A system on which a mesh key has been saved. -/
def withMeshKey : System :=
  (store Python.plain Fernet.plain [⟨iscOwner, [(iscField, text "key")]⟩] none true).after { disk := {} }

theorem oneLogin_unique : UniqueIds oneLogin := by
  have first : ∀ i, 0 < i → oneLogin.node (devicePath i) = none := by
    intro i later
    obtain ⟨j, rfl⟩ := Nat.exists_eq_succ_of_ne_zero later.ne'
    rfl
  intro i j deviceId driver driver' here here'
  unfold DeviceAt at here here'
  rcases Nat.eq_zero_or_pos i with rfl | later
  · rcases Nat.eq_zero_or_pos j with rfl | later'
    · rfl
    · rw [first j later'] at here'
      cases here'
  · rw [first i later] at here
    cases here

theorem oneLogin_dicts : oneLogin.Dicts := Json.Dicts.of_distinct (by decide)

/-- Files whose login file was written with these entries. -/
def writtenFiles (entries : Entries) (nonce : Nat) : Disk where
  key := some (List.replicate 44 65 ++ [10])
  file := some (encodeUtf8 (fileText (tokenFor Python.plain Fernet.plain entries (List.replicate 44 65) nonce)))

/-- A system with these entries, and as many tokens made. -/
def loadedWith (entries : Entries) (nonce : Nat) : System where
  disk := writtenFiles entries (nonce - 1)
  store := { entries, loaded := true }
  nonce := nonce

/-- The mesh key's entry. -/
def meshKeyEntry : Entries := [((none, iscOwner), ⟨[(iscField, text "key")], none⟩)]

/-- The mesh key's entry and the device's. -/
def bothEntries : Entries :=
  meshKeyEntry ++ [((none, deviceOwner (text "d1") (text "pjlink")), ⟨[(text "password", text "secret")], none⟩)]

/-- The project with these values for its password and its mesh key. -/
def withValues (password key : Json) : Json :=
  .obj [(text "devices", .arr [.obj [(text "id", .str (text "d1")), (text "driver", .str (text "pjlink")),
      (text "config", .obj [(text "password", password)])]]),
    (text "isc", .obj [(iscField, key)])]

/-- What is found in the project. -/
def foundLogin : List FoundLogin :=
  [⟨deviceOwner (text "d1") (text "pjlink"), [(text "password", text "secret")]⟩]

theorem withMeshKey_eq : withMeshKey = loadedWith meshKeyEntry 2 := by
  have loads : load Python.plain Fernet.plain { disk := {} } = .ok () { disk := {}, store := { loaded := true } } := by
    rw [load_of_unloaded rfl]
    exact EStateM.bind_of_ok (opened_of_no_file rfl rfl) _
  have made := loginKey_of_no_key (F := Fernet.plain) (s := { disk := {}, store := { loaded := true } }) rfl rfl
  have stores := store_of_load [⟨iscOwner, [(iscField, text "key")]⟩] none true (by decide) loads (by decide)
  unfold withMeshKey EStateM.after
  rw [stores, commit_of_loginKey rfl made (by decide) rfl]
  rfl

theorem moved_stores : store Python.plain Fernet.plain foundLogin none true (loadedWith meshKeyEntry 2) =
    .ok () (loadedWith bothEntries 3) := by
  have made : loginKey Fernet.plain (loadedWith meshKeyEntry 2) =
      .ok (stripBytes (List.replicate 44 65 ++ [10])) (loadedWith meshKeyEntry 2) := loginKey_of_key rfl rfl (by decide)
  have loads : load Python.plain Fernet.plain (loadedWith meshKeyEntry 2) = .ok () (loadedWith meshKeyEntry 2) :=
    load_of_loaded rfl
  have stores := store_of_load foundLogin none true (by decide) loads (by decide)
  rw [stores, commit_of_loginKey rfl made (by decide) rfl]
  rfl

theorem Fernet.plain_opens (key : Bytes) (nonce : Nat) (t : Text) :
    Fernet.plain.decrypt key (Fernet.plain.encrypt key nonce t) = some t := by
  show (if key.map UInt8.toNat <+: key.map UInt8.toNat ++ t then some ((key.map UInt8.toNat ++ t).drop key.length)
    else none) = some t
  rw [if_pos (List.prefix_append _ _), List.drop_left' (by simp)]

theorem moved_payload : payloadFor Python.plain bothEntries = .obj
    [(text "devices", .arr [.obj [(text "device", .str (text "d1")), (text "driver", .str (text "pjlink")),
        (text "fields", .obj [(text "password", .str (text "secret"))]), (text "removed_at", .null)]]),
      (text "project", .arr [.obj [(text "section", .str iscOwner.name),
        (text "fields", .obj [(iscField, .str (text "key"))]), (text "removed_at", .null)]])] := by
  rfl

theorem moved_verifies : verify Python.plain Fernet.plain (loadedWith bothEntries 3) = .ok () (loadedWith bothEntries 3) := by
  have keyed : stripBytes (List.replicate 44 65 ++ [10]) = List.replicate 44 65 := by decide
  have readable : Json.Readable Python.plain.stack (payloadFor Python.plain bothEntries) := by
    rw [moved_payload]
    have some : 0 < 900 ∧ 0 < 899 ∧ 0 < 898 ∧ 0 < 897 := by omega
    exact ⟨some.1, ⟨some.2.1, ⟨some.2.2.1, trivial, trivial, ⟨some.2.2.2, trivial, trivial⟩, trivial, trivial⟩, trivial⟩,
      ⟨some.2.1, ⟨some.2.2.1, trivial, ⟨some.2.2.2, trivial, trivial⟩, trivial, trivial⟩, trivial⟩, trivial⟩
  have opens := Fernet.plain_opens (List.replicate 44 65) 2 (Json.dumps { sortKeys := true } (payloadFor Python.plain bothEntries))
  have ascii : ∀ c ∈ tokenFor Python.plain Fernet.plain bothEntries (List.replicate 44 65) 2, c < 128 := by
    intro c member
    rcases List.mem_append.mp member with key | payload
    · obtain ⟨b, there, rfl⟩ := List.mem_map.mp key
      rw [List.eq_of_mem_replicate there]
      decide
    · have shown := printed_payload readable c payload
      omega
  have contents : (loadedWith bothEntries 3).disk.contents Python.plain Fernet.plain = .ok bothEntries.reverse := by
    rw [Disk.contents_of_written rfl rfl (by decide) ascii (by decide) (keyed ▸ opens) readable, moved_payload]
    rfl
  exact verify_of_contents rfl rfl contents (by decide)

theorem oneLogin_moves : moveLogins Python.plain Fernet.plain bareRegistry (fun _ => false) true none oneLogin
    withMeshKey = .ok (withValues marker marker) (loadedWith bothEntries 3) := by
  have finds : findLogins bareRegistry (fun _ => false) oneLogin = .ok foundLogin := by rfl
  have stores := stored_returns moved_stores moved_verifies rfl (by decide)
  have marks : markedCopy oneLogin foundLogin = .ok (withValues marker marker) := by rfl
  rw [withMeshKey_eq]
  unfold moveLogins
  rw [finds]
  refine (EStateM.bind_of_ok (a := foundLogin) rfl _).trans ?_
  rw [if_neg (by decide : ¬foundLogin.isEmpty = true)]
  refine (EStateM.bind_of_ok stores _).trans ?_
  rw [if_neg (by decide : ¬(!true) = true), marks]
  rfl

/-- `move_logins`, and `put_back` of what it gives. -/
def moveAndPutBack (P : Python) (F : Fernet) (R : Registry) (skip : Text → Bool) (typed : Bool)
    (library : Option Text) (project : Json) : Op Json := do
  let out ← moveLogins P F R skip typed library project
  load P F
  let back ← Op.ofExcept (putBack out ((← get).store.view [library]))
  return back.getD out

end OpenAvc.Logins
