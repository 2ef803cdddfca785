import OpenAvc.Logins.Marking

namespace OpenAvc.Logins

open Json (Path Step)

/-- A setting that holds a login: a declared setting of a device that is not
skipped, a declared place in a plugin's config, the mesh key. -/
inductive LoginSetting (R : Registry) (skip : Text → Bool) (project : Json) : Owner → Text → Prop
  | device {i : Nat} {deviceId driver name : Text} (device : DeviceAt project i deviceId driver)
      (kept : skip deviceId = false) (declared : name ∈ R.loginFields driver) :
    LoginSetting R skip project (deviceOwner deviceId driver) name
  | plugin {pluginId item field : Text} {config : Json} (here : project.node (pluginConfigPath pluginId) = some config)
      (declared : (item, field) ∈ places config (R.declaredFor pluginId)) :
    LoginSetting R skip project (pluginOwner pluginId item) field
  | isc : LoginSetting R skip project iscOwner iscField

variable {R : Registry} {skip : Text → Bool} {project : Json}

/-- The values of a walk over names that keeps those that have one. -/
theorem lookup_collected {f : Text → Option Text} (names : List Text) (d : List (Text × Text)) (k : Text) :
    (names.foldl (fun d n => match f n with
      | some v => Dict.set d n v
      | none => d) d).lookup k = if k ∈ names then (f k).or (d.lookup k) else d.lookup k := by
  induction names generalizing d with
  | nil => simp
  | cons n names ih =>
    rw [List.foldl_cons, ih]
    by_cases here : k = n
    · subst here
      cases value : f k with
      | none => simp
      | some v => simp
    · cases value : f n with
      | none => simp [here]
      | some v => simp [here]

theorem Row.lookup_values (row : Row) (n : Text) :
    (row.values R).lookup n = if n ∈ R.loginFields row.driver then row.dialled n else none := by
  exact (lookup_collected (f := row.dialled) _ [] n).trans (by simp)

/-- Values gathered by item and field: each is what its place has. -/
theorem grouped_sound (value : Text × Text → Option Text) (l : List (Text × Text)) {item : Text}
    {fields : List (Text × Text)}
    (found : (item, fields) ∈ l.foldl (fun found place => match value place with
      | some v => Dict.set found place.1 (Dict.set ((found.lookup place.1).getD []) place.2 v)
      | none => found) []) {u : Text × Text} (member : u ∈ fields) : (item, u.1) ∈ l ∧ value (item, u.1) = some u.2 := by
  have walk : ∀ (rest : List (Text × Text)) (d : List (Text × List (Text × Text))), (∀ place ∈ rest, place ∈ l) →
      (∀ item fields, (item, fields) ∈ d → ∀ u ∈ fields, (item, u.1) ∈ l ∧ value (item, u.1) = some u.2) →
      ∀ item fields, (item, fields) ∈ rest.foldl (fun found place => match value place with
        | some v => Dict.set found place.1 (Dict.set ((found.lookup place.1).getD []) place.2 v)
        | none => found) d → ∀ u ∈ fields, (item, u.1) ∈ l ∧ value (item, u.1) = some u.2 := by
    intro rest
    induction rest with
    | nil => exact fun d _ sound => sound
    | cons place rest ih =>
      intro d listed sound
      rw [List.foldl_cons]
      refine ih _ (fun p h => listed p (List.mem_cons_of_mem _ h)) ?_
      intro item fields there u member
      cases here : value place with
      | none =>
        rw [here] at there
        exact sound item fields there u member
      | some v =>
        rw [here] at there
        rcases Dict.mem_set there with same | old
        · cases same
          rcases Dict.mem_set member with rfl | old
          · exact ⟨listed place List.mem_cons_self, here⟩
          · cases before : d.lookup place.1 with
            | none =>
              rw [before] at old
              exact absurd old List.not_mem_nil
            | some earlier =>
              rw [before] at old
              exact sound _ _ (List.mem_of_lookup_eq_some before) u old
        · exact sound item fields old u member
  exact walk l [] (fun _ h => h) (fun _ _ h => absurd h List.not_mem_nil) item fields found u member

/-- What is found in a plugin's config are usable values in declared places. -/
theorem findIn_sound {config : Json} {secrets : PluginSecrets} {item : Text} {fields : List (Text × Text)}
    (found : (item, fields) ∈ findIn config secrets) {u : Text × Text} (member : u ∈ fields) :
    (item, u.1) ∈ places config secrets ∧ usableText (getField (holderOf config item) u.1) = some u.2 :=
  grouped_sound (fun place => usableText (getField (holderOf config place.1) place.2)) _ found member

theorem rowOf_eq_some {connections : List (Text × Json)} {device : Json} {row : Row}
    (read : rowOf connections device = some row) : deviceName device = some (row.deviceId, row.driver) := by
  unfold rowOf at read
  cases named : deviceName device with
  | none => rw [named] at read; cases read
  | some name => rw [named] at read; cases read; rfl

/-- The devices of a project, where they can be walked: the one at each index
is where its path leads. -/
theorem devicesOf_node {devices : List Json} (walks : devicesOf project = .ok devices) (i : Nat) :
    (devices[i]?).bind deviceName = (project.node (devicePath i)).bind deviceName := by
  unfold devicesOf at walks
  simp only [devicePath]
  rw [show project.node [.key (text "devices"), .idx i] =
    (project.get? (text "devices")).bind fun v => v.node [.idx i] by
      rw [Json.get?_eq_node, ← Json.node_append]; rfl]
  cases listed : project.get? (text "devices") with
  | none => rw [listed] at walks; cases walks; simp
  | some v =>
    rw [listed] at walks
    cases v with
    | arr items => cases walks; simp
    | obj fields => cases walks; simp [Json.node]
    | str s => cases walks; simp [Json.node]
    | _ =>
      dsimp only at walks
      split at walks
      · cases walks
      · cases walks; simp [Json.node]

theorem deviceAt_iff_get {devices : List Json} (walks : devicesOf project = .ok devices) {i : Nat}
    {deviceId driver : Text} :
    DeviceAt project i deviceId driver ↔ ∃ device, devices[i]? = some device ∧ deviceName device = some (deviceId, driver) := by
  rw [DeviceAt, ← devicesOf_node walks, Option.bind_eq_some_iff]

/-- The row of the device at an index. -/
theorem rowOf_device {devices : List Json} (walks : devicesOf project = .ok devices) {row : Row}
    (member : row ∈ devices.filterMap (rowOf (connectionsOf project))) :
    ∃ i device, devices[i]? = some device ∧ rowOf (connectionsOf project) device = some row ∧
      DeviceAt project i row.deviceId row.driver := by
  rw [List.mem_filterMap] at member
  obtain ⟨device, there, read⟩ := member
  obtain ⟨i, at_i⟩ := List.mem_iff_getElem?.mp there
  exact ⟨i, device, at_i, read, (deviceAt_iff_get walks).mpr ⟨device, at_i, rowOf_eq_some read⟩⟩

theorem pluginFields_distinct (dicts : project.Dicts) {fields : List (Text × Json)}
    (here : project.get? (text "plugins") = some (.obj fields)) : (fields.map Prod.fst).Nodup := by
  refine dicts [.key (text "plugins")] _ ?_
  rw [Json.heads, ← Json.get?_eq_node, here]
  rfl

/-- The plugins of a project, each with its config where its path leads. -/
theorem mem_pluginConfigs (dicts : project.Dicts) {u : Text × Json} :
    u ∈ pluginConfigs project ↔ project.node (pluginConfigPath u.1) = some u.2 ∧ u.2.isObj = true := by
  have leads : project.node (pluginConfigPath u.1) =
      (project.get? (text "plugins")).bind fun v => (v.get? u.1).bind fun e => e.get? (text "config") := by
    simp only [Json.get?_eq_node, ← Json.node_append]
    rfl
  rw [leads]
  unfold pluginConfigs
  cases here : project.get? (text "plugins") with
  | none => simp
  | some v =>
    cases v with
    | obj fields =>
      have distinct := pluginFields_distinct dicts here
      simp only [Option.bind_some, fieldsOf, Option.getD_some, List.mem_filterMap, Json.get?_obj]
      constructor
      · rintro ⟨entry, member, read⟩
        have value := List.lookup_of_mem distinct member
        split at read
        · rename_i config found
          cases read
          refine ⟨?_, rfl⟩
          simp only [value, Option.bind_some]
          exact found
        · cases read
      · rintro ⟨found, shape⟩
        rw [Option.bind_eq_some_iff] at found
        obtain ⟨entry, value, config⟩ := found
        refine ⟨(u.1, entry), List.mem_of_lookup_eq_some value, ?_⟩
        obtain ⟨pluginId, v⟩ := u
        cases v with
        | obj c =>
          dsimp only at config ⊢
          rw [config]
        | _ => cases shape
    | _ => simp [fieldsOf, Json.get?]

/-- What is found: a device's values, an item in a plugin's config, or the mesh key. -/
theorem found_cases {devices : List Json} (walks : devicesOf project = .ok devices) {found : List FoundLogin}
    (finds : findLogins R skip project = .ok found) {login : FoundLogin} (member : login ∈ found) :
    (∃ row ∈ devices.filterMap (rowOf (connectionsOf project)), skip row.deviceId = false ∧ row.values R ≠ [] ∧
      login = ⟨deviceOwner row.deviceId row.driver, row.values R⟩) ∨
    (∃ u ∈ pluginConfigs project, ∃ w ∈ findIn u.2 (R.declaredFor u.1), login = ⟨pluginOwner u.1 w.1, w.2⟩) ∨
    ∃ key, usableText (iscKey project) = some key ∧ login = ⟨iscOwner, [(iscField, key)]⟩ := by
  unfold findLogins rowsOf at finds
  rw [walks] at finds
  cases finds
  rcases List.mem_append.mp member with member | member
  · rcases List.mem_append.mp member with member | member
    · rw [List.mem_filterMap] at member
      obtain ⟨row, there, filed⟩ := member
      dsimp only at filed
      split at filed
      · cases filed
      · rename_i neither
        cases filed
        exact Or.inl ⟨row, there, by simpa using (not_or.mp neither).1, (not_or.mp neither).2, rfl⟩
    · rw [List.mem_flatMap] at member
      obtain ⟨u, listed, filed⟩ := member
      unfold findPluginLogins at filed
      rw [List.mem_map] at filed
      obtain ⟨w, sorted, rfl⟩ := filed
      rw [List.mem_insertionSort] at sorted
      exact Or.inr (Or.inl ⟨u, listed, w, sorted, rfl⟩)
  · split at member
    · rename_i key value
      exact Or.inr (Or.inr ⟨key, value, List.mem_singleton.mp member⟩)
    · exact absurd member List.not_mem_nil

theorem walks_of_finds {found : List FoundLogin} (finds : findLogins R skip project = .ok found) :
    ∃ devices, devicesOf project = .ok devices := by
  unfold findLogins rowsOf at finds
  cases walks : devicesOf project with
  | error e => rw [walks] at finds; cases finds
  | ok devices => exact ⟨devices, rfl⟩

/-- Everything found is a setting that holds a login. -/
theorem findLogins_sound (dicts : project.Dicts) {found : List FoundLogin}
    (finds : findLogins R skip project = .ok found) {login : FoundLogin} (member : login ∈ found)
    {u : Text × Text} (field : u ∈ login.fields) : LoginSetting R skip project login.owner u.1 := by
  obtain ⟨devices, walks⟩ := walks_of_finds finds
  rcases found_cases walks finds member with ⟨row, there, kept, _, rfl⟩ | ⟨c, listed, w, filed, rfl⟩ | ⟨key, _, rfl⟩
  · obtain ⟨i, _, _, _, device⟩ := rowOf_device walks there
    obtain ⟨v, value⟩ := List.exists_lookup_of_mem (List.mem_map_of_mem (f := Prod.fst) field)
    rw [Row.lookup_values] at value
    split at value
    · rename_i declared
      exact .device device kept declared
    · cases value
  · exact .plugin ((mem_pluginConfigs dicts).mp listed).1 (findIn_sound filed field).1
  · cases List.mem_singleton.mp field
    exact .isc

/-- The devices of a project have different ids. -/
def UniqueIds (project : Json) : Prop :=
  ∀ i j deviceId driver driver', DeviceAt project i deviceId driver → DeviceAt project j deviceId driver' → i = j

/-- The logins of the devices, by id and driver, as `_marked_devices` looks them up. -/
def wantedOf (found : List FoundLogin) : List ((Text × Text) × List Text) :=
  (found.filter fun f => f.owner.kind = .device).foldl
    (fun d f => Dict.set d (f.owner.name, f.owner.qualifier) (f.fields.map Prod.fst)) []

/-- The names wanted of a device are those of a login that was found for it. -/
theorem lookup_wantedOf (found : List FoundLogin) (name : Text × Text) :
    (wantedOf found).lookup name = none ∧
      (∀ login ∈ found, login.owner.kind = .device → (login.owner.name, login.owner.qualifier) ≠ name) ∨
    ∃ login ∈ found, login.owner.kind = .device ∧ (login.owner.name, login.owner.qualifier) = name ∧
      (wantedOf found).lookup name = some (login.fields.map Prod.fst) := by
  rcases Dict.lookup_walk (fun f : FoundLogin => (f.owner.name, f.owner.qualifier)) (fun f => f.fields.map Prod.fst)
    (found.filter fun f => f.owner.kind = .device) [] name with ⟨none, absent⟩ | ⟨login, there, same, value⟩
  · refine Or.inl ⟨none, fun login member device => absent login ?_⟩
    exact List.mem_filter.mpr ⟨member, decide_eq_true device⟩
  · obtain ⟨member, device⟩ := List.mem_filter.mp there
    exact Or.inr ⟨login, member, of_decide_eq_true device, same, value⟩

/-- A device with a login in the clear has its row's values filed. -/
theorem row_found {devices : List Json} (walks : devicesOf project = .ok devices) {found : List FoundLogin}
    (finds : findLogins R skip project = .ok found) {row : Row}
    (member : row ∈ devices.filterMap (rowOf (connectionsOf project))) (kept : skip row.deviceId = false)
    (nonempty : row.values R ≠ []) : ⟨deviceOwner row.deviceId row.driver, row.values R⟩ ∈ found := by
  unfold findLogins rowsOf at finds
  rw [walks] at finds
  cases finds
  refine List.mem_append_left _ (List.mem_append_left _ (List.mem_filterMap.mpr ⟨row, member, ?_⟩))
  dsimp only
  rw [if_neg (by simp [kept, nonempty])]

/-- A device's login that was found is its row's. -/
theorem found_device {devices : List Json} (walks : devicesOf project = .ok devices) {found : List FoundLogin}
    (finds : findLogins R skip project = .ok found) {login : FoundLogin} (member : login ∈ found)
    (device : login.owner.kind = .device) :
    ∃ row ∈ devices.filterMap (rowOf (connectionsOf project)), skip row.deviceId = false ∧ row.values R ≠ [] ∧
      login = ⟨deviceOwner row.deviceId row.driver, row.values R⟩ := by
  rcases found_cases walks finds member with row | ⟨_, _, _, _, rfl⟩ | ⟨_, _, rfl⟩
  · exact row
  · cases device
  · cases device

theorem devicesOf_get {devices : List Json} (walks : devicesOf project = .ok devices) {i : Nat} {device : Json}
    (at_i : devices[i]? = some device) : project.node (devicePath i) = some device := by
  unfold devicesOf at walks
  cases listed : project.get? (text "devices") with
  | none => rw [listed] at walks; cases walks; simp at at_i
  | some v =>
    have leads : project.node (devicePath i) = v.node [.idx i] := by
      rw [Json.get?_eq_node] at listed
      exact (Json.node_append project [.key (text "devices")] [.idx i]).trans (by rw [listed]; rfl)
    rw [listed] at walks
    cases v with
    | arr items => cases walks; simp [leads, at_i]
    | obj fields => cases walks; simp at at_i
    | str s => cases walks; simp at at_i
    | _ =>
      dsimp only at walks
      split at walks
      · cases walks
      · cases walks; simp at at_i

theorem node_key (v : Json) (n : Text) : v.node [.key n] = (fieldsOf v).bind fun c => c.lookup n := by
  cases v with
  | obj c => cases found : c.lookup n <;> simp [fieldsOf, found]
  | _ => rfl

/-- The row of a device in a project that can be walked: its config and its
connection row are what stands at their paths. -/
theorem DeviceAt.row {devices : List Json} (walks : devicesOf project = .ok devices) {i : Nat} {deviceId driver : Text}
    (here : DeviceAt project i deviceId driver) :
    ∃ row ∈ devices.filterMap (rowOf (connectionsOf project)), row.deviceId = deviceId ∧ row.driver = driver ∧
      (∀ n, row.config.lookup n = project.node (configPath i ++ [.key n])) ∧
        ∀ n, (row.connection.bind fun c => c.lookup n) = project.node (rowPath deviceId ++ [.key n]) := by
  obtain ⟨device, at_i, named⟩ := (deviceAt_iff_get walks).mp here
  have read : rowOf (connectionsOf project) device = some
      { deviceId, driver
        config := ((device.get? (text "config")).bind fieldsOf).getD []
        connection := ((connectionsOf project).lookup deviceId).bind fieldsOf } := by
    simp only [rowOf, named, Option.map_some]
  refine ⟨_, List.mem_filterMap.mpr ⟨device, List.mem_iff_getElem?.mpr ⟨i, at_i⟩, read⟩, rfl, rfl, fun n => ?_, fun n => ?_⟩
  · rw [configPath, Json.node_append, Json.node_append, devicesOf_get walks at_i, Option.bind_some,
      Json.get?_eq_node]
    cases device.node [.key (text "config")] with
    | none => rfl
    | some c =>
      rw [Option.bind_some, Option.bind_some, node_key]
      cases fieldsOf c <;> rfl
  · have split : project.node (rowPath deviceId) =
        (project.get? (text "connections")).bind fun v => v.node [.key deviceId] := by
      rw [Json.get?_eq_node]
      exact Json.node_append project [.key (text "connections")] [.key deviceId]
    rw [Json.node_append, split, connectionsOf]
    cases project.get? (text "connections") with
    | none => rfl
    | some v =>
      rw [Option.bind_some, Option.bind_some, node_key]
      cases rows : fieldsOf v with
      | none => rfl
      | some connections =>
        simp only [Option.getD_some, Option.bind_some]
        cases connections.lookup deviceId with
        | none => rfl
        | some c =>
          rw [Option.bind_some, Option.bind_some, node_key]

/-- The value in a place of a device is in its row. -/
theorem DevicePlace.row_value {devices : List Json} (walks : devicesOf project = .ok devices) {deviceId driver n : Text}
    {q : Path} {t : Text} (place : DevicePlace project deviceId driver n q) (value : project.node q = some (.str t)) :
    ∃ row ∈ devices.filterMap (rowOf (connectionsOf project)), row.deviceId = deviceId ∧ row.driver = driver ∧
      (row.config.lookup n = some (.str t) ∨ (row.connection.bind fun c => c.lookup n) = some (.str t)) := by
  cases place with
  | config here =>
    obtain ⟨row, member, sameId, sameDriver, config, _⟩ := here.row walks
    exact ⟨row, member, sameId, sameDriver, Or.inl ((config n).trans value)⟩
  | row here =>
    obtain ⟨row, member, sameId, sameDriver, _, connection⟩ := here.row walks
    exact ⟨row, member, sameId, sameDriver, Or.inr ((connection n).trans value)⟩

theorem Row.dialled_isSome {row : Row} {n t : Text} (valid : usable t = true)
    (value : row.config.lookup n = some (.str t) ∨ (row.connection.bind fun c => c.lookup n) = some (.str t)) :
    (row.dialled n).isSome = true := by
  have read : usableText (.str t) = some t := usableText_eq.mpr ⟨rfl, valid⟩
  unfold Row.dialled
  rcases value with there | there
  · rw [there, Option.bind_some, read]
    simp
  · rw [there, Option.bind_some, read]
    simp

/-- A device id has one row. -/
theorem rows_unique (unique : UniqueIds project) {devices : List Json} (walks : devicesOf project = .ok devices)
    {row row' : Row} (member : row ∈ devices.filterMap (rowOf (connectionsOf project)))
    (member' : row' ∈ devices.filterMap (rowOf (connectionsOf project))) (same : row'.deviceId = row.deviceId) :
    row' = row := by
  obtain ⟨i, d, at_i, read, device⟩ := rowOf_device walks member
  obtain ⟨j, d', at_j, read', device'⟩ := rowOf_device walks member'
  have place := unique i j _ _ _ device (same ▸ device')
  subst place
  rw [at_i] at at_j
  cases at_j
  rw [read] at read'
  exact (Option.some.inj read').symm

/-- The row of an id and driver is the one the logins of a device are looked up by. -/
theorem wantedOf_unique (unique : UniqueIds project) {devices : List Json} (walks : devicesOf project = .ok devices)
    {found : List FoundLogin} (finds : findLogins R skip project = .ok found) {row : Row}
    (member : row ∈ devices.filterMap (rowOf (connectionsOf project))) (kept : skip row.deviceId = false)
    (nonempty : row.values R ≠ []) :
    (wantedOf found).lookup (row.deviceId, row.driver) = some ((row.values R).map Prod.fst) := by
  have filed := row_found walks finds member kept nonempty
  rcases lookup_wantedOf found (row.deviceId, row.driver) with ⟨_, absent⟩ | ⟨login, listed, device, here, value⟩
  · exact absurd rfl (absent _ filed rfl)
  · obtain ⟨row', member', _, _, rfl⟩ := found_device walks finds listed device
    have same : row' = row := rows_unique unique walks member member' (Prod.mk.inj here).1
    subst same
    exact value

/-- The device places that `_marked_devices` marks are those of the login
settings, as far as a login stands there. -/
theorem wanted_iff (unique : UniqueIds project) {devices : List Json} (walks : devicesOf project = .ok devices)
    {found : List FoundLogin} (finds : findLogins R skip project = .ok found) {q : Path} (login : LoginAt project q) :
    (∃ i < devices.length, Wanted (wantedOf found) project i q) ↔ ∃ deviceId driver n,
      DevicePlace project deviceId driver n q ∧ skip deviceId = false ∧ n ∈ R.loginFields driver := by
  constructor
  · rintro ⟨i, _, deviceId, driver, names, here, wants, place⟩
    have declared : ∀ n ∈ names, skip deviceId = false ∧ n ∈ R.loginFields driver := by
      intro n member
      rcases lookup_wantedOf found (deviceId, driver) with ⟨none, _⟩ | ⟨login, listed, device, same, value⟩
      · rw [none] at wants
        cases wants
      · obtain ⟨row, _, kept, _, rfl⟩ := found_device walks finds listed device
        rw [value] at wants
        cases wants
        cases same
        obtain ⟨v, looked⟩ := List.exists_lookup_of_mem member
        rw [Row.lookup_values] at looked
        split at looked
        · rename_i declared
          exact ⟨kept, declared⟩
        · cases looked
    rcases place with ⟨n, member, rfl⟩ | ⟨n, member, rfl⟩
    · exact ⟨deviceId, driver, n, .config here, declared n member⟩
    · exact ⟨deviceId, driver, n, .row here, declared n member⟩
  · rintro ⟨deviceId, driver, n, place, kept, declared⟩
    obtain ⟨t, value, valid⟩ := login
    rw [Json.heads_eq_str] at value
    obtain ⟨row, member, rfl, rfl, read⟩ := place.row_value walks value
    obtain ⟨v, dialled⟩ := Option.isSome_iff_exists.mp (row.dialled_isSome valid read)
    have looked : (row.values R).lookup n = some v := by rw [Row.lookup_values, if_pos declared, dialled]
    have nonempty : row.values R ≠ [] := fun none => by rw [none] at looked; cases looked
    have wants := wantedOf_unique unique walks finds member kept nonempty
    have named := List.mem_keys_of_lookup looked
    have at_i : ∀ {i : Nat}, DeviceAt project i row.deviceId row.driver → i < devices.length := by
      intro i here
      obtain ⟨device, at_i, _⟩ := (deviceAt_iff_get walks).mp here
      exact (List.getElem?_eq_some_iff.mp at_i).1
    cases place with
    | config here => exact ⟨_, at_i here, _, _, _, here, wants, Or.inl ⟨n, named, rfl⟩⟩
    | row here => exact ⟨_, at_i here, _, _, _, here, wants, Or.inr ⟨n, named, rfl⟩⟩

end OpenAvc.Logins
