import OpenAvc.Logins.Copying

namespace OpenAvc.Logins

open Json (Path Step)

/-- `p'` is `p` with some of the markers replaced, each by a usable value that
`S` has for its place. -/
def OnlyRestores (S : Path → Text → Prop) (p p' : Json) : Prop :=
  ∀ q, p'.heads q = p.heads q ∨ p.heads q = some (.leaf marker) ∧
    ∃ v, S q v ∧ usable v = true ∧ p'.heads q = some (.leaf (.str v))

variable {S : Path → Text → Prop} {p p' p'' cur c c' : Json} {q : Path}

theorem OnlyRestores.refl (S : Path → Text → Prop) (p : Json) : OnlyRestores S p p := fun _ => Or.inl rfl

theorem restored_ne_marker {v : Text} (valid : usable v = true) : (some (Json.Head.leaf (.str v))) ≠ some (.leaf marker) := by
  intro same
  cases same
  exact absurd valid (by decide)

theorem OnlyRestores.trans (first : OnlyRestores S p p') (second : OnlyRestores S p' p'') : OnlyRestores S p p'' := by
  intro q
  rcases first q with same | ⟨marked, v, value, valid, there⟩
  · rcases second q with same' | ⟨marked, v, value, valid, there⟩
    · exact Or.inl (same'.trans same)
    · exact Or.inr ⟨same ▸ marked, v, value, valid, there⟩
  · rcases second q with same' | ⟨marked', _⟩
    · exact Or.inr ⟨marked, v, value, valid, same'.trans there⟩
    · rw [there] at marked'
      exact absurd marked' (restored_ne_marker valid)

/-- What no longer is a marker stays as it is. -/
theorem OnlyRestores.settled (restores : OnlyRestores S p p') (settled : p.heads q ≠ some (.leaf marker)) :
    p'.heads q = p.heads q :=
  (restores q).resolve_right fun changed => settled changed.1

/-- A place that had the marker has a text, the marker or what replaced it. -/
theorem OnlyRestores.node (restores : OnlyRestores S p p') (marked : p.heads q = some (.leaf marker)) :
    ∃ t, p'.node q = some (.str t) := by
  rcases restores q with same | ⟨_, v, _, _, there⟩
  · exact ⟨savedLogin, Json.heads_eq_str.mp (same.trans marked)⟩
  · exact ⟨v, Json.heads_eq_str.mp there⟩

/-- A value put where the marker was. -/
theorem OnlyRestores.put (restores : OnlyRestores S p cur) {v : Text} (marked : p.heads q = some (.leaf marker))
    (value : S q v) (valid : usable v = true) : OnlyRestores S p (cur.put q (.str v)) := by
  obtain ⟨t, node⟩ := restores.node marked
  intro r
  rw [Json.heads_put_str node]
  by_cases here : r = q
  · rw [if_pos here]
    exact Or.inr ⟨here ▸ marked, v, here ▸ value, valid, rfl⟩
  · rw [if_neg here]
    exact restores r

theorem OnlyRestores.ids (restores : OnlyRestores S c c') (list idKey : Text) (j : Nat) :
    idAt c list idKey j = idAt c' list idKey j ∨ idAt c list idKey j = some savedLogin := by
  rcases restores [.key list, .idx j, .key idKey] with same | ⟨marked, _⟩
  · exact Or.inl (idAt_congr same.symm)
  · refine Or.inr ?_
    have node : c.node [.key list, .idx j, .key idKey] = some (.str savedLogin) := Json.heads_eq_str.mp marked
    rw [idAt, node]
    decide

theorem OnlyRestores.dicts (restores : OnlyRestores S p p') (dicts : p.Dicts) : p'.Dicts := by
  intro q ks shows'
  rcases restores q with same | ⟨_, _, _, _, there⟩
  · exact dicts q ks (same ▸ shows')
  · rw [there] at shows'
    cases shows'

theorem OnlyRestores.node_of_obj {path : Path} {fields : List (Text × Json)} (restores : OnlyRestores S p cur)
    (now : cur.node path = some (.obj fields)) : ∃ fields', p.node path = some (.obj fields') := by
  have shows' : cur.heads path = some (.keys (fields.map Prod.fst)) := by rw [Json.heads, now]; rfl
  rcases restores path with same | ⟨_, _, _, _, there⟩
  · rw [same, Json.heads, Option.map_eq_some_iff] at shows'
    obtain ⟨v, found, shape⟩ := shows'
    cases v with
    | obj fields' => exact ⟨fields', found⟩
    | _ => cases shape
  · rw [there] at shows'
    cases shows'

/-- A config restored within a project. -/
theorem OnlyRestores.put_config {path : Path} {w : Json} (restores : OnlyRestores S p cur)
    (now : cur.node path = some c) (original : p.node path = some c')
    (inner : OnlyRestores (fun r v => S (path ++ r) v) c' c → OnlyRestores (fun r v => S (path ++ r) v) c' w) :
    OnlyRestores S p (cur.put path w) := by
  have before : OnlyRestores (fun r v => S (path ++ r) v) c' c := by
    intro r
    have := restores (path ++ r)
    rwa [Json.heads_append now, Json.heads_append original] at this
  intro q
  by_cases inside : path <+: q
  · obtain ⟨r, rfl⟩ := inside
    rw [Json.heads_put now, Json.heads_append original]
    exact inner before r
  · rw [Json.heads_put_of_not_prefix now inside]
    exact restores q

/-! The plugins' logins. -/

theorem setFields_restores {found : List (Text × Text)} {holder : Path} {fields : List Text}
    (restores : OnlyRestores S c cur)
    (marked : ∀ f v, found.lookup f = some v →
      c.heads (holder ++ fieldPath f) = some (.leaf marker) ∧ S (holder ++ fieldPath f) v ∧ usable v = true) :
    OnlyRestores S c (setFields (fun field _ => (found.lookup field).map .str) cur holder fields) := by
  unfold setFields
  induction fields generalizing cur with
  | nil => exact restores
  | cons field fields ih =>
    rw [List.foldl_cons]
    refine ih ?_
    cases value : found.lookup field with
    | none => simpa [value] using restores
    | some v =>
      obtain ⟨here, has, valid⟩ := marked field v value
      simpa [value] using restores.put here has valid

/-- A login behind a marker: where its holder is, and what the view has for it. -/
structure Behind (view : View) (config : Json) (pluginId : Text) (f : FoundLogin) : Prop where
  owner : f.owner.kind = .plugin ∧ f.owner.name = pluginId
  nonempty : f.fields ≠ []
  marked : ∀ u ∈ f.fields, ∃ holder, holderPath config f.owner.qualifier = some holder ∧
    config.heads (holder ++ fieldPath u.1) = some (.leaf marker) ∧ view.secret f.owner u.1 = some u.2 ∧
      usable u.2 = true

theorem isMarker_iff {v : Json} : isMarker v = true ↔ v = marker := by
  cases v <;> simp [isMarker, Json.asStr, marker]

theorem mem_markedPlaces {config : Json} {items : List (Text × List Text)} {place : Text × Text}
    (member : place ∈ markedPlaces config items) :
    ∃ holder, holderPath config place.1 = some holder ∧
      config.heads (holder ++ fieldPath place.2) = some (.leaf marker) := by
  unfold markedPlaces at member
  rw [List.mem_flatMap] at member
  obtain ⟨u, _, listed⟩ := member
  split at listed
  · exact absurd listed List.not_mem_nil
  · rename_i holder held
    obtain ⟨field, there, rfl⟩ := List.mem_map.mp listed
    obtain ⟨_, marked⟩ := List.mem_filter.mp there
    refine ⟨holder, held, ?_⟩
    exact Json.heads_eq_str.mpr (node_of_getField (isMarker_iff.mp marked))

theorem grouped_nonempty (value : Text × Text → Option Text) (l : List (Text × Text))
    {found : Text × List (Text × Text)}
    (member : found ∈ l.foldl (fun found place => match value place with
      | some v => Dict.set found place.1 (Dict.set ((found.lookup place.1).getD []) place.2 v)
      | none => found) []) : found.2 ≠ [] := by
  have walk : ∀ (rest : List (Text × Text)) (d : List (Text × List (Text × Text))), (∀ w ∈ d, w.2 ≠ []) →
      ∀ w ∈ rest.foldl (fun found place => match value place with
        | some v => Dict.set found place.1 (Dict.set ((found.lookup place.1).getD []) place.2 v)
        | none => found) d, w.2 ≠ [] := by
    intro rest
    induction rest with
    | nil => exact fun _ before => before
    | cons place rest ih =>
      intro d before
      rw [List.foldl_cons]
      refine ih _ fun w there => ?_
      cases here : value place with
      | none =>
        rw [here] at there
        exact before w there
      | some v =>
        rw [here] at there
        rcases Dict.mem_set there with rfl | old
        · exact Dict.set_ne_nil _ _ _
        · exact before w old
  exact walk l [] (fun _ h => absurd h List.not_mem_nil) _ member

theorem savedInPlugin_behind {view : View} {pluginId : Text} {config : Json} {f : FoundLogin}
    (member : f ∈ savedInPlugin view pluginId config) : Behind view config pluginId f := by
  unfold savedInPlugin at member
  obtain ⟨w, listed, rfl⟩ := List.mem_map.mp member
  refine ⟨⟨rfl, rfl⟩, grouped_nonempty
    (fun place => (view.secret (pluginOwner pluginId place.1) place.2).filter usable) _ listed, fun u field => ?_⟩
  obtain ⟨place, saved⟩ := grouped_sound
    (fun place => (view.secret (pluginOwner pluginId place.1) place.2).filter usable) _ listed field
  obtain ⟨holder, held, marked⟩ := mem_markedPlaces place
  obtain ⟨there, valid⟩ := Option.filter_eq_some_iff.mp saved
  exact ⟨holder, held, marked, there, valid⟩

/-- What the view has for the places of its settings. -/
def Saved (project : Json) (view : View) (q : Path) (v : Text) : Prop :=
  ∃ owner name, SettingPlace project owner name q ∧ view.secret owner name = some v

variable {project : Json} {view : View}

theorem iscKey_marked (marked : isMarker (iscKey project) = true) : project.heads iscPath = some (.leaf marker) :=
  Json.heads_eq_str.mpr (iscKey_node (isMarker_iff.mp marked))

/-- What `saved_logins_of` finds is behind the markers of the project. -/
theorem savedLoginsOf_behind (dicts : project.Dicts) {found : List FoundLogin}
    (finds : savedLoginsOf project view = .ok found) {f : FoundLogin} (member : f ∈ found) :
    (∃ config, project.node (pluginConfigPath f.owner.name) = some config ∧ Behind view config f.owner.name f) ∨
      ∃ key, f = ⟨iscOwner, [(iscField, key)]⟩ ∧ project.heads iscPath = some (.leaf marker) ∧
        view.secret iscOwner iscField = some key ∧ usable key = true := by
  unfold savedLoginsOf at finds
  cases rows : rowsOf project with
  | error e => rw [rows] at finds; cases finds
  | ok _ =>
    rw [rows] at finds
    cases finds
    rcases List.mem_append.mp member with member | member
    · obtain ⟨u, listed, saved⟩ := List.mem_flatMap.mp member
      have behind := savedInPlugin_behind saved
      refine Or.inl ⟨u.2, ?_, ?_⟩
      · rw [behind.owner.2]
        exact ((mem_pluginConfigs dicts).mp listed).1
      · rw [behind.owner.2]
        exact behind
    · split at member
      · rename_i marked
        split at member
        · rename_i key saved
          obtain ⟨there, valid⟩ := Option.filter_eq_some_iff.mp saved
          exact Or.inr ⟨key, List.mem_singleton.mp member, iscKey_marked marked, there, valid⟩
        · exact absurd member List.not_mem_nil
      · exact absurd member List.not_mem_nil

/-- One login put back. -/
theorem putBackFound_restores (dicts : project.Dicts) {found : List FoundLogin}
    (finds : savedLoginsOf project view = .ok found) {f : FoundLogin} (member : f ∈ found)
    (restores : OnlyRestores (Saved project view) project cur) (turn : putBackFound cur f = .ok p') :
    OnlyRestores (Saved project view) project p' := by
  rcases savedLoginsOf_behind dicts finds member with ⟨config, original, behind⟩ | ⟨key, rfl, marked, saved, valid⟩
  · unfold putBackFound at turn
    rw [behind.owner.1] at turn
    dsimp only at turn
    split at turn
    · rename_i now listed
      split at turn
      · rename_i holder held
        cases turn
        have here := (mem_pluginConfigs (restores.dicts dicts)).mp (List.mem_of_lookup_eq_some listed)
        refine restores.put_config here.1 original fun before => ?_
        refine setFields_restores before fun field v value => ?_
        obtain ⟨holder', held', marked, saved, valid⟩ :=
          behind.marked (field, v) (List.mem_of_lookup_eq_some value)
        have same := holderPath_agree held held' before.ids
        subst same
        refine ⟨marked, ⟨f.owner, field, ?_, saved⟩, valid⟩
        have place : SettingPlace project (pluginOwner f.owner.name f.owner.qualifier) field _ :=
          .plugin original held'
        obtain ⟨⟨kind, name, qualifier⟩, fields⟩ := f
        cases behind.owner.1
        exact place
      · cases turn
    · cases turn
  · unfold putBackFound at turn
    simp only [iscOwner, List.lookup_cons_self] at turn
    cases turn
    exact restores.put marked ⟨iscOwner, iscField, .isc, saved⟩ valid

theorem putBackAll_restores (dicts : project.Dicts) {found rest : List FoundLogin}
    (finds : savedLoginsOf project view = .ok found) (listed : ∀ f ∈ rest, f ∈ found)
    (restores : OnlyRestores (Saved project view) project cur) (walk : rest.foldlM putBackFound cur = .ok p') :
    OnlyRestores (Saved project view) project p' := by
  induction rest generalizing cur with
  | nil =>
    cases walk
    exact restores
  | cons f rest ih =>
    rw [List.foldlM_cons] at walk
    cases turn : putBackFound cur f with
    | error e => rw [turn] at walk; cases walk
    | ok next =>
      rw [turn] at walk
      exact ih (fun g h => listed g (List.mem_cons_of_mem _ h))
        (putBackFound_restores dicts finds (listed f List.mem_cons_self) restores turn) walk

/-! The devices' logins. -/

theorem mem_markedFields {holder : List (Text × Json)} {n : Text} :
    n ∈ markedFields holder ↔ ∃ v, (n, v) ∈ holder ∧ v = marker := by
  unfold markedFields
  rw [List.mem_insertionSort, List.mem_map]
  constructor
  · rintro ⟨u, member, rfl⟩
    obtain ⟨there, marked⟩ := List.mem_filter.mp member
    exact ⟨u.2, there, isMarker_iff.mp marked⟩
  · rintro ⟨v, there, marked⟩
    exact ⟨(n, v), List.mem_filter.mpr ⟨there, isMarker_iff.mpr marked⟩, rfl⟩

/-- The markers of a holder, by where they are in the project. -/
theorem markedFields_heads (dicts : cur.Dicts) {path : Path} {holder : List (Text × Json)}
    (here : cur.node path = some (.obj holder)) {n : Text} :
    n ∈ markedFields holder ↔ cur.heads (path ++ [.key n]) = some (.leaf marker) := by
  have distinct : (holder.map Prod.fst).Nodup := by
    refine dicts path _ ?_
    rw [Json.heads, here]
    rfl
  rw [mem_markedFields, marker, Json.heads_eq_str, Json.node_append, here]
  simp only [Option.bind_some, Json.node_obj_key, Json.node_nil, Option.bind_eq_some_iff]
  constructor
  · rintro ⟨v, there, marked⟩
    exact ⟨v, List.lookup_of_mem distinct there, congrArg some marked⟩
  · rintro ⟨v, found, marked⟩
    exact ⟨v, List.mem_of_lookup_eq_some found, Option.some.inj marked⟩

/-- Some of a holder's markers replaced. -/
theorem restoreFields {owner : Owner} (path : Path) (names : List Text) (acc : Json × Bool)
    (usableOnly : ∀ field v, view.secret owner field = some v → usable v = true)
    (marked : ∀ n ∈ names, acc.1.heads (path ++ [.key n]) = some (.leaf marker) ∨
      ∃ v, view.secret owner n = some v ∧ acc.1.heads (path ++ [.key n]) = some (.leaf (.str v)))
    (saved : ∀ n v, view.secret owner n = some v → S (path ++ [.key n]) v) :
    let result := names.foldl (restoreField view owner path) acc
    OnlyRestores S acc.1 result.1 ∧
      (∀ n ∈ names, (view.secret owner n).isSome → result.1.heads (path ++ [.key n]) ≠ some (.leaf marker)) ∧
      (result.2 = false → result = acc) := by
  dsimp only
  induction names generalizing acc with
  | nil => exact ⟨.refl S _, fun _ h => absurd h List.not_mem_nil, fun _ => rfl⟩
  | cons n names ih =>
    rw [List.foldl_cons]
    cases value : view.secret owner n with
    | none =>
      have skipped : restoreField view owner path acc n = acc := by simp only [restoreField, value]
      rw [skipped]
      obtain ⟨restores, settled, same⟩ := ih acc fun m h => marked m (List.mem_cons_of_mem _ h)
      refine ⟨restores, fun m member has => ?_, same⟩
      rcases List.mem_cons.mp member with rfl | later
      · rw [value] at has
        cases has
      · exact settled m later has
    | some v =>
      have put : restoreField view owner path acc n = (acc.1.put (path ++ [.key n]) (.str v), true) := by
        simp only [restoreField, value]
      rw [put]
      have text : ∃ t, acc.1.node (path ++ [.key n]) = some (.str t) := by
        rcases marked n List.mem_cons_self with there | ⟨w, _, there⟩
        · exact ⟨savedLogin, Json.heads_eq_str.mp there⟩
        · exact ⟨w, Json.heads_eq_str.mp there⟩
      obtain ⟨t, node⟩ := text
      have next : ∀ q, (acc.1.put (path ++ [.key n]) (.str v)).heads q =
          if q = path ++ [.key n] then some (.leaf (.str v)) else acc.1.heads q := fun q => Json.heads_put_str node
      have first : OnlyRestores S acc.1 (acc.1.put (path ++ [.key n]) (.str v)) := by
        intro q
        rw [next]
        by_cases here : q = path ++ [.key n]
        · rw [if_pos here, here]
          rcases marked n List.mem_cons_self with there | ⟨w, other, there⟩
          · exact Or.inr ⟨there, v, saved n v value, usableOnly n v value, rfl⟩
          · rw [value] at other
            cases other
            exact Or.inl there.symm
        · rw [if_neg here]
          exact Or.inl rfl
      have marked' : ∀ m ∈ names, (acc.1.put (path ++ [.key n]) (.str v)).heads (path ++ [.key m]) = some (.leaf marker) ∨
          ∃ w, view.secret owner m = some w ∧
            (acc.1.put (path ++ [.key n]) (.str v)).heads (path ++ [.key m]) = some (.leaf (.str w)) := by
        intro m h
        rw [next]
        by_cases here : path ++ [Step.key m] = path ++ [Step.key n]
        · rw [if_pos here]
          have : m = n := by simpa using here
          exact Or.inr ⟨v, this ▸ value, rfl⟩
        · rw [if_neg here]
          exact marked m (List.mem_cons_of_mem _ h)
      obtain ⟨restores, settled, same⟩ := ih (acc.1.put (path ++ [.key n]) (.str v), true) marked'
      refine ⟨first.trans restores, fun m member has => ?_, fun unchanged => ?_⟩
      · rcases List.mem_cons.mp member with rfl | later
        · have put : (acc.1.put (path ++ [.key m]) (.str v)).heads (path ++ [.key m]) = some (.leaf (.str v)) := by
            rw [next, if_pos rfl]
          have kept : (acc.1.put (path ++ [.key m]) (.str v)).heads (path ++ [.key m]) ≠ some (.leaf marker) := by
            rw [put]
            exact restored_ne_marker (usableOnly m v value)
          rw [restores.settled kept]
          exact kept
        · exact settled m later has
      · have flag := same unchanged
        rw [flag] at unchanged
        cases unchanged

/-- One holder of a device restored. -/
theorem restoreHolder_restores {name : Text × Text} (path : Path) {acc : Json × Bool} (dicts : acc.1.Dicts)
    (usableOnly : ∀ field v, view.secret (deviceOwner name.1 name.2) field = some v → usable v = true)
    (saved : ∀ n v, view.secret (deviceOwner name.1 name.2) n = some v → S (path ++ [.key n]) v) :
    OnlyRestores S acc.1 (restoreHolder view name acc path).1 ∧
      (∀ n, (view.secret (deviceOwner name.1 name.2) n).isSome →
        (restoreHolder view name acc path).1.heads (path ++ [.key n]) ≠ some (.leaf marker)) ∧
      ((restoreHolder view name acc path).2 = false → restoreHolder view name acc path = acc) := by
  unfold restoreHolder
  have elsewhere : (∀ holder, acc.1.node path ≠ some (.obj holder)) → ∀ n,
      acc.1.heads (path ++ [.key n]) ≠ some (.leaf marker) := by
    intro noHolder n there
    rw [marker, Json.heads_eq_str, Json.node_append, Option.bind_eq_some_iff] at there
    obtain ⟨c, found, inner⟩ := there
    cases c with
    | obj holder => exact noHolder holder found
    | _ => simp [Json.node] at inner
  split
  · rename_i holder here
    obtain ⟨restores, settled, same⟩ := restoreFields (S := S) path (markedFields holder) acc
      usableOnly (fun n member => Or.inl ((markedFields_heads dicts here).mp member)) saved
    refine ⟨restores, fun n has => ?_, same⟩
    by_cases marked : n ∈ markedFields holder
    · exact settled n marked has
    · have not := fun there => marked ((markedFields_heads dicts here).mpr there)
      rw [restores.settled not]
      exact not
  · rename_i noHolder
    exact ⟨.refl S _, fun n _ => elsewhere (fun holder there => noHolder holder there) n, fun _ => rfl⟩

/-- One device restored: no marker is left in its places that the view has a login for. -/
theorem restoreDevice_restores {i : Nat} {acc : Json × Bool} (dicts : acc.1.Dicts)
    (usableOnly : ∀ owner field v, view.secret owner field = some v → usable v = true)
    (saved : ∀ deviceId driver n v q, DeviceAt acc.1 i deviceId driver →
      (q = configPath i ++ [.key n] ∨ q = rowPath deviceId ++ [.key n]) →
        view.secret (deviceOwner deviceId driver) n = some v → S q v) :
    OnlyRestores S acc.1 (restoreDevice view acc i).1 ∧
      (∀ deviceId driver n q, DeviceAt acc.1 i deviceId driver →
        (q = configPath i ++ [.key n] ∨ q = rowPath deviceId ++ [.key n]) →
          (view.secret (deviceOwner deviceId driver) n).isSome →
            (restoreDevice view acc i).1.heads q ≠ some (.leaf marker)) ∧
      ((restoreDevice view acc i).2 = false → restoreDevice view acc i = acc) := by
  unfold restoreDevice
  split
  · rename_i name here
    have device : DeviceAt acc.1 i name.1 name.2 := here
    obtain ⟨config, settled, same⟩ := restoreHolder_restores (S := S) (configPath i) dicts
      (usableOnly _) fun n v value => saved _ _ n v _ device (Or.inl rfl) value
    obtain ⟨row, settled', same'⟩ := restoreHolder_restores (S := S) (rowPath name.1) (config.dicts dicts)
      (usableOnly _) fun n v value => saved _ _ n v _ device (Or.inr rfl) value
    refine ⟨config.trans row, ?_, fun unchanged => ?_⟩
    · rintro deviceId driver n q device' place has
      obtain ⟨rfl, rfl⟩ := device.unique device'
      rcases place with rfl | rfl
      · have not := settled n has
        rw [row.settled not]
        exact not
      · exact settled' n has
    · have second := same' unchanged
      rw [second] at unchanged ⊢
      exact same unchanged
  · rename_i nobody
    refine ⟨.refl S _, fun deviceId driver n q device => ?_, fun _ => rfl⟩
    rw [DeviceAt, nobody] at device
    cases device

theorem setting_ne_device {owner : Owner} {name : Text} {i : Nat} {k : Text}
    (place : SettingPlace project owner name (devicePath i ++ [.key k])) : False := by
  generalize target : devicePath i ++ [Step.key k] = q at place
  cases place with
  | device place =>
    cases place with
    | config => exact config_ne_device _ i name k target.symm
    | row => exact row_ne_device _ i name k target.symm
  | plugin =>
    simp only [devicePath, pluginConfigPath, List.cons_append, List.cons.injEq] at target
    exact texts_apart.2.1 (Step.key.inj target.1).symm
  | isc =>
    rw [devicePath, iscPath, List.cons_append, List.cons.injEq] at target
    exact texts_apart.2.2.2.1 (Step.key.inj target.1).symm

theorem OnlyRestores.device (restores : OnlyRestores (Saved project view) project cur) {i : Nat}
    {deviceId driver : Text} : DeviceAt cur i deviceId driver ↔ DeviceAt project i deviceId driver :=
  DeviceAt.kept fun _ => (restores _).resolve_right fun ⟨_, _, ⟨_, _, place, _⟩, _⟩ => setting_ne_device place

/-- The walk over the devices: no marker is left that the view has a login for. -/
theorem restoreDevices_restores (acc : Json × Bool) (dicts : project.Dicts)
    (usableOnly : ∀ owner field v, view.secret owner field = some v → usable v = true)
    (before : OnlyRestores (Saved project view) project acc.1) (n : Nat) :
    OnlyRestores (Saved project view) project ((List.range n).foldl (restoreDevice view) acc).1 ∧
      (∀ i < n, ∀ deviceId driver k q, DeviceAt project i deviceId driver →
        (q = configPath i ++ [.key k] ∨ q = rowPath deviceId ++ [.key k]) →
          (view.secret (deviceOwner deviceId driver) k).isSome →
            ((List.range n).foldl (restoreDevice view) acc).1.heads q ≠ some (.leaf marker)) ∧
      (((List.range n).foldl (restoreDevice view) acc).2 = false →
        (List.range n).foldl (restoreDevice view) acc = acc) := by
  induction n with
  | zero => exact ⟨before, fun i h => absurd h (Nat.not_lt_zero i), fun _ => rfl⟩
  | succ n ih =>
    obtain ⟨restores, settled, same⟩ := ih
    rw [List.range_succ, List.foldl_append, List.foldl_cons, List.foldl_nil]
    generalize (List.range n).foldl (restoreDevice view) acc = cur at restores settled same ⊢
    obtain ⟨turn, settled', same'⟩ := restoreDevice_restores (S := Saved project view) (i := n) (restores.dicts dicts)
      usableOnly fun deviceId driver k v q device place value => by
        have here := restores.device.mp device
        refine ⟨_, k, .device ?_, value⟩
        rcases place with rfl | rfl
        · exact .config here
        · exact .row here
    refine ⟨restores.trans turn, fun i bound deviceId driver k q device place has => ?_, fun unchanged => ?_⟩
    · rcases Nat.lt_succ_iff_lt_or_eq.mp bound with early | rfl
      · have not := settled i early deviceId driver k q device place has
        rw [turn.settled not]
        exact not
      · exact settled' deviceId driver k q (restores.device.mpr device) place has
    · have last := same' unchanged
      rw [last] at unchanged ⊢
      exact same unchanged

/-- What `put_back` gives: only markers are replaced, each by the login that
the view has for its place, and in a device's places all of those. -/
theorem putBack_restores (dicts : project.Dicts)
    (usableOnly : ∀ owner field v, view.secret owner field = some v → usable v = true) {back : Option Json}
    (puts : putBack project view = .ok back) :
    OnlyRestores (Saved project view) project (back.getD project) ∧
      ∀ deviceId driver n q, DevicePlace project deviceId driver n q →
        (view.secret (deviceOwner deviceId driver) n).isSome → (back.getD project).heads q ≠ some (.leaf marker) := by
  unfold putBack at puts
  cases finds : savedLoginsOf project view with
  | error e => rw [finds] at puts; cases puts
  | ok found =>
    rw [finds] at puts
    cases walk : found.foldlM putBackFound project with
    | error e => simp [bind, Except.bind, walk] at puts
    | ok marked =>
      simp only [bind, Except.bind, walk] at puts
      have plugins := putBackAll_restores dicts finds (fun _ h => h) (.refl _ _) walk
      cases walks : devicesOf marked with
      | error e => simp [walks] at puts
      | ok devices =>
        simp only [walks] at puts
        obtain ⟨restores, settled, same⟩ := restoreDevices_restores (marked, !found.isEmpty) dicts usableOnly
          plugins devices.length
        have result : back.getD project =
            ((List.range devices.length).foldl (restoreDevice view) (marked, !found.isEmpty)).1 := by
          cases flag : ((List.range devices.length).foldl (restoreDevice view) (marked, !found.isEmpty)).2 with
          | true =>
            rw [flag, if_pos rfl] at puts
            cases puts
            rfl
          | false =>
            rw [flag] at puts
            cases puts
            have unchanged := same flag
            rw [unchanged] at flag ⊢
            cases found with
            | nil => cases walk; rfl
            | cons f found => cases flag
        rw [result]
        refine ⟨restores, fun deviceId driver n q place has => ?_⟩
        have at_i : ∀ {i}, DeviceAt project i deviceId driver → i < devices.length := by
          intro i here
          obtain ⟨device, at_i, _⟩ := (deviceAt_iff_get walks).mp (plugins.device.mpr here)
          exact (List.getElem?_eq_some_iff.mp at_i).1
        cases place with
        | config here => exact settled _ (at_i here) _ _ n _ here (Or.inl rfl) has
        | row here => exact settled _ (at_i here) _ _ n _ here (Or.inr rfl) has

/-! When `put_back` returns. -/

/-- No login is saved in a field by which an item of the same list has its id. -/
def IdsApart (view : View) : Prop :=
  ∀ pluginId item item' name name' v v' list idKey idKey' itemId itemId',
    view.secret (pluginOwner pluginId item) name = some v → matchItem item = some (list, idKey, itemId) →
      view.secret (pluginOwner pluginId item') name' = some v' → matchItem item' = some (list, idKey', itemId') →
        fieldPath name' ≠ [.key idKey]

theorem OnlyRestores.get_arr (restores : OnlyRestores S c c') {k : Text} {items : List Json}
    (here : c.get? k = some (.arr items)) : ∃ items', c'.get? k = some (.arr items') ∧ items'.length = items.length := by
  rw [Json.get?_eq_node] at here ⊢
  have head : c.heads [.key k] = some (.length items.length) := by rw [Json.heads, here]; rfl
  have same : c'.heads [.key k] = c.heads [.key k] := restores.settled (by rw [head]; rintro ⟨⟩)
  rw [head, Json.heads, Option.map_eq_some_iff] at same
  obtain ⟨v, there, shape⟩ := same
  cases v with
  | arr items' => exact ⟨items', there, Json.Head.length.inj shape⟩
  | _ => cases shape

theorem OnlyRestores.get_obj (restores : OnlyRestores S p cur) {path : Path} {fields : List (Text × Json)}
    (here : p.node path = some (.obj fields)) : ∃ fields', cur.node path = some (.obj fields') := by
  have head : p.heads path = some (.keys (fields.map Prod.fst)) := by rw [Json.heads, here]; rfl
  have same : cur.heads path = p.heads path := restores.settled (by rw [head]; rintro ⟨⟩)
  rw [head, Json.heads, Option.map_eq_some_iff] at same
  obtain ⟨v, there, shape⟩ := same
  cases v with
  | obj fields' => exact ⟨fields', there⟩
  | _ => cases shape

theorem isObj_of_holderPath {config : Json} {item : Text} {holder : Path} (held : holderPath config item = some holder) :
    ∃ fields, config = .obj fields := by
  unfold holderPath at held
  cases config with
  | obj fields => exact ⟨fields, rfl⟩
  | _ => simp [Json.isObj] at held

/-- The id of an item that has a saved login is none of the places that are put back. -/
theorem IdsApart.ids (apart : IdsApart view) {pluginId item name v : Text}
    (saved : view.secret (pluginOwner pluginId item) name = some v) {list idKey itemId : Text}
    (matched : matchItem item = some (list, idKey, itemId)) (j : Nat) (w : Text) :
    ¬Saved project view (pluginConfigPath pluginId ++ [.key list, .idx j, .key idKey]) w := by
  rintro ⟨owner, name', place, saved'⟩
  generalize target : pluginConfigPath pluginId ++ [Step.key list, .idx j, .key idKey] = q at place
  cases place with
  | device place => exact place.outside.1 pluginId (target ▸ List.prefix_append _ _)
  | @plugin pluginId' item' _ config holder here held =>
    obtain ⟨same, inner⟩ := List.append_inj target rfl
    have sameId : pluginId = pluginId' := by simpa [pluginConfigPath] using same
    subst sameId
    rcases holderPath_eq_some held with ⟨_, rfl⟩ | ⟨_, list', idKey', itemId', i, matched', rfl, _⟩
    · have keyed : Step.idx j ∈ fieldPath name' := by
        rw [List.nil_append] at inner
        rw [← inner]
        simp
      simp [fieldPath] at keyed
    · simp only [List.cons_append, List.nil_append, List.cons.injEq, Step.key.injEq] at inner
      obtain ⟨rfl, _, field⟩ := inner
      exact apart pluginId item item' name name' v w list idKey idKey' itemId itemId' saved matched saved' matched'
        field.symm
  | isc => simp [pluginConfigPath, iscPath] at target

/-- One login is put back unless the holder of its item is gone. -/
theorem putBackFound_returns (dicts : project.Dicts) (apart : IdsApart view) {found : List FoundLogin}
    (finds : savedLoginsOf project view = .ok found) {f : FoundLogin} (member : f ∈ found)
    (restores : OnlyRestores (Saved project view) project cur) : ∃ p', putBackFound cur f = .ok p' := by
  rcases savedLoginsOf_behind dicts finds member with ⟨config, original, behind⟩ | ⟨key, rfl, _⟩
  · obtain ⟨u, field⟩ := List.exists_mem_of_ne_nil _ behind.nonempty
    obtain ⟨holder, held, _, saved, _⟩ := behind.marked u field
    obtain ⟨fields, rfl⟩ := isObj_of_holderPath held
    obtain ⟨fields', now⟩ := restores.get_obj original
    have dicts' := restores.dicts dicts
    have listed : (f.owner.name, Json.obj fields') ∈ pluginConfigs cur :=
      (mem_pluginConfigs dicts').mpr ⟨now, rfl⟩
    have owner : f.owner = pluginOwner f.owner.name f.owner.qualifier := by
      obtain ⟨⟨kind, name, qualifier⟩, _⟩ := f
      cases behind.owner.1
      rfl
    have inner : OnlyRestores (fun r v => Saved project view (pluginConfigPath f.owner.name ++ r) v) (.obj fields)
        (.obj fields') := by
      intro r
      have here := restores (pluginConfigPath f.owner.name ++ r)
      rwa [Json.heads_append now, Json.heads_append original] at here
    have kept : holderPath (.obj fields') f.owner.qualifier = some holder := by
      refine holderPath_kept held rfl (fun list items there => inner.get_arr there) ?_
      intro list idKey itemId matched j
      rcases inner [.key list, .idx j, .key idKey] with same | ⟨_, w, there, _⟩
      · exact idAt_congr same
      · exact absurd there (apart.ids (owner ▸ saved) matched j w)
    unfold putBackFound
    rw [behind.owner.1]
    dsimp only
    rw [List.lookup_of_mem (pluginConfigs_distinct dicts') listed]
    dsimp only
    rw [kept]
    exact ⟨_, rfl⟩
  · exact ⟨_, by simp [putBackFound, iscOwner]; rfl⟩

theorem putBackAll_returns (dicts : project.Dicts) (apart : IdsApart view) {found rest : List FoundLogin}
    (finds : savedLoginsOf project view = .ok found) (listed : ∀ f ∈ rest, f ∈ found)
    (restores : OnlyRestores (Saved project view) project cur) : ∃ p', rest.foldlM putBackFound cur = .ok p' := by
  induction rest generalizing cur with
  | nil => exact ⟨cur, rfl⟩
  | cons f rest ih =>
    obtain ⟨next, turn⟩ := putBackFound_returns dicts apart finds (listed f List.mem_cons_self) restores
    obtain ⟨p', walk⟩ := ih (fun g h => listed g (List.mem_cons_of_mem _ h))
      (putBackFound_restores dicts finds (listed f List.mem_cons_self) restores turn)
    exact ⟨p', by rw [List.foldlM_cons, turn]; exact walk⟩

/-- Devices that can be walked still can where a text takes the place of the list at most. -/
theorem walks_of_heads (kept : cur.heads [.key (text "devices")] = p.heads [.key (text "devices")] ∨
      ∃ t, cur.heads [.key (text "devices")] = some (.leaf (.str t))) {devices : List Json}
    (walks : devicesOf p = .ok devices) : ∃ devices', devicesOf cur = .ok devices' := by
  unfold devicesOf at *
  simp only [Json.get?_eq_node] at *
  rcases kept with same | ⟨t, there⟩
  · unfold Json.heads at same
    cases here : p.node [.key (text "devices")] with
    | none =>
      rw [here, Option.map_none, Option.map_eq_none_iff] at same
      rw [same]
      exact ⟨_, rfl⟩
    | some v =>
      rw [here] at walks
      rw [here, Option.map_some, Option.map_eq_some_iff] at same
      obtain ⟨w, there, heads⟩ := same
      rw [there]
      cases v <;> cases w <;> simp_all [Json.head]
  · rw [Json.heads_eq_str.mp there]
    exact ⟨_, rfl⟩

theorem OnlyRestores.walks (restores : OnlyRestores S p cur) {devices : List Json} (walks : devicesOf p = .ok devices) :
    ∃ devices', devicesOf cur = .ok devices' :=
  walks_of_heads ((restores _).imp_right fun ⟨_, v, _, _, there⟩ => ⟨v, there⟩) walks

/-- `put_back` returns where the devices can be walked and no login is saved
in the id of an item. -/
theorem putBack_returns (dicts : project.Dicts) {devices : List Json} (walks : devicesOf project = .ok devices)
    (apart : IdsApart view) : ∃ back, putBack project view = .ok back := by
  unfold putBack
  cases finds : savedLoginsOf project view with
  | error e =>
    unfold savedLoginsOf rowsOf at finds
    rw [walks] at finds
    cases finds
  | ok found =>
    obtain ⟨marked, walk⟩ := putBackAll_returns dicts apart finds (fun _ h => h) (.refl _ _)
    obtain ⟨devices', walks'⟩ :=
      (putBackAll_restores dicts finds (fun _ h => h) (.refl _ _) walk).walks walks
    simp only [bind, Except.bind, walk, walks']
    exact ⟨_, rfl⟩

end OpenAvc.Logins
