import OpenAvc.Logins.Finding

namespace OpenAvc.Logins

open Json (Path Step)

/-- A place for a setting of an owner: in a device's config or connection row,
where an item of a plugin has its holder, or the mesh key. -/
inductive SettingPlace (project : Json) : Owner → Text → Path → Prop
  | device {deviceId driver name : Text} {q : Path} (place : DevicePlace project deviceId driver name q) :
    SettingPlace project (deviceOwner deviceId driver) name q
  | plugin {pluginId item field : Text} {config : Json} {holder : Path}
      (here : project.node (pluginConfigPath pluginId) = some config) (held : holderPath config item = some holder) :
    SettingPlace project (pluginOwner pluginId item) field (pluginConfigPath pluginId ++ (holder ++ fieldPath field))
  | isc : SettingPlace project iscOwner iscField iscPath

/-- A place of a login that was found. -/
def FoundPlace (project : Json) (found : List FoundLogin) (q : Path) : Prop :=
  ∃ login ∈ found, ∃ u ∈ login.fields, SettingPlace project login.owner u.1 q

variable {M : Path → Prop} {project cur c c' : Json} {q : Path}

/-! Where an item's holder is, by the ids in its list. -/

/-- The id of an item of a list in a plugin's config. -/
def idAt (config : Json) (list idKey : Text) (i : Nat) : Option Text :=
  (config.node [.key list, .idx i, .key idKey]).bind idText

theorem idAt_congr {a b : Json} {list idKey : Text} {i : Nat}
    (same : b.heads [.key list, .idx i, .key idKey] = a.heads [.key list, .idx i, .key idKey]) :
    idAt b list idKey i = idAt a list idKey i := by
  unfold idAt
  unfold Json.heads at same
  cases here : a.node [.key list, .idx i, .key idKey] with
  | none =>
    rw [here, Option.map_none, Option.map_eq_none_iff] at same
    rw [same]
  | some v =>
    rw [here, Option.map_some, Option.map_eq_some_iff] at same
    obtain ⟨w, there, heads⟩ := same
    rw [there, Option.bind_some, Option.bind_some]
    cases v <;> cases w <;> simp_all [Json.head, idText]

theorem idAt_arr {config : Json} {list : Text} {entries : List Json} (listed : config.get? list = some (.arr entries))
    (idKey : Text) (j : Nat) : idAt config list idKey j = (entries[j]?).bind fun e => (e.get? idKey).bind idText := by
  have leads : config.node [.key list, .idx j, .key idKey] = (entries[j]?).bind fun e => e.get? idKey := by
    rw [Json.get?_eq_node] at listed
    refine (Json.node_append config [.key list] [.idx j, .key idKey]).trans ?_
    rw [listed, Option.bind_some, Json.node_arr_idx]
    simp only [Json.get?_eq_node]
  rw [idAt, leads, Option.bind_assoc]

/-- The entries of a list that have an id, by their indexes. -/
theorem indexes_named {config : Json} {list : Text} {entries : List Json}
    (listed : config.get? list = some (.arr entries)) (idKey itemId : Text) :
    (entries.zipIdx.filter fun u => ((u.1.get? idKey).bind idText) = some itemId).map Prod.snd =
      (List.range entries.length).filter fun j => idAt config list idKey j = some itemId := by
  rw [List.range_eq_range', ← List.zipIdx_map_snd 0 entries, List.filter_map]
  congr 1
  refine List.filter_congr fun u member => ?_
  have there := List.mem_zipIdx_iff_getElem?.mp member
  simp [idAt_arr listed, there]

/-- An item's holder is the one entry of its list that has its id. -/
theorem holderPath_eq_some {config : Json} {item : Text} {holder : Path} (held : holderPath config item = some holder) :
    item = [] ∧ holder = [] ∨ item ≠ [] ∧ ∃ list idKey itemId i, matchItem item = some (list, idKey, itemId) ∧
      holder = [.key list, .idx i] ∧ ∀ j, idAt config list idKey j = some itemId ↔ j = i := by
  unfold holderPath at held
  split at held
  · cases held
  · split at held
    · rename_i own
      cases held
      exact Or.inl ⟨own, rfl⟩
    · rename_i named
      refine Or.inr ⟨named, ?_⟩
      split at held
      · cases held
      · rename_i list idKey itemId matched
        split at held
        · rename_i entries listed
          have at_j : ∀ j, idAt config list idKey j = some itemId ↔
              ∃ e, entries[j]? = some e ∧ (e.get? idKey).bind idText = some itemId := by
            intro j
            rw [idAt_arr listed, Option.bind_eq_some_iff]
          split at held
          · rename_i u single
            cases held
            refine ⟨list, idKey, itemId, u.2, matched, rfl, fun j => (at_j j).trans ⟨?_, ?_⟩⟩
            · rintro ⟨e, there, here⟩
              have member : (e, j) ∈ entries.zipIdx.filter fun u => ((u.1.get? idKey).bind idText) = some itemId := by
                rw [List.mem_filter]
                exact ⟨List.mem_zipIdx_iff_getElem?.mpr there, by simpa using here⟩
              rw [single] at member
              exact congrArg Prod.snd (List.mem_singleton.mp member)
            · rintro rfl
              have member : u ∈ entries.zipIdx.filter fun u => ((u.1.get? idKey).bind idText) = some itemId := by
                rw [single]
                exact List.mem_singleton.mpr rfl
              rw [List.mem_filter] at member
              exact ⟨u.1, List.mem_zipIdx_iff_getElem?.mp member.1, by simpa using member.2⟩
          · cases held
        · cases held

/-- An item keeps its holder where the ids in its list are the same. -/
theorem holderPath_kept {a b : Json} {item : Text} {holder : Path} (held : holderPath a item = some holder)
    (object : b.isObj = true)
    (lists : ∀ list entries, a.get? list = some (.arr entries) →
      ∃ entries', b.get? list = some (.arr entries') ∧ entries'.length = entries.length)
    (ids : ∀ list idKey itemId, matchItem item = some (list, idKey, itemId) →
      ∀ j, idAt b list idKey j = idAt a list idKey j) : holderPath b item = some holder := by
  unfold holderPath at held ⊢
  rw [if_neg (by simp [object])]
  split at held
  · cases held
  · split at held
    · rename_i own
      rw [if_pos own]
      exact held
    · rename_i named
      rw [if_neg named]
      split at held
      · cases held
      · rename_i list idKey itemId matched
        split at held
        · rename_i entries listed
          obtain ⟨entries', listed', length⟩ := lists list entries listed
          rw [listed']
          have same : (entries'.zipIdx.filter fun u => ((u.1.get? idKey).bind idText) = some itemId).map Prod.snd =
              (entries.zipIdx.filter fun u => ((u.1.get? idKey).bind idText) = some itemId).map Prod.snd := by
            rw [indexes_named listed, indexes_named listed', length]
            simp only [ids list idKey itemId matched]
          split at held
          · rename_i u single
            rw [single] at same
            obtain ⟨w, single', index⟩ := List.map_eq_singleton_iff.mp same
            cases held
            simp only [single', index]
          · cases held
        · cases held

/-- Where ids only turn into the marker, an item with a holder on both sides has the same. -/
theorem holderPath_agree {a b : Json} {item : Text} {holder holder' : Path} (held : holderPath a item = some holder)
    (held' : holderPath b item = some holder')
    (ids : ∀ list idKey j, idAt b list idKey j = idAt a list idKey j ∨ idAt b list idKey j = some savedLogin) :
    holder = holder' := by
  rcases holderPath_eq_some held with ⟨own, rfl⟩ | ⟨named, list, idKey, itemId, i, matched, rfl, only⟩
  · rcases holderPath_eq_some held' with ⟨_, rfl⟩ | ⟨named, _⟩
    · rfl
    · exact absurd own named
  · rcases holderPath_eq_some held' with ⟨own, _⟩ | ⟨_, list', idKey', itemId', i', matched', rfl, only'⟩
    · exact absurd own named
    · rw [matched] at matched'
      cases matched'
      have same : i = i' := by
        by_cases marked : itemId = savedLogin
        · subst marked
          -- the entry with the marker for its id keeps it
          refine (only' i).mp ?_
          rcases ids list idKey i with kept | there
          · rw [kept]
            exact (only i).mpr rfl
          · exact there
        · refine ((only i').mp ?_).symm
          rcases ids list idKey i' with kept | there
          · rw [← kept]
            exact (only' i').mpr rfl
          · have here := (only' i').mpr rfl
            rw [there] at here
            exact absurd (Option.some.inj here).symm marked
      rw [same]

theorem OnlyMarks.ids (marks : OnlyMarks M c c') (list idKey : Text) (j : Nat) :
    idAt c' list idKey j = idAt c list idKey j ∨ idAt c' list idKey j = some savedLogin := by
  rcases marks [.key list, .idx j, .key idKey] with same | ⟨_, _, there⟩
  · exact Or.inl (idAt_congr same)
  · refine Or.inr ?_
    have node : c'.node [.key list, .idx j, .key idKey] = some (.str savedLogin) := Json.heads_eq_str.mp there
    rw [idAt, node]
    decide

/-! Marking a plugin's config. -/

theorem node_of_getField {holder : Path} {field t : Text}
    (read : getField ((cur.node holder).getD .null) field = .str t) : cur.node (holder ++ fieldPath field) = some (.str t) := by
  rw [Json.node_append]
  unfold getField at read
  cases here : cur.node holder with
  | none =>
    rw [here, Option.getD_none] at read
    cases path : fieldPath field with
    | nil => simp [path] at read
    | cons s r => simp [path, Json.node] at read
  | some v =>
    rw [here, Option.getD_some] at read
    cases found : v.node (fieldPath field) with
    | none => simp [found] at read
    | some w =>
      rw [found, Option.getD_some] at read
      rw [Option.bind_some, found, read]

theorem setFields_marks {holder : Path} {fields : List Text} (marks : OnlyMarks M c cur)
    (mine : ∀ f ∈ fields, M (holder ++ fieldPath f)) : OnlyMarks M c (setFields markUsable cur holder fields) := by
  unfold setFields
  induction fields generalizing cur with
  | nil => exact marks
  | cons field fields ih =>
    rw [List.foldl_cons]
    refine ih ?_ fun f member => mine f (List.mem_cons_of_mem _ member)
    cases value : usableText (getField ((cur.node holder).getD .null) field) with
    | none =>
      simp only [markUsable, value, Option.isSome_none, Bool.false_eq_true, if_false]
      exact marks
    | some t =>
      simp only [markUsable, value, Option.isSome_some, if_true]
      obtain ⟨read, valid⟩ := usableText_eq.mp value
      have node := node_of_getField read
      refine marks.trans fun q => ?_
      rw [marker, Json.heads_put_str node]
      by_cases here : q = holder ++ fieldPath field
      · rw [if_pos here]
        refine Or.inr ⟨here ▸ mine field List.mem_cons_self, ⟨t, ?_, valid⟩, rfl⟩
        rw [here, Json.heads_eq_str]
        exact node
      · rw [if_neg here]
        exact Or.inl rfl

theorem markedConfig_marks {found : List (Text × List Text)} (marks : OnlyMarks M c cur)
    (held : ∀ u ∈ found, ∀ f ∈ u.2, ∃ holder, holderPath c u.1 = some holder ∧ M (holder ++ fieldPath f)) :
    OnlyMarks M c (markedConfig cur found) := by
  unfold markedConfig
  induction found generalizing cur with
  | nil => exact marks
  | cons u found ih =>
    rw [List.foldl_cons]
    refine ih ?_ fun w member => held w (List.mem_cons_of_mem _ member)
    cases now : holderPath cur u.1 with
    | none => exact marks
    | some holder =>
      refine setFields_marks marks fun f member => ?_
      obtain ⟨holder', original, mine⟩ := held u List.mem_cons_self f member
      exact holderPath_agree original now marks.ids ▸ mine

/-- A config marked within a project. -/
theorem OnlyMarks.put {path : Path} (marks : OnlyMarks M project cur) (now : cur.node path = some c)
    (original : project.node path = some c') {w : Json}
    (inner : OnlyMarks (fun r => M (path ++ r)) c' c → OnlyMarks (fun r => M (path ++ r)) c' w) :
    OnlyMarks M project (cur.put path w) := by
  have before : OnlyMarks (fun r => M (path ++ r)) c' c := by
    intro r
    have := marks (path ++ r)
    rw [Json.heads_append now, Json.heads_append original] at this
    refine this.imp_right ?_
    rintro ⟨place, ⟨t, here, valid⟩, there⟩
    exact ⟨place, ⟨t, (Json.heads_append original r).symm.trans here, valid⟩, there⟩
  intro q
  by_cases inside : path <+: q
  · obtain ⟨r, rfl⟩ := inside
    rw [Json.heads_put now, Json.heads_append original]
    refine (inner before r).imp_right ?_
    rintro ⟨place, ⟨t, here, valid⟩, there⟩
    exact ⟨place, ⟨t, (Json.heads_append original r).trans here, valid⟩, there⟩
  · rw [Json.heads_put_of_not_prefix now inside]
    exact marks q

/-- An object that is there after marking was there before. -/
theorem OnlyMarks.node_of_obj {path : Path} {fields : List (Text × Json)} (marks : OnlyMarks M project cur)
    (now : cur.node path = some (.obj fields)) : ∃ fields', project.node path = some (.obj fields') := by
  have shows' : cur.heads path = some (.keys (fields.map Prod.fst)) := by rw [Json.heads, now]; rfl
  rcases marks path with same | ⟨_, _, there⟩
  · rw [same, Json.heads, Option.map_eq_some_iff] at shows'
    obtain ⟨v, found, shape⟩ := shows'
    cases v with
    | obj fields' => exact ⟨fields', found⟩
    | _ => cases shape
  · rw [there] at shows'
    cases shows'

theorem pluginConfigPath_apart {pluginId pluginId' : Text} (other : pluginId ≠ pluginId') :
    ¬pluginConfigPath pluginId <+: pluginConfigPath pluginId' := by
  intro inside
  have same := inside.eq_of_length rfl
  simp [pluginConfigPath] at same
  exact other same

/-- The walk over the plugins' configs. -/
theorem markPlugins_marks (items : Text → List (Text × List Text)) {configs : List (Text × Json)}
    (marks : OnlyMarks M project cur) (distinct : (configs.map Prod.fst).Nodup)
    (now : ∀ u ∈ configs, cur.node (pluginConfigPath u.1) = some u.2 ∧ u.2.isObj = true)
    (held : ∀ pluginId config, project.node (pluginConfigPath pluginId) = some config →
      ∀ u ∈ items pluginId, ∀ f ∈ u.2, ∃ holder, holderPath config u.1 = some holder ∧
        M (pluginConfigPath pluginId ++ (holder ++ fieldPath f))) :
    OnlyMarks M project (configs.foldl (fun marked u => if items u.1 = [] then marked
      else marked.put (pluginConfigPath u.1) (markedConfig u.2 (items u.1))) cur) := by
  induction configs generalizing cur with
  | nil => exact marks
  | cons u configs ih =>
    obtain ⟨apart, distinct⟩ := List.nodup_cons.mp distinct
    obtain ⟨here, shape⟩ := now u List.mem_cons_self
    rw [List.foldl_cons]
    by_cases none : items u.1 = []
    · rw [if_pos none]
      exact ih marks distinct fun w member => now w (List.mem_cons_of_mem _ member)
    · rw [if_neg none]
      have original : ∃ config, project.node (pluginConfigPath u.1) = some config := by
        cases object : u.2 with
        | obj fields =>
          rw [object] at here
          obtain ⟨fields', there⟩ := marks.node_of_obj here
          exact ⟨_, there⟩
        | _ => rw [object] at shape; cases shape
      obtain ⟨config, original⟩ := original
      refine ih (marks.put here original fun before => markedConfig_marks before ?_) distinct ?_
      · exact held u.1 config original
      · intro w member
        have other : u.1 ≠ w.1 := fun same => apart (same ▸ List.mem_map_of_mem (f := Prod.fst) member)
        rw [Json.node_put_of_apart here (pluginConfigPath_apart other) (pluginConfigPath_apart (Ne.symm other))]
        exact now w (List.mem_cons_of_mem _ member)

/-- The walk over the plugins' configs touches nothing else. -/
theorem markPlugins_outside (items : Text → List (Text × List Text)) {configs : List (Text × Json)}
    (distinct : (configs.map Prod.fst).Nodup) (now : ∀ u ∈ configs, cur.node (pluginConfigPath u.1) = some u.2)
    (outside : ∀ pluginId, ¬pluginConfigPath pluginId <+: q) :
    (configs.foldl (fun marked u => if items u.1 = [] then marked
      else marked.put (pluginConfigPath u.1) (markedConfig u.2 (items u.1))) cur).heads q = cur.heads q := by
  induction configs generalizing cur with
  | nil => rfl
  | cons u configs ih =>
    obtain ⟨apart, distinct⟩ := List.nodup_cons.mp distinct
    have here := now u List.mem_cons_self
    rw [List.foldl_cons]
    by_cases none : items u.1 = []
    · rw [if_pos none]
      exact ih distinct fun w member => now w (List.mem_cons_of_mem _ member)
    · rw [if_neg none]
      refine (ih distinct fun w member => ?_).trans (Json.heads_put_of_not_prefix here (outside u.1))
      have other : u.1 ≠ w.1 := fun same => apart (same ▸ List.mem_map_of_mem (f := Prod.fst) member)
      rw [Json.node_put_of_apart here (pluginConfigPath_apart other) (pluginConfigPath_apart (Ne.symm other))]
      exact now w (List.mem_cons_of_mem _ member)

theorem DevicePlace.outside {deviceId driver n : Text} (place : DevicePlace project deviceId driver n q) :
    (∀ pluginId, ¬pluginConfigPath pluginId <+: q) ∧ q ≠ iscPath := by
  have heads : ∃ k r, q = .key k :: r ∧ (k = text "devices" ∨ k = text "connections") := by
    cases place with
    | config => exact ⟨_, _, rfl, Or.inl rfl⟩
    | row => exact ⟨_, _, rfl, Or.inr rfl⟩
  obtain ⟨k, r, rfl, first⟩ := heads
  obtain ⟨_, plugins, plugins', isc, isc', _⟩ := texts_apart
  constructor
  · intro pluginId inside
    rw [pluginConfigPath, List.cons_prefix_cons] at inside
    rcases first with rfl | rfl
    · exact plugins (Step.key.inj inside.1)
    · exact plugins' (Step.key.inj inside.1)
  · intro same
    rw [iscPath] at same
    rcases first with rfl | rfl
    · exact isc (Step.key.inj (List.cons.inj same).1).symm
    · exact isc' (Step.key.inj (List.cons.inj same).1).symm

theorem OnlyMarks.dicts (marks : OnlyMarks M project cur) (dicts : project.Dicts) : cur.Dicts := by
  intro q ks shows'
  rcases marks q with same | ⟨_, _, there⟩
  · exact dicts q ks (same ▸ shows')
  · rw [there] at shows'
    cases shows'

/-- The plugins of a project that have a config keep their order. -/
theorem configured_sublist (fields : List (Text × Json)) : ((fields.filterMap fun u => match u.2.get? (text "config") with
    | some (.obj config) => some (u.1, Json.obj config)
    | _ => none).map Prod.fst).Sublist (fields.map Prod.fst) := by
  induction fields with
  | nil => exact List.Sublist.refl _
  | cons u fields ih =>
    rw [List.filterMap_cons]
    split
    · exact ih.cons _
    · rename_i v there
      split at there
      · cases there
        exact ih.cons_cons _
      · cases there

theorem pluginConfigs_distinct (dicts : project.Dicts) : ((pluginConfigs project).map Prod.fst).Nodup := by
  unfold pluginConfigs
  cases here : project.get? (text "plugins") with
  | none => simp
  | some v =>
    cases v with
    | obj fields => exact (pluginFields_distinct dicts here).sublist (configured_sublist fields)
    | _ => simp [fieldsOf]

variable {R : Registry} {skip : Text → Bool} {found : List FoundLogin} {out : Json}

/-- What `_marked_devices` marks are places of logins that were found. -/
theorem wanted_found {i : Nat} (place : Wanted (wantedOf found) project i q) : FoundPlace project found q := by
  obtain ⟨deviceId, driver, names, here, wants, place⟩ := place
  rcases lookup_wantedOf found (deviceId, driver) with ⟨none, _⟩ | ⟨login, listed, device, same, value⟩
  · rw [none] at wants
    cases wants
  · rw [value] at wants
    cases wants
    obtain ⟨sameName, sameDriver⟩ := Prod.mk.inj same
    have owner : login.owner = deviceOwner deviceId driver := by
      obtain ⟨⟨kind, name, qualifier⟩, fields⟩ := login
      cases sameName
      cases sameDriver
      cases device
      rfl
    rcases place with ⟨n, member, rfl⟩ | ⟨n, member, rfl⟩
    · obtain ⟨u, field, rfl⟩ := List.mem_map.mp member
      exact ⟨login, listed, u, field, owner ▸ .device (.config here)⟩
    · obtain ⟨u, field, rfl⟩ := List.mem_map.mp member
      exact ⟨login, listed, u, field, owner ▸ .device (.row here)⟩

/-- A plugin's item that was found has its holder in the project. -/
theorem found_plugin (dicts : project.Dicts) (finds : findLogins R skip project = .ok found) {login : FoundLogin}
    (member : login ∈ found) (plugin : login.owner.kind = .plugin) {config : Json}
    (here : project.node (pluginConfigPath login.owner.name) = some config) {u : Text × Text}
    (field : u ∈ login.fields) :
    ∃ holder, holderPath config login.owner.qualifier = some holder ∧
      FoundPlace project found (pluginConfigPath login.owner.name ++ (holder ++ fieldPath u.1)) := by
  obtain ⟨devices, walks⟩ := walks_of_finds finds
  rcases found_cases walks finds member with ⟨_, _, _, _, rfl⟩ | ⟨c, listed, w, filed, same⟩ | ⟨_, _, rfl⟩
  · cases plugin
  · have at_config := ((mem_pluginConfigs dicts).mp listed).1
    rw [same] at here field ⊢
    have here : project.node (pluginConfigPath c.1) = some config := here
    rw [at_config] at here
    cases here
    have value := (findIn_sound filed field).2
    cases held : holderPath c.2 w.1 with
    | none =>
      rw [holderOf, held] at value
      cases path : fieldPath u.1 with
      | nil => simp [getField, path, usableText] at value
      | cons s r => simp [getField, path, Json.node, usableText] at value
    | some holder => exact ⟨holder, held, login, member, u, by rw [same]; exact field, by rw [same]; exact .plugin at_config held⟩
  · cases plugin

theorem iscKey_node {t : Text} (read : iscKey project = .str t) : project.node iscPath = some (.str t) := by
  have split : project.node iscPath = (project.get? (text "isc")).bind fun v => v.node [.key iscField] := by
    rw [Json.get?_eq_node]
    exact Json.node_append project [.key (text "isc")] [.key iscField]
  unfold iscKey at read
  rw [split]
  cases here : project.get? (text "isc") with
  | none => rw [here] at read; cases read
  | some v =>
    rw [here] at read
    cases v with
    | obj isc =>
      dsimp only at read
      cases found : isc.lookup iscField with
      | none => rw [found] at read; cases read
      | some w =>
        rw [found, Option.getD_some] at read
        simp [found, read]
    | _ => cases read

/-- `_marked_copy` changes nothing but logins that were found, into the
marker, and each of a device's. -/
theorem markedCopy_marks (dicts : project.Dicts) (finds : findLogins R skip project = .ok found)
    (copies : markedCopy project found = .ok out) :
    OnlyMarks (FoundPlace project found) project out ∧
      ∃ devices marked, devicesOf project = .ok devices ∧
        Marks (fun q => ∃ i < devices.length, Wanted (wantedOf found) project i q) project marked ∧
        ∀ deviceId driver n q, DevicePlace project deviceId driver n q → out.heads q = marked.heads q := by
  unfold markedCopy markedDevices at copies
  obtain ⟨devices, walks⟩ := walks_of_finds finds
  rw [walks] at copies
  cases walk : (List.range devices.length).foldlM (markDevice (wantedOf found)) project with
  | error e =>
    unfold wantedOf at walk
    simp [bind, Except.bind, walk] at copies
  | ok marked =>
    have marks := markDevices_marks walk
    have only : OnlyMarks (FoundPlace project found) project marked :=
      marks.only.mono fun q ⟨i, _, place⟩ => wanted_found place
    have dicts' := only.dicts dicts
    have here : ∀ u ∈ pluginConfigs marked, _ := fun u listed => (mem_pluginConfigs dicts').mp listed
    have distinct := pluginConfigs_distinct dicts'
    let items (pluginId : Text) : List (Text × List Text) :=
      (found.filter fun f => f.owner.kind = .plugin ∧ f.owner.name = pluginId).map fun f =>
        (f.owner.qualifier, f.fields.map Prod.fst)
    have plugins := markPlugins_marks items only distinct here (by
      intro pluginId config here u listed f member
      obtain ⟨login, filed, rfl⟩ := List.mem_map.mp listed
      obtain ⟨there, match'⟩ := List.mem_filter.mp filed
      obtain ⟨plugin, rfl⟩ := of_decide_eq_true match'
      obtain ⟨w, field, rfl⟩ := List.mem_map.mp member
      exact found_plugin dicts finds there plugin here field)
    have untouched : ∀ q, (∀ pluginId, ¬pluginConfigPath pluginId <+: q) → _ := fun q outside =>
      markPlugins_outside items distinct (fun u listed => (here u listed).1) outside
    unfold wantedOf at walk
    simp only [bind, Except.bind, walk] at copies
    generalize (pluginConfigs marked).foldl (fun marked u => if items u.1 = [] then marked
      else marked.put (pluginConfigPath u.1) (markedConfig u.2 (items u.1))) marked = copy at copies plugins untouched
    split at copies
    · rename_i isc
      cases copies
      obtain ⟨t, value⟩ := Option.isSome_iff_exists.mp isc.2
      obtain ⟨read, valid⟩ := usableText_eq.mp value
      have node := iscKey_node read
      refine ⟨plugins.trans fun q => ?_, devices, marked, walks, marks, fun deviceId driver n q place => ?_⟩
      · rw [marker, Json.heads_put_str node]
        by_cases same : q = iscPath
        · rw [if_pos same]
          refine Or.inr ⟨?_, ⟨t, by rw [same]; exact Json.heads_eq_str.mpr node, valid⟩, rfl⟩
          obtain ⟨login, member, project'⟩ := List.any_eq_true.mp isc.1
          rcases found_cases walks finds member with ⟨_, _, _, _, rfl⟩ | ⟨_, _, _, _, rfl⟩ | ⟨key, _, rfl⟩
          · cases of_decide_eq_true project'
          · cases of_decide_eq_true project'
          · exact ⟨_, member, _, List.mem_singleton.mpr rfl, same ▸ .isc⟩
        · rw [if_neg same]
          exact Or.inl rfl
      · obtain ⟨outside, other⟩ := place.outside
        rw [marker, Json.heads_put_str node, if_neg other, untouched q outside]
    · cases copies
      exact ⟨plugins, devices, marked, walks, marks, fun deviceId driver n q place => untouched q place.outside.1⟩

/-- Every login of a device that is not skipped has the marker in its place. -/
theorem markedCopy_device (dicts : project.Dicts) (unique : UniqueIds project)
    (finds : findLogins R skip project = .ok found) (copies : markedCopy project found = .ok out)
    {deviceId driver n : Text} (place : DevicePlace project deviceId driver n q) (kept : skip deviceId = false)
    (declared : n ∈ R.loginFields driver) (login : LoginAt project q) : out.heads q = some (.leaf marker) := by
  obtain ⟨_, devices, marked, walks, marks, same⟩ := markedCopy_marks dicts finds copies
  rw [same deviceId driver n q place]
  exact marks.marked q ((wanted_iff unique walks finds login).mpr ⟨deviceId, driver, n, place, kept, declared⟩) login

end OpenAvc.Logins
