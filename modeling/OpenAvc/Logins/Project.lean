import OpenAvc.Data.JsonPath
import OpenAvc.Logins.Store

namespace OpenAvc.Logins

open Json (Path Step)

/-- A list of items in a plugin's config that hold logins, each filed under
the item's id. -/
structure ListSecrets where
  key : Text
  idKey : Text
  fields : List Text

/-- Where a plugin's config holds logins: schema fields by their path through
groups, and lists. -/
structure PluginSecrets where
  schemaFields : List (List Text) := []
  lists : List ListSecrets := []

/-- What the installed drivers and plugins declare: the secrets of a driver's
`config_schema`, and `plugin_secrets.declared_for`. -/
structure Registry where
  secretSettings : Text → List Text
  declaredFor : Text → PluginSecrets

/-- `login_fields` -/
def Registry.loginFields (R : Registry) (driver : Text) : List Text :=
  text "password" :: R.secretSettings driver

def marker : Json := .str savedLogin

/-- `_usable`: the text of a usable value. -/
def usableText : Json → Option Text
  | .str s => if usable s then some s else none
  | _ => none

def isMarker (v : Json) : Bool :=
  v.asStr = some savedLogin

def fieldsOf : Json → Option (List (Text × Json))
  | .obj fields => some fields
  | _ => none

/-! Devices. -/

/-- `project.get("devices") or []`, walked. A dict or a text is walked by its
keys or its characters, none of which is a device. -/
def devicesOf (project : Json) : Except Exc (List Json) :=
  match project.get? (text "devices") with
  | some (.arr devices) => .ok devices
  | some (.obj _) => .ok []
  | some (.str _) => .ok []
  | some v => if v.truthy then .error .type else .ok []
  | none => .ok []

def connectionsOf (project : Json) : List (Text × Json) :=
  ((project.get? (text "connections")).bind fieldsOf).getD []

/-- `_Row` -/
structure Row where
  deviceId : Text
  driver : Text
  config : List (Text × Json)
  connection : Option (List (Text × Json))

/-- The id and driver of a device that has both. -/
def deviceName (device : Json) : Option (Text × Text) :=
  match device.get? (text "id"), device.get? (text "driver") with
  | some (.str deviceId), some (.str driver) => some (deviceId, driver)
  | _, _ => none

def rowOf (connections : List (Text × Json)) (device : Json) : Option Row :=
  (deviceName device).map fun name =>
    { deviceId := name.1
      driver := name.2
      config := ((device.get? (text "config")).bind fieldsOf).getD []
      connection := (connections.lookup name.1).bind fieldsOf }

/-- `_rows_of` -/
def rowsOf (project : Json) : Except Exc (List Row) :=
  (devicesOf project).map fun devices => devices.filterMap (rowOf (connectionsOf project))

/-- The value of a setting that a device dials: its connection row's over its config's. -/
def Row.dialled (row : Row) (name : Text) : Option Text :=
  ((row.connection.bind fun c => c.lookup name).bind usableText).or ((row.config.lookup name).bind usableText)

/-- The login settings of a device and their values. -/
def Row.values (R : Registry) (row : Row) : List (Text × Text) :=
  (R.loginFields row.driver).foldl
    (fun values name => match row.dialled name with
      | some v => Dict.set values name v
      | none => values)
    []

/-! Plugins. -/

/-- The path of `field` (dotted through groups) in its holder. -/
def fieldPath (field : Text) : Path :=
  (field.splitOn 46).map .key

/-- `plugin_secrets.get_field` -/
def getField (holder : Json) (field : Text) : Json :=
  (holder.node (fieldPath field)).getD .null

/-- `plugin_secrets.item_name` -/
def itemName (listKey idKey itemId : Text) : Text :=
  listKey ++ [91] ++ idKey ++ [61] ++ itemId ++ [93]

/-- `_id_text` -/
def idText : Json → Option Text
  | .str s => if s.strip = [] then none else some s.strip
  | .int n => some (intText n)
  | _ => none

/-- `_ITEM.match`: the list, the key of the id and the id in `list[key=id]`. -/
def matchItem (item : Text) : Option (Text × Text × Text) :=
  let bracket (c : Nat) : Bool := c = 91 ∨ c = 93
  let list := item.takeWhile fun c => !bracket c
  match item.dropWhile fun c => !bracket c with
  | 91 :: rest =>
    let idKey := rest.takeWhile fun c => !bracket c && c ≠ 61
    match rest.dropWhile fun c => !bracket c && c ≠ 61 with
    | 61 :: rest =>
      -- `$` also matches before a newline at the end
      let rest := if rest.getLast? = some 10 then rest.dropLast else rest
      if list = [] ∨ idKey = [] ∨ rest.getLast? ≠ some 93 ∨ rest.dropLast.any (· = 10) then none
      else some (list, idKey, rest.dropLast)
    | _ => none
  | _ => none

/-- `plugin_secrets.holder_of`: where the dict that holds an item's logins is in a config. -/
def holderPath (config : Json) (item : Text) : Option Path :=
  if !config.isObj then none
  else if item = [] then some []
  else match matchItem item with
    | none => none
    | some (list, idKey, itemId) =>
      match config.get? list with
      | some (.arr entries) =>
        match entries.zipIdx.filter fun u => ((u.1.get? idKey).bind idText) = some itemId with
        | [u] => some [.key list, .idx u.2]
        | _ => none
      | _ => none

def holderOf (config : Json) (item : Text) : Json :=
  ((holderPath config item).bind config.node).getD .null

/-- `plugin_secrets.places` -/
def places (config : Json) (secrets : PluginSecrets) : List (Text × Text) :=
  if !config.isObj then []
  else
    (secrets.schemaFields.map fun path => ([], [46].intercalate path)) ++
      secrets.lists.flatMap fun decl =>
        match config.get? decl.key with
        | some (.arr entries) =>
          let ids := entries.map fun e => (e.get? decl.idKey).bind idText
          (ids.filter fun i => ids.count i = 1).flatMap fun i => match i with
            | some itemId => decl.fields.map fun field => (itemName decl.key decl.idKey itemId, field)
            | none => []
        | _ => []

/-- `plugin_secrets.find` -/
def findIn (config : Json) (secrets : PluginSecrets) : List (Text × List (Text × Text)) :=
  (places config secrets).foldl
    (fun found place => match usableText (getField (holderOf config place.1) place.2) with
      | some v => Dict.set found place.1 (Dict.set ((found.lookup place.1).getD []) place.2 v)
      | none => found)
    []

/-- `plugin_configs` -/
def pluginConfigs (project : Json) : List (Text × Json) :=
  (((project.get? (text "plugins")).bind fieldsOf).getD []).filterMap fun u =>
    match u.2.get? (text "config") with
    | some (.obj config) => some (u.1, .obj config)
    | _ => none

/-- `find_plugin_logins` -/
def findPluginLogins (R : Registry) (pluginId : Text) (config : Json) : List FoundLogin :=
  ((findIn config (R.declaredFor pluginId)).insertionSort fun a b => a.1 ≤ b.1).map fun u =>
    ⟨pluginOwner pluginId u.1, u.2⟩

/-! The mesh key. -/

/-- `isc_key` -/
def iscKey (project : Json) : Json :=
  match project.get? (text "isc") with
  | some (.obj isc) => (isc.lookup iscField).getD .null
  | _ => .null

def iscPath : Path := [.key (text "isc"), .key iscField]

/-! Moving logins out of a project. -/

/-- `find_logins` -/
def findLogins (R : Registry) (skip : Text → Bool) (project : Json) : Except Exc (List FoundLogin) :=
  (rowsOf project).map fun rows =>
    (rows.filterMap fun row =>
      let values := row.values R
      if skip row.deviceId ∨ values = [] then none else some ⟨deviceOwner row.deviceId row.driver, values⟩) ++
    (pluginConfigs project).flatMap (fun u => findPluginLogins R u.1 u.2) ++
    match usableText (iscKey project) with
    | some key => [⟨iscOwner, [(iscField, key)]⟩]
    | none => []

/-- `mark`: a holder with the marker over its logins; `none` when it has none. -/
def markHolder (names : List Text) (holder : Option Json) : Option Json :=
  match holder with
  | some (.obj fields) =>
    if names.any fun n => ((fields.lookup n).bind usableText).isSome then
      some (.obj (fields.map fun u => (u.1, if u.1 ∈ names ∧ (usableText u.2).isSome then marker else u.2)))
    else none
  | _ => none

def putMarked (project : Json) (path : Path) (names : List Text) : Json :=
  match markHolder names (project.node path) with
  | some holder => project.put path holder
  | none => project

def devicePath (i : Nat) : Path := [.key (text "devices"), .idx i]

def configPath (i : Nat) : Path := devicePath i ++ [.key (text "config")]

def rowPath (deviceId : Text) : Path := [.key (text "connections"), .key deviceId]

def hashable : Option Json → Bool
  | some (.arr _) => false
  | some (.obj _) => false
  | _ => true

/-- A turn of the loop of `_marked_devices`, on the device at index `i`. A
list or an object in place of an id or a driver cannot be looked up. -/
def markDevice (wanted : List ((Text × Text) × List Text)) (marked : Json) (i : Nat) : Except Exc Json :=
  match marked.node (devicePath i) with
  | some (.obj device) =>
    if !hashable (device.lookup (text "id")) ∨ !hashable (device.lookup (text "driver")) then .error .type
    else match deviceName (.obj device) with
      | none => .ok marked
      | some name => match wanted.lookup name with
        | none => .ok marked
        | some names => .ok (putMarked (putMarked marked (configPath i) names) (rowPath name.1) names)
  | _ => .ok marked

/-- `_marked_devices` -/
def markedDevices (project : Json) (found : List FoundLogin) : Except Exc Json := do
  let wanted := found.foldl (fun d f => Dict.set d (f.owner.name, f.owner.qualifier) (f.fields.map Prod.fst)) []
  (List.range (← devicesOf project).length).foldlM (markDevice wanted) project

/-- Each of `fields` in a holder set to what `value` gives for it. -/
def setFields (value : Text → Json → Option Json) (config : Json) (holder : Path) (fields : List Text) : Json :=
  fields.foldl
    (fun config field => match value field (getField ((config.node holder).getD .null) field) with
      | some v => config.put (holder ++ fieldPath field) v
      | none => config)
    config

def markUsable (_ : Text) (v : Json) : Option Json :=
  if (usableText v).isSome then some marker else none

/-- `plugin_secrets.marked` -/
def markedConfig (config : Json) (found : List (Text × List Text)) : Json :=
  found.foldl
    (fun config u => match holderPath config u.1 with
      | some holder => setFields markUsable config holder u.2
      | none => config)
    config

def pluginConfigPath (pluginId : Text) : Path :=
  [.key (text "plugins"), .key pluginId, .key (text "config")]

/-- `_marked_copy` -/
def markedCopy (project : Json) (found : List FoundLogin) : Except Exc Json := do
  let marked ← markedDevices project (found.filter fun f => f.owner.kind = .device)
  let items (pluginId : Text) : List (Text × List Text) :=
    (found.filter fun f => f.owner.kind = .plugin ∧ f.owner.name = pluginId).map fun f =>
      (f.owner.qualifier, f.fields.map Prod.fst)
  let marked := (pluginConfigs marked).foldl
    (fun marked u => if items u.1 = [] then marked
      else marked.put (pluginConfigPath u.1) (markedConfig u.2 (items u.1))) marked
  if found.any (fun f => f.owner.kind = .project) ∧ (usableText (iscKey marked)).isSome then
    return marked.put iscPath marker
  return marked

section

variable (P : Python) (F : Fernet)

/-- `_stored` -/
def stored (found : List FoundLogin) (typed : Bool) (library : Option Text) : Op Bool :=
  orElse (do
    store P F found library typed
    verify P F
    found.forM fun login => login.fields.forM fun u => do
      if (← secret P F login.owner u.1 library).isNone then
        raise (.unreadable (.notThere u.1 login.owner.name))
    return true) false

/-- `move_logins` -/
def moveLogins (R : Registry) (skip : Text → Bool) (typed : Bool) (library : Option Text) (project : Json) :
    Op Json := do
  let found ← Op.ofExcept (findLogins R skip project)
  if found.isEmpty then return project
  if !(← stored P F found typed library) then return project
  Op.ofExcept (markedCopy project found)

end

/-! Putting them back. -/

/-- The saved logins a project gets: a `StoreView`. -/
structure View where
  secret : Owner → Text → Option Text
  pluginItems : Text → List (Text × List (Text × Text))

/-- A `StoreView` of a store that has been loaded. -/
def Store.view (st : Store) (libraries : List (Option Text)) : View where
  secret owner field := libraries.findSome? fun library => st.secret owner field library
  pluginItems pluginId :=
    (libraries.reverse.flatMap fun library => st.pluginItems pluginId library).foldl
      (fun merged u =>
        Dict.set merged u.1 (u.2.foldl (fun d f => Dict.set d f.1 f.2) ((merged.lookup u.1).getD []))) []

/-- `marked_fields` -/
def markedFields (holder : List (Text × Json)) : List Text :=
  ((holder.filter fun u => isMarker u.2).map Prod.fst).insertionSort (· ≤ ·)

/-- `plugin_secrets.marked_places` -/
def markedPlaces (config : Json) (items : List (Text × List Text)) : List (Text × Text) :=
  items.flatMap fun u => match holderPath config u.1 with
    | none => []
    | some holder =>
      (u.2.filter fun field => isMarker (getField ((config.node holder).getD .null) field)).map (u.1, ·)

/-- What `saved_logins_of` finds behind the markers in one plugin's config. -/
def savedInPlugin (view : View) (pluginId : Text) (config : Json) : List FoundLogin :=
  let items := (view.pluginItems pluginId).insertionSort fun a b => a.1 ≤ b.1
  let byItem := (markedPlaces config (items.map fun u => (u.1, u.2.map Prod.fst))).foldl
    (fun byItem place => match (view.secret (pluginOwner pluginId place.1) place.2).filter usable with
      | some v => Dict.set byItem place.1 (Dict.set ((byItem.lookup place.1).getD []) place.2 v)
      | none => byItem)
    []
  byItem.map fun u => ⟨pluginOwner pluginId u.1, u.2⟩

/-- `saved_logins_of`, without the devices, whose part of it `put_back` leaves aside. -/
def savedLoginsOf (project : Json) (view : View) : Except Exc (List FoundLogin) :=
  (rowsOf project).map fun _ =>
    (pluginConfigs project).flatMap (fun u => savedInPlugin view u.1 u.2) ++
    if isMarker (iscKey project) then
      match (view.secret iscOwner iscField).filter usable with
      | some key => [⟨iscOwner, [(iscField, key)]⟩]
      | none => []
    else []

/-- One item of a plugin, or the mesh key, put back. An item without a holder
cannot be set, and a plugin that is gone is a `KeyError`. -/
def putBackFound (marked : Json) (found : FoundLogin) : Except Exc Json :=
  match found.owner.kind with
  | .project => match found.fields.lookup iscField with
    | some key => .ok (marked.put iscPath (.str key))
    | none => .error .other
  | .plugin => match (pluginConfigs marked).lookup found.owner.name with
    | some config => match holderPath config found.owner.qualifier with
      | some holder =>
        .ok (marked.put (pluginConfigPath found.owner.name)
          (setFields (fun field _ => (found.fields.lookup field).map .str) config holder
            (found.fields.map Prod.fst)))
      | none => .error .type
    | none => .error .other
  | .device => .ok marked

def restoreField (view : View) (owner : Owner) (path : Path) (acc : Json × Bool) (field : Text) : Json × Bool :=
  match view.secret owner field with
  | some v => (acc.1.put (path ++ [.key field]) (.str v), true)
  | none => acc

/-- `restore`: each marker in a device's holder replaced by its saved login,
and whether there was one. -/
def restoreHolder (view : View) (name : Text × Text) (acc : Json × Bool) (path : Path) : Json × Bool :=
  match acc.1.node path with
  | some (.obj holder) => (markedFields holder).foldl (restoreField view (deviceOwner name.1 name.2) path) acc
  | _ => acc

def restoreDevice (view : View) (acc : Json × Bool) (i : Nat) : Json × Bool :=
  match (acc.1.node (devicePath i)).bind deviceName with
  | some name => restoreHolder view name (restoreHolder view name acc (configPath i)) (rowPath name.1)
  | none => acc

/-- `put_back`; `none` when nothing changed. -/
def putBack (project : Json) (view : View) : Except Exc (Option Json) := do
  let found ← savedLoginsOf project view
  let marked ← found.foldlM putBackFound project
  let (marked, changed) :=
    (List.range (← devicesOf marked).length).foldl (restoreDevice view) (marked, !found.isEmpty)
  return if changed then some marked else none

end OpenAvc.Logins
