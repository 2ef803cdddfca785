import OpenAvc.Data.Json
import OpenAvc.Data.Utf8

namespace OpenAvc.Logins

/-- What the project holds in a field whose login is saved on this system. -/
def savedLogin : Text := text "<saved on this system>"

/-- `_usable` of a text. -/
def usable (value : Text) : Bool :=
  value ≠ [] ∧ value ≠ savedLogin

inductive Kind
  | device
  | plugin
  | project
  deriving DecidableEq

structure Owner where
  kind : Kind
  name : Text
  qualifier : Text
  deriving DecidableEq

def deviceOwner (deviceId driver : Text) : Owner := ⟨.device, deviceId, driver⟩

def pluginOwner (pluginId item : Text) : Owner := ⟨.plugin, pluginId, item⟩

def iscOwner : Owner := ⟨.project, text "isc", []⟩

def iscField : Text := text "auth_key"

/-- An entry's key: the library copy it is filed for (`none` for the running
project) and its owner. -/
abbrev Key := Option Text × Owner

/-- A `datetime`: microseconds by its own clock, and how far that is ahead of UTC. -/
structure DateTime where
  clock : Int
  offset : Option Int
  deriving DecidableEq

namespace DateTime

def instant (d : DateTime) : Int := d.clock - d.offset.getD 0

/-- Datetimes are equal at one instant; a naive one never equals one with an offset. -/
def same (d d' : DateTime) : Bool :=
  d.instant = d'.instant ∧ d.offset.isSome = d'.offset.isSome

/-- `replace(tzinfo=timezone.utc)` where there is none. -/
def inUtc (d : DateTime) : DateTime :=
  { d with offset := some (d.offset.getD 0) }

end DateTime

structure Entry where
  fields : List (Text × Text)
  removedAt : Option DateTime := none

def Entry.same (e e' : Entry) : Bool :=
  Dict.same (· == ·) e.fields e'.fields &&
    match e.removedAt, e'.removedAt with
    | none, none => true
    | some d, some d' => d.same d'
    | _, _ => false

abbrev Entries := List (Key × Entry)

structure FoundLogin where
  owner : Owner
  fields : List (Text × Text)

/-- What the interpreter and its library bring: the room `json.loads` has for
containers inside one another, `str` of a value that is no text (`none` when it
raises `RecursionError`), and reading and writing a date. -/
structure Python where
  stack : Nat
  str : Json → Option Text
  fromisoformat : Text → Option DateTime
  isoformat : DateTime → Text

/-- The cipher. `decrypt` gives the decrypted text of a token: `none` when
`Fernet.decrypt` raises `InvalidToken`, or when its bytes are text in no
encoding `json.loads` takes, a `ValueError`. A token depends on the time and a
random number, which `encrypt` and `generate` take as a number. -/
structure Fernet where
  accepts : Bytes → Bool
  encrypt : Bytes → Nat → Text → Text
  decrypt : Bytes → Text → Option Text
  generate : Nat → Bytes
  accepts_generate : ∀ n, accepts (generate n)

/-- Why the login file is not opened, or not written. -/
inductive Reason
  | cannotBeRead
  | notALoginFile
  | newerVersion (version : Json)
  | keyMissing
  | doesNotOpen
  | keyDamaged
  | readBackDifferently
  | notThere (field name : Text)

/-- The exceptions that leave a call: `unreadable` is `LoginFileUnreadable`,
`value` a `ValueError` (as `UnicodeDecodeError` is one), `other` any further
`Exception`, and `interrupt` what is none, such as `KeyboardInterrupt`. -/
inductive Exc
  | unreadable (reason : Reason)
  | value
  | type
  | recursion
  | os
  | other
  | interrupt

def Exc.isException : Exc → Bool
  | .interrupt => false
  | _ => true

inductive Fault
  | os
  | other
  | interrupt

def Fault.exc : Fault → Exc
  | .os => .os
  | .other => .other
  | .interrupt => .interrupt

/-- How a file operation ends: it is done, it fails, or it is done and then
interrupted before it returns. -/
inductive Outcome
  | done
  | fails (f : Fault)
  | stops (f : Fault)

structure Disk where
  file : Option Bytes := none
  key : Option Bytes := none

/-- A `DeviceLogins`. -/
structure Store where
  entries : Entries := []
  loaded : Bool := false
  unreadable : Option Reason := none

/-- The data folder and the store in front of it. `faults` are the outcomes of
the file operations to come, all done once it is empty; `nonce` numbers what is
made at random. -/
structure System where
  disk : Disk
  store : Store := {}
  faults : List Outcome := []
  nonce : Nat := 0

/-- A call: an exception leaves behind whatever was done before it. -/
abbrev Op := EStateM Exc System

/-- One file operation. -/
def fileOp {α : Type} (act : Disk → α × Disk) : Op α := fun s =>
  match s.faults with
  | [] => .ok (act s.disk).1 { s with disk := (act s.disk).2 }
  | .done :: faults => .ok (act s.disk).1 { s with disk := (act s.disk).2, faults }
  | .fails f :: faults => .error f.exc { s with faults }
  | .stops f :: faults => .error f.exc { s with disk := (act s.disk).2, faults }

/-- `except` of the exceptions that `caught` turns into another one. -/
def except {α : Type} (op : Op α) (caught : Exc → Exc) : Op α := fun s =>
  match op s with
  | .ok a s' => .ok a s'
  | .error e s' => .error (caught e) s'

def updateStore (f : Store → Store) : Op Unit :=
  modify fun s => { s with store := f s.store }

def raise {α : Type} (e : Exc) : Op α := throw e

def format : Text := text "openavc-device-logins"

def formatVersion : Int := 2

/-- `version in _READABLE_VERSIONS`, where `True` is 1 and a float may be equal to an integer. -/
def readableVersion : Json → Bool
  | .int n => n = 1 ∨ n = 2
  | .bool b => b
  | .float d => d.readsAs 1 ∨ d.readsAs 2
  | _ => false

/-- `PAYLOAD_LISTS`, in its order. -/
def payloadLists : List (Kind × Text) :=
  [(.device, text "devices"), (.plugin, text "plugins"), (.project, text "project")]

/-- `_OWNER_NAMES` -/
def ownerNames : Kind → Text × Option Text
  | .device => (text "device", some (text "driver"))
  | .plugin => (text "plugin", some (text "item"))
  | .project => (text "section", none)

def ownerFields (o : Owner) : List (Text × Json) :=
  ((ownerNames o.kind).1, .str o.name) :: ((ownerNames o.kind).2.map fun k => (k, Json.str o.qualifier)).toList

/-- The owner a payload item names. -/
def ownerFrom (item : Json) (kind : Kind) : Option Owner :=
  let name := item.get? (ownerNames kind).1
  let qualifier := match (ownerNames kind).2 with
    | some k => (item.get? k).getD (.str [])
    | none => .str []
  match name, qualifier with
  | some (.str name), .str qualifier =>
    if name = [] then none
    else if kind = .device ∧ qualifier = [] then none
    else some ⟨kind, name, qualifier⟩
  | _, _ => none

section

variable (P : Python) (F : Fernet)

/-- `str(value)` -/
def Python.text : Json → Except Exc Text
  | .str s => .ok s
  | v => (P.str v).elim (.error .recursion) .ok

/-- `_entry_from`; `none` for an entry that is skipped. -/
def entryFrom (item : Json) (kind : Kind) : Except Exc (Option (Key × Entry)) :=
  match item, ownerFrom item kind, item.get? (text "fields"), (item.get? (text "library")).getD .null with
  | .obj _, some owner, some (.obj fields), library =>
    match library with
    | .null => (removal (item.get? (text "removed_at"))).map fun d => some ((none, owner), ⟨kept fields, d⟩)
    | .str l => (removal (item.get? (text "removed_at"))).map fun d => some ((some l, owner), ⟨kept fields, d⟩)
    | _ => .ok none
  | _, _, _, _ => .ok none
where
  kept (fields : List (Text × Json)) : List (Text × Text) :=
    fields.filterMap fun u => u.2.asStr.bind fun v => if usable v then some (u.1, v) else none
  removal (removedAt : Option Json) : Except Exc (Option DateTime) :=
    match removedAt with
    | some v => if v.truthy then (P.text v).map fun t => (P.fromisoformat t).map DateTime.inUtc else .ok none
    | none => .ok none

/-- The items of a payload, each under its list's kind. -/
def payloadItems (payload : Json) : List (Kind × Json) :=
  payloadLists.flatMap fun l =>
    match payload.get? l.2 with
    | some (.arr items) => items.map (l.1, ·)
    | _ => []

/-- The entries of a payload: those that read as one, the last of a key. -/
def entriesOf (payload : Json) : Except Exc Entries :=
  (payloadItems payload).foldlM
    (fun entries u => do
      match ← entryFrom P u.2 u.1 with
      | some (key, entry) => return Dict.set entries key entry
      | none => return entries)
    []

/-- The envelope in a login file's text. -/
def envelopeOf (t : Text) : Except Exc Json :=
  match Json.loads P.stack t with
  | .error .value => .error (.unreadable .cannotBeRead)
  | .error .recursion => .error .recursion
  | .ok envelope =>
    match envelope.get? (text "format") with
    | some (.str f) =>
      if f ≠ format then .error (.unreadable .notALoginFile)
      else
        let version := (envelope.get? (text "version")).getD .null
        if readableVersion version then .ok envelope else .error (.unreadable (.newerVersion version))
    | _ => .error (.unreadable .notALoginFile)

/-- What the key opens of an envelope. -/
def payloadOf (envelope : Json) (key : Bytes) : Except Exc Json :=
  if F.accepts key then do
    let sealedText ← P.text ((envelope.get? (text "sealed")).getD (.str []))
    if sealedText.any (128 ≤ ·) then .error (.unreadable .doesNotOpen)
    else match F.decrypt key sealedText with
      | none => .error (.unreadable .doesNotOpen)
      | some t => match Json.loads P.stack t with
        | .ok payload => .ok payload
        | .error .value => .error (.unreadable .doesNotOpen)
        | .error .recursion => .error .recursion
  else .error (.unreadable .doesNotOpen)

def Op.ofExcept {α : Type} : Except Exc α → Op α
  | .ok a => pure a
  | .error e => raise e

/-- `_open` -/
def openText (t : Text) : Op Entries := do
  let envelope ← Op.ofExcept (envelopeOf P t)
  if ¬(← fileOp fun d => (d.key.isSome, d)) then raise (.unreadable .keyMissing)
  let key ← except (fileOp fun d => (stripBytes (d.key.getD []), d)) fun
    | .os => .unreadable .doesNotOpen
    | e => e
  let payload ← Op.ofExcept (payloadOf P F envelope key)
  Op.ofExcept (entriesOf P payload)

/-- `_read` -/
def read : Op Entries := do
  let bytes ← except (fileOp fun d => (d.file.getD [], d)) fun
    | .os => .unreadable .cannotBeRead
    | e => e
  match decodeUtf8 bytes with
  | some t => openText P F t
  | none => raise .value

/-- What `_load` finds on disk: the entries, or why they cannot be read. -/
def opened : Op (Entries × Option Reason) := do
  if ¬(← fileOp fun d => (d.file.isSome, d)) then return ([], none)
  fun s => match read P F s with
    | .ok entries s' => .ok (entries, none) s'
    | .error (.unreadable reason) s' => .ok ([], some reason) s'
    | .error e s' => .error e s'

/-- `_load` -/
def load : Op Unit := do
  if (← get).store.loaded then return
  updateStore fun st => { st with loaded := true }
  let (entries, unreadable) ← opened P F
  updateStore fun st => { st with entries, unreadable }

def sameEntries (d d' : Entries) : Bool := Dict.same Entry.same d d'

/-- `verify` -/
def verify : Op Unit := do
  let (entries, unreadable) ← opened P F
  match unreadable with
  | some reason => raise (.unreadable reason)
  | none => if ¬sameEntries entries (← get).store.entries then raise (.unreadable .readBackDifferently)

/-- The saved value of a setting in a store that has been loaded. -/
def Store.secret (st : Store) (owner : Owner) (field : Text) (library : Option Text) : Option Text :=
  ((st.entries.lookup (library, owner)).bind fun e => e.fields.lookup field).filter usable

/-- `secret`, and `login` for a device's owner -/
def secret (owner : Owner) (field : Text) (library : Option Text) : Op (Option Text) := do
  load P F
  return (← get).store.secret owner field library

def Store.pluginItems (st : Store) (pluginId : Text) (library : Option Text) : List (Text × List (Text × Text)) :=
  st.entries.filterMap fun u =>
    if u.1.1 = library ∧ u.1.2.kind = .plugin ∧ u.1.2.name = pluginId ∧ u.2.fields ≠ [] then
      some (u.1.2.qualifier, u.2.fields)
    else none

def pluginItems (pluginId : Text) (library : Option Text) : Op (List (Text × List (Text × Text))) := do
  load P F
  return (← get).store.pluginItems pluginId library

def libraries : Op (List Text) := do
  load P F
  return ((← get).store.entries.filterMap fun u => u.1.1).dedup

/-! The writes. -/

/-- `_key` -/
def loginKey : Op Bytes := do
  fileOp fun d => ((), d)
  if ← fileOp fun d => (d.key.isSome, d) then
    let key ← fileOp fun d => (stripBytes (d.key.getD []), d)
    if F.accepts key then return key else raise (.unreadable .keyDamaged)
  let key := F.generate (← get).nonce
  modify fun s => { s with nonce := s.nonce + 1 }
  fileOp fun d => ((), { d with key := some (key ++ [10]) })
  return key

def Kind.order : Kind → Nat
  | .device => 0
  | .plugin => 1
  | .project => 2

/-- The order of `_sort_key`: the running project's entries first, then by
library, kind, name and qualifier. -/
def keyLe (k k' : Key) : Bool :=
  let rank (k : Key) := [if k.1.isNone then 0 else 1]
  let parts (k : Key) : List Text := [rank k, k.1.getD [], [k.2.kind.order], k.2.name, k.2.qualifier]
  decide (parts k ≤ parts k')

def Entries.sorted (entries : Entries) : Entries :=
  entries.insertionSort fun u u' => keyLe u.1 u'.1

/-- The payload of a login file. -/
def payloadFor (entries : Entries) : Json :=
  .obj (entries.sorted.foldl
    (fun payload u =>
      let listed := (payloadLists.lookup u.1.2.kind).getD []
      let item := ownerFields u.1.2 ++
        [(text "fields", .obj ((u.2.fields.insertionSort fun a b => a.1 ≤ b.1).map fun f => (f.1, .str f.2))),
          (text "removed_at", u.2.removedAt.elim .null fun d => .str (P.isoformat d))] ++
        (u.1.1.map fun l => (text "library", Json.str l)).toList
      let items := match payload.lookup listed with
        | some (.arr items) => items
        | _ => []
      Dict.set payload listed (.arr (items ++ [.obj item])))
    [(text "devices", .arr [])])

/-- `_envelope`: the text of a login file. -/
def envelope (entries : Entries) (key : Bytes) : Op Text := do
  if F.accepts key then
    let token := F.encrypt key (← get).nonce (Json.dumps { sortKeys := true } (payloadFor P entries))
    modify fun s => { s with nonce := s.nonce + 1 }
    return Json.dumps { indent := some 2 }
      (.obj [(text "format", .str format), (text "version", .int formatVersion), (text "sealed", .str token)]) ++ [10]
  else raise .value

/-- `_commit` -/
def commit (entries : Entries) : Op Unit := do
  match (← get).store.unreadable with
  | some reason => raise (.unreadable reason)
  | none =>
    let key ← loginKey F
    let content ← envelope P F entries key
    fileOp fun d => ((), { d with file := some (encodeUtf8 content) })
    updateStore fun st => { st with entries }

/-- What `store` makes of the saved fields of one owner. -/
def mergeFields (typed : Bool) (saved fields : List (Text × Text)) : List (Text × Text) :=
  fields.foldl (fun saved u => if typed ∨ (saved.lookup u.1).isNone then Dict.set saved u.1 u.2 else saved) saved

/-- The entries with one login filed, and whether any entry has changed. -/
def fileLogin (library : Option Text) (typed : Bool) (acc : Entries × Bool) (login : FoundLogin) : Entries × Bool :=
  let key := (library, login.owner)
  match acc.1.lookup key with
  | none => (Dict.set acc.1 key ⟨mergeFields typed [] login.fields, none⟩, true)
  | some current =>
    let saved := mergeFields typed current.fields login.fields
    if ¬Dict.same (· == ·) saved current.fields ∨ current.removedAt.isSome then
      (Dict.set acc.1 key ⟨saved, none⟩, true)
    else acc

/-- `store` -/
def store (found : List FoundLogin) (library : Option Text) (typed : Bool) : Op Unit := do
  if found.any fun login => login.fields.any fun u => !usable u.2 then raise .value
  load P F
  let filed := found.foldl (fileLogin library typed) ((← get).store.entries, false)
  if filed.2 then commit P F filed.1

/-- `save` -/
def save (deviceId driver : Text) (fields : List (Text × Text)) (library : Option Text) : Op Unit :=
  store P F [⟨deviceOwner deviceId driver, fields⟩] library true

/-- `adopt_library` -/
def adoptLibrary (library : Text) (present : Owner → Bool) : Op Unit := do
  load P F
  let found := (← get).store.entries.sorted.filterMap fun u =>
    if u.1.1 = some library ∧ u.2.fields ≠ [] ∧ present u.1.2 then some ⟨u.1.2, u.2.fields⟩ else none
  if found ≠ [] then store P F found none false

/-- The entries with those of the library `target` replaced by `copies`. -/
def commitCopies (target : Text) (copies : Key × Entry → Option (Key × Entry)) : Op Unit := do
  let current := (← get).store.entries
  let kept := current.filter fun u => u.1.1 ≠ some target
  let entries := (current.filterMap copies).foldl (fun d u => Dict.set d u.1 u.2) kept
  if ¬sameEntries entries current then commit P F entries

/-- `file_library` -/
def fileLibrary (library : Text) (present : Owner → Bool) : Op Unit := do
  load P F
  commitCopies P F library fun u =>
    if u.1.1 = none ∧ u.2.fields ≠ [] ∧ present u.1.2 then some ((some library, u.1.2), ⟨u.2.fields, none⟩) else none

/-- `copy_library` -/
def copyLibrary (source target : Text) : Op Unit := do
  load P F
  commitCopies P F target fun u => if u.1.1 = some source then some ((some target, u.1.2), u.2) else none

/-- `drop_library` -/
def dropLibrary (library : Text) : Op Unit := do
  load P F
  if (← get).store.unreadable.isSome then return
  commitCopies P F library fun _ => none

/-- How long a removed device's logins are kept, in microseconds. -/
def removedKeep : Int := 90 * 24 * 3600 * 1000000

/-- What a sweep makes of an entry: `none` deletes it. -/
def sweepEntry (present : Owner → Bool) (now : DateTime) (u : Key × Entry) : Option (Key × Entry) :=
  if u.1.1.isSome then some u
  else if present u.1.2 then some (u.1, { u.2 with removedAt := none })
  else match u.2.removedAt with
    | none => some (u.1, { u.2 with removedAt := some now })
    | some removed => if now.instant - removed.instant ≥ removedKeep then none else some u

def sweepChanges (present : Owner → Bool) (now : DateTime) (u : Key × Entry) : Bool :=
  u.1.1.isNone ∧
    if present u.1.2 then u.2.removedAt.isSome
    else match u.2.removedAt with
      | none => true
      | some removed => now.instant - removed.instant ≥ removedKeep

/-- `sweep` -/
def sweep (present : Owner → Bool) (now : DateTime) : Op Unit := do
  load P F
  let st := (← get).store
  if st.unreadable.isSome ∨ st.entries.isEmpty then return
  if st.entries.any (sweepChanges present now) then commit P F (st.entries.filterMap (sweepEntry present now))

/-- `backup_copy` -/
def backupCopy (present : Owner → Bool) : Op (Option Text) := do
  load P F
  let st := (← get).store
  if st.unreadable.isSome then return none
  if ¬(← fileOp fun d => (d.key.isSome, d)) then return none
  let entries : Entries := st.entries.filterMap fun u =>
    if u.1.1 = none ∧ u.2.fields ≠ [] ∧ present u.1.2 then some (u.1, ⟨u.2.fields, none⟩) else none
  if entries.isEmpty then return none
  return some (← envelope P F entries (← loginKey F))

/-- `except Exception`, with what the call then returns. -/
def orElse {α : Type} (op : Op α) (a : α) : Op α := fun s =>
  match op s with
  | .ok b s' => .ok b s'
  | .error e s' => if e.isException then .ok a s' else .error e s'

/-- `restore_copy` -/
def restoreCopy (t : Text) (present : Owner → Bool) : Op Nat :=
  orElse (do
    load P F
    if (← get).store.unreadable.isSome then return 0
    let copied := (← openText P F t).sorted.filter fun u => u.1.1 = none ∧ present u.1.2 ∧ u.2.fields ≠ []
    let st := (← get).store
    let missing (u : Key × Entry) : List (Text × Text) :=
      u.2.fields.filter fun f => (((st.entries.lookup u.1).bind fun e => e.fields.lookup f.1)).isNone
    if copied ≠ [] then
      store P F (copied.map fun u => ⟨u.1.2, u.2.fields⟩) none false
      verify P F
    return (copied.map fun u => (missing u).length).sum) 0

end

/-- A cipher whose tokens are the key and the text in the clear, to run calls on. -/
def Fernet.plain : Fernet where
  accepts key := key.length = 44
  generate _ := List.replicate 44 65
  encrypt key _ t := key.map UInt8.toNat ++ t
  decrypt key token := if key.map UInt8.toNat <+: token then some (token.drop key.length) else none
  accepts_generate _ := by decide

/-- An interpreter for files that hold no dates, to run calls on. -/
def Python.plain : Python where
  stack := 900
  str _ := some []
  fromisoformat _ := none
  isoformat _ := []

end OpenAvc.Logins
