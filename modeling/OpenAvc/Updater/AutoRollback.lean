import OpenAvc.Logins.Project
import OpenAvc.Updater.Backup
import OpenAvc.Updater.Marker

namespace OpenAvc.Updater.Automatic

open Storage Logins

/-- A file a marker may name as its backup; `name` is what it is called in
`backups/`, and `members` is what it holds when it opens as an archive. -/
structure Archive where
  path : Text
  name : Text
  mtime : Nat
  members : List (Path × Bytes)

/-- Where the running project's file is: below `projects/`, in a folder outside
the data folder, or elsewhere in the data folder. -/
inductive Running
  | projects (p : Path)
  | external (name : String)
  | elsewhere
  deriving DecidableEq

/-- What the automatic rollback reads and writes. `logins` is what the device
logins' file gives each of the projects, where there is such a file and it can
be read; `cache` lists the installers' folder in the order of `sorted`;
`restores` counts the data restores since the marker was written. -/
structure DataFolder where
  marker : Option Bytes
  disk : Disk
  library : FileTree
  running : Running
  logins : Option (List (Option Text) → View)
  archives : List Archive
  cache : Option (List Text)
  previous : Bool
  applyRollback : Bool := false
  scheduled : Option Text := none
  restores : Nat := 0

inductive Failure
  | python (e : Raise)
  | os
  | killed
  deriving DecidableEq, Repr

/-- What `schtasks` and the file it reads come to. -/
inductive Scheduling
  | done
  | refused
  | raises (created : Bool)
  deriving DecidableEq, Repr

/-- What the file operations of one startup come to. A read that fails is
`true`; a write that fails leaves what it has. -/
structure Outcomes where
  checkRead : Bool := false
  recordRead : Bool := false
  recordWrite : Option (Option Bytes) := none
  restoreRead : Bool := false
  restore : Fates := {}
  libraryRead : Path → Bool := fun _ => false
  libraryWrite : Path → Bool := fun _ => false
  runningRead : Bool := false
  runningWrite : Bool := false
  rollbackRead : Bool := false
  rollbackWrite : Option Bool := none
  clear : Bool := false
  scheduling : Scheduling := .done

abbrev Launch := EStateM Failure DataFolder

variable (P : Python) (render : Json → Option Bytes) (f : Outcomes)

def onMarker {α : Type} (x : Op α) : Launch α := fun s =>
  match x s.marker with
  | .ok a marker => .ok a { s with marker }
  | .error e marker => .error (.python e) { s with marker }

/-- `read_pending_marker`, which logs an `OSError` -/
def readMarker (fails : Bool) : Launch Json := if fails then pure .null else onMarker (readPendingMarker P)

/-- `check_rollback_needed` where file operations may fail -/
def rollbackNeeded (boot : Option Text) : Launch Bool := do
  let marker ← readMarker P f.checkRead
  if marker matches .null then return false
  if f.recordRead then return false
  let attempts ← onMarker (recordStartupAttempt P boot)
  match f.recordWrite with
  | none => return atLeastTwo attempts
  | some left =>
    modify fun s => { s with marker := left }
    throw .os

/-- The newest backup taken for the version that is rolled back to. -/
def newestFor (fromVersion : Text) (archives : List Archive) : Option Archive :=
  (archives.filter fun a => (text "pre-update-v" ++ fromVersion ++ text "-").isPrefixOf a.name ∧
    (text ".zip").isSuffixOf (a.name.drop (text "pre-update-v" ++ fromVersion ++ text "-").length)).foldl
    (fun best a => match best with
      | none => some a
      | some b => if b.mtime ≤ a.mtime then some a else some b) none

/-- `_find_pre_update_backup` -/
def findPreUpdateBackup (archives : List Archive) : Json → Except Raise (Option Archive)
  | .obj data =>
    let fallback :=
      match (data.lookup (text "from_version")).getD .null with
      | .str v => if v = [] then none else newestFor v archives
      | v => if v.truthy then newestFor (Json.dumps {} v) archives else none
    match (data.lookup (text "backup")).getD .null with
    | .str path =>
      if path = [] then .ok fallback
      else .ok ((archives.find? fun a => a.path = path).or fallback)
    | v => if v.truthy then .error .type else .ok fallback
  | _ => .error .attribute

/-- The backup that is restored for the marker. -/
def backupToRestore (archives : List Archive) (marker : Json) : Except Raise (Option Archive) :=
  if marker matches .null then .ok none else findPreUpdateBackup archives marker

def outside : Running → Bool
  | .external _ => true
  | _ => false

/-- `restore_user_data`, what it raises logged -/
def restoreData (a : Archive) : Launch Unit := fun s =>
  let s := { s with restores := s.restores + 1 }
  match restoreUserData f.restore a.members (outside s.running) s.disk with
  | .ok _ disk => .ok () { s with disk }
  | .error .os disk => .ok () { s with disk }
  | .error .killed disk => .error .killed { s with disk }

/-- `restore_pre_update_data` -/
def restorePreUpdateData : Launch Unit := do
  let marker ← readMarker P f.restoreRead
  match backupToRestore (← get).archives marker with
  | .error e => throw (.python e)
  | .ok none => pure ()
  | .ok (some a) => restoreData f a

/-- What `_put_back_file` does with a file: it is left alone, it is written, or
something is raised. -/
inductive PutBack
  | keeps
  | writes (bytes : Bytes)
  | raises

/-- `_put_back_file` -/
def putBackFile (view : View) (bytes : Bytes) : PutBack :=
  match decodeUtf8 bytes with
  | none => .keeps
  | some t =>
    match Json.loads P.room t with
    | .error .value => .keeps
    | .error .recursion => .raises
    | .ok raw =>
      if raw.isObj then
        match putBack raw view with
        | .error _ => .raises
        | .ok none => .keeps
        | .ok (some restored) => (render restored).elim .raises .writes
      else .keeps

/-- What becomes of the file at `p`, where there is one. -/
def putBackAt (t : FileTree) (p : Path) (readFails : Bool) (view : View) : PutBack :=
  match t.file? p with
  | some bytes => if readFails then .keeps else putBackFile P render view bytes
  | none => .keeps

/-- The copies in the Project Library, one after the other; what is raised ends
the walk, an `OSError` of the write does not. -/
def putBackLibrary (views : List (Option Text) → View) : List Path → FileTree → FileTree
  | [], library => library
  | p :: copies, library =>
    match putBackAt P render library p (f.libraryRead p) (views [none, (p.head?.map text)]) with
    | .writes bytes =>
      putBackLibrary views copies (if f.libraryWrite p then library else Dict.set library p (.file bytes))
    | .raises => library
    | .keeps => putBackLibrary views copies library

/-- `saved_projects/*/project.avc`, without the folders whose names begin with a dot -/
def libraryCopies (library : FileTree) : List Path :=
  (library.files.map Prod.fst).filter fun p => match p with
    | [folder, "project.avc"] => ¬".".isPrefixOf folder
    | _ => false

def writeBack (t : Option FileTree) (p : Path) (view : View) : Option FileTree :=
  t.map fun t => match putBackAt P render t p f.runningRead view with
    | .writes bytes => if f.runningWrite then t else Dict.set t p (.file bytes)
    | _ => t

/-- `put_back_for_rollback` -/
def putBackForRollback (s : DataFolder) : DataFolder :=
  match s.logins with
  | none => s
  | some views =>
    let library := putBackLibrary P render f views (libraryCopies s.library) s.library
    match s.running with
    | .projects p =>
      { s with library, disk.projects := writeBack P render f s.disk.projects p (views [none]) }
    | .external name =>
      { s with library
               disk.externalProject := writeBack P render f s.disk.externalProject [name] (views [none]) }
    | .elsewhere => { s with library }

/-- `parse_semver`, of ASCII digits and white space -/
def parseSemver (version : Text) : Except Raise (Nat × Nat × Nat × Text) :=
  let clean := Text.strip (version.dropWhile (· = 118))
  let (major, rest) := clean.span isDigit
  let (minor, rest') := (rest.drop 1).span isDigit
  let (patch, rest'') := (rest'.drop 1).span isDigit
  let prerelease := rest''.drop 1
  if major ≠ [] ∧ rest.head? = some 46 ∧ minor ≠ [] ∧ rest'.head? = some 46 ∧ patch ≠ [] ∧
      (rest'' = [] ∨ rest''.head? = some 45 ∧ prerelease ≠ [] ∧ 10 ∉ prerelease) then
    if [major, minor, patch].any fun digits => Json.Scan.intLimit < digits.length then .error .value
    else .ok (digitsValue major, digitsValue minor, digitsValue patch, prerelease)
  else .ok (0, 0, 0, [])

/-- `_installer_version`: of the file's stem without what all of them begin with -/
def installerVersion (name : Text) : Except Raise (Nat × Nat × Nat × Text) :=
  parseSemver ((name.take (name.length - 4)).drop 14)

/-- `OpenAVC-Setup-*.exe` -/
def isInstaller (name : Text) : Bool :=
  (text "OpenAVC-Setup-").isPrefixOf name ∧ (text ".exe").isSuffixOf (name.drop 14)

/-- The first of the installers that has the version. -/
def installerOf (target : Nat × Nat × Nat × Text) : List Text → Except Raise (Option Text)
  | [] => .ok none
  | i :: installers => do if (← installerVersion i) = target then return some i else installerOf target installers

/-- The last of the installers that has another version. -/
def installerOtherThan (left : Nat × Nat × Nat × Text) : List Text → Except Raise (Option Text)
  | [] => .ok none
  | i :: installers => do
    let version ← installerVersion i
    let later ← installerOtherThan left installers
    return later.or (if version ≠ left then some i else none)

/-- The installer `_rollback_windows` takes; `none` when it returns `False`. -/
def pickInstaller (cache : Option (List Text)) (fromVersion toVersion : Text) : Except Raise (Option Text) := do
  let installers := (cache.getD []).filter isInstaller
  if installers = [] then return none
  let target ← parseSemver fromVersion
  let left ← parseSemver toVersion
  match ← installerOf target installers with
  | some i => return some i
  | none => installerOtherThan left installers

/-- The versions `perform_rollback` reads of the marker. -/
def rollbackVersions : Json → Except Raise (Json × Json)
  | .null => .ok (.str (text "unknown"), .str (text "unknown"))
  | .obj data =>
    if data = [] then .ok (.str (text "unknown"), .str (text "unknown"))
    else .ok ((data.lookup (text "from_version")).getD (.str (text "unknown")),
      (data.lookup (text "to_version")).getD (.str (text "unknown")))
  | v => if v.truthy then .error .attribute else .ok (.str (text "unknown"), .str (text "unknown"))

/-- `clear_pending_marker` where the file may not go -/
def clearMarker : Launch Unit := do
  if f.clear ∧ (← get).marker.isSome then throw .os
  modify fun s => { s with marker := none }

/-- `_rollback_windows` -/
def rollbackWindows (fromVersion toVersion : Json) : Launch Bool := do
  match fromVersion, toVersion with
  | .str v, .str w =>
    match pickInstaller (← get).cache v w with
    | .error e => throw (.python e)
    | .ok none => return false
    | .ok (some installer) =>
      clearMarker f
      match f.scheduling with
      | .done =>
        modify fun s => { s with scheduled := some installer }
        return true
      | .refused => return false
      | .raises created =>
        if created then modify fun s => { s with scheduled := some installer }
        throw .os
  | _, _ =>
    if ((← get).cache.getD []).filter isInstaller = [] then return false
    throw (.python .attribute)

/-- `_rollback_linux`, which macOS takes too -/
def rollbackLinux : Launch Bool := do
  match f.rollbackWrite with
  | none =>
    modify fun s => { s with applyRollback := true }
    clearMarker f
    return true
  | some unlinkFails =>
    if unlinkFails then throw .os
    return false

inductive Platform
  | windows
  | linux
  deriving DecidableEq, Repr

/-- `perform_rollback` -/
def performRollback (platform : Platform) : Launch Bool := do
  let marker ← readMarker P f.rollbackRead
  match rollbackVersions marker with
  | .error e => throw (.python e)
  | .ok (fromVersion, toVersion) =>
    match platform with
    | .windows => rollbackWindows f fromVersion toVersion
    | .linux => rollbackLinux f

/-- The automatic rollback of a startup, and whether the process exits for it. -/
def automaticRollback (platform : Platform) (boot : Option Text) : Launch Bool := do
  if ← rollbackNeeded P f boot then
    restorePreUpdateData P f
    modify (putBackForRollback P render f)
    performRollback P f platform
  else return false

end OpenAvc.Updater.Automatic
