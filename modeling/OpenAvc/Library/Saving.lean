import OpenAvc.Logins.Reading
import OpenAvc.Logins.Project
import OpenAvc.Run.Machine
import OpenAvc.Updater.Backup

namespace OpenAvc.Library

open Storage
open OpenAvc.Logins (Exc Fernet Owner Python Registry System)
open OpenAvc.Updater (Cut)

/-- The folders of one library id: the saved project, `.<id>.replacing` and `.<id>.previous`. -/
inductive Place
  | project
  | staging
  | previous
  deriving DecidableEq

/-- The name of a folder in the library. -/
def Place.dirName (sid : String) : Place → String
  | project => sid
  | staging => "." ++ sid ++ ".replacing"
  | previous => "." ++ sid ++ ".previous"

/-- What is on disk under one id, and the data folder with the login store. -/
structure Copies where
  folder : Place → Option FileTree
  system : System

/-- How a call ends before its time: with an exception, or with the process. -/
inductive Halt
  | raises (e : Exc)
  | dies

abbrev Op := EStateM Halt Copies

def Halt.of : Stop → Halt
  | .os => raises .os
  | .killed => dies

def proceed (fate : Option Stop) : Op Unit := fate.elim (pure ()) fun stop => throw (.of stop)

/-- What is done to the files below one folder. -/
def inFolder (place : Place) (act : Option FileTree → Option FileTree × Option Stop) : Op Unit := do
  let s ← get
  let (tree, stop) := act (s.folder place)
  set { s with folder := Function.update s.folder place tree }
  proceed stop

/-- `source.rename(target)`, which fails over a folder that holds anything. -/
def rename (fate : Option Stop) (source target : Place) : Op Unit := do
  proceed fate
  let s ← get
  match s.folder source, (s.folder target).getD [] with
  | some tree, [] =>
    set { s with folder := Function.update (Function.update s.folder source none) target (some tree) }
  | _, _ => throw (.raises .os)

/-- `shutil.rmtree(folder, ignore_errors=True)` -/
def rmtree (fate : Option Cut) (place : Place) : Op Unit := do
  let s ← get
  match fate with
  | none => set { s with folder := Function.update s.folder place none }
  | some cut =>
    set { s with folder := Function.update s.folder place ((s.folder place).map cut.of) }
    if cut.stop = .killed then throw .dies

/-- A call of the login store. An interrupt, which no handler of it catches, is
the end of the process. -/
def onLogins {α : Type} (faults : List Logins.Outcome) (op : Logins.Op α) : Op α := fun s =>
  match op { s.system with faults } with
  | .ok a system => .ok a { s with system }
  | .error .interrupt system => .error .dies { s with system }
  | .error e system => .error (.raises e) { s with system }

/-- `except: undo; raise` -/
def undoing (op undo : Op Unit) : Op Unit := fun s =>
  match op s with
  | .error (.raises e) s' => (do undo; throw (.raises e) : Op Unit) s'
  | ended => ended

/-- `finally` -/
def finallyDo (op last : Op Unit) : Op Unit := fun s =>
  match op s with
  | .ok _ s' => last s'
  | .error (.raises e) s' => (do last; throw (.raises e) : Op Unit) s'
  | died => died

/-! A running project and what a copy of it holds. -/

/-- `project.model_dump(mode="json")`, the folders beside `project.avc` (what is
reached by a link left out), the name and description asked for, and the dates the
clock gives for `created` and `modified`. -/
structure Running where
  data : Json
  scripts : Option FileTree
  assets : Option FileTree
  ui : Option FileTree
  themes : Option FileTree
  name : Text
  description : Text
  now : Text
  modified : Text
  sound : ∀ tree ∈ [scripts, assets, ui, themes], (tree.getD []).Sound

/-- `*.py` -/
def isScript (name : String) : Bool := ".py".toList.isSuffixOf name.toList

/-- `_FILENAME.fullmatch` -/
def isThemeFile (name : String) : Bool :=
  let stem := name.toList.take (name.toList.length - 5)
  let plain (c : Char) : Bool := ('a' ≤ c ∧ c ≤ 'z') ∨ ('0' ≤ c ∧ c ≤ '9')
  ".json".toList.isSuffixOf name.toList && decide (stem.length ≤ 64) &&
    match stem with
    | c :: rest => plain c && rest.all fun c => plain c ∨ c = '-'
    | [] => false

/-- What is copied of each folder: `*.py` of the scripts, every file below `assets` and
`ui`, and the theme files. -/
def Running.trees (r : Running) : List (String × List (Path × Entry)) :=
  [("scripts", (r.scripts.getD []).filter fun u => u.1.length = 1 ∧ isScript (u.1.getLast?.getD "")),
    ("assets", below r.assets fun _ => true),
    ("ui", below r.ui fun _ => true),
    ("themes", below r.themes fun p => p.length = 1 ∧ isThemeFile (p.getLast?.getD ""))]
where
  below (tree : Option FileTree) (keep : Path → Bool) : List (Path × Entry) :=
    ((tree.getD []).files.filter fun u => keep u.1).map fun u => (u.1, .file u.2)

/-- What is copied, under the name of its folder. -/
def Running.sources (r : Running) : List (Path × Entry) :=
  r.trees.flatMap fun tree => tree.2.map fun u => (tree.1 :: u.1, u.2)

/-- `data` with what is set in its `project` section. -/
def stamped (data : Json) (values : List (Text × Text)) : Except Exc Json :=
  match data, data.get? (text "project") with
  | .obj fields, some (.obj project) =>
    .ok (.obj (Dict.set fields (text "project") (.obj (values.foldl (fun p u => Dict.set p u.1 (.str u.2)) project))))
  | _, _ => .error .other

/-- `json.dumps(data, indent=4, ensure_ascii=False)` -/
def avcText (data : Json) : Text := Json.dumps { indent := some 4, ensureAscii := false } data

/-- UTF-8 has no bytes for a lone surrogate. -/
def encodable (t : Text) : Bool := t.all fun c => decide c.isValidChar

def avcPath : Path := ["project.avc"]

/-- `avc_path.exists()` -/
def hasAvc (tree : Option FileTree) : Bool := ((tree.getD []).lookup avcPath).isSome

/-- `in_project` -/
def inProject (project : Json) : Except Exc (Owner → Bool) := do
  let rows ← Logins.rowsOf project
  let configs := Logins.pluginConfigs project
  return fun owner => match owner.kind with
    | .device => rows.any fun row => Logins.deviceOwner row.deviceId row.driver = owner
    | .plugin => (configs.lookup owner.name).any fun config => (Logins.holderPath config owner.qualifier).isSome
    | .project => owner = Logins.iscOwner

/-! The calls. -/

/-- What the file operations of writing one tree come to, and the name the
temporary file is given. -/
structure Writing where
  folder : Option Stop := none
  logins : List Logins.Outcome := []
  tmp : String := "tmp.tmp"
  avc : Option (Nat × Stop) := none
  unlink : Option Stop := none
  scripts : Option Stop := none
  copies : Path → Option (Nat × Stop) := fun _ => none

section

variable (P : Python) (F : Fernet) (R : Registry) (sid : Text)

/-- `_file_library_logins` -/
def fileLibraryLogins (data : Json) : Logins.Op Json := do
  let filed ← Logins.orElse (do
    Logins.fileLibrary P F sid (← Logins.Op.ofExcept (inProject data))
    return true) false
  if filed then Logins.moveLogins P F R (fun _ => false) false (some sid) data else return data

/-- A file is written under a temporary name, a byte at a time, and renamed. -/
def avcSteps (tmp : String) (bytes : Bytes) : List Storage.Step :=
  (.create [tmp] :: bytes.map (.append [tmp])) ++ [.rename [tmp] avcPath]

/-- `os.unlink(tmp)`; a temporary file that cannot be deleted is left. -/
def unlinkTmp (place : Place) (f : Writing) : Op Unit :=
  match f.unlink with
  | none => inFolder place fun t => (t.map (·.filter (·.1 ≠ [f.tmp])), none)
  | some .os => pure ()
  | some .killed => throw .dies

/-- `_atomic_write_text` of `project.avc` -/
def writeAvc (place : Place) (content : Text) (f : Writing) : Op Unit := do
  if (((← get).folder place).getD []).lookup [f.tmp] ≠ none then throw (.raises .os)
  undoing
    (if encodable content then inFolder place (perform (avcSteps f.tmp (encodeUtf8 content)) f.avc)
      else do
        inFolder place (perform [.create [f.tmp]] f.avc)
        throw (.raises .value))
    (unlinkTmp place f)

/-- `shutil.copy2` of each, its parent folders made first. What is no file
cannot be copied. -/
def copyEach (fate : Path → Option (Nat × Stop)) : List (Path × Entry) → Option FileTree → Option FileTree × Option Stop
  | [], t => (t, none)
  | (_, .folder) :: _, t => (t, some .os)
  | (p, .file bytes) :: rest, t =>
    match perform (writeSteps p bytes) (fate p) t with
    | (t', none) => copyEach fate rest t'
    | stopped => stopped

/-- `data` as it is set up to be saved. -/
def Running.dumped (r : Running) (created : Text) : Except Exc Json :=
  stamped r.data [(text "id", sid), (text "name", r.name), (text "description", r.description),
    (text "created", created), (text "modified", r.modified)]

/-- What is beside `project.avc` -/
def copySources (place : Place) (r : Running) (f : Writing) : Op Unit := do
  if r.scripts.isSome then
    inFolder place (perform [.mkdir ["scripts"]] (f.scripts.map fun stop => (0, stop)))
  inFolder place (copyEach f.copies r.sources)

/-- `_write_project_tree` -/
def writeProjectTree (place : Place) (r : Running) (created : Text) (f : Writing) : Op Unit := do
  inFolder place fun t => match f.folder with
    | none => (some (t.getD []), none)
    | stop => (t, stop)
  match r.dumped sid created with
  | .error e => throw (.raises e)
  | .ok data =>
    let data ← onLogins f.logins (fileLibraryLogins P F R sid data)
    writeAvc place (avcText data) f
    copySources place r f

/-- Whether a tree has all that a copy of the project holds, its file with `data`. -/
def Running.whole (r : Running) (data : Json) (t : FileTree) : Bool :=
  t.file? avcPath = some (encodeUtf8 (avcText data)) && r.sources.all fun u => t.lookup u.1 = some u.2

/-- What the file operations of one `replace_in_library` come to. What it says of
an operation the call does not come to is never read. -/
structure Replacing extends Writing where
  looks : Option Stop := none
  reads : Option Stop := none
  clearStaging : Option Cut := none
  clearPrevious : Option Cut := none
  aside : Option Stop := none
  into : Option Stop := none
  back : Option Stop := none
  tidyPrevious : Option Cut := none
  tidyStaging : Option Cut := none

/-- `str(_load_avc(avc_path).get("project", {}).get("created") or "")`, and `now` for
an empty text or a file that cannot be read. -/
def createdOf (file : Option Bytes) (now : Text) : Except Exc Text :=
  match file.bind decodeUtf8 with
  | none => .ok now
  | some t => match Json.loads P.stack t with
    | .error .value => .ok now
    | .error .recursion => .error .recursion
    | .ok saved => match saved, (saved.get? (text "project")).getD (.obj []) with
      | .obj _, .obj project =>
        match project.lookup (text "created") with
        | some v => if v.truthy then (P.text v).map fun created => if created = [] then now else created else .ok now
        | none => .ok now
      | _, _ => .error .other

/-- The date the copy is given, `reads` being how reading the saved file goes. -/
def carriedOver (tree : Option FileTree) (now : Text) (reads : Option Stop) : Op Text :=
  match reads with
  | some .killed => throw .dies
  | some .os => pure now
  | none => match createdOf P ((tree.getD []).file? avcPath) now with
    | .ok created => pure created
    | .error e => throw (.raises e)

/-- The clean-up of both side folders -/
def tidy (f : Replacing) : Op Unit := do
  rmtree f.tidyPrevious .previous
  rmtree f.tidyStaging .staging

/-- The renames that swap the new tree in, and their clean-up -/
def swapIn (f : Replacing) : Op Unit := do
  rename f.aside .project .previous
  finallyDo
    (undoing (rename f.into .staging .project) (rename f.back .previous .project))
    (tidy f)

/-- `replace_in_library` -/
def replaceInLibrary (r : Running) (f : Replacing) : Op Unit := do
  proceed f.looks
  let saved := (← get).folder .project
  -- `FileNotFoundError`
  if !hasAvc saved then throw (.raises .os)
  let created ← carriedOver P saved r.now f.reads
  rmtree f.clearStaging .staging
  rmtree f.clearPrevious .previous
  writeProjectTree P F R sid .staging r created f.toWriting
  swapIn f

/-- `save_to_library` -/
def saveToLibrary (r : Running) (looks : Option Stop) (f : Writing) : Op Unit := do
  proceed looks
  -- `ProjectExistsError`
  if hasAvc ((← get).folder .project) then throw (.raises .value)
  writeProjectTree P F R sid .project r r.now f

/-- `list_projects`: the ids among the folders, the login store being loaded
where a saved project needs it. -/
def listProjects (id : String) (loads : Option (List Logins.Outcome)) : Op (List String) := do
  if let some faults := loads then onLogins faults (Logins.load P F)
  let s ← get
  return ([Place.previous, .staging, .project].filter fun place =>
    (s.folder place).isSome ∧ ¬(place.dirName id).startsWith "." ∧ hasAvc (s.folder place)).map (·.dirName id)

end

end OpenAvc.Library
