import OpenAvc.Files.Unpack
import OpenAvc.Run.Outcome

namespace OpenAvc.Updater

open Storage

/-- What `create_backup` finds: `projects/`, the rest of the data folder, and the
folder of a project kept outside it. -/
structure UserData where
  projects : Option FileTree
  others : FileTree
  externalProject : Option FileTree

/-- `_in_user_backups` -/
def inUserBackups (p : Path) : Bool := "backups" ∈ p.dropLast

/-- The files of a project tree that go into the archive. -/
def archived (t : FileTree) : List (Path × Bytes) := t.files.filter fun u => ¬inUserBackups u.1

/-- `create_backup`: the members in the order they are written, each under the
parts of its name. -/
def createBackup (data : UserData) : List (Path × Bytes) :=
  placed "projects" ((data.projects.map archived).getD []) ++
    (["driver_repo", "themes", "plugin_repo"].flatMap fun tree =>
      data.others.files.filter fun u => u.1.head? = some tree ∧ u.1.tail ≠ []) ++
    (["system.json", "cloud.json", "panel_devices.json", "device_logins.json"].filterMap fun name =>
      (data.others.file? [name]).map fun bytes => ([name], bytes)) ++
    placed "external-project" ((data.externalProject.map archived).getD [])
where
  placed (tree : String) (files : List (Path × Bytes)) : List (Path × Bytes) := files.map fun u => (tree :: u.1, u.2)

/-- `_member_relpath` returns a path for a name like this, and skips any other. -/
def acceptable (p : Path) : Bool :=
  p ≠ [] ∧ ".." ∉ p ∧ p.all fun name => name.toList.all fun c => c ≠ ':' ∧ c ≠ '\\' ∧ c ≠ '\x00'

/-- The members whose name begins with `tree/`, under the rest of the name. -/
def below (tree : String) (members : List (Path × Bytes)) : List (Path × Bytes) :=
  members.filterMap fun u => match u.1 with
    | name :: p => if name = tree ∧ p ≠ [] then some (p, u.2) else none
    | [] => none

/-- The folders a restore works on: `projects`, `projects.pre-rollback`,
`projects.restore-tmp` and the external project folder. -/
structure Disk where
  projects : Option FileTree
  aside : Option FileTree
  staging : Option FileTree
  externalProject : Option FileTree
  deriving DecidableEq, Repr

/-- How far an `rmtree` came: what stops it, and what it leaves. -/
structure Cut where
  stop : Stop
  left : Path → Bool

/-- What is left when everything below a folder that is gone is gone too. -/
def Cut.of (cut : Cut) (t : FileTree) : FileTree := t.filter fun u => u.1.inits.all cut.left

/-- What becomes of `shutil.move`: it stops before the folder is copied in whole,
or before the folder it was copied from is removed in whole. -/
inductive Move
  | done
  | copying (stop : Stop) (copied : Path → Bool)
  | removing (cut : Cut)

/-- What the file operations of one call come to. -/
structure Fates where
  archiveOpens : Bool := true
  sweep : Option Cut := none
  extract : Path → Option (Nat × Stop) := fun _ => none
  clear : Option Cut := none
  displace : Option Stop := none
  place : Option Stop := none
  putBack : Option Stop := none
  cleanup : Option Cut := none
  makeParents : Path → Option (Nat × Stop) := fun _ => none
  carry : Path → Move := fun _ => .done
  external : Path → Option (Nat × Stop) := fun _ => none
  unlink : Path → Option Stop := fun _ => none

abbrev FileOp := EStateM Stop Disk

/-- Whether `x` ends without an `OSError`. -/
def attempt (x : FileOp Unit) : FileOp Bool := fun d =>
  match x d with
  | .ok _ d' => .ok true d'
  | .error .os d' => .ok false d'
  | .error .killed d' => .error .killed d'

/-- Goes on where `stop` is `none`. -/
def proceed (stop : Option Stop) : FileOp Unit := stop.elim (pure ()) throw

/-- `shutil.rmtree(staging, ignore_errors=True)` -/
def removeStaging (fate : Option Cut) : FileOp Unit := do
  match fate with
  | none => modify fun d => { d with staging := none }
  | some cut =>
    modify fun d => { d with staging := d.staging.map cut.of }
    if cut.stop = .killed then throw .killed

/-- `_clear(aside)` -/
def clearAside (fate : Option Cut) : FileOp Unit := do
  if (← get).aside.isSome then
    match fate with
    | none => modify fun d => { d with aside := none }
    | some cut =>
      modify fun d => { d with aside := d.aside.map cut.of }
      throw cut.stop

variable (f : Fates)

/-- The members are extracted to the staging folder. -/
def extractMembers (members : List (Path × Bytes)) : FileOp Unit := do
  let d ← get
  let (staging, stop) := unpack f.extract (members.filter fun u => acceptable u.1) d.staging
  set { d with staging }
  proceed stop

/-- `os.replace(live, aside)` -/
def setAside : FileOp Unit := do
  if (← get).projects.isSome then
    proceed f.displace
    modify fun d => { d with projects := none, aside := d.projects }

/-- `os.replace(staging, live)` -/
def putStaging : FileOp Unit := do
  proceed f.place
  if (← get).staging.isNone then throw .os
  modify fun d => { d with projects := d.staging, staging := none }

/-- The archived tree takes the place of the live one, which is set aside. -/
def swap (members : List (Path × Bytes)) : FileOp Unit := do
  extractMembers f members
  clearAside f.clear
  setAside f
  putStaging f

/-- What a failed swap is followed by. -/
def undo : FileOp Unit := do
  let d ← get
  if d.projects.isNone ∧ d.aside.isSome then
    match f.putBack with
    | none => set { d with projects := d.aside, aside := none }
    | some .os => pure ()
    | some .killed => throw .killed
  removeStaging f.cleanup

/-- `_backups_dirs`: a folder comes before the folders in it. -/
def backupsDirs (t : FileTree) : List Path :=
  ((t.map Prod.fst).filter fun p => t.lookup p = some .folder ∧ p.getLast? = some "backups").insertionSort
    (fun p q => p.length ≤ q.length)

/-- `shutil.move` of the folder `q` of the tree set aside -/
def moveFolder (q : Path) : FileOp Unit := do
  let d ← get
  let source := d.aside.getD []
  let target := d.projects.getD []
  let moved := source.filter fun u => q.isPrefixOf u.1
  if moved = [] then throw .os
  match f.carry q with
  | .done => set { d with projects := some (target ++ moved), aside := some (source.filter fun u => ¬q.isPrefixOf u.1) }
  | .copying stop copied =>
    set { d with projects := some (target ++ Cut.of ⟨stop, copied⟩ moved) }
    throw stop
  | .removing cut =>
    set { d with projects := some (target ++ moved), aside := some (source.filter fun u => ¬q.isPrefixOf u.1 ∨ u ∈ cut.of moved) }
    throw cut.stop

/-- One user-backup folder `q` is carried over. -/
def carryFolder (q : Path) : FileOp Unit := do
  let d ← get
  if ((d.projects.getD []).lookup q).isNone then
    let (projects, stop) := perform (parentSteps q) (f.makeParents q) d.projects
    set { d with projects }
    proceed stop
    let _ ← attempt (moveFolder f q)

/-- The user backups are carried over from the tree set aside. -/
def carryOver : FileOp Unit := do
  match (← get).aside with
  | none => pure ()
  | some t => (backupsDirs t).forM (carryFolder f)

/-- `_restore_projects_tree` -/
def restoreProjectsTree (members : List (Path × Bytes)) : FileOp Bool := do
  removeStaging f.sweep
  if ← attempt (swap f members) then
    carryOver f
    return true
  else
    undo f
    return false

/-- One member of `_restore_external_files`: it is written under a name of its
own and then renamed. -/
def restoreExternalFile (u : Path × Bytes) : FileOp Bool := do
  let d ← get
  let tmp := u.1.dropLast ++ [(u.1.getLast?.getD "") ++ ".restore-tmp"]
  let (externalProject, stop) := perform (writeSteps tmp u.2 ++ [.rename tmp u.1]) (f.external u.1) d.externalProject
  set { d with externalProject }
  match stop with
  | none => return true
  | some .killed => throw .killed
  | some .os =>
    if ((externalProject.getD []).lookup tmp).isSome then
      proceed (f.unlink u.1)
      modify fun d => { d with externalProject := d.externalProject.map fun t => t.filter (·.1 ≠ tmp) }
    return false

/-- `restored |= …` over the members -/
def restoreEach : List (Path × Bytes) → FileOp Bool
  | [] => return false
  | u :: members => do
    let written ← restoreExternalFile f u
    let rest ← restoreEach members
    return written || rest

/-- `_restore_external_files` -/
def restoreExternalFiles (members : List (Path × Bytes)) : FileOp Bool :=
  restoreEach f (members.filter fun u => acceptable u.1)

/-- What is done where there is something to restore. -/
def whenSome (members : List (Path × Bytes)) (x : FileOp Bool) : FileOp Bool := if members = [] then pure false else x

/-- `restore_user_data`; `outside` says that the project is kept outside the
data folder. -/
def restoreUserData (archive : List (Path × Bytes)) (outside : Bool) : FileOp Bool := do
  if ¬f.archiveOpens then
    return false
  let projectMembers := below "projects" archive
  let externalMembers := if outside then below "external-project" archive else []
  let restored ← whenSome projectMembers (restoreProjectsTree f projectMembers)
  let replaced ← whenSome externalMembers (restoreExternalFiles f externalMembers)
  return restored || replaced

end OpenAvc.Updater
