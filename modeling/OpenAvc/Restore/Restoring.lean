import OpenAvc.Restore.Archive
import OpenAvc.Run.Outcome

namespace OpenAvc.Restore

open Storage

/-- The project file and `state.json`, and for each tree its folder with what is beside
it, `.restore-new` and `.restore-old`. -/
structure Room where
  project : Option Bytes
  state : Option Bytes
  live : Tree → Option FileTree
  fresh : Tree → Option FileTree
  old : Tree → Option FileTree

/-- What a restore raises. -/
inductive Exc
  | os
  | archive
  | value

abbrev Op := EStateM Exc Room

/-- How `_atomic_write_bytes` goes: it writes the file, an operation of it fails, or
`os.write`, whose answer is not looked at, writes only the first `n` bytes. -/
inductive Write
  | done
  | fails
  | short (n : Nat)

/-- What the file operations on one tree come to: what an `rmtree` that ignores
errors leaves, and which of the others fail. `writes` says after how many of its
steps the writing of the `i`-th member fails. -/
structure Swap where
  clearNew : Option (Path → Bool) := none
  makeNew : Bool := true
  writes : Nat → Option Nat := fun _ => none
  clearOld : Option (Path → Bool) := none
  aside : Bool := true
  into : Bool := true
  back : Bool := true
  dropOld : Option (Path → Bool) := none

/-- What the file operations of a restore come to. -/
structure Fates where
  opens : Bool := true
  project : Write := .done
  trees : Tree → Swap := fun _ => {}
  state : Write := .done

/-- What `shutil.rmtree(folder, ignore_errors=True)` makes of a folder. -/
def removed (left : Option (Path → Bool)) (tree : Option FileTree) : Option FileTree :=
  left.bind fun keep => tree.map fun t => t.filter fun u => keep u.1

def failIf (fails : Bool) (e : Exc) : Op Unit := if fails then throw e else pure ()

/-- `_atomic_write_bytes`: what the file then holds. -/
def atomicWriteBytes (fate : Write) (bytes : Bytes) : Op (Option Bytes) :=
  match fate with
  | .done => pure (some bytes)
  | .fails => throw .os
  | .short n => pure (some (bytes.take n))

/-- The members written one after the other. -/
def writeAll (fate : Nat → Option Nat) : Nat → List Attempt → Option FileTree → Option FileTree × Option Exc
  | _, [], t => (t, none)
  | _, none :: _, t => (t, some .archive)
  | i, some (p, bytes) :: rest, t =>
    match perform (writeSteps p bytes) ((fate i).map fun n => (n, .os)) t with
    | (t', none) => writeAll fate (i + 1) rest t'
    | (t', some _) => (t', some .os)

/-- `os.replace` of a folder, which fails over one that holds anything. -/
def replace (works : Bool) (source target : Option FileTree) : Option (Option FileTree) :=
  match works, source, target.getD [] with
  | true, some t, [] => some (some t)
  | _, _, _ => none

/-- The live folder is moved aside, and whether there was one. -/
def setAside (tree : Tree) (f : Swap) : Op Bool := do
  let s ← get
  if (s.live tree).isNone then return false
  match replace f.aside (s.live tree) (s.old tree) with
  | none => throw .os
  | some aside =>
    set { s with live := Function.update s.live tree none, old := Function.update s.old tree aside }
    return true

/-- The old folder is rolled back into place. -/
def putBack (tree : Tree) (f : Swap) (moved : Bool) : Op Unit := do
  let s ← get
  if moved ∧ (s.live tree).isNone then
    match replace f.back (s.old tree) none with
    | none => throw .os
    | some live => set { s with live := Function.update s.live tree live, old := Function.update s.old tree none }

/-- The new folder is put in place. -/
def putIn (tree : Tree) (f : Swap) (moved : Bool) : Op Unit := do
  let s ← get
  match replace f.into (s.fresh tree) (s.live tree) with
  | some live => set { s with live := Function.update s.live tree live, fresh := Function.update s.fresh tree none }
  | none =>
    putBack tree f moved
    throw .os

def removeOld (tree : Tree) (left : Option (Path → Bool)) : Op Unit :=
  modify fun s => { s with old := Function.update s.old tree (removed left (s.old tree)) }

/-- `_swap_dir` -/
def swapDir (tree : Tree) (f : Swap) : Op Unit := do
  removeOld tree f.clearOld
  let moved ← setAside tree f
  putIn tree f moved
  if moved then removeOld tree f.dropOld

/-- `_restore_subdir`, `_restore_asset_tree`, `_restore_ui_tree` and `_restore_theme_tree`,
which write different members. -/
def restoreTree (attempts : List Attempt) (tree : Tree) (f : Swap) : Op Unit := do
  modify fun s => { s with fresh := Function.update s.fresh tree (removed f.clearNew (s.fresh tree)) }
  failIf (!f.makeNew) .os
  let s ← get
  let (staging, stop) := writeAll f.writes 0 attempts (some ((s.fresh tree).getD []))
  set { s with fresh := Function.update s.fresh tree staging }
  match stop with
  | some e => throw e
  | none => swapDir tree f

/-- The project file -/
def restoreProject (archive : List Member) (f : Write) : Op Unit := do
  match readMember archive "project.avc" with
  | none => throw .archive
  | some bytes =>
    let written ← atomicWriteBytes f bytes
    modify fun s => { s with project := written }

/-- `state.json`, deleted where the backup has none -/
def restoreState (archive : List Member) (f : Write) : Op Unit := do
  if archive.any fun m => m.name = "state.json" then
    match readMember archive "state.json" with
    | none => throw .archive
    | some bytes =>
      let written ← atomicWriteBytes f bytes
      modify fun s => { s with state := written }
  else
    match f with
    | .fails => throw .os
    | _ => modify fun s => { s with state := none }

/-- `restore_from_backup` of a ZIP archive -/
def restoreFromBackup (svgProblem : Bytes → Bool) (archive : List Member) (f : Fates) : Op Unit := do
  failIf (!f.opens) .archive
  failIf (!archive.any fun m => m.name = "project.avc") .value
  restoreProject archive f.project
  restoreTree (Tree.scripts.writes svgProblem archive) .scripts (f.trees .scripts)
  restoreTree (Tree.assets.writes svgProblem archive) .assets (f.trees .assets)
  restoreTree (Tree.ui.writes svgProblem archive) .ui (f.trees .ui)
  restoreTree (Tree.themes.writes svgProblem archive) .themes (f.trees .themes)
  restoreState archive f.state

end OpenAvc.Restore
