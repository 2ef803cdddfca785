import OpenAvc.Data.Json
import OpenAvc.Run.Machine

namespace OpenAvc.Updater

inductive DeploymentType
  | windowsInstaller
  | linuxPackage
  | macosApp
  | androidAppliance
  | docker
  | gitDev
  | unknown
  deriving DecidableEq

/-- `can_self_update` -/
def canSelfUpdate (d : DeploymentType) : Bool :=
  d = .windowsInstaller ∨ d = .linuxPackage ∨ d = .macosApp ∨ d = .androidAppliance

/-- `_consumes_signed_tarball` -/
def consumesSignedTarball (d : DeploymentType) : Bool :=
  d = .linuxPackage ∨ d = .macosApp ∨ d = .androidAppliance

/-- `urlparse(url).scheme` -/
def urlScheme (url : Text) : Text :=
  let url := (url.dropWhile (· ≤ 32)).filter fun c => c ≠ 9 ∧ c ≠ 10 ∧ c ≠ 13
  let (scheme, rest) := url.span (· ≠ 58)
  let letters := scheme.all fun c => isLetter c ∨ isDigit c ∨ c = 43 ∨ c = 45 ∨ c = 46
  if rest ≠ [] ∧ (scheme.head?.any isLetter) ∧ letters then
    scheme.map fun c => if 65 ≤ c ∧ c ≤ 90 then c + 32 else c
  else []

/-- What `stage_update` writes. -/
structure Staged where
  targetVersion : Text
  updateUrl : Text
  checksum : Option Text
  deriving DecidableEq

/-- The staged-update file: the call of `stage_update` that wrote it, and what
it holds, if it can be read. -/
structure StagedFile where
  stamp : Nat
  content : Option Staged
  deriving DecidableEq

/-- `get_staged_update` -/
def getStagedUpdate (staged : Option StagedFile) : Option Staged :=
  (staged.bind (·.content)).filter fun r => r.targetVersion ≠ [] ∧ r.updateUrl ≠ []

/-- Where an operation waits. -/
inductive Stage
  | backingUp
  | rotating
  | downloading
  | verifying
  | signing
  | installing
  deriving DecidableEq

/-- `apply_update` of a release, `apply_cloud_update`, or `rollback`. -/
inductive Kind
  | release
  | cloud (checksum : Option Text)
  | rollback
  deriving DecidableEq

/-- An operation under way. `taken` is the staged update it applies or, for a
rollback, the one that was there when it started. -/
structure Operation where
  kind : Kind
  taken : Option StagedFile
  stage : Stage
  deriving DecidableEq

/-- How a file write ends: it can leave part of the file behind. -/
inductive Write
  | written
  | lost
  | torn
  deriving DecidableEq

/-- The file operations of one stretch of an operation, and whether the Windows
installer could be scheduled. -/
structure Files where
  marker : Write := .written
  instruction : Write := .written
  markerRemoved : Bool := true
  instructionRemoved : Bool := true
  stagedRemoved : Bool := true
  scheduled : Bool := true

/-- How an await ends, or that a further one follows in the same stage. -/
inductive Arrival
  | again
  | returns
  | raises
  | cancelled
  deriving DecidableEq

structure Host where
  deployment : DeploymentType
  win32 : Bool
  firmware : Bool

/-- The update manager and its files, each with the number of the operation
that wrote it. `exits` are the delayed process exits that have been asked for. -/
structure Manager where
  inProgress : Bool := false
  operations : List (Nat × Operation) := []
  started : Nat := 0
  stamps : Nat := 0
  marker : Option Nat := none
  applyInstruction : Option Nat := none
  rollbackMarker : Option Nat := none
  staged : Option StagedFile := none
  exits : Nat := 0
  running : Bool := true
  deriving DecidableEq

namespace Manager

variable (H : Host)

/-- The guards of `apply_cloud_update` after the one on `_update_in_progress`. -/
def cloudAllowed (url : Text) : Bool :=
  canSelfUpdate H.deployment ∧ urlScheme url = text "https"

/-- The operation that `apply_update` goes on with, none when it is refused. -/
def applyUpdate (m : Manager) (release : Option Text) : Option Operation :=
  if H.firmware ∨ m.inProgress then none
  else match getStagedUpdate m.staged with
    | some r => if cloudAllowed H r.updateUrl then some ⟨.cloud r.checksum, m.staged, .backingUp⟩ else none
    | none => if release.isSome ∧ canSelfUpdate H.deployment then some ⟨.release, none, .backingUp⟩ else none

def applyCloudUpdate (m : Manager) (url : Text) (checksum : Option Text) : Option Operation :=
  if H.firmware ∨ m.inProgress ∨ ¬cloudAllowed H url then none else some ⟨.cloud checksum, none, .backingUp⟩

/-- `rollback`, where `canRollback` has found a previous version or not. -/
def rollback (m : Manager) (canRollback : Bool) : Option Operation :=
  if H.firmware ∨ m.inProgress ∨ ¬canRollback then none else some ⟨.rollback, m.staged, .backingUp⟩

/-- An operation begins; a rollback leaves `_update_in_progress` as it is. -/
def start (m : Manager) (o : Operation) : Manager :=
  { m with
    inProgress := m.inProgress || o.kind ≠ .rollback
    operations := (m.started, o) :: m.operations
    started := m.started + 1 }

def goOn (m : Manager) (i : Nat) (o : Operation) (stage : Stage) : Manager :=
  { m with operations := m.operations.map fun u => if u.1 = i then (i, { o with stage }) else u }

/-- An operation returns or raises. -/
def leave (m : Manager) (i : Nat) : Manager :=
  { m with operations := m.operations.filter (·.1 ≠ i) }

def clearPendingMarker (m : Manager) (f : Files) : Manager :=
  { m with marker := if f.markerRemoved then none else m.marker }

/-- `_cleanup_failed_apply` and the `finally` after it -/
def cleanupFailedApply (m : Manager) (i : Nat) (f : Files) : Manager :=
  let m := m.clearPendingMarker f
  { m.leave i with
    applyInstruction := if f.instructionRemoved then none else m.applyInstruction
    inProgress := false }

def clearStagedUpdate (m : Manager) (f : Files) : Manager :=
  { m with staged := if f.stagedRemoved then none else m.staged }

/-- The update is applied: the exit is asked for, `_update_in_progress` is
dropped and a staged update that was applied is cleared. -/
def finish (m : Manager) (i : Nat) (o : Operation) (f : Files) : Manager :=
  let m := { m.leave i with exits := m.exits + 1, inProgress := false }
  if o.taken.isSome then m.clearStagedUpdate f else m

/-- `_apply_linux` and what follows -/
def applyLinux (m : Manager) (i : Nat) (o : Operation) (f : Files) : Manager :=
  match f.instruction with
  | .written => { m with applyInstruction := some i }.finish i o f
  | .torn => { m with applyInstruction := some i }.cleanupFailedApply i f
  | .lost => m.cleanupFailedApply i f

/-- The marker is written and the update applied. -/
def apply (m : Manager) (i : Nat) (o : Operation) (f : Files) : Manager :=
  match f.marker with
  | .lost => m.cleanupFailedApply i f
  | .torn => { m with marker := some i }.cleanupFailedApply i f
  | .written =>
    let m := { m with marker := some i }
    if H.deployment = .windowsInstaller then m.goOn i o .installing
    else if consumesSignedTarball H.deployment then m.applyLinux i o f
    else m.finish i o f

/-- `perform_rollback`, on Windows or elsewhere, and what follows in `rollback`.
A marker that cannot be removed raises, and no exit is asked for. -/
def performRollback (m : Manager) (i : Nat) (f : Files) : Manager :=
  let m := (m.clearStagedUpdate f).leave i
  let m := if H.win32 ∨ f.instruction ≠ .written then m else { m with rollbackMarker := some i }
  if ¬H.win32 ∧ f.instruction ≠ .written then m
  else
    let m := m.clearPendingMarker f
    if m.marker.isNone ∧ (H.win32 → f.scheduled) then { m with exits := m.exits + 1 } else m

/-- An operation goes on after an await. -/
def resume (m : Manager) (i : Nat) (o : Operation) (arrival : Arrival) (f : Files) : Manager :=
  match arrival, o.kind, o.stage with
  | .again, _, _ => m
  | .cancelled, .rollback, _ => m.leave i
  | .returns, .rollback, .backingUp => m.goOn i o .rotating
  | _, .rollback, _ => m.performRollback H i f
  | .cancelled, _, _ | .raises, _, _ => m.cleanupFailedApply i f
  | .returns, _, .backingUp => m.goOn i o .rotating
  | .returns, _, .rotating => m.goOn i o .downloading
  | .returns, .release, .downloading => m.apply H i o f
  | .returns, .cloud none, .downloading => m.cleanupFailedApply i f
  | .returns, .cloud (some _), .downloading => m.goOn i o .verifying
  | .returns, _, .verifying => if consumesSignedTarball H.deployment then m.goOn i o .signing else m.apply H i o f
  | .returns, _, .signing => m.apply H i o f
  | .returns, _, .installing => m.finish i o f

/-- What happens next: a call, an operation that goes on, or the exit. -/
inductive Label
  | applyUpdate (release : Option Text)
  | applyCloudUpdate (url : Text) (checksum : Option Text)
  | rollback (canRollback : Bool)
  | stageUpdate (record : Staged) (write : Write)
  | resume (i : Nat) (arrival : Arrival) (f : Files)
  | restart

/-- The operation that a call starts. -/
def admits (m : Manager) : Label → Option Operation
  | .applyUpdate release => m.applyUpdate H release
  | .applyCloudUpdate url checksum => m.applyCloudUpdate H url checksum
  | .rollback canRollback => m.rollback H canRollback
  | _ => none

/-- `stage_update` -/
def stageUpdate (m : Manager) (record : Staged) (write : Write) : Manager :=
  if H.firmware then m
  else match write with
    | .written => { m with staged := some ⟨m.stamps, some record⟩, stamps := m.stamps + 1 }
    | .torn => { m with staged := some ⟨m.stamps, none⟩, stamps := m.stamps + 1 }
    | .lost => m

def next (m : Manager) (l : Label) : Option Manager :=
  if ¬m.running then none
  else match l with
    | .applyUpdate _ | .applyCloudUpdate _ _ | .rollback _ =>
      some (match m.admits H l with
        | some o => m.start o
        | none => m)
    | .stageUpdate record write => some (m.stageUpdate H record write)
    | .resume i arrival f => (m.operations.lookup i).map fun o => m.resume H i o arrival f
    | .restart =>
      if m.exits = 0 then none
      else some { m with exits := m.exits - 1, running := ¬canSelfUpdate H.deployment }

/-- A process that has started and dropped what an earlier one left behind. -/
def machine : Run.Machine Manager Label where
  init m := ∃ staged stamps, (∀ r, staged = some r → r.stamp < stamps) ∧ m = { staged, stamps }
  next := Manager.next H

end Manager

end OpenAvc.Updater
