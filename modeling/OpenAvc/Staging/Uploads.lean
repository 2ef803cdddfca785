import OpenAvc.Data.Utf8
import OpenAvc.Run.Machine

/-! `FileStaging`: uploads that arrive in chunks, and files that wait to be downloaded. -/

namespace OpenAvc.Staging

/-- The files of the staging folder: an upload's, and a returned one. -/
inductive Path
  | part (id : Nat)
  | out (id : Nat)
  deriving DecidableEq

/-- A chunk on its way to the file, and whether the thread has run: without an error, or
with one. -/
structure Append where
  data : Bytes
  ran : Option Bool := none
  deriving DecidableEq

/-- An upload. `accepted` keeps the chunks it has taken, each with its offset; `inFlight` is the
write that has the lock, and `waiting` are those that wait for it. -/
structure Upload where
  size : Nat
  received : Nat := 0
  touched : Nat
  inUse : Bool := false
  accepted : List (Nat × Bytes) := []
  inFlight : Option Append := none
  waiting : List (Nat × Bytes) := []
  deriving DecidableEq

namespace Upload

def complete (u : Upload) : Bool := u.received = u.size

/-- The chunks that were accepted, one after another. -/
def content (u : Upload) : Bytes := (u.accepted.map Prod.snd).flatten

/-- A write is refused: the file is in use, the offset is another, or the chunk is too large. -/
def refuses (u : Upload) (offset : Nat) (data : Bytes) : Bool :=
  u.inUse ∨ offset ≠ u.received ∨ u.size < u.received + data.length

/-- A write that has the lock, up to its await. -/
def enter (u : Upload) (offset : Nat) (data : Bytes) : Upload :=
  if u.refuses offset data then u else { u with inFlight := some ⟨data, none⟩ }

/-- A call of `write`: it takes the lock, or waits behind those that were before it. -/
def write (u : Upload) (offset : Nat) (data : Bytes) : Upload :=
  if u.inFlight = none ∧ u.waiting = [] then u.enter offset data
  else { u with waiting := u.waiting ++ [(offset, data)] }

/-- A write comes back from its await, and gives the lock up. -/
def finish (u : Upload) (now : Nat) (append : Append) : Upload :=
  if append.ran = some true then
    { u with
      received := u.received + append.data.length
      touched := now
      accepted := u.accepted ++ [(u.received, append.data)]
      inFlight := none }
  else { u with inFlight := none }

end Upload

/-- `uploads` are all that were ever opened, `tracked` are the keys of `_uploads`; `held` has
the ids of the returned files with the times they expire. -/
structure FileStaging where
  uploads : Nat → Option Upload := fun _ => none
  tracked : List Nat := []
  held : List (Nat × Nat) := []
  stale : List Path := []
  files : Path → Option Bytes := fun _ => none

/-- `works` says of which paths `_unlink` succeeds; `written` says of a write that fails after
how many bytes it does. -/
inductive Label
  | start (id size now : Nat) (works : Path → Bool)
  | write (id offset : Nat) (data : Bytes)
  | resume (id : Nat)
  | append (id : Nat) (written : Option Nat)
  | finish (id now : Nat)
  | take (id : Nat)
  | untake (id now : Nat)
  | discard (id : Nat) (works : Path → Bool)
  | sweep (now : Nat) (works : Path → Bool)
  | hold (id : Nat) (data : Bytes) (written : Option Nat) (now : Nat) (works : Path → Bool)
  | release (id : Nat) (works : Path → Bool)

def uploadIdleSeconds : Nat := 15 * 60

def heldSeconds : Nat := 10 * 60

namespace FileStaging

/-- A file that cannot be deleted is kept for the next sweep. -/
def unlink (s : FileStaging) (works : Path → Bool) (p : Path) : FileStaging :=
  if works p then { s with files := Function.update s.files p none }
  else { s with stale := if p ∈ s.stale then s.stale else s.stale ++ [p] }

def discard (s : FileStaging) (works : Path → Bool) (id : Nat) : FileStaging :=
  if id ∈ s.tracked then unlink { s with tracked := s.tracked.filter (· ≠ id) } works (.part id) else s

/-- `release_held` -/
def release (s : FileStaging) (works : Path → Bool) (id : Nat) : FileStaging :=
  if id ∈ s.held.map Prod.fst then unlink { s with held := s.held.filter (·.1 ≠ id) } works (.out id) else s

/-- The files that could not be deleted are tried again. -/
def retry (s : FileStaging) (works : Path → Bool) : FileStaging :=
  { s with
    files := fun p => if p ∈ s.stale ∧ works p then none else s.files p
    stale := s.stale.filter fun p => !works p }

/-- The uploads that nobody used. -/
def idle (s : FileStaging) (now : Nat) : List Nat :=
  s.tracked.filter fun id => (s.uploads id).any fun u => !u.inUse && decide (u.touched + uploadIdleSeconds < now)

def expired (s : FileStaging) (now : Nat) : List Nat :=
  (s.held.filter fun h => decide (h.2 < now)).map Prod.fst

def sweep (s : FileStaging) (now : Nat) (works : Path → Bool) : FileStaging :=
  let s := s.retry works
  let s := (s.idle now).foldl (fun s id => s.discard works id) s
  (s.expired now).foldl (fun s id => s.release works id) s

def setUpload (s : FileStaging) (id : Nat) (u : Upload) : FileStaging :=
  { s with uploads := Function.update s.uploads id (some u) }

/-- `begin`, where the file's name, kind and size are allowed. Ids do not come twice. -/
def start (s : FileStaging) (id size now : Nat) (works : Path → Bool) : FileStaging :=
  let s := s.sweep now works
  { s.setUpload id { size, touched := now } with
    tracked := s.tracked ++ [id], files := Function.update s.files (.part id) (some []) }

/-- `_append`, which makes a file that is not there; it may fail when it has written a part. -/
def append (s : FileStaging) (id : Nat) (u : Upload) (data : Bytes) (written : Option Nat) : FileStaging :=
  { s.setUpload id { u with inFlight := some ⟨data, some written.isNone⟩ } with
    files := Function.update s.files (.part id) (some ((s.files (.part id)).getD [] ++ match written with
      | none => data
      | some n => data.take n)) }

/-- `hold`, whose write may fail when it has written a part. -/
def hold (s : FileStaging) (id : Nat) (data : Bytes) (written : Option Nat) (now : Nat) (works : Path → Bool) :
    FileStaging :=
  let s := s.sweep now works
  match written with
  | none => { s with held := s.held ++ [(id, now + heldSeconds)], files := Function.update s.files (.out id) (some data) }
  | some n => { s with files := Function.update s.files (.out id) (some (data.take n)) }

def next (s : FileStaging) : Label → Option FileStaging
  | .start id size now works => if (s.uploads id).isNone then some (s.start id size now works) else none
  | .write id offset data =>
    if id ∈ s.tracked then (s.uploads id).map fun u => s.setUpload id (u.write offset data) else some s
  | .resume id => (s.uploads id).bind fun u =>
    match u.inFlight, u.waiting with
    | none, (offset, data) :: rest => some (s.setUpload id ({ u with waiting := rest }.enter offset data))
    | _, _ => none
  | .append id written => (s.uploads id).bind fun u =>
    match u.inFlight with
    | some ⟨data, none⟩ => some (s.append id u data written)
    | _ => none
  | .finish id now => (s.uploads id).bind fun u =>
    match u.inFlight with
    | some ⟨data, some ran⟩ => some (s.setUpload id (u.finish now ⟨data, some ran⟩))
    | _ => none
  | .take id => (s.uploads id).map fun u =>
    if id ∈ s.tracked ∧ u.complete ∧ !u.inUse then s.setUpload id { u with inUse := true } else s
  | .untake id now => (s.uploads id).map fun u =>
    if id ∈ s.tracked then s.setUpload id { u with inUse := false, touched := now } else s
  | .discard id works => some (s.discard works id)
  | .sweep now works => some (s.sweep now works)
  | .hold id data written now works => some (s.hold id data written now works)
  | .release id works => some (s.release works id)

end FileStaging

/-- The folder is empty at the start. -/
def staging : Run.Machine FileStaging Label where
  init s := s = {}
  next := FileStaging.next

/-- The file belongs to an upload or a returned file, or is kept for a sweep. -/
def Accounted (s : FileStaging) (p : Path) : Prop :=
  (∃ id ∈ s.tracked, p = .part id) ∨ (∃ h ∈ s.held, p = .out h.1) ∨ p ∈ s.stale

/-- Each chunk was taken where the ones before it end. -/
def InOrder (chunks : List (Nat × Bytes)) : Prop :=
  ∀ before chunk after, chunks = before ++ chunk :: after → chunk.1 = (before.map Prod.snd).flatten.length

/-- What the folder is to be: a complete upload's file is made of the chunks that were
accepted, in the order of their offsets, and is as long as was said; and no file is left over. -/
structure Integrity (s : FileStaging) : Prop where
  complete : ∀ id ∈ s.tracked, ∀ u, s.uploads id = some u → u.complete = true →
    s.files (.part id) = some u.content ∧ u.content.length = u.size ∧ InOrder u.accepted
  owned : ∀ p, s.files p ≠ none → Accounted s p

end OpenAvc.Staging
