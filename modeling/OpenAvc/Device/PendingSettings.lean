import Mathlib.Logic.Function.Basic
import OpenAvc.Data.Lookup
import OpenAvc.Run.Machine

namespace OpenAvc.Device.Pending

/-- A queued value, numbered in the order values are queued. -/
structure Entry (ν : Type*) where
  id : Nat
  value : ν

/-- What a driver declares of its settings. `coerce` is
`validate_device_setting_value` on the declared ones and `stateKey` the state
variable, if there is one, that a setting reads back in. `stateVars` leaves out
`connected`, and `text` is `str(value).strip().lower()`. -/
structure Schema (κ σ ν : Type*) where
  declared : κ → Bool
  coerce : κ → ν → Option ν
  stateKey : κ → Option σ
  stateVars : List σ
  text : ν → String

variable {κ σ ν : Type*} [DecidableEq κ] [BEq ν]

namespace Schema

/-- `validate_device_setting_value`; `none` when it raises. -/
def validate (S : Schema κ σ ν) (k : κ) (v : ν) : Option ν :=
  if S.declared k then S.coerce k v else some v

/-- `_readback_confirms` on a value that has been reported. -/
def confirms (S : Schema κ σ ν) (k : κ) (expected actual : ν) : Bool :=
  actual == expected || (S.validate k actual).any (· == expected) || S.text actual = S.text expected

/-- The settings as `store_pending_settings` queues them; `none` when it raises. -/
def validated (S : Schema κ σ ν) (settings : List (κ × ν)) : Option (List (κ × ν)) :=
  settings.mapM fun u => if S.declared u.1 then (S.coerce u.1 u.2).map (u.1, ·) else none

end Schema

/-- A setting that was sent, the variable it reads back in, and what it should read. -/
abbrev Awaiting (κ σ ν : Type*) := κ × σ × ν

inductive PassAwait (κ ν : Type*)
  | write (k : κ) (e : Entry ν) (sent : ν)
  | error
  | announce

/-- A pass of `_apply_pending_settings`. Its iterator knows the size of the
dict it was made on; `keys` are the dict's at that time and `todo` those to
come. `queuedValues`, `applied` and `awaiting` are the function's locals. -/
structure Pass (κ σ ν : Type*) where
  generation : Nat
  size : Nat
  keys : List κ
  todo : List κ
  queuedValues : List (κ × Entry ν) := []
  applied : List κ := []
  awaiting : List (Awaiting κ σ ν) := []
  pc : PassAwait κ ν := .error

inductive WatchAwait (κ σ ν : Type*)
  | sleep
  | error (reporting : Bool) (rest : List (Awaiting κ σ ν)) (unreported : List κ)

/-- A task of `_confirm_pending_settings`. -/
structure Watch (κ σ ν : Type*) where
  outstanding : List (Awaiting κ σ ν)
  confirmed : List κ := []
  queuedValues : List (κ × Entry ν)
  pc : WatchAwait κ σ ν := .sleep

/-- A call of `set_device_setting`, waiting for the driver. `since` is the
number of the first value to be queued after it began. -/
structure Live (κ : Type*) where
  key : κ
  since : Nat

abbrev PassId := Nat
abbrev LiveId := Nat

/-- The manager and one driver. `queue` is `config["pending_settings"]`, and
`generation` counts the dicts that have been taken out of the config there: a
pass made on one of those walks a dict that is empty for good. `accepted`,
`readBack` and `unreported` record the queued values a pass's write of which
the driver accepted, those that then read back as equal, and those whose
variable the device did not report while it reported others; `liveSets` the
live sets accepted, each with its `since`; `failedConnects` the connects whose
pass raised. The code reads none of these. -/
structure Manager (κ σ ν : Type*) where
  queue : Option (List (κ × Entry ν)) := none
  generation : Nat := 0
  nextId : Nat := 0
  passes : PassId → Option (Pass κ σ ν) := fun _ => none
  nextPass : PassId := 0
  watch : Option (Watch κ σ ν) := none
  lives : LiveId → Option (Live κ) := fun _ => none
  nextLive : LiveId := 0
  readings : σ → Option ν := fun _ => none
  connected : Bool := true
  accepted : List Nat := []
  readBack : List Nat := []
  unreported : List Nat := []
  liveSets : List (κ × Nat) := []
  failedConnects : Nat := 0

/-- What iterating a dict does when its keys have changed and their number has
not, which the language leaves open. -/
inductive Surprise (κ : Type*)
  | raises
  | stops
  | yields (k : κ)

/-- `d[k] = e` -/
def setEntry (d : List (κ × Entry ν)) (k : κ) (e : Entry ν) : List (κ × Entry ν) :=
  if k ∈ d.map Prod.fst then d.map fun u => (u.1, if u.1 = k then e else u.2)
  else d ++ [(k, e)]

namespace Manager

variable (S : Schema κ σ ν) (s : Manager κ σ ν)

def entries : List (κ × Entry ν) := s.queue.getD []

def keys : List κ := s.entries.map Prod.fst

/-- The dict that a pass walks. -/
def pendingOf (P : Pass κ σ ν) : List (κ × Entry ν) := if P.generation = s.generation then s.entries else []

def setPass (p : PassId) (P : Option (Pass κ σ ν)) : Manager κ σ ν :=
  { s with passes := Function.update s.passes p P }

/-- The `cleared` of `_clear_applied_pending`. -/
def clearable (applied : List κ) (queuedValues : List (κ × Entry ν)) : List κ :=
  applied.filter fun k =>
    match s.entries.lookup k with
    | some e => e.value == ((queuedValues.lookup k).getD e).value
    | none => false

/-- `_clear_applied_pending` up to the emit it ends with. -/
def clearAppliedPending (applied : List κ) (queuedValues : List (κ × Entry ν)) : Manager κ σ ν :=
  let cleared := s.clearable applied queuedValues
  if cleared = [] then s
  else
    let left := s.entries.filter fun u => u.1 ∉ cleared
    if left = [] then { s with queue := none, generation := s.generation + 1 } else { s with queue := some left }

/-- The exception leaves the pass: the connect is treated as one that failed. -/
def passFails (p : PassId) : Manager κ σ ν :=
  { s.setPass p none with failedConnects := s.failedConnects + 1 }

/-- The end of a pass: what is to read back goes to a watcher, in place of the
one there is. -/
def finishPass (p : PassId) (P : Pass κ σ ν) : Manager κ σ ν :=
  let s := s.setPass p none
  if P.awaiting = [] then s
  else { s with watch := some { outstanding := P.awaiting, queuedValues := P.queuedValues } }

def endWalk (p : PassId) (P : Pass κ σ ν) : Manager κ σ ν :=
  if s.clearable P.applied P.queuedValues = [] then s.finishPass p P
  else (s.clearAppliedPending P.applied P.queuedValues).setPass p (some { P with pc := .announce })

/-- The body of the walk's loop up to its await. -/
def beginWrite (p : PassId) (P : Pass κ σ ν) (k : κ) : Manager κ σ ν :=
  match (s.pendingOf P).lookup k with
  | none => s.endWalk p P
  | some e =>
    match S.validate k e.value with
    | none => s.setPass p (some { P with pc := .error })
    | some sent => s.setPass p (some { P with pc := .write k e sent })

/-- The iterator is asked for the next item. -/
def walk (p : PassId) (P : Pass κ σ ν) (surprise : Surprise κ) : Manager κ σ ν :=
  if (s.pendingOf P).length ≠ P.size then s.passFails p
  else if (s.pendingOf P).map Prod.fst = P.keys then
    match P.todo with
    | [] => s.endWalk p P
    | k :: rest => s.beginWrite S p { P with todo := rest } k
  else
    match surprise with
    | .raises => s.passFails p
    | .stops => s.endWalk p P
    | .yields k => s.beginWrite S p P k

/-- `_apply_pending_settings` is called, after a connect. -/
def beginPass : Manager κ σ ν :=
  if s.entries = [] then s
  else
    let P : Pass κ σ ν :=
      { generation := s.generation, size := s.entries.length, keys := s.keys, todo := s.keys }
    { s with nextPass := s.nextPass + 1 }.walk S s.nextPass P .stops

end Manager

/-- The pass notes that the driver has accepted its write. -/
def Pass.took (S : Schema κ σ ν) (P : Pass κ σ ν) (k : κ) (e : Entry ν) (sent : ν) : Pass κ σ ν :=
  match S.stateKey k with
  | some stateKey =>
    { P with
      queuedValues := (k, e) :: P.queuedValues
      awaiting := P.awaiting.filter (·.1 ≠ k) ++ [(k, stateKey, sent)] }
  | none => { P with queuedValues := (k, e) :: P.queuedValues, applied := P.applied ++ [k] }

/-- The pass as it asks for its next item, when that is what it goes on with. -/
def Pass.resumed (S : Schema κ σ ν) (P : Pass κ σ ν) (accepted : Bool) : Option (Pass κ σ ν) :=
  match P.pc with
  | .write k e sent => if accepted then some (P.took S k e sent) else none
  | .error => some P
  | .announce => none

/-- What a turn of the watcher comes to. -/
inductive WatchTurn (κ σ ν : Type*)
  | waits (w : Watch κ σ ν)
  | settles (confirmed unreported : List κ)

namespace Watch

variable (S : Schema κ σ ν) (s : Manager κ σ ν) (w : Watch κ σ ν)

def reads (a : Awaiting κ σ ν) : Bool :=
  (s.readings a.2.1).any (S.confirms a.1 a.2.2)

def check : Watch κ σ ν :=
  { w with
    outstanding := w.outstanding.filter fun a => !reads S s a
    confirmed := w.confirmed ++ (w.outstanding.filter (reads S s)).map Prod.fst }

/-- The loop over what is still outstanding when the window closes: a setting
the device does not report is settled, and any other is announced. -/
def report (reporting : Bool) : List (Awaiting κ σ ν) → List κ → WatchTurn κ σ ν
  | [], unreported => .settles w.confirmed unreported
  | a :: rest, unreported =>
    if (s.readings a.2.1).isNone && reporting then report reporting rest (unreported ++ [a.1])
    else .waits { w with pc := .error reporting rest unreported }

def turn (expired : Bool) : WatchTurn κ σ ν :=
  match w.pc with
  | .sleep =>
    let w := w.check S s
    -- `_device_is_reporting`
    let reporting := S.stateVars.any fun v => (s.readings v).isSome
    if w.outstanding.isEmpty || expired then w.report s reporting w.outstanding []
    else if !s.connected then w.report s reporting [] []
    else .waits w
  | .error reporting rest unreported => w.report s reporting rest unreported

/-- The queued values behind some keys. -/
def idsOf (keys : List κ) : List Nat :=
  keys.filterMap fun k => (w.queuedValues.lookup k).map Entry.id

end Watch

namespace Manager

variable (S : Schema κ σ ν) (s : Manager κ σ ν)

def storeEntry (u : κ × ν) : Manager κ σ ν :=
  { s with queue := some (setEntry s.entries u.1 ⟨s.nextId, u.2⟩), nextId := s.nextId + 1 }

/-- `store_pending_settings` -/
def storePendingSettings (settings : List (κ × ν)) : Manager κ σ ν :=
  match S.validated settings with
  | some settings => settings.foldl storeEntry { s with queue := some s.entries }
  | none => s

/-- `set_device_setting` up to the driver, past the checks of its caller. -/
def beginLive (k : κ) (v : ν) : Manager κ σ ν :=
  if S.declared k && (S.coerce k v).isSome then
    { s with lives := Function.update s.lives s.nextLive (some { key := k, since := s.nextId })
             nextLive := s.nextLive + 1 }
  else s

def endLive (n : LiveId) (accepted : Bool) : Option (Manager κ σ ν) :=
  (s.lives n).map fun live =>
    let s := { s with lives := Function.update s.lives n none }
    if accepted then
      { s with liveSets := (live.key, live.since) :: s.liveSets }.clearAppliedPending [live.key] []
    else s

def stepPass (p : PassId) (accepted : Bool) (surprise : Surprise κ) : Option (Manager κ σ ν) :=
  (s.passes p).map fun P =>
    match P.pc with
    | .write k e sent =>
      if accepted then { s with accepted := e.id :: s.accepted }.walk S p (P.took S k e sent) surprise
      else s.setPass p (some { P with pc := .error })
    | .error => s.walk S p P surprise
    | .announce => s.finishPass p P

/-- `s` with the read-backs that a turn of the watcher finds. -/
def withReadBack (w : Watch κ σ ν) : Manager κ σ ν :=
  match w.pc with
  | .sleep =>
    { s with readBack := w.idsOf ((w.outstanding.filter (Watch.reads S s)).map Prod.fst) ++ s.readBack }
  | .error .. => s

def stepWatch (expired : Bool) : Option (Manager κ σ ν) :=
  s.watch.map fun w =>
    match w.turn S s expired with
    | .waits w' => { s.withReadBack S w with watch := some w' }
    | .settles confirmed unreported =>
      { s.withReadBack S w with watch := none, unreported := w.idsOf unreported ++ s.unreported }.clearAppliedPending
        (confirmed ++ unreported) w.queuedValues

/-- What can happen next: a call of `store_pending_settings`; a live set, and
the driver's answer to it; a connect whose pass begins, and the end of the
await a pass is in; the task of a pass cancelled; a turn of the watcher; and
the device reporting readings. -/
inductive Label (κ σ ν : Type*)
  | store (settings : List (κ × ν))
  | beginLive (k : κ) (v : ν)
  | endLive (n : LiveId) (accepted : Bool)
  | beginPass
  | stepPass (p : PassId) (accepted : Bool) (surprise : Surprise κ)
  | cancelPass (p : PassId)
  | stepWatch (expired : Bool)
  | sense (readings : σ → Option ν) (connected : Bool)

def next : Label κ σ ν → Option (Manager κ σ ν)
  | .store settings => some (s.storePendingSettings S settings)
  | .beginLive k v => some (s.beginLive S k v)
  | .endLive n accepted => s.endLive n accepted
  | .beginPass => some (s.beginPass S)
  | .stepPass p accepted surprise => s.stepPass S p accepted surprise
  | .cancelPass p => some (s.setPass p none)
  | .stepWatch expired => s.stepWatch S expired
  | .sense readings connected => some { s with readings := readings, connected := connected }

end Manager

/-- The manager with the queue its project has, and nothing going on. -/
def queueMachine (S : Schema κ σ ν) : Run.Machine (Manager κ σ ν) (Manager.Label κ σ ν) where
  init s := ∃ queue nextId readings connected, s = { queue, nextId, readings, connected } ∧
    ∀ u ∈ s.entries, u.2.id < nextId
  next s l := s.next S l

end OpenAvc.Device.Pending
