import OpenAvc.Cloud.StateRelay
import OpenAvc.Data.Fnmatch

/-! `StateStore`: its listeners are called in the middle of a write, its events are
emitted by tasks of their own. -/

namespace OpenAvc.State

open Cloud (Primitive)

/-- A value that a caller writes. Only a flat one is kept. -/
inductive Written
  | flat (value : Primitive)
  | nested

/-- The value that `store.get(key)` returns where the key is missing, too. -/
abbrev Value := Primitive

structure Change where
  key : Text
  old : Value
  new : Value
  source : Text
  deriving DecidableEq

/-- `_Sub`. A callback is known by its subscription. -/
structure Sub where
  subId : Nat
  pattern : Text
  bulk : Bool
  deriving DecidableEq

inductive Bucket
  | universal
  | exact (key : Text)
  | prefixed (key : Text)
  | glob
  deriving DecidableEq

/-- `_GLOB_CHARS` -/
def globChars : Text :=
  text "*?["

/-- `_classify_pattern` -/
def classifyPattern (pattern : Text) : Bucket :=
  if pattern = text "*" then .universal
  else if !pattern.any globChars.contains then .exact pattern
  else if (text ".*").isSuffixOf pattern && !(pattern.dropLast.dropLast).any globChars.contains then
    .prefixed pattern.dropLast
  else .glob

/-- The subscriptions by what their patterns look like. -/
structure Subscriptions where
  universalSubs : List Sub := []
  exactSubs : Text → List Sub := fun _ => []
  prefixSubs : Text → List Sub := fun _ => []
  globSubs : List Sub := []
  allSubs : List Sub := []

namespace Subscriptions

/-- The subscriptions of a bucket. -/
def bucket (subs : Subscriptions) : Bucket → List Sub
  | .universal => subs.universalSubs
  | .exact key => subs.exactSubs key
  | .prefixed key => subs.prefixSubs key
  | .glob => subs.globSubs

def setBucket (subs : Subscriptions) (l : List Sub) : Bucket → Subscriptions
  | .universal => { subs with universalSubs := l }
  | .exact key => { subs with exactSubs := Function.update subs.exactSubs key l }
  | .prefixed key => { subs with prefixSubs := Function.update subs.prefixSubs key l }
  | .glob => { subs with globSubs := l }

/-- `_add_sub` -/
def addSub (subs : Subscriptions) (sub : Sub) : Subscriptions :=
  let place := classifyPattern sub.pattern
  { subs.setBucket (subs.bucket place ++ [sub]) place with allSubs := subs.allSubs ++ [sub] }

/-- The list without a subscription. -/
def without (subId : Nat) (l : List Sub) : List Sub :=
  l.filter fun sub => sub.subId ≠ subId

/-- `unsubscribe` with `_remove_sub_from_index` -/
def unsubscribe (subs : Subscriptions) (subId : Nat) : Subscriptions :=
  match subs.allSubs.find? fun sub => sub.subId = subId with
  | none => subs
  | some sub =>
    let place := classifyPattern sub.pattern
    { subs.setBucket (without subId (subs.bucket place)) place with allSubs := without subId subs.allSubs }

end Subscriptions

/-- What a key begins with up to one of its dots, the shortest first. -/
def dottedPrefixes (key : Text) : List Text :=
  key.inits.filter fun start => start.getLast? = some 46

/-- Does a key look for its subscriptions in the bucket of the pattern? -/
def Bucket.finds (normcase : Text → Text) (key pattern : Text) : Bucket → Bool
  | .universal => true
  | .exact k => k = key
  | .prefixed start => start ∈ dottedPrefixes key
  | .glob => Fnmatch.fnmatch normcase key pattern

namespace Subscriptions

/-- `_matching_non_universal_subs` -/
def matching (normcase : Text → Text) (subs : Subscriptions) (key : Text) : List Sub :=
  subs.exactSubs key ++ (dottedPrefixes key).flatMap subs.prefixSubs ++
    subs.globSubs.filter fun sub => Fnmatch.fnmatch normcase key sub.pattern

end Subscriptions

/-- One call of a listener, with the changes that it is given. -/
structure Delivery where
  subId : Nat
  changes : List Change

/-- The changes of a transaction gathered for the bulk subscriptions that match
them, in the order in which a first change matched. -/
def bulkBuckets (matched : List (Sub × Change)) : List (Nat × List Change) :=
  matched.foldl (fun buckets (sub, change) =>
    Dict.set buckets sub.subId ((buckets.lookup sub.subId).getD [] ++ [change])) []

/-- The calls that `_notify` makes, one after the other. -/
def notifications (normcase : Text → Text) (subs : Subscriptions) (changes : List Change) : List Delivery :=
  let matched := changes.flatMap fun change => (subs.matching normcase change.key).map fun sub => (sub, change)
  (subs.universalSubs.flatMap fun sub =>
    if sub.bulk then [⟨sub.subId, changes⟩] else changes.map fun change => ⟨sub.subId, [change]⟩) ++
  ((matched.filter fun (sub, _) => !sub.bulk).map fun (sub, change) => ⟨sub.subId, [change]⟩) ++
  (bulkBuckets (matched.filter fun (sub, _) => sub.bulk)).map fun (subId, changes) => ⟨subId, changes⟩

/-- A transaction that is being notified. `calling` tells whether a listener has been called and not returned. -/
structure Notification where
  changes : List Change
  remaining : List Delivery
  calling : Bool := false

/-- `state.changed`, and the event named after the key. -/
inductive Event
  | changed (change : Change)
  | keyChanged (change : Change)

/-- The change, for the event named after its key. -/
def Event.keyed? : Event → Option Change
  | .changed _ => none
  | .keyChanged change => some change

/-- The task of `_dispatch_change_events`, with the events that it still has to emit. -/
structure EventTask where
  remaining : List Event
  started : Bool := false

/-- The events of `_dispatch_change_events`. -/
def changeEvents (changes : List Change) : List Event :=
  changes.flatMap fun change => [.changed change, .keyChanged change]

/-- The store with what is in progress: `notifying` has the innermost transaction
first, and `running` is the event task that has the thread. `history`, `received`
and `emitted` tell every change applied, every call of a listener and every event
that reached the bus. -/
structure StateStore where
  store : List (Text × Value) := []
  subs : Subscriptions := {}
  nextSub : Nat := 0
  notifying : List Notification := []
  pendingEventTasks : List EventTask := []
  running : Option Nat := none
  history : List Change := []
  received : List Delivery := []
  emitted : List Change := []

inductive Op
  | set (key : Text) (value : Written) (source : Text)
  | setBatch (updates : List (Text × Written)) (source : Text)
  | delete (key : Text) (source : Text)

namespace StateStore

def get (s : StateStore) (key : Text) : Value :=
  (s.store.lookup key).getD .none

/-- The key already holds this value. -/
def holds (s : StateStore) (key : Text) (value : Value) : Bool :=
  (s.store.lookup key).any (·.unchanged value)

/-- `set` and one turn of the loop of `set_batch`, as far as both write. -/
def apply (s : StateStore) (key : Text) (source : Text) : Written → StateStore × List Change
  | .nested => (s, [])
  | .flat value =>
    if s.holds key value then (s, [])
    else
      let change : Change := ⟨key, s.get key, value, source⟩
      ({ s with store := Dict.set s.store key value, history := s.history ++ [change] }, [change])

/-- What a call writes before it notifies anybody, and the changes. -/
def write (s : StateStore) : Op → StateStore × List Change
  | .set key value source => s.apply key source value
  | .setBatch updates source =>
    updates.foldl (fun (s, changes) (key, value) =>
      let (s, more) := s.apply key source value
      (s, changes ++ more)) (s, [])
  | .delete key source =>
    if (s.store.lookup key).isNone then (s, [])
    else
      let change : Change := ⟨key, s.get key, .none, source⟩
      ({ s with store := s.store.filter fun u => u.1 ≠ key, history := s.history ++ [change] }, [change])

/-- Nobody has the thread. -/
def idle (s : StateStore) : Bool :=
  s.notifying.isEmpty && s.running.isNone

/-- A listener has the thread. -/
def listening (s : StateStore) : Bool :=
  s.notifying.head?.any (·.calling)

variable (normcase : Text → Text)

/-- A call of `set`, `set_batch` or `delete`, to where its first listener is called. -/
def call (s : StateStore) (op : Op) : StateStore :=
  let (s', changes) := s.write op
  if changes = [] then s'
  else { s' with notifying := ⟨changes, notifications normcase s.subs changes, false⟩ :: s'.notifying }

/-- The listener that was called returns, and the next one is called. After the
last one, `_emit_events` makes the task that emits the events. -/
def deliver (s : StateStore) : Option StateStore :=
  match s.notifying with
  | [] => none
  | ⟨changes, [], _⟩ :: outer => some { s with
      notifying := outer
      pendingEventTasks := s.pendingEventTasks ++ [⟨changeEvents changes, false⟩] }
  | ⟨changes, delivery :: remaining, _⟩ :: outer => some { s with
      notifying := ⟨changes, remaining, true⟩ :: outer
      received := s.received ++ [delivery] }

/-- The loop gives an event task the thread: tasks are started in the order they
were made in, and go on as soon as the handlers they wait for have finished. -/
def resume (s : StateStore) (t : Nat) : Option StateStore :=
  match s.pendingEventTasks[t]? with
  | none => none
  | some task =>
    if s.idle ∧ task.remaining.isEmpty = false ∧
        (task.started = true ∨ (s.pendingEventTasks.take t).all (·.started) = true) then
      some { s with
        pendingEventTasks := s.pendingEventTasks.set t { task with started := true }
        running := some t }
    else none

/-- The next event of the task that has the thread. `waits` tells whether the bus
found handlers for it, for which the task waits. -/
def emit (s : StateStore) (waits : Bool) : Option StateStore :=
  match s.running with
  | none => none
  | some t =>
    match s.pendingEventTasks[t]? with
    | some ⟨event :: remaining, started⟩ => some { s with
        pendingEventTasks := s.pendingEventTasks.set t ⟨remaining, started⟩
        running := if waits || remaining.isEmpty then none else some t
        emitted := s.emitted ++ event.keyed?.toList }
    | _ => none

inductive Label
  | call (op : Op)
  | deliver
  | resume (t : Nat)
  | emit (waits : Bool)
  | subscribe (pattern : Text) (bulk : Bool)
  | unsubscribe (subId : Nat)

/-- Anybody may write while the loop is idle, and a listener that has been called. -/
def next (s : StateStore) : Label → Option StateStore
  | .call op => if s.idle || s.listening then some (s.call normcase op) else none
  | .deliver => s.deliver
  | .resume t => s.resume t
  | .emit waits => s.emit waits
  | .subscribe pattern bulk =>
    if s.idle then some { s with subs := s.subs.addSub ⟨s.nextSub, pattern, bulk⟩, nextSub := s.nextSub + 1 } else none
  | .unsubscribe subId => if s.idle then some { s with subs := s.subs.unsubscribe subId } else none

/-- The store of a server from its start, with callers, listeners and handlers that do anything. -/
def machine : Run.Machine StateStore Label where
  init s := s = {}
  next := next normcase

end StateStore

end OpenAvc.State
