import Mathlib.Data.List.Sort
import OpenAvc.Isc.Mirror

/-! `WSHub`: state changes, batched and pushed to connected clients. -/

namespace OpenAvc.Push

open Cloud (Primitive)
open State (StateStore Op Change)
open Isc (writable)

/-- `state.update`, `state.delete`, and messages of other types. -/
inductive Message
  | update (changes : List (Text × Primitive))
  | delete (keys : List Text)
  | other
  deriving DecidableEq

/-- `json.dumps` writes the message. -/
def Message.writable : Message → Bool
  | .update changes => changes.all fun u => Isc.writable u.2
  | _ => true

/-- What a client does with a message about state. -/
def Message.apply (d : List (Text × Primitive)) : Message → List (Text × Primitive)
  | .update changes => changes.foldl (fun d u => Dict.set d u.1 u.2) d
  | .delete keys => d.filter fun u => !keys.contains u.1
  | .other => d

/-- A registered client: its namespace filter, its snapshot once it has been taken,
whether the writer may send, the send queue, and what has been sent after the snapshot. -/
structure Client where
  nsPrefixes : List Text := []
  snapshot : Option (List (Text × Primitive)) := none
  ready : Bool := false
  queue : List Message := []
  received : List Message := []
  deriving DecidableEq

/-- `_WS_SEND_QUEUE_MAX` -/
def sendQueueMax : Nat := 256

namespace Client

def passes (c : Client) (key : Text) : Bool :=
  c.nsPrefixes.isEmpty || c.nsPrefixes.any fun start => start.isPrefixOf key

/-- What `broadcast` puts into the queue of the client, if anything. -/
def part (c : Client) : Message → Option Message
  | .update changes =>
    if c.nsPrefixes.isEmpty then some (.update changes)
    else
      let filtered := changes.filter fun u => c.passes u.1
      if filtered.isEmpty then none else some (.update filtered)
  | .delete keys =>
    if c.nsPrefixes.isEmpty then some (.delete keys)
    else
      let filteredKeys := keys.filter c.passes
      if filteredKeys.isEmpty then none else some (.delete filteredKeys)
  | .other => some .other

/-- `_enqueue`. A client whose queue is full is dropped. -/
def enqueue (c : Client) (message : Message) : Option Client :=
  if c.queue.length < sendQueueMax then some { c with queue := c.queue ++ [message] } else none

/-- What the client has made of its snapshot and what came after it. -/
def view (c : Client) : List (Text × Primitive) :=
  c.received.foldl Message.apply (c.snapshot.getD [])

end Client

/-- `broadcast` to the clients in the order in which they come, and whether it gets
to the last one. A message that cannot be written raises at the first client that it is for. -/
def broadcast (message : Message) : List Client → List Client × Bool
  | [] => ([], true)
  | c :: clients =>
    match c.part message with
    | none =>
      let (clients', done) := broadcast message clients
      (c :: clients', done)
    | some text =>
      if text.writable then
        let (clients', done) := broadcast message clients
        ((c.enqueue text).toList ++ clients', done)
      else (c :: clients, false)

/-- The hub with the store that it listens to. `flushing` tells whether the flush loop is alive. -/
structure Hub where
  state : StateStore
  clients : List Client := []
  stateBatch : List (Text × Primitive) := []
  stateDeletedKeys : List Text := []
  flushing : Bool := true

inductive HubLabel
  | write (op : Op)
  | flush
  | add (nsPrefixes : List Text)
  | reorder (clients : List Client)
  | snapshot (i : Nat)
  | ready (i : Nat)
  | deliver (i : Nat)
  | send (i : Nat)
  | drop (i : Nat)

namespace Hub

/-- `on_state_change` -/
def onStateChange (s : Hub) (change : Change) : Hub :=
  if change.new = .none ∧ (s.state.store.lookup change.key).isNone then { s with
    stateBatch := s.stateBatch.filter fun u => u.1 ≠ change.key
    stateDeletedKeys := if change.key ∈ s.stateDeletedKeys then s.stateDeletedKeys else s.stateDeletedKeys ++ [change.key] }
  else { s with
    stateBatch := Dict.set s.stateBatch change.key change.new
    stateDeletedKeys := s.stateDeletedKeys.filter fun key => key ≠ change.key }

/-- A call of `set`, `set_batch` or `delete`. No listener writes. -/
def write (s : Hub) (op : Op) : Hub :=
  let (state, changes) := s.state.write op
  changes.foldl onStateChange { s with state }

/-- `flush_state_batch`. An exception ends the flush loop. -/
def flushStateBatch (s : Hub) : Hub :=
  let s' := { s with stateBatch := [], stateDeletedKeys := [] }
  let (clients, done) := if s.stateBatch.isEmpty then (s.clients, true) else broadcast (.update s.stateBatch) s.clients
  if done then
    let (clients, done) := if s.stateDeletedKeys.isEmpty then (clients, true)
      else broadcast (.delete (s.stateDeletedKeys.insertionSort (· ≤ ·))) clients
    { s' with clients, flushing := done }
  else { s' with clients, flushing := false }

/-- A client goes on. -/
def update (s : Hub) (i : Nat) (f : Client → Option Client) : Option Hub :=
  match s.clients[i]? with
  | none => none
  | some c => (f c).map fun c => { s with clients := s.clients.set i c }

/-- The clients are a set, which has no order. A snapshot that cannot be written ends
the connection. Broadcasts of other types reach the queues one by one. -/
def next (s : Hub) : HubLabel → Option Hub
  | .write op => some (s.write op)
  | .flush => if s.flushing then some s.flushStateBatch else none
  | .add nsPrefixes => some { s with clients := s.clients ++ [{ nsPrefixes }] }
  | .reorder clients => if clients.isPerm s.clients then some { s with clients } else none
  | .snapshot i => s.update i fun c =>
    let stateSnapshot := s.state.store.filter fun u => c.passes u.1
    if c.snapshot.isNone && stateSnapshot.all (fun u => writable u.2) then some { c with snapshot := some stateSnapshot }
    else none
  | .ready i => s.update i fun c => if c.snapshot.isSome then some { c with ready := true } else none
  | .deliver i => s.update i fun c =>
    match c.queue with
    | message :: queue => if c.ready then some { c with queue, received := c.received ++ [message] } else none
    | [] => none
  | .send i =>
    match s.clients[i]? with
    | none => none
    | some c => some { s with clients := s.clients.take i ++ (c.enqueue .other).toList ++ s.clients.drop (i + 1) }
  | .drop i => some { s with clients := s.clients.eraseIdx i }

/-- The hub from where it begins to listen to the store. -/
def machine : Run.Machine Hub HubLabel where
  init s := s.clients = [] ∧ s.stateBatch = [] ∧ s.stateDeletedKeys = [] ∧ s.flushing = true
  next := next

end Hub

end OpenAvc.Push
