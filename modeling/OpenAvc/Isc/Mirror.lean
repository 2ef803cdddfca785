import OpenAvc.Data.JsonLimits
import OpenAvc.State.Order

/-! State that a system shares with a peer. -/

namespace OpenAvc.Isc

open Cloud (Primitive)
open State (StateStore Op Change Written)

def isIscKey (key : Text) : Bool :=
  (text "isc.").isPrefixOf key

/-- `json.dumps` writes the value. -/
def writable : Primitive → Bool
  | .int n => n.natAbs < 10 ^ Json.Scan.intLimit
  | _ => true

/-- The sharing system `a`, the one that receives, `b`, and the messages with state
on their way. `registered` tells whether `a` tracks the connection, and `greeted`
whether it has sent its shared state on it. -/
structure Mirror where
  a : StateStore
  patterns : List Text
  outgoingBatch : List (Text × Primitive) := []
  registered : Bool := false
  greeted : Bool := false
  inFlight : List (List (Text × Primitive)) := []
  b : StateStore

inductive MirrorLabel
  | write (op : Op)
  | reload (patterns : List Text)
  | flush
  | register
  | greet
  | process (limited : Bool)

namespace Mirror

variable (normcase : Text → Text)

/-- `_is_shared_key` -/
def isSharedKey (patterns : List Text) (key : Text) : Bool :=
  patterns.any fun pattern => Fnmatch.fnmatch normcase key pattern

/-- Does one of the subscriptions to the patterns hear of changes of the key? -/
def hears (patterns : List Text) (key : Text) : Bool :=
  patterns.any fun pattern => (State.classifyPattern pattern).finds normcase key pattern

/-- `_on_local_state_change` -/
def onLocalStateChange (s : Mirror) (change : Change) : Mirror :=
  if change.source = text "isc" then s
  else if isIscKey change.key then s
  else { s with outgoingBatch := Dict.set s.outgoingBatch change.key change.new }

/-- A call of `set`, `set_batch` or `delete`. -/
def write (s : Mirror) (op : Op) : Mirror :=
  let (a, changes) := s.a.write op
  (changes.filter fun change => hears normcase s.patterns change.key).foldl onLocalStateChange { s with a }

/-- `_get_shared_state` -/
def sharedState (s : Mirror) : List (Text × Primitive) :=
  s.a.store.filter fun u => !isIscKey u.1 && isSharedKey normcase s.patterns u.1

/-- One turn of `_state_batch_loop`. What cannot be written is lost. -/
def flush (s : Mirror) : Mirror :=
  if s.outgoingBatch = [] then s
  else { s with
    outgoingBatch := []
    inFlight := if s.registered && s.outgoingBatch.all (fun u => writable u.2) then s.inFlight ++ [s.outgoingBatch]
      else s.inFlight }

variable (instanceId : Text)

/-- What the other system keeps a key of this one under. -/
def localKey (key : Text) : Text :=
  text "isc." ++ instanceId ++ text "." ++ key

/-- `_apply_remote_state`. The values that come from a store are all primitive. -/
def applyRemoteState (b : StateStore) (changes : List (Text × Primitive)) : StateStore :=
  changes.foldl (fun b u => (b.apply (localKey instanceId u.1) (text "isc") (.flat u.2)).1) b

/-- A connection that fails to carry the shared state is closed. `limited` tells
whether the receiver has had its number of messages for the last minute. -/
def next (s : Mirror) : MirrorLabel → Option Mirror
  | .write op => some (s.write normcase op)
  | .reload patterns => some { s with patterns }
  | .flush => some s.flush
  | .register => if s.registered then none else some { s with registered := true }
  | .greet =>
    if !s.registered || s.greeted || !(s.sharedState normcase).all (fun u => writable u.2) then none
    else some { s with
      greeted := true
      inFlight := if s.sharedState normcase = [] then s.inFlight else s.inFlight ++ [s.sharedState normcase] }
  | .process limited =>
    match s.inFlight with
    | [] => none
    | changes :: rest => some { s with
        inFlight := rest
        b := if limited then s.b else applyRemoteState instanceId s.b changes }

/-- The systems from the start of the one that shares. -/
def machine : Run.Machine Mirror MirrorLabel where
  init s := s.outgoingBatch = [] ∧ s.registered = false ∧ s.greeted = false ∧ s.inFlight = [] ∧
    (s.a.store.map Prod.fst).Nodup ∧ ∀ k, s.b.store.lookup (localKey instanceId k) = none
  next := next normcase instanceId

end Mirror

end OpenAvc.Isc
