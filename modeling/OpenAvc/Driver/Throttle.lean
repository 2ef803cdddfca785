import OpenAvc.Cloud.StateRelay
import OpenAvc.Data.FloatText

/-! Response rules that write at most once in a window, and hold what comes inside it. -/

namespace OpenAvc.Driver

open Cloud (Primitive)

def number : Primitive → Option Number
  | .bool b => some (Number.ofRat (if b then 1 else 0))
  | .int n => some (Number.ofRat n)
  | .float d => some (some (Double.nearest d.value))
  | .nonFinite .nan => some none
  | .nonFinite .infinity => some (some ⊤)
  | .nonFinite .negativeInfinity => some (some ⊥)
  | _ => none

/-- `==` -/
def equals (a b : Primitive) : Bool :=
  match number a, number b with
  | some x, some y => Number.cmp x y = some .eq
  | none, none => a = b
  | _, _ => false

/-- A state variable of the device, or a property of one of its children. -/
inductive Key
  | state (name : Text)
  | child (child : Text × Text) (prop : Text)
  deriving DecidableEq

abbrev Store := Key → Primitive

/-- What a rule reads from a message: its throttle scope, and the writes. -/
structure Hit where
  scope : Text
  flat : List (Text × Primitive)
  children : List ((Text × Text) × List (Text × Primitive))

def Hit.writes (hit : Hit) : List (Key × Primitive) :=
  hit.flat.map (fun u => (.state u.1, u.2)) ++
    hit.children.flatMap fun c => c.2.map fun u => (.child c.1 u.1, u.2)

def Hit.keys (hit : Hit) : List Key :=
  hit.writes.map Prod.fst

inductive Kind
  | json
  | regex (afterJson : Bool)
  deriving DecidableEq

/-- A response rule. `applies` is its `only_when`; what else it reads of the state comes
with the message. `read` gives nothing where the rule does not match. -/
structure Rule (μ : Type) where
  kind : Kind
  window : Option Int := none
  applies : μ → Store → Bool := fun _ _ => true
  read : μ → Option Hit

/-- A scope of a rule. -/
structure Slot where
  rule : Nat
  scope : Text
  deriving DecidableEq

/-- A held write, and what each of its keys had when it was held. -/
structure Held where
  hit : Hit
  flatBefore : List (Text × Primitive)
  childBefore : List ((Text × Text) × List (Text × Primitive))

def Held.before (held : Held) : Key → Primitive
  | .state name => (held.flatBefore.lookup name).getD .none
  | .child child prop => ((held.childBefore.lookup child).bind (·.lookup prop)).getD .none

/-- The state of the device and of the throttles. `latest` is what the messages have said
last, and `fires` are the times at which a scope has written. -/
structure Responses where
  now : Int := 0
  store : Store
  last : Slot → Option Int := fun _ => none
  pending : List (Slot × Held) := []
  timers : Slot → Option Int := fun _ => none
  latest : Key → Option Primitive := fun _ => none
  fires : Slot → List Int := fun _ => []

/-- One write after another. -/
def put {β : Type} (writes : List (Key × β)) (f : Key → β) : Key → β :=
  writes.foldl (fun f u => Function.update f u.1 u.2) f

namespace Responses

variable (s : Responses)

/-- `_apply_writes` -/
def applyWrites (hit : Hit) : Responses :=
  { s with store := put hit.writes s.store }

/-- `_drop_held` -/
def dropHeld (slot : Slot) : Responses :=
  { s with pending := s.pending.filter (·.1 ≠ slot), timers := Function.update s.timers slot none }

/-- The scope writes now. -/
def fire (slot : Slot) : Responses :=
  { s with
    last := Function.update s.last slot (some s.now)
    fires := Function.update s.fires slot (s.now :: s.fires slot) }

/-- What is held, with what its keys have at this moment. -/
def hold (hit : Hit) : Held where
  hit := hit
  flatBefore := hit.flat.map fun u => (u.1, s.store (.state u.1))
  childBefore := hit.children.foldl
    (fun d c => Dict.set d c.1 (c.2.map fun u => (u.1, s.store (.child c.1 u.1)))) []

/-- `_throttle_hold` -/
def throttleHold (window : Option Int) (slot : Slot) (hit : Hit) : Bool × Responses :=
  match window, s.last slot with
  | none, _ => (false, s)
  | some _, none => (false, (s.dropHeld slot).fire slot)
  | some window, some last =>
    if window ≤ s.now - last then (false, (s.dropHeld slot).fire slot)
    else
      let timer := (s.timers slot).getD (s.now + (window - (s.now - last)))
      (true, { s with
        pending := (slot, s.hold hit) :: s.pending.filter (·.1 ≠ slot)
        timers := Function.update s.timers slot (some timer) })

/-- A rule has matched. -/
def take (window : Option Int) (slot : Slot) (hit : Hit) : Responses :=
  let (held, s') := s.throttleHold window slot hit
  let s' := if held then s' else s'.applyWrites hit
  { s' with latest := put (hit.writes.map fun u => (u.1, some u.2)) s.latest }

/-- `_flush_held`. A key that something else has written keeps its value. -/
def flushHeld (slot : Slot) : Responses :=
  let s' := { s with timers := Function.update s.timers slot none, pending := s.pending.filter (·.1 ≠ slot) }
  match s.pending.lookup slot with
  | none => s'
  | some held =>
    let flat := held.hit.flat.foldl (fun (store : Store) u =>
      if equals (store (.state u.1)) (held.before (.state u.1)) then Function.update store (.state u.1) u.2 else store) s.store
    let store := held.hit.children.foldl (fun (store : Store) c =>
      let kept := c.2.filter fun u => equals (store (.child c.1 u.1)) (held.before (.child c.1 u.1))
      put (kept.map fun u => (.child c.1 u.1, u.2)) store) flat
    { s'.fire slot with store }

variable {μ : Type}

/-- `_apply_json_responses`: every rule that the body has something for. -/
def applyJsonResponses (msg : μ) (s : Responses) : List (Rule μ × Nat) → Bool × Responses
  | [] => (false, s)
  | (rule, i) :: rules =>
    match if rule.kind = .json ∧ rule.applies msg s.store then rule.read msg else none with
    | none => s.applyJsonResponses msg rules
    | some hit => (true, ((s.take rule.window ⟨i, hit.scope⟩ hit).applyJsonResponses msg rules).2)

/-- The first rule that matches, of those that are eligible. -/
def applyRegexResponses (msg : μ) (eligible : Kind → Bool) (s : Responses) : List (Rule μ × Nat) → Responses
  | [] => s
  | (rule, i) :: rules =>
    match if eligible rule.kind ∧ rule.applies msg s.store then rule.read msg else none with
    | none => s.applyRegexResponses msg eligible rules
    | some hit => s.take rule.window ⟨i, hit.scope⟩ hit

/-- Which rules see the text after the json rules. -/
def eligible (readByJson : Bool) : Kind → Bool
  | .json => false
  | .regex afterJson => !readByJson || afterJson

def onDataReceived (rules : List (Rule μ)) (msg : μ) : Responses :=
  let (readByJson, s') := s.applyJsonResponses msg rules.zipIdx
  s'.applyRegexResponses msg (eligible readByJson) rules.zipIdx

end Responses

inductive ResponseLabel (μ : Type)
  | receive (now : Int) (msg : μ)
  | fire (now : Int) (slot : Slot)

namespace Responses

/-- Messages and timers, as the clock goes on. A timer does not fire before its time. -/
def next {μ : Type} (rules : List (Rule μ)) (s : Responses) : ResponseLabel μ → Option Responses
  | .receive now msg => if s.now ≤ now then some ({ s with now }.onDataReceived rules msg) else none
  | .fire now slot =>
    if s.now ≤ now ∧ (s.timers slot).any (· ≤ now) then some ({ s with now }.flushHeld slot) else none

def machine {μ : Type} (rules : List (Rule μ)) : Run.Machine Responses (ResponseLabel μ) where
  init s := ∃ now store, s = { now, store }
  next := next rules

end Responses

end OpenAvc.Driver
