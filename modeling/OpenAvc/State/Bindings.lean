import OpenAvc.State.Store

/-! Variables that follow another key: a listener of the source writes the variable in
the middle of the notification. -/

namespace OpenAvc.State

/-- How Python writes a value, and a container as JSON. -/
structure Python where
  str : Value → Text
  dumps : Json → Text

/-- What a binding reads of a variable of the project; without a source it has an empty key. -/
structure Variable where
  id : Text
  sourceKey : Text := []
  sourceMap : List (Text × Json) := []

def Variable.key (v : Variable) : Text := text "var." ++ v.id

/-- A binding is known by the subscription of its handler. -/
structure Binding where
  subId : Nat
  var : Variable

namespace Binding

def key (b : Binding) : Text := b.var.key

def source (b : Binding) : Text := b.var.sourceKey

end Binding

/-- `coerce_flat_primitive` -/
def coerceFlatPrimitive (py : Python) : Json → Value
  | .null => .none
  | .bool b => .bool b
  | .int n => .int n
  | .float d => .float d
  | .constant name =>
    .nonFinite (if name = "NaN" then .nan else if name = "Infinity" then .infinity else .negativeInfinity)
  | .str t => .str t
  | value => .str (py.dumps value)

/-- `_map_value` -/
def mapValue (py : Python) (b : Binding) (raw : Value) : Value :=
  match b.var.sourceMap.lookup (py.str raw) with
  | some mapped => coerceFlatPrimitive py mapped
  | none => raw

/-- A notification in progress. `calling` tells whether a listener has the thread, and
`handler` whose handler made the write. -/
structure Frame where
  remaining : List Delivery
  calling : Bool := false
  handler : Option Binding := none

/-- `_bind_variable_sources` at work: the variable that was written and is not subscribed
yet, and those that come after it. -/
structure Rebinding where
  subscribing : Option Binding := none
  remaining : List Variable

/-- The store with the bindings, and what is in progress in it, the innermost notification
first. `touched` has the bindings whose variable somebody else has written, and `sourced`
those whose source had a value or has changed. -/
structure Engine where
  state : StateStore := {}
  bindings : List Binding := []
  frames : List Frame := []
  rebinding : Option Rebinding := none
  touched : List Nat := []
  sourced : List Nat := []

/-- What comes in one dict has different keys. -/
def Op.isDict : Op → Bool
  | .setBatch updates _ => decide (updates.map Prod.fst).Nodup
  | _ => true

namespace Engine

/-- `_var_binding_active` -/
def active (e : Engine) : List Text :=
  e.frames.filterMap fun f => f.handler.map Binding.key

/-- The variables bound since the last rebinding. -/
def bound (e : Engine) : List Binding :=
  e.bindings ++ (e.rebinding.bind (·.subscribing)).toList

def idle (e : Engine) : Bool :=
  e.frames.isEmpty && e.rebinding.isNone

/-- A listener has the thread. -/
def listening (e : Engine) : Bool :=
  e.frames.head?.any (·.calling)

/-- Among the changes is one of the key. -/
def changesKey (changes : List Change) (key : Text) : Bool :=
  changes.any fun change => change.key = key

variable (py : Python) (normcase : Text → Text)

/-- A write by the binding `writer`, or by somebody else, to where its first listener is called. -/
def write (e : Engine) (op : Op) (writer : Option Nat) (handler : Option Binding) : Engine :=
  let (state, changes) := e.state.write op
  if changes = [] then { e with state := state }
  else { e with
    state := state
    frames := ⟨notifications normcase state.subs changes, false, handler⟩ :: e.frames
    touched := e.touched ++
      ((e.bound.filter fun b => changesKey changes b.key && writer ≠ some b.subId).map (·.subId))
    sourced := e.sourced ++ (e.bound.filter fun b => changesKey changes b.source).map (·.subId) }

/-- What the handler of a binding writes. -/
def handled (b : Binding) (change : Change) : Op :=
  .set b.key (.flat (mapValue py b change.new)) (text "variable_binding")

/-- The handler of a binding is called. -/
def handle (e : Engine) (b : Binding) (d : Delivery) : Engine :=
  match d.changes with
  | [change] =>
    -- a variable that is being written is not written again
    if b.key ∈ e.active then e else e.write normcase (handled py b change) (some b.subId) (some b)
  | _ => e

/-- The next listener is called, or the innermost notification is over. -/
def deliver (e : Engine) : Option Engine :=
  match e.frames with
  | [] => none
  | ⟨[], _, _⟩ :: outer => some { e with frames := outer }
  | ⟨d :: remaining, _, handler⟩ :: outer =>
    match e.bindings.find? fun b => b.subId = d.subId with
    | none => some { e with frames := ⟨remaining, true, handler⟩ :: outer }
    | some b => some (({ e with frames := ⟨remaining, false, handler⟩ :: outer } : Engine).handle py normcase b d)

/-- `_bind_variable_sources`, up to its loop -/
def rebind (e : Engine) (vars : List Variable) : Engine := { e with
  state := { e.state with subs := e.bindings.foldl (fun subs b => subs.unsubscribe b.subId) e.state.subs }
  bindings := []
  rebinding := some { remaining := vars }
  touched := []
  sourced := [] }

/-- What the loop writes for a variable before it subscribes. -/
def synced (b : Binding) (current : Value) : Op :=
  .set b.key (.flat (mapValue py b current)) (text "variable_binding")

/-- The loop of `_bind_variable_sources` goes on. -/
def bindNext (e : Engine) : Option Engine :=
  match e.frames, e.rebinding with
  | [], some ⟨some b, remaining⟩ => some { e with
      state := { e.state with
        subs := e.state.subs.addSub ⟨b.subId, b.source, false⟩
        nextSub := e.state.nextSub + 1 }
      bindings := e.bindings ++ [b]
      rebinding := some { remaining := remaining } }
  | [], some ⟨none, v :: remaining⟩ =>
    if v.sourceKey = [] ∨ v.sourceKey.any globChars.contains then some { e with rebinding := some { remaining := remaining } }
    else
      let b : Binding := ⟨e.state.nextSub, v⟩
      let e : Engine := { e with rebinding := some { subscribing := some b, remaining := remaining } }
      if e.state.get b.source = .none then some e
      else some (({ e with sourced := b.subId :: e.sourced } : Engine).write normcase
        (synced py b (e.state.get b.source)) (some b.subId) none)
  | [], some ⟨none, []⟩ => some { e with rebinding := none }
  | _, _ => none

inductive Label
  | call (op : Op)
  | deliver
  | subscribe (pattern : Text) (bulk : Bool)
  | unsubscribe (subId : Nat)
  | rebind (vars : List Variable)
  | bindNext

/-- Anybody may write while nothing is in progress, and a listener that has been called. -/
def next (e : Engine) : Label → Option Engine
  | .call op => if (e.idle || e.listening) && op.isDict then some (e.write normcase op none none) else none
  | .deliver => e.deliver py normcase
  | .subscribe pattern bulk =>
    if e.idle then some { e with state := { e.state with
      subs := e.state.subs.addSub ⟨e.state.nextSub, pattern, bulk⟩
      nextSub := e.state.nextSub + 1 } }
    else none
  | .unsubscribe subId =>
    if e.idle && e.bindings.all (·.subId ≠ subId) then
      some { e with state := { e.state with subs := e.state.subs.unsubscribe subId } }
    else none
  | .rebind vars => if e.idle then some (e.rebind vars) else none
  | .bindNext => e.bindNext py normcase

/-- The store of a server from its start, with callers and listeners that write anything. -/
def machine : Run.Machine Engine Label where
  init e := e = {}
  next := next py normcase

end Engine

end OpenAvc.State
