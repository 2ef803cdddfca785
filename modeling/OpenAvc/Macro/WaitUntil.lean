import Mathlib.Algebra.Order.Ring.Rat
import OpenAvc.State.Follows

/-! `_execute_wait_until`: a step that listens to the state store until its condition holds. -/

namespace OpenAvc.WaitUntil

open State

/-- The `timeout` of the step. -/
inductive Timeout
  | never
  | after (seconds : ℚ)
  | notANumber

def Timeout.refused : Timeout → Bool
  | never => false
  | after seconds => seconds < 0
  | notANumber => true

/-- What the step reads. `evaluate` is `eval_operator` with the operator and
the value of the condition, and its answer is a text where it raises; a step
without a condition has an empty key. A step outside of a macro announces nothing. -/
structure WaitStep where
  key : Text
  evaluate : Value → Except Text Bool
  timeout : Timeout := .never
  onTimeout : Text := text "fail"
  announced : Bool := true

/-- How the step ends. `refused` names the field that a ValueError is about, and
`raised` has what the operator raised. -/
inductive Ending
  | satisfied
  | continued
  | timedOut
  | refused (field : Text)
  | raised (error : Text)
  | cancelled

/-- The await that the step is suspended at: the event, and the emits before and behind it. -/
inductive Stage
  | ready
  | satisfiedAtOnce
  | announcing
  | waiting
  | satisfied
  | timedOut
  | ended (ending : Ending)

/-- The step has a subscription to give back. -/
def Stage.listens : Stage → Bool
  | announcing | waiting => true
  | _ => false

def Stage.begun : Stage → Bool
  | ready => false
  | _ => true

/-- The store with one step at work in it. `satisfied` is the event the step
waits for, and `held` tells whether its condition has held since it began. -/
structure Waiter where
  state : StateStore := {}
  stage : Stage := .ready
  satisfied : Bool := false
  subId : Option Nat := none
  held : Bool := false

inductive Wake
  | ok
  | timeout
  | cancelled
  deriving DecidableEq

variable (normcase : Text → Text) (w : WaitStep)

/-- `_condition_actual` without a trigger's context -/
def conditionActual (s : StateStore) : Value :=
  if (text "trigger.").isPrefixOf w.key then .none else s.get w.key

/-- `_evaluate_condition` -/
def evaluateCondition (s : StateStore) : Except Text Bool :=
  w.evaluate (conditionActual w s)

/-- The condition holds. -/
def holds (s : StateStore) : Bool :=
  match evaluateCondition w s with
  | .ok answer => answer
  | .error _ => false

namespace Waiter

/-- The `finally` of the wait. -/
def unsubscribed (W : Waiter) : Waiter :=
  match W.subId with
  | some subId => { W with state := { W.state with subs := W.state.subs.unsubscribe subId } }
  | none => W

/-- The step looks once more, and waits. -/
def wait (W : Waiter) : Waiter :=
  match evaluateCondition w W.state with
  | .error error => { W.unsubscribed with stage := .ended (.raised error) }
  | .ok answer => { W with satisfied := W.satisfied || answer, stage := .waiting }

def begin (W : Waiter) : Waiter :=
  if w.key = [] then { W with stage := .ended (.refused (text "condition")) }
  else if w.timeout.refused then
    { W with stage := .ended (.refused (text "timeout")) }
  else if w.onTimeout ≠ text "fail" ∧ w.onTimeout ≠ text "continue" then
    { W with stage := .ended (.refused (text "on_timeout")) }
  else
    match evaluateCondition w W.state with
    | .error error => { W with stage := .ended (.raised error) }
    | .ok true => { W with held := true, stage := if w.announced then .satisfiedAtOnce else .ended .satisfied }
    | .ok false =>
      let subscribed : Waiter := { W with
        state := { W.state with
          subs := W.state.subs.addSub ⟨W.state.nextSub, w.key, false⟩
          nextSub := W.state.nextSub + 1 }
        subId := some W.state.nextSub }
      if w.announced then { subscribed with stage := .announcing } else subscribed.wait w

/-- The step runs on from its await. -/
def resume (W : Waiter) : Wake → Option Waiter
  | .ok =>
    match W.stage with
    | .satisfiedAtOnce | .satisfied => some { W with stage := .ended .satisfied }
    | .timedOut => some { W with stage := .ended (if w.onTimeout = text "fail" then .timedOut else .continued) }
    | .announcing => some (W.wait w)
    | .waiting =>
      if W.satisfied then
        some { W.unsubscribed with stage := if w.announced then .satisfied else .ended .satisfied }
      else none
    | _ => none
  | .timeout =>
    match W.stage, w.timeout with
    | .waiting, .after _ => some { W.unsubscribed with
        stage := if w.announced then .timedOut
          else .ended (if w.onTimeout = text "fail" then .timedOut else .continued) }
    | _, _ => none
  | .cancelled =>
    match W.stage with
    | .waiting => some { W.unsubscribed with stage := .ended .cancelled }
    -- the emit comes before the `try` whose `finally` unsubscribes
    | .announcing | .satisfiedAtOnce | .satisfied | .timedOut => some { W with stage := .ended .cancelled }
    | _ => none

/-- The store calls the step's own listener. -/
def callsBack (W : Waiter) : StateStore.Label → Bool
  | .deliver =>
    match W.state.notifying with
    | ⟨_, delivery :: _, _⟩ :: _ => W.subId = some delivery.subId
    | _ => false
  | _ => false

end Waiter

/-- The listener that has been called returns without a write. -/
def hushed (s : StateStore) : StateStore :=
  match s.notifying with
  | n :: outer => { s with notifying := { n with calling := false } :: outer }
  | [] => s

namespace Waiter

/-- A step of the store. The own listener of the step, when it is called, looks at the condition. -/
def store (W : Waiter) (l : StateStore.Label) : Option Waiter :=
  (W.state.next normcase l).map fun s => { W with
    state := if W.callsBack l then hushed s else s
    satisfied := W.satisfied || (W.callsBack l && holds w s)
    held := W.held || (W.stage.begun && holds w s) }

/-- What others can do to the store: nobody else knows the id of the step's subscription. -/
def allows (W : Waiter) : StateStore.Label → Bool
  | .call op => op.isDict
  | .unsubscribe subId => W.subId ≠ some subId
  | _ => true

end Waiter

inductive Label
  | store (l : StateStore.Label)
  | begin
  | resume (wake : Wake)

/-- The step runs while nobody is in the middle of a write. -/
def next (W : Waiter) : Label → Option Waiter
  | .store l => if W.allows l then W.store normcase w l else none
  | .begin =>
    match W.stage with
    | .ready => if W.state.idle then some (W.begin w) else none
    | _ => none
  | .resume wake => if W.state.idle then W.resume w wake else none

/-- A server's store from its start, with one `wait_until` step in it. -/
def machine : Run.Machine Waiter Label where
  init W := W = {}
  next := next normcase w

end OpenAvc.WaitUntil
