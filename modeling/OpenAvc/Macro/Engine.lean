import Mathlib.Data.Finset.Insert
import Mathlib.Data.Finset.Card
import OpenAvc.Run.Machine

namespace OpenAvc

abbrev MacroId := String
abbrev TaskId := Nat
/-- One call of `execute`, numbered in the order the calls are made. -/
abbrev RunId := Nat

/-- A step of a macro. `skipIf` says that the step carries a `skip_if` guard
(or `skip_if_offline`), whose value is read when the step begins. `leaf` is
every built-in action that awaits something other than a macro of its own:
device.command, group.command, delay, state.set, event.emit, wait_until,
ui.navigate, help.request, help.clear. A `plugin` action's handler is code of
the plugin, which may await `api.macro_execute`. -/
inductive Step
  | leaf (skipIf : Bool)
  | plugin (skipIf : Bool)
  | callMacro (skipIf : Bool) (sub : MacroId)
  | conditional (skipIf : Bool) (condition : Bool) (thenSteps elseSteps : List Step)

def Step.skipIf : Step → Bool
  | leaf s | plugin s | callMacro s _ | conditional s _ _ _ => s

inductive Overlap
  | allow | skip | queue
  deriving DecidableEq

structure Macro where
  steps : List Step
  stopOnError : Bool := false
  cancelGroup : Option String := none
  overlap : Overlap := .allow
  cooldown : Nat := 0

inductive Outcome
  | completed | failed | cancelled | skipped
  deriving DecidableEq

/-- `_QUEUE_MAX_WAIT_SECONDS` in polls of `_QUEUE_POLL_SECONDS`. -/
def queueMaxWait : Nat := 300
/-- `MacroEngine._max_depth` -/
def maxDepth : Nat := 10
/-- `MacroEngine._max_conditional_depth` -/
def maxConditionalDepth : Nat := 5

/-- The await a call of `execute` is suspended at. Every emit of the event bus
is one, since its handlers may take any time. -/
inductive Await
  | queue (waited : Nat)
  | skipped
  | drain (cancelled : List (MacroId × TaskId))
  | started
  | progress
  | leaf
  | plugin
  | nested
  | branch (taken : Bool)
  | stepError (halt : Bool)
  | completed (outcome : Outcome)
  | cancelled
  | error
  deriving DecidableEq

/-- The emits that follow `_release`: the steps of the run are over. -/
def Await.released : Await → Bool
  | completed _ | cancelled | error => true
  | _ => false

/-- Before the run is registered in `_running`, or refused without being. -/
def Await.unregistered : Await → Bool
  | queue _ | skipped => true
  | _ => false

def Await.drains : Await → Bool
  | drain _ => true
  | _ => false

/-- One call of `execute` on a task's stack. `todo` holds the step lists being
executed, the innermost branch first, each with the step at work at its head. -/
structure Frame where
  id : RunId
  macroId : MacroId
  config : Macro
  chain : Finset MacroId
  nestedCall : Bool
  todo : List (List Step)
  failures : Nat := 0
  pc : Await

/-- A task: the calls of `execute` it is inside, the innermost first, and
whether `task.cancel()` has been called since it last ran. -/
structure Task where
  stack : List Frame := []
  cancelRequested : Bool := false

/-- What a suspended task is resumed with. `ok` carries the value the step's
guard and condition have at that moment; `unreported` is a group command that
reached no device; `cancelled` is CancelledError, raised at the await. -/
inductive Wake
  | ok (skip holds : Bool)
  | unreported
  | fail
  | cancelled
  deriving DecidableEq

/-- `_running` as its (macro, task) pairs, `_last_started_monotonic`, the clock
it is read from, and the tasks. `nextRun` numbers the calls. `struck` records
the calls whose task has been cancelled while they were on its stack and
`starts` the calls registered so far, the latest first; the code reads neither. -/
structure MacroEngine where
  running : List (MacroId × TaskId) := []
  lastStarted : MacroId → Option Nat := fun _ => none
  clock : Nat := 0
  tasks : TaskId → Task := fun _ => {}
  nextRun : RunId := 0
  struck : List (RunId × TaskId) := []
  starts : List (RunId × MacroId × TaskId) := []

/-- The step at work is over: the next one of its list, or the end of the
branch it closes, which ends the conditional step that ran the branch. -/
def settle : List (List Step) → List (List Step)
  | [] => []
  | (_ :: next :: rest) :: up => (next :: rest) :: up
  | _ :: up => settle up

namespace Frame

/-- `execute_steps` goes on behind the step at work, or returns to `execute`. -/
def stepDone (f : Frame) : Frame :=
  match settle f.todo with
  | [] => { f with todo := [], pc := .completed (if f.failures = 0 then .completed else .failed) }
  | list :: up => { f with todo := list :: up, pc := .progress }

/-- A step raised: `execute_steps` counts it and emits `macro.step_error`. -/
def stepFailed (f : Frame) : Frame :=
  { f with failures := f.failures + 1, pc := .stepError f.config.stopOnError }

/-- A group command that reached nobody is counted and never halts the run. -/
def stepUnreported (f : Frame) : Frame :=
  { f with failures := f.failures + 1, pc := .stepError false }

/-- The RuntimeError of a halting step leaves its `execute_steps`: a branch
hands it to the step list around it, the outermost list to `execute`. -/
def stepRaised (f : Frame) : Frame :=
  match f.todo with
  | _ :: list :: up => { f with todo := list :: up }.stepFailed
  | _ => { f with pc := .error }

/-- The first turn of `execute_steps`. -/
def firstStep (f : Frame) : Frame :=
  match f.todo with
  | [[]] => f.stepDone
  | _ => { f with pc := .progress }

/-- A branch of a conditional is taken up, or skipped when it has no steps. -/
def enterBranch (f : Frame) (branch : List Step) : Frame :=
  match branch with
  | [] => f.stepDone
  | step :: rest => { f with todo := (step :: rest) :: f.todo, pc := .progress }

end Frame

namespace MacroEngine

def isMacroRunning (E : MacroEngine) (m : MacroId) : Bool :=
  E.running.any fun entry => entry.1 = m

/-- `_throttle_reason`: whether the macro's own guard blocks this start. -/
def throttled (E : MacroEngine) (m : MacroId) (config : Macro) : Bool :=
  (0 < config.cooldown && (match E.lastStarted m with
    | some last => decide (E.clock - last < config.cooldown)
    | none => false)) ||
  (config.overlap = .skip && E.isMacroRunning m)

/-- `_release`, idempotent. -/
def release (E : MacroEngine) (m : MacroId) (t : TaskId) : MacroEngine :=
  { E with running := E.running.filter fun entry => entry ≠ (m, t) }

def setStack (E : MacroEngine) (t : TaskId) (stack : List Frame) : MacroEngine :=
  { E with tasks := Function.update E.tasks t { (E.tasks t) with stack := stack } }

/-- Suspends `t` with `f` on top. A call that goes to announce its end is
released before the announcement. -/
def suspend (E : MacroEngine) (t : TaskId) (f : Frame) (rest : List Frame) : MacroEngine :=
  let E := if f.pc.released then E.release f.macroId t else E
  E.setStack t (f :: rest)

/-- `task.cancel()` on each of `targets` that is still inside a call. -/
def cancelTasks (E : MacroEngine) (targets : List TaskId) : MacroEngine :=
  let live := targets.filter fun t => (E.tasks t).stack ≠ []
  { E with
    tasks := fun t => if t ∈ live then { (E.tasks t) with cancelRequested := true } else E.tasks t
    struck := live.flatMap (fun t => (E.tasks t).stack.map fun f => (f.id, t)) ++ E.struck }

/-- The cancellation requested of `t` is being raised in it. -/
def deliver (E : MacroEngine) (t : TaskId) : MacroEngine :=
  { E with tasks := Function.update E.tasks t { (E.tasks t) with cancelRequested := false } }

/-- `_collect_group_targets` -/
def collectGroupTargets (macros : MacroId → Option Macro) (E : MacroEngine) (group : String)
    (excludeTask : TaskId) : List (MacroId × TaskId) :=
  E.running.filter fun entry =>
    ((macros entry.1).bind Macro.cancelGroup = some group) && entry.2 ≠ excludeTask

/-- The tasks a start of `config` preempts. -/
def preempted (macros : MacroId → Option Macro) (E : MacroEngine) (config : Macro) (t : TaskId) :
    List (MacroId × TaskId) :=
  match config.cancelGroup with
  | some group => if group = "" then [] else E.collectGroupTargets macros group t
  | none => []

/-- `f` is registered for `t`, and the cooldown counts from now. -/
def register (E : MacroEngine) (t : TaskId) (f : Frame) : MacroEngine :=
  { E with
    running := E.running.insert (f.macroId, t)
    lastStarted := if 0 < f.config.cooldown then
      Function.update E.lastStarted f.macroId (some E.clock) else E.lastStarted
    starts := (f.id, f.macroId, t) :: E.starts }

/-- The critical section of `execute` under `_start_lock`, and the way from it
to the next await. Nothing in it awaits, so the lock is always free. -/
def claim (macros : MacroId → Option Macro) (E : MacroEngine) (t : TaskId) (f : Frame)
    (rest : List Frame) : MacroEngine :=
  if E.throttled f.macroId f.config then E.suspend t { f with pc := .skipped } rest
  else
    let E := E.register t f
    let cancelled := E.preempted macros f.config t
    let E := E.cancelTasks (cancelled.map Prod.snd)
    -- `_drain_cancelled` returns at once when nothing was preempted
    E.suspend t { f with pc := if cancelled = [] then .started else .drain cancelled } rest

/-- `_refuse_start` -/
def refuseStart (macros : MacroId → Option Macro) (m : MacroId) (chain : Finset MacroId) : Bool :=
  (macros m).isNone || m ∈ chain || maxDepth ≤ chain.card

/-- `execute` from its call to its first await, on top of `rest`; `none` when
it raises ValueError instead. -/
def execute (macros : MacroId → Option Macro) (E : MacroEngine) (t : TaskId) (m : MacroId)
    (chain : Finset MacroId) (rest : List Frame) : Option MacroEngine :=
  if refuseStart macros m chain then none
  else (macros m).map fun config =>
    let f : Frame := { id := E.nextRun, macroId := m, config, chain := insert m chain,
                       nestedCall := decide (chain ≠ ∅), todo := [config.steps], pc := .queue 0 }
    let E := { E with nextRun := E.nextRun + 1 }
    if config.overlap = .queue && E.isMacroRunning m then E.suspend t f rest
    else E.claim macros t f rest

/-- CancelledError raised at the innermost await of `t`. A call outside its
`try` passes it on (the `started` emit with its task still registered); the
drain swallows it; a call inside its `try` announces the cancellation; and one
already announcing its end passes it on through `finally`. -/
def throwCancelled (E : MacroEngine) (t : TaskId) : List Frame → MacroEngine
  | [] => E.setStack t []
  | f :: rest =>
    match f.pc with
    | .queue _ | .skipped | .started => E.throwCancelled t rest
    | .drain _ => E.suspend t { f with pc := .started } rest
    | .cancelled | .error => (E.release f.macroId t).throwCancelled t rest
    | .progress | .leaf | .plugin | .nested | .branch _ | .stepError _ | .completed _ =>
      E.suspend t { f with pc := .cancelled } rest

/-- How a call of `execute` ends when it does not end in CancelledError. -/
inductive Ending
  | returned (outcome : Outcome)
  | raised

/-- The call on top has ended; what awaited it goes on: the macro step of the
call below, a plugin's handler, or the task's own code outside the engine. -/
def leave (E : MacroEngine) (t : TaskId) (ending : Ending) : List Frame → MacroEngine
  | [] => E.setStack t []
  | f :: rest =>
    match f.pc, ending with
    | .nested, .returned .failed =>
      E.suspend t { f with failures := f.failures + 1 }.stepDone rest
    | .nested, .returned _ => E.suspend t f.stepDone rest
    | .nested, .raised => E.suspend t f.stepFailed rest
    | _, _ => E.suspend t f rest

/-- `_execute_step` on the step at work. -/
def beginStep (macros : MacroId → Option Macro) (E : MacroEngine) (t : TaskId) (f : Frame)
    (rest : List Frame) (skip holds : Bool) : MacroEngine :=
  match f.todo with
  | (step :: _) :: _ =>
    if step.skipIf && skip then E.suspend t f.stepDone rest
    else match step with
    | .leaf _ => E.suspend t { f with pc := .leaf } rest
    | .plugin _ => E.suspend t { f with pc := .plugin } rest
    | .callMacro _ sub =>
      (E.execute macros t sub f.chain ({ f with pc := .nested } :: rest)).getD
        (E.suspend t f.stepFailed rest)
    | .conditional _ condition _ _ =>
      if !condition then E.suspend t f.stepDone rest
      else if maxConditionalDepth ≤ f.todo.length - 1 then E.suspend t f.stepFailed rest
      else E.suspend t { f with pc := .branch holds } rest
  | _ => E.suspend t f.stepDone rest

/-- The branch of the conditional at work. -/
def branchOf (f : Frame) (taken : Bool) : List Step :=
  match f.todo with
  | (.conditional _ _ thenSteps elseSteps :: _) :: _ => if taken then thenSteps else elseSteps
  | _ => []

/-- `t` runs on from the await of `f`, which answered without CancelledError. -/
def proceed (macros : MacroId → Option Macro) (E : MacroEngine) (t : TaskId) (f : Frame)
    (rest : List Frame) : Wake → Option MacroEngine
  | .ok skip holds =>
    match f.pc with
    | .queue waited =>
      if E.isMacroRunning f.macroId && decide (waited + 1 < queueMaxWait) then
        some (E.suspend t { f with pc := .queue (waited + 1) } rest)
      else some (E.claim macros t f rest)
    | .skipped => some (E.leave t (.returned .skipped) rest)
    | .drain _ => some (E.suspend t { f with pc := .started } rest)
    | .started => some (E.suspend t f.firstStep rest)
    | .progress => some (E.beginStep macros t f rest skip holds)
    | .leaf | .plugin => some (E.suspend t f.stepDone rest)
    | .nested => none
    | .branch taken => some (E.suspend t (f.enterBranch (branchOf f taken)) rest)
    | .stepError halt => some (E.suspend t (if halt then f.stepRaised else f.stepDone) rest)
    | .completed outcome => some ((E.release f.macroId t).leave t (.returned outcome) rest)
    | .cancelled =>
      if f.nestedCall then some ((E.release f.macroId t).throwCancelled t rest)
      else some ((E.release f.macroId t).leave t (.returned .cancelled) rest)
    | .error =>
      some ((E.release f.macroId t).leave t (if f.nestedCall then .raised else .returned .failed) rest)
  | .unreported => if f.pc = .leaf then some (E.suspend t f.stepUnreported rest) else none
  | .fail =>
    if f.pc = .leaf || f.pc = .plugin then some (E.suspend t f.stepFailed rest) else none
  | .cancelled => none

/-- What can happen next: code outside the engine calls `execute` in a task
that is not inside it, with the chain that is active there; a plugin's handler
calls it inside its own step, with none; a task is resumed; `cancel`,
`cancel_all`; the clock runs on. -/
inductive Label
  | call (t : TaskId) (m : MacroId) (chain : Finset MacroId)
  | pluginCall (t : TaskId) (m : MacroId)
  | resume (t : TaskId) (wake : Wake)
  | cancel (m : MacroId)
  | cancelAll
  | tick (elapsed : Nat)

def next (macros : MacroId → Option Macro) (E : MacroEngine) : Label → Option MacroEngine
  | .call t m chain =>
    match (E.tasks t).stack with
    | [] => some ((E.execute macros t m chain []).getD E)
    | _ => none
  | .pluginCall t m =>
    match (E.tasks t).stack with
    | f :: rest =>
      if f.pc = .plugin && !(E.tasks t).cancelRequested then
        some ((E.execute macros t m ∅ (f :: rest)).getD E)
      else none
    | [] => none
  | .resume t wake =>
    match (E.tasks t).stack with
    | [] => none
    | f :: rest =>
      if (E.tasks t).cancelRequested then
        if wake = .cancelled then some ((E.deliver t).throwCancelled t (f :: rest)) else none
      else E.proceed macros t f rest wake
  | .cancel m => some (E.cancelTasks ((E.running.filter fun entry => entry.1 = m).map Prod.snd))
  | .cancelAll => some (E.cancelTasks (E.running.map Prod.snd))
  | .tick elapsed => some { E with clock := E.clock + elapsed }

end MacroEngine

/-- The engine over a set of macros, from a start with nothing running. -/
def macroMachine (macros : MacroId → Option Macro) : Run.Machine MacroEngine MacroEngine.Label where
  init E := E = {}
  next := MacroEngine.next macros

end OpenAvc
