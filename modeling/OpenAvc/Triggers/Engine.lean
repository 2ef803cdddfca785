import OpenAvc.Triggers.Definitions

/-! The fires of the trigger engine, from the change that causes one to the end of its macro. -/

namespace OpenAvc.Triggers

/-- `_MAX_OVERLAP_ALLOW_DEPTH` -/
def maxOverlapAllowDepth : Nat := 25
/-- `_QUEUE_MAX_WAIT_SECONDS` in polls of `_QUEUE_POLL_INTERVAL`. -/
def queueMaxPolls : Nat := 300

/-- The reason a `trigger.skipped` event gives. -/
inductive SkipReason
  | stateReverted | guardNotMet | conditionsNotMet | macroRunning | maxDepth | circular
  deriving DecidableEq

/-- The await a task of the engine is suspended at. `startup` and `spawned` are
tasks that have not begun, or sleep before they do anything; `executing` is
inside the given call of `MacroEngine.execute`. -/
inductive Point
  | startup | debouncing | delaying | spawned
  | queued (polls : Nat)
  | skipped (reason : SkipReason)
  | fired
  | executing (run : RunId)
  | completed
  | ended
  deriving DecidableEq

/-- Before `_fire_macro`, and possibly on the way there. -/
def Point.pending : Point → Bool
  | startup | debouncing | delaying | spawned | queued _ => true
  | _ => false

/-- After the count was raised in `_fire_macro` and before it is lowered. -/
def Point.active : Point → Bool
  | fired | executing _ => true
  | _ => false

def Point.executes : Point → Bool
  | executing _ => true
  | _ => false

/-- One `_TriggerState`, by its number. -/
abbrev StateId := Nat

/-- A task made for a trigger, with the `_TriggerState` it was made for and its
trigger. `background` tells that `_bg_tasks` holds it. `stamp` is the trigger's
cooldown stamp as it was when the change came in; the code does not keep it. -/
structure Fire where
  owner : StateId
  trigger : Trigger
  pc : Point
  background : Bool := false
  cancelRequested : Bool := false
  stamp : Option Nat

structure TriggerState where
  trigger : Trigger
  lastFired : Int := 0
  debounceTask : Option TaskId := none
  delayTask : Option TaskId := none
  pendingQueue : List TaskId := []

/-- Where `stop` is: in the wait for the cron task it has cancelled, or in the
one for the fires it has. -/
inductive Stage
  | stopped | running | awaitingCron | draining
  deriving DecidableEq

/-- The engine beside the macro engine, whose clock is the monotonic one. A task
is its place in `tasks`, which holds nothing about those made by others.
`states` has every `_TriggerState` made so far and `triggers` is `_triggers`.
`persisted` is `system.trigger.<id>.last_fired` of the state store. `firings` has
the calls of `_fire_macro` by id, each with the cooldown it was made under and
its time, the latest first, since the id was first loaded; the code reads it
nowhere. -/
structure TriggerEngine where
  macros : MacroEngine := {}
  stage : Stage := .stopped
  states : List TriggerState := []
  triggers : List (TriggerId × StateId) := []
  tasks : List (Option Fire) := []
  startupTasks : List TaskId := []
  cronTask : Bool := false
  activeTriggerDepth : TriggerId → Nat := fun _ => 0
  lastFiredMonotonic : TriggerId → Option Nat := fun _ => none
  persisted : TriggerId → Option Int := fun _ => none
  wallClock : Int := 0
  firings : TriggerId → List (Nat × Nat) := fun _ => []

namespace TriggerEngine

def fire? (s : TriggerEngine) (t : TaskId) : Option Fire := (s.tasks[t]?).join

/-- The new engine has no fires. -/
theorem fire?_new {t : TaskId} {f : Fire} : ({} : TriggerEngine).fire? t ≠ some f := by
  have none : ([] : List (Option Fire))[t]? = none := List.getElem?_nil
  unfold fire?
  rw [none]
  exact nofun

def setFire (s : TriggerEngine) (t : TaskId) (f : Fire) : TriggerEngine :=
  { s with tasks := s.tasks.set t (some f) }

/-- `create_task`: the new task gets the next number. -/
def addFire (s : TriggerEngine) (f : Fire) : TriggerEngine := { s with tasks := s.tasks ++ [some f] }

def updateState (s : TriggerEngine) (k : StateId) (update : TriggerState → TriggerState) : TriggerEngine :=
  { s with states := s.states.modify k update }

/-- The task ends, and leaves the queue of its trigger (`_on_queued_done`). -/
def settle (s : TriggerEngine) (t : TaskId) (f : Fire) : TriggerEngine :=
  (s.setFire t { f with pc := .ended }).updateState f.owner fun ts =>
    { ts with pendingQueue := ts.pendingQueue.erase t }

/-- `task.cancel()`. A fire inside `MacroEngine.execute` is cancelled there. -/
def cancelFire (s : TriggerEngine) (t : TaskId) : TriggerEngine :=
  match s.fire? t with
  | none => s
  | some f =>
    if f.pc = .ended then s
    else if f.pc.executes then { s with macros := s.macros.cancelTasks [t] }
    else s.setFire t { f with cancelRequested := true }

/-- The cooldown check of `_initiate_fire`. -/
def coolingDown (s : TriggerEngine) (ts : TriggerState) : Bool :=
  decide (0 < ts.trigger.cooldownSeconds) &&
    match s.lastFiredMonotonic ts.trigger.id with
    | some base => decide (s.macros.clock - base < ts.trigger.cooldownSeconds)
    | none =>
      let elapsed := s.wallClock - ts.lastFired
      -- a clock set back counts as the whole cooldown
      decide (0 ≤ elapsed) && decide (elapsed < ts.trigger.cooldownSeconds)

/-- `_schedule_fire` -/
def scheduleFire (s : TriggerEngine) (k : StateId) (trigger : Trigger) (stamp : Option Nat) : TriggerEngine :=
  if 0 < trigger.delaySeconds then
    let earlier := (s.states[k]?).bind TriggerState.delayTask
    let s := earlier.elim s s.cancelFire
    let t := s.tasks.length
    (s.addFire { owner := k, trigger, pc := .delaying, stamp }).updateState k fun ts => { ts with delayTask := some t }
  else s.addFire { owner := k, trigger, pc := .spawned, background := true, stamp }

/-- `_initiate_fire` -/
def initiateFire (s : TriggerEngine) (k : StateId) (ts : TriggerState) : TriggerEngine :=
  if !ts.trigger.enabled then s
  else if s.coolingDown ts then s
  else
    let stamp := s.lastFiredMonotonic ts.trigger.id
    if 0 < ts.trigger.debounceSeconds then
      let s := ts.debounceTask.elim s s.cancelFire
      let t := s.tasks.length
      (s.addFire { owner := k, trigger := ts.trigger, pc := .debouncing, stamp }).updateState k fun ts =>
        { ts with debounceTask := some t }
    else s.scheduleFire k ts.trigger stamp

/-- `_fire_macro` up to its `trigger.fired` emit. -/
def fireMacro (s : TriggerEngine) (t : TaskId) (f : Fire) : TriggerEngine :=
  let id := f.trigger.id
  let s := (s.setFire t { f with pc := .fired }).updateState f.owner fun ts => { ts with lastFired := s.wallClock }
  { s with
    lastFiredMonotonic := Function.update s.lastFiredMonotonic id (some s.macros.clock)
    persisted := Function.update s.persisted id (some s.wallClock)
    activeTriggerDepth := Function.update s.activeTriggerDepth id (s.activeTriggerDepth id + 1)
    firings := Function.update s.firings id ((f.trigger.cooldownSeconds, s.macros.clock) :: s.firings id) }

/-- What `_execute_trigger` does once the guard conditions hold. -/
inductive Decision
  | skip (reason : SkipReason)
  | queue
  | fire
  deriving DecidableEq

/-- The overlap policy and the re-entrancy guard of `_execute_trigger`. -/
def decision (s : TriggerEngine) (trigger : Trigger) : Decision :=
  let depth := s.activeTriggerDepth trigger.id
  match trigger.overlap with
  | .allow => if maxOverlapAllowDepth ≤ depth then .skip .maxDepth else .fire
  | .skip =>
    if s.macros.isMacroRunning trigger.macroId then .skip .macroRunning
    else if 0 < depth then .skip .circular else .fire
  | .queue =>
    if s.macros.isMacroRunning trigger.macroId then .queue
    else if 0 < depth then .skip .circular else .fire

/-- `_execute_trigger` in task `t`; `holds` is what the guard conditions give. -/
def executeTrigger (s : TriggerEngine) (t : TaskId) (f : Fire) (holds : Bool) : TriggerEngine :=
  if !holds then s.setFire t { f with pc := .skipped .conditionsNotMet }
  else
    match s.decision f.trigger with
    | .skip reason => s.setFire t { f with pc := .skipped reason }
    | .queue =>
      let q := s.tasks.length
      ((s.settle t f).addFire { owner := f.owner, trigger := f.trigger, pc := .queued 0, stamp := f.stamp }).updateState
        f.owner fun ts => { ts with pendingQueue := ts.pendingQueue ++ [q] }
    | .fire => s.fireMacro t f

/-- The end of `_fire_macro`: its `finally`, and the `trigger.completed` emit
unless the CancelledError goes through. -/
def finishFire (s : TriggerEngine) (t : TaskId) (f : Fire) (escaped : Bool) : TriggerEngine :=
  let id := f.trigger.id
  let s := { s with activeTriggerDepth := Function.update s.activeTriggerDepth id (s.activeTriggerDepth id - 1) }
  if escaped then s.settle t f else s.setFire t { f with pc := .completed }

/-- `_fire_macro` from its `trigger.fired` emit into `MacroEngine.execute`, which
may refuse with a ValueError. -/
def enterMacro (macros : MacroId → Option Macro) (s : TriggerEngine) (t : TaskId) (f : Fire) (chain : Finset MacroId) :
    TriggerEngine :=
  match s.macros.execute macros t f.trigger.macroId chain [] with
  | some E => { s.setFire t { f with pc := .executing s.macros.nextRun } with macros := E }
  | none => s.finishFire t f false

/-- What a task that is resumed without CancelledError does: `matched` is the
state operator on the key's value of now, `holds` the guard conditions. -/
def proceed (s : TriggerEngine) (t : TaskId) (f : Fire) (matched holds : Bool) : Option TriggerEngine :=
  match f.pc with
  | .startup => some (if s.stage = .running then s.executeTrigger t f holds else s.settle t f)
  | .debouncing =>
    some (if s.stage = .running then (s.settle t f).scheduleFire f.owner f.trigger f.stamp else s.settle t f)
  | .delaying =>
    some (if s.stage ≠ .running then s.settle t f
      else if f.trigger.type = .stateChange && !matched then s.setFire t { f with pc := .skipped .stateReverted }
      else if !holds then s.setFire t { f with pc := .skipped .guardNotMet }
      else s.executeTrigger t f holds)
  | .spawned => some (s.executeTrigger t f holds)
  | .queued polls =>
    some (if s.stage ≠ .running || !f.trigger.enabled then s.settle t f
      else if s.macros.isMacroRunning f.trigger.macroId then
        if polls + 1 < queueMaxPolls then s.setFire t { f with pc := .queued (polls + 1) } else s.settle t f
      else if !holds then s.settle t f
      else s.fireMacro t f)
  | .skipped _ | .completed => some (s.settle t f)
  | .fired | .executing _ | .ended => none

/-- `load_triggers`: what belongs to the ids that are still there stays. -/
def load (s : TriggerEngine) (triggers : List Trigger) : TriggerEngine :=
  let live := loadedTriggers triggers
  { s with
    states := s.states ++ live.map fun u => { trigger := u.2, lastFired := (s.persisted u.1).getD 0 }
    triggers := live.zipIdx.map fun u => (u.1.1, s.states.length + u.2)
    lastFiredMonotonic := fun id => if (live.lookup id).isSome then s.lastFiredMonotonic id else none
    firings := fun id => if (live.lookup id).isSome then s.firings id else [] }

/-- The loaded triggers with their numbers. -/
def liveStates (s : TriggerEngine) : List (StateId × TriggerState) :=
  s.triggers.filterMap fun u => (s.states[u.2]?).map fun ts => (u.2, ts)

/-- `start`, which makes a task for each startup trigger when it is asked to. -/
def start (s : TriggerEngine) (fireStartup : Bool) : TriggerEngine :=
  let enabled := s.liveStates.filter fun u => u.2.trigger.enabled
  let owners := if fireStartup then enabled.filter fun u => u.2.trigger.type = .startup else []
  { s with
    stage := .running
    cronTask := enabled.any fun u => u.2.trigger.type = .schedule
    startupTasks := s.startupTasks ++ List.range' s.tasks.length owners.length
    tasks := s.tasks ++ owners.map fun u => some { owner := u.1, trigger := u.2.trigger, pc := .startup,
                                                   stamp := s.lastFiredMonotonic u.2.trigger.id } }

/-- The tasks that `stop` cancels: not those that are done or in the macro engine. -/
def pendingTasks (s : TriggerEngine) : List TaskId :=
  let held := s.startupTasks ++ s.liveStates.flatMap (fun u =>
    u.2.debounceTask.toList ++ u.2.delayTask.toList ++ u.2.pendingQueue)
  (List.range s.tasks.length).filter fun t =>
    (s.fire? t).any fun f => (f.background || held.contains t) && f.pc ≠ .ended && !f.pc.executes

/-- The end of `stop`. -/
def clearDepth (s : TriggerEngine) : TriggerEngine := { s with stage := .stopped, activeTriggerDepth := fun _ => 0 }

/-- `stop` from the cancelling on: with nothing to wait for it ends here. -/
def cancelPending (s : TriggerEngine) : TriggerEngine :=
  let cancelled := s.pendingTasks
  let s := cancelled.foldl cancelFire s
  let s := s.triggers.foldl (fun s u => s.updateState u.2 fun ts => { ts with pendingQueue := [] }) s
  let s := { s with startupTasks := [], stage := .draining }
  if cancelled = [] then s.clearDepth else s

def stop (s : TriggerEngine) : TriggerEngine :=
  if s.cronTask then { s with cronTask := false, stage := .awaitingCron } else s.cancelPending

/-- `matched` and `holds` as `proceed` reads them. -/
inductive Wake
  | ok (matched holds : Bool)
  | cancelled
  deriving DecidableEq

/-- What can happen next: the project's triggers are loaded, started and
stopped; a listener, a handler or the cron loop asks for a fire, the operator's
test passed; a task is resumed; one goes on from its `trigger.fired` emit, with
the call chain it inherited; a task is made elsewhere; the macro engine takes a
step, and if the call of a fire ends in it, by CancelledError or not; the wall
clock is read anew. -/
inductive Label
  | load (triggers : List Trigger)
  | start (fireStartup : Bool)
  | stop
  | stopGoesOn
  | change (k : StateId)
  | resume (t : TaskId) (wake : Wake)
  | enter (t : TaskId) (chain : Finset MacroId)
  | outside
  | engine (l : MacroEngine.Label) (escaped : Bool)
  | wall (now : Int)

/-- A stopped engine asks for nothing, and only an event handler can belong to
a trigger that is not loaded any more. -/
def asks (s : TriggerEngine) (k : StateId) (ts : TriggerState) : Bool :=
  decide (s.stage = .running) && decide (ts.trigger.type ≠ .startup) &&
    (s.triggers.any (fun u => u.2 = k) || decide (ts.trigger.type = .event))

/-- A fire whose call of `MacroEngine.execute` has ended goes on in the same step. -/
def leaveMacro (s : TriggerEngine) (l : MacroEngine.Label) (escaped : Bool) : TriggerEngine :=
  match l with
  | .resume t _ =>
    match s.fire? t with
    | some f => if f.pc.executes && (s.macros.tasks t).stack.isEmpty then s.finishFire t f escaped else s
    | none => s
  | _ => s

/-- The tasks whose code calls the macro engine are not the fires. -/
def callsFrom (s : TriggerEngine) : MacroEngine.Label → Bool
  | .call t _ _ => decide (t < s.tasks.length) && (s.fire? t).isNone
  | _ => true

def next (macros : MacroId → Option Macro) (s : TriggerEngine) : Label → Option TriggerEngine
  | .load triggers => if s.stage = .stopped then some (s.load triggers) else none
  | .start fireStartup => if s.stage = .stopped then some (s.start fireStartup) else none
  | .stop => if s.stage = .running ∨ s.stage = .stopped then some s.stop else none
  | .stopGoesOn =>
    match s.stage with
    | .awaitingCron => some s.cancelPending
    | .draining => some s.clearDepth
    | _ => none
  | .change k => (s.states[k]?).bind fun ts => if s.asks k ts then some (s.initiateFire k ts) else none
  | .resume t wake => (s.fire? t).bind fun f =>
    match wake with
    | .ok matched holds => if f.cancelRequested then none else s.proceed t f matched holds
    | .cancelled => if f.cancelRequested && f.pc ≠ .ended && !f.pc.executes then some (s.settle t f) else none
  | .enter t chain => (s.fire? t).bind fun f =>
    if f.pc = .fired && !f.cancelRequested then some (enterMacro macros s t f chain) else none
  | .outside => some { s with tasks := s.tasks ++ [none] }
  | .engine l escaped =>
    if s.callsFrom l then
      (s.macros.next macros l).map fun E => ({ s with macros := E } : TriggerEngine).leaveMacro l escaped
    else none
  | .wall now => some { s with wallClock := now }

end TriggerEngine

def triggerMachine (macros : MacroId → Option Macro) : Run.Machine TriggerEngine TriggerEngine.Label where
  init s := s = {}
  next := TriggerEngine.next macros

/-- One macro of one step. -/
def oneStep (m : MacroId) : Option Macro := if m = "m" then some { steps := [.leaf false] } else none

/-- A trigger that is fired on an event. -/
def onEvent (overlap : Overlap) : Trigger := { id := "t", macroId := "m", type := .event, overlap }

end OpenAvc.Triggers
