import OpenAvc.Data.Json
import OpenAvc.Run.Machine

/-! How a script's plain code is run: a lane for each script, where runs wait their turn, and a
worker thread that has one of them at a time until the limit gives up on it. -/

namespace OpenAvc.Scripts

/-- `MAX_STUCK_RUNS` -/
def maxStuckRuns : Nat := 3

inductive Phase
  | queued
  | executing
  | finished
  deriving DecidableEq

/-- What a worker's queue holds: the run that was submitted to it, until the loop has its result. -/
structure Job where
  run : Nat
  phase : Phase
  deriving DecidableEq

/-- `_Worker`. `stopping` says that there is a `None` behind the job. -/
structure Worker where
  lane : Nat
  job : Option Job := none
  stopping : Bool := false
  alive : Bool := true

/-- A job that the loop has given up: one that no thread has taken yet never runs. -/
def Worker.letGo (worker : Worker) : Worker :=
  { worker with job := worker.job.filter (·.phase = .executing) }

/-- `_Lane`. The lock is held by a run for as long as a worker has it; `waiting` holds the runs
that have not come to the lock yet and those that wait for it, in the order of its queue. -/
structure Lane where
  scriptId : Option Text := none
  waiting : List Nat := []
  holder : Option (Nat × Nat) := none
  worker : Option Nat := none
  closed : Bool := false
  stuck : List Nat := []

/-- How a run ends for whoever asked for it. -/
inductive Outcome
  | returned
  | dropped
  | refused (stuck : Nat)
  | timedOut
  | cancelled
  deriving DecidableEq

/-- What happened, as far as the runs can tell. -/
inductive Mark
  | asked (lane run : Nat)
  | started (lane run : Nat)
  | ended (lane run : Nat) (outcome : Outcome)
  | closed (lane : Nat)
  deriving DecidableEq

/-- The lanes and the threads. `byScript` is `_lanes` and `abandoned` the keys of
`_abandoned_runs`. -/
structure System where
  lanes : Nat → Lane := fun _ => {}
  laneCount : Nat := 0
  byScript : List (Option Text × Nat) := []
  workers : Nat → Worker := fun _ => { lane := 0 }
  workerCount : Nat := 0
  abandoned : List Nat := []
  nextRun : Nat := 0
  log : List Mark := []

namespace System

variable (s : System)

def setLane (l : Nat) (lane : Lane) : System :=
  { s with lanes := Function.update s.lanes l lane }

def setWorker (w : Nat) (worker : Worker) : System :=
  { s with workers := Function.update s.workers w worker }

def note (mark : Mark) : System :=
  { s with log := s.log ++ [mark] }

/-- `_run_plain`: the script's lane, made where there is none, and a task in it. -/
def ask (script : Option Text) : System :=
  match s.byScript.lookup script with
  | some l =>
    ({ s with nextRun := s.nextRun + 1 }.setLane l { s.lanes l with waiting := (s.lanes l).waiting ++ [s.nextRun] }).note
      (.asked l s.nextRun)
  | none =>
    ({ s with
        nextRun := s.nextRun + 1
        laneCount := s.laneCount + 1
        byScript := Dict.set s.byScript script s.laneCount }.setLane s.laneCount { scriptId := script, waiting := [s.nextRun] }).note
      (.asked s.laneCount s.nextRun)

/-- The worker that a run is submitted to: the lane's own, or a new one. -/
def workerFor (l : Nat) : Nat :=
  (s.lanes l).worker.getD s.workerCount

/-- `_run_in_lane`, from the moment that the lock comes to the next run. -/
def turn (l : Nat) : Option System :=
  match (s.lanes l).holder, (s.lanes l).waiting with
  | none, run :: rest =>
    let lane := { s.lanes l with waiting := rest }
    if lane.closed then some ((s.setLane l lane).note (.ended l run .dropped))
    else
      let stuck := lane.stuck.filter fun w => (s.workers w).alive
      if maxStuckRuns ≤ stuck.length then
        some ((s.setLane l { lane with stuck }).note (.ended l run (.refused stuck.length)))
      else
        let w := s.workerFor l
        some ((({ s with workerCount := max s.workerCount (w + 1) }.setLane l
          { lane with stuck, worker := some w, holder := some (run, w) }).setWorker w
            { (if lane.worker.isSome then s.workers w else { lane := l }) with job := some ⟨run, .queued⟩ }).note (.started l run))
  | _, _ => none

/-- The thread takes the job from its queue. -/
def take (w : Nat) : Option System :=
  match (s.workers w).job with
  | some ⟨run, .queued⟩ =>
    if (s.workers w).alive then some (s.setWorker w { s.workers w with job := some ⟨run, .executing⟩ }) else none
  | _ => none

/-- The run's code comes to its end. -/
def finish (w : Nat) : Option System :=
  match (s.workers w).job with
  | some ⟨run, .executing⟩ => some (s.setWorker w { s.workers w with job := some ⟨run, .finished⟩ })
  | _ => none

/-- The thread ends: a `None` came, or it finds itself abandoned after a run. -/
def leave (w : Nat) : Option System :=
  let worker := s.workers w
  let busy := worker.job.any fun job => job.phase ≠ .finished
  if w < s.workerCount ∧ worker.alive ∧ ¬busy ∧ (worker.stopping ∨ w ∈ s.abandoned) then
    some { s.setWorker w { worker with alive := false } with abandoned := s.abandoned.filter (· ≠ w) }
  else none

/-- The lock goes on to the next run. -/
def release (l run w : Nat) (outcome : Outcome) : System :=
  ((s.setLane l { s.lanes l with holder := none }).setWorker w (Worker.letGo (s.workers w))).note (.ended l run outcome)

/-- `_abandon` -/
def abandon (l w : Nat) : System :=
  let lane := s.lanes l
  { (s.setLane l { lane with
      stuck := lane.stuck ++ [w]
      worker := if lane.worker = some w then none else lane.worker }).setWorker w
        { s.workers w with stopping := true } with abandoned := w :: s.abandoned }

/-- The loop has the result of the run whose turn it is. -/
def settle (l : Nat) : Option System :=
  match (s.lanes l).holder with
  | some (run, w) => if (s.workers w).job = some ⟨run, .finished⟩ then some (s.release l run w .returned) else none
  | none => none

/-- The limit passes. -/
def expire (l : Nat) : Option System :=
  (s.lanes l).holder.map fun (run, w) => (s.abandon l w).release l run w .timedOut

/-- The task of a run is cancelled, as at the end of the loop. Cancelling a job that no thread
has taken yet makes it done. -/
def cancel (l run : Nat) : Option System :=
  match (s.lanes l).holder with
  | some (run', w) =>
    if run' = run then
      let executing := (s.workers w).job = some ⟨run, .executing⟩
      some ((if executing then s.abandon l w else s).release l run w .cancelled)
    else if run ∈ (s.lanes l).waiting then
      some ((s.setLane l { s.lanes l with waiting := (s.lanes l).waiting.filter (· ≠ run) }).note (.ended l run .cancelled))
    else none
  | none =>
    if run ∈ (s.lanes l).waiting then
      some ((s.setLane l { s.lanes l with waiting := (s.lanes l).waiting.filter (· ≠ run) }).note (.ended l run .cancelled))
    else none

/-- `close_script` -/
def close (script : Option Text) : System :=
  match s.byScript.lookup script with
  | none => s
  | some l =>
    let lane := s.lanes l
    let closed := { s with byScript := s.byScript.filter (·.1 ≠ script) }.setLane l { lane with closed := true, worker := none }
    let stopped := match lane.worker with
      | some w => closed.setWorker w { s.workers w with stopping := true }
      | none => closed
    stopped.note (.closed l)

end System

inductive Label
  | ask (script : Option Text)
  | turn (lane : Nat)
  | take (worker : Nat)
  | finish (worker : Nat)
  | leave (worker : Nat)
  | settle (lane : Nat)
  | expire (lane : Nat)
  | cancel (lane run : Nat)
  | close (script : Option Text)

def System.next (s : System) : Label → Option System
  | .ask script => some (s.ask script)
  | .turn l => s.turn l
  | .take w => s.take w
  | .finish w => s.finish w
  | .leave w => s.leave w
  | .settle l => s.settle l
  | .expire l => s.expire l
  | .cancel l run => s.cancel l run
  | .close script => some (s.close script)

/-- Any interleaving of what the loop does and what the threads do. -/
def machine : Run.Machine System Label where
  init s := s = {}
  next := System.next

end OpenAvc.Scripts
