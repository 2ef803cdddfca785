import Mathlib.Logic.Relation
import Mathlib.Tactic.Common
import OpenAvc.Macro.Engine

namespace OpenAvc

namespace Await

/-- The run is registered in `_running` and has not been released yet. -/
def registered (a : Await) : Bool := !a.unregistered && !a.released

/-- A call that awaits another call of `execute` in its own task. -/
def waits (a : Await) : Prop := a = .nested ∨ a = .plugin

theorem waits.registered {a : Await} (waiting : a.waits) : a.registered = true := by
  rcases waiting with rfl | rfl <;> rfl

end Await

/-- `g` is `f` further on: the same call of `execute`. -/
structure Frame.SameRun (f g : Frame) : Prop where
  id : g.id = f.id
  macroId : g.macroId = f.macroId
  config : g.config = f.config
  chain : g.chain = f.chain
  nestedCall : g.nestedCall = f.nestedCall

namespace Frame

theorem SameRun.pc (f : Frame) (pc : Await) : f.SameRun { f with pc := pc } := ⟨rfl, rfl, rfl, rfl, rfl⟩

/-- A registered call goes on to where it is still registered or released. -/
def Advances (f g : Frame) : Prop := f.SameRun g ∧ g.pc.unregistered = false

theorem advances_pc (f : Frame) {pc : Await} (later : pc.unregistered = false) :
    f.Advances { f with pc := pc } := ⟨.pc f pc, later⟩

theorem advances_stepDone (f : Frame) : f.Advances f.stepDone := by
  unfold stepDone
  split <;> exact ⟨⟨rfl, rfl, rfl, rfl, rfl⟩, rfl⟩

theorem advances_stepFailed (f : Frame) : f.Advances f.stepFailed := ⟨⟨rfl, rfl, rfl, rfl, rfl⟩, rfl⟩

theorem advances_failed_stepDone (f : Frame) :
    f.Advances { f with failures := f.failures + 1 }.stepDone := by
  unfold stepDone
  split <;> exact ⟨⟨rfl, rfl, rfl, rfl, rfl⟩, rfl⟩

theorem advances_stepUnreported (f : Frame) : f.Advances f.stepUnreported :=
  ⟨⟨rfl, rfl, rfl, rfl, rfl⟩, rfl⟩

theorem advances_stepRaised (f : Frame) : f.Advances f.stepRaised := by
  unfold stepRaised
  split <;> exact ⟨⟨rfl, rfl, rfl, rfl, rfl⟩, rfl⟩

theorem advances_firstStep (f : Frame) : f.Advances f.firstStep := by
  unfold firstStep
  split
  · exact f.advances_stepDone
  · exact f.advances_pc rfl

theorem advances_enterBranch (f : Frame) (branch : List Step) : f.Advances (f.enterBranch branch) := by
  unfold enterBranch
  split
  · exact f.advances_stepDone
  · exact ⟨⟨rfl, rfl, rfl, rfl, rfl⟩, rfl⟩

end Frame

namespace MacroEngine

/-- The engine while task `t` runs, with the stack `t` has at the moment. -/
abbrev Config := MacroEngine × List Frame

/-- What `t` can do to the registry and to its stack between two awaits, one
thing at a time. `lose` is the call left at its `started` emit: it takes the
frame away and leaves the registration, and `quiet` rules it out. Under
`fresh`, `t` calls no macro that it is inside already. -/
inductive Move (macros : MacroId → Option Macro) (fresh quiet : Prop) (t : TaskId) : Config → Config → Prop
  | goOn {E : MacroEngine} {f g : Frame} {rest} : f.pc.registered = true → f.SameRun g →
      g.pc.registered = true → Move macros fresh quiet t (E, f :: rest) (E, g :: rest)
  | finish {E : MacroEngine} {f g : Frame} {rest} : f.pc.unregistered = false → f.SameRun g →
      g.pc.released = true → Move macros fresh quiet t (E, f :: rest) (E.release f.macroId t, g :: rest)
  | leave {E : MacroEngine} {f : Frame} {rest} : f.pc.released = true →
      Move macros fresh quiet t (E, f :: rest) (E.release f.macroId t, rest)
  | refused {E : MacroEngine} {f : Frame} {rest} : f.pc.unregistered = true →
      Move macros fresh quiet t (E, f :: rest) (E, rest)
  | lose {E : MacroEngine} {f : Frame} {rest} : f.pc = .started → ¬ quiet →
      Move macros fresh quiet t (E, f :: rest) (E, rest)
  | call {E : MacroEngine} {f : Frame} {stack} : f.id = E.nextRun → f.pc.unregistered = true →
      macros f.macroId = some f.config → (∀ g ∈ stack.head?, g.pc.waits) →
      (fresh → f.macroId ∉ stack.map Frame.macroId) →
      Move macros fresh quiet t (E, stack) ({ E with nextRun := E.nextRun + 1 }, f :: stack)
  | hold {E : MacroEngine} {f g : Frame} {rest} : f.pc.unregistered = true → f.SameRun g →
      g.pc.unregistered = true → Move macros fresh quiet t (E, f :: rest) (E, g :: rest)
  | claim {E : MacroEngine} {f g : Frame} {rest} : f.pc.unregistered = true → f.SameRun g →
      g.pc.registered = true →
      Move macros fresh quiet t (E, f :: rest)
        ((E.register t f).cancelTasks (((E.register t f).preempted macros f.config t).map Prod.snd),
          g :: rest)

variable {macros : MacroId → Option Macro} {fresh quiet : Prop} {t : TaskId} {E : MacroEngine} {f : Frame}
  {rest : List Frame}

/-- A segment of `t`: moves, and then the stack is put down at the next await. -/
def Segment (macros : MacroId → Option Macro) (fresh quiet : Prop) (t : TaskId) (c : Config)
    (E : MacroEngine) : Prop :=
  ∃ c', Relation.ReflTransGen (Move macros fresh quiet t) c c' ∧ E = c'.1.setStack t c'.2

theorem Segment.setStack {stack : List Frame} : Segment macros fresh quiet t (E, stack) (E.setStack t stack) :=
  ⟨_, .refl, rfl⟩

theorem Segment.head {c c' : Config} (move : Move macros fresh quiet t c c') {E : MacroEngine}
    (segment : Segment macros fresh quiet t c' E) : Segment macros fresh quiet t c E := by
  obtain ⟨last, moves, put⟩ := segment
  exact ⟨last, .head move moves, put⟩

theorem Segment.finish {g : Frame} (began : f.pc.unregistered = false) (same : f.SameRun g)
    (ended : g.pc.released = true) : Segment macros fresh quiet t (E, f :: rest) (E.suspend t g rest) := by
  unfold MacroEngine.suspend
  rw [if_pos ended, same.macroId]
  exact .head (.finish began same ended) .setStack

theorem Segment.suspend {g : Frame} (registered : f.pc.registered = true) (advances : f.Advances g) :
    Segment macros fresh quiet t (E, f :: rest) (E.suspend t g rest) := by
  obtain ⟨same, later⟩ := advances
  have began : f.pc.unregistered = false := by
    simp only [Await.registered, Bool.and_eq_true, Bool.not_eq_true'] at registered
    exact registered.1
  by_cases ended : g.pc.released = true
  · exact .finish began same ended
  · unfold MacroEngine.suspend
    rw [if_neg ended]
    exact .head (.goOn registered same (by simp [Await.registered, later, ended])) .setStack

/-- Every frame under the top one awaits the call above it. -/
def Stacked : List Frame → Prop
  | [] => True
  | _ :: rest => ∀ f ∈ rest, f.pc.waits

theorem Stacked.tail (stacked : Stacked (f :: rest)) : Stacked rest := by
  cases rest with
  | nil => trivial
  | cons g rest => exact fun h member => stacked h (List.mem_cons_of_mem g member)

theorem Stacked.head (stacked : Stacked (f :: rest)) : ∀ g ∈ rest.head?, g.pc.waits :=
  fun g member => stacked g (List.mem_of_mem_head? member)

theorem Stacked.begun {g : Frame} (stacked : Stacked (f :: rest)) (member : g ∈ rest) : g.pc ≠ .started := by
  intro at_pc
  rcases stacked g member with nested | plugin
  · rw [nested] at at_pc; cases at_pc
  · rw [plugin] at at_pc; cases at_pc

theorem Segment.throwCancelled {stack : List Frame} (begun : quiet → ∀ f ∈ stack, f.pc ≠ .started) :
    Segment macros fresh quiet t (E, stack) (E.throwCancelled t stack) := by
  induction stack generalizing E with
  | nil => exact .setStack
  | cons f rest ih =>
    have ih {E : MacroEngine} := ih (E := E) fun on g member => begun on g (List.mem_cons_of_mem f member)
    cases at_pc : f.pc with
    | queue waited =>
      simp only [MacroEngine.throwCancelled, at_pc]
      exact .head (.refused (by rw [at_pc]; rfl)) ih
    | skipped =>
      simp only [MacroEngine.throwCancelled, at_pc]
      exact .head (.refused (by rw [at_pc]; rfl)) ih
    | started =>
      simp only [MacroEngine.throwCancelled, at_pc]
      exact .head (.lose at_pc fun on => begun on f (List.mem_cons_self ..) at_pc) ih
    | cancelled =>
      simp only [MacroEngine.throwCancelled, at_pc]
      exact .head (.leave (by rw [at_pc]; rfl)) ih
    | error =>
      simp only [MacroEngine.throwCancelled, at_pc]
      exact .head (.leave (by rw [at_pc]; rfl)) ih
    | completed =>
      simp only [MacroEngine.throwCancelled, at_pc]
      exact .finish (by rw [at_pc]; rfl) (.pc f _) rfl
    | drain | progress | leaf | plugin | nested | branch | stepError =>
      simp only [MacroEngine.throwCancelled, at_pc]
      exact .suspend (by rw [at_pc]; rfl) (f.advances_pc rfl)

theorem Segment.leave {ending : Ending} {stack : List Frame} (waiting : ∀ g ∈ stack.head?, g.pc.waits) :
    Segment macros fresh quiet t (E, stack) (E.leave t ending stack) := by
  cases stack with
  | nil => exact .setStack
  | cons f rest =>
    have registered := (waiting f rfl).registered
    simp only [MacroEngine.leave]
    split
    · exact .suspend registered (f.advances_failed_stepDone)
    · exact .suspend registered f.advances_stepDone
    · exact .suspend registered f.advances_stepFailed
    · refine .suspend registered ⟨⟨rfl, rfl, rfl, rfl, rfl⟩, ?_⟩
      rcases waiting f rfl with nested | plugin
      · rw [nested]; rfl
      · rw [plugin]; rfl

theorem Segment.hold {g : Frame} (unregistered : f.pc.unregistered = true) (same : f.SameRun g)
    (still : g.pc.unregistered = true) : Segment macros fresh quiet t (E, f :: rest) (E.suspend t g rest) := by
  have going : g.pc.released = false := by
    cases at_pc : g.pc <;> simp_all [Await.unregistered, Await.released]
  unfold MacroEngine.suspend
  rw [if_neg (by simp [going])]
  exact .head (.hold unregistered same still) .setStack

theorem Segment.claim (unregistered : f.pc.unregistered = true) :
    Segment macros fresh quiet t (E, f :: rest) (E.claim macros t f rest) := by
  unfold MacroEngine.claim
  split
  · exact .hold unregistered (.pc f _) rfl
  · refine .head (.claim unregistered (.pc f (if (E.register t f).preempted macros f.config t = []
      then .started else .drain ((E.register t f).preempted macros f.config t))) ?_) ?_
    · split <;> rfl
    · simp only [MacroEngine.suspend]
      split <;> exact .setStack

theorem Segment.execute {m : MacroId} {chain : Finset MacroId} {stack : List Frame}
    (waiting : ∀ g ∈ stack.head?, g.pc.waits) (enters : fresh → m ∉ stack.map Frame.macroId)
    {E' : MacroEngine} (run : E.execute macros t m chain stack = some E') : Segment macros fresh quiet t (E, stack) E' := by
  unfold MacroEngine.execute at run
  split at run
  · cases run
  · obtain ⟨config, atConfig, result⟩ := Option.map_eq_some_iff.mp run
    subst result
    let f : Frame := { id := E.nextRun, macroId := m, config := config, chain := insert m chain,
                       nestedCall := decide (chain ≠ ∅), todo := [config.steps], pc := .queue 0 }
    refine .head (.call (f := f) rfl rfl atConfig waiting enters) ?_
    simp only
    split
    · exact .hold rfl ⟨rfl, rfl, rfl, rfl, rfl⟩ rfl
    · exact .claim rfl

/-- The macro that the step at work calls when it is begun. -/
def Frame.calls (f : Frame) (skip : Bool) : Option MacroId :=
  match f.todo with
  | (.callMacro skipIf sub :: _) :: _ => if skipIf && skip then none else some sub
  | _ => none

theorem Segment.beginStep {skip holds : Bool} (registered : f.pc.registered = true)
    (enters : fresh → ∀ sub, Frame.calls f skip = some sub → refuseStart macros sub f.chain = false →
      sub ∉ (f :: rest).map Frame.macroId) :
    Segment macros fresh quiet t (E, f :: rest) (E.beginStep macros t f rest skip holds) := by
  unfold MacroEngine.beginStep
  split
  · rename_i step _ _ at_todo
    split
    · exact .suspend registered f.advances_stepDone
    · rename_i begun
      cases step with
      | leaf => exact .suspend registered (f.advances_pc rfl)
      | plugin => exact .suspend registered (f.advances_pc rfl)
      | callMacro skipIf sub =>
        simp only
        cases run : E.execute macros t sub f.chain ({ f with pc := .nested } :: rest) with
        | none => exact .suspend registered f.advances_stepFailed
        | some E' =>
          refine .head (.goOn registered (.pc f .nested) rfl) (.execute (by simp [Await.waits]) ?_ run)
          intro on
          refine enters on sub (by simp only [Frame.calls, at_todo]; exact if_neg begun) ?_
          by_contra refused
          simp [MacroEngine.execute, refused] at run
      | conditional _ condition =>
        simp only
        split
        · exact .suspend registered f.advances_stepDone
        · split
          · exact .suspend registered f.advances_stepFailed
          · exact .suspend registered (f.advances_pc rfl)
  · exact .suspend registered f.advances_stepDone

/-- Whatever a resumed task does up to its next await is a run of moves. -/
theorem Segment.proceed {wake : Wake} (stacked : Stacked (f :: rest))
    (enters : fresh → ∀ skip holds sub, wake = .ok skip holds → f.pc = .progress →
      Frame.calls f skip = some sub → refuseStart macros sub f.chain = false →
      sub ∉ (f :: rest).map Frame.macroId) {E' : MacroEngine}
    (run : E.proceed macros t f rest wake = some E') : Segment macros fresh quiet t (E, f :: rest) E' := by
  cases wake with
  | cancelled => cases run
  | fail =>
    simp only [MacroEngine.proceed, Option.ite_none_right_eq_some, Option.some.injEq] at run
    obtain ⟨awaiting, result⟩ := run
    subst result
    refine .suspend ?_ f.advances_stepFailed
    rcases Bool.or_eq_true _ _ ▸ awaiting with leaf | plugin
    · rw [of_decide_eq_true leaf]; rfl
    · rw [of_decide_eq_true plugin]; rfl
  | unreported =>
    simp only [MacroEngine.proceed, Option.ite_none_right_eq_some, Option.some.injEq] at run
    obtain ⟨awaiting, result⟩ := run
    subst result
    exact .suspend (by rw [awaiting]; rfl) f.advances_stepUnreported
  | ok skip holds =>
    cases at_pc : f.pc with
    | nested => simp [MacroEngine.proceed, at_pc] at run
    | queue waited =>
      have unregistered : f.pc.unregistered = true := by rw [at_pc]; rfl
      simp only [MacroEngine.proceed, at_pc] at run
      split at run <;> cases run
      · exact .hold unregistered (.pc f _) rfl
      · exact .claim unregistered
    | skipped =>
      simp only [MacroEngine.proceed, at_pc, Option.some.injEq] at run
      subst run
      exact .head (.refused (by rw [at_pc]; rfl)) (.leave stacked.head)
    | drain cancelled =>
      simp only [MacroEngine.proceed, at_pc, Option.some.injEq] at run
      subst run
      exact .suspend (by rw [at_pc]; rfl) (f.advances_pc rfl)
    | started =>
      simp only [MacroEngine.proceed, at_pc, Option.some.injEq] at run
      subst run
      exact .suspend (by rw [at_pc]; rfl) f.advances_firstStep
    | progress =>
      simp only [MacroEngine.proceed, at_pc, Option.some.injEq] at run
      subst run
      exact .beginStep (by rw [at_pc]; rfl) fun on sub => enters on skip holds sub rfl at_pc
    | leaf | plugin =>
      simp only [MacroEngine.proceed, at_pc, Option.some.injEq] at run
      subst run
      exact .suspend (by rw [at_pc]; rfl) f.advances_stepDone
    | branch taken =>
      simp only [MacroEngine.proceed, at_pc, Option.some.injEq] at run
      subst run
      exact .suspend (by rw [at_pc]; rfl) (f.advances_enterBranch _)
    | stepError halt =>
      simp only [MacroEngine.proceed, at_pc, Option.some.injEq] at run
      subst run
      refine .suspend (by rw [at_pc]; rfl) ?_
      split
      · exact f.advances_stepRaised
      · exact f.advances_stepDone
    | completed outcome =>
      simp only [MacroEngine.proceed, at_pc, Option.some.injEq] at run
      subst run
      exact .head (.leave (by rw [at_pc]; rfl)) (.leave stacked.head)
    | error =>
      simp only [MacroEngine.proceed, at_pc, Option.some.injEq] at run
      subst run
      exact .head (.leave (by rw [at_pc]; rfl)) (.leave stacked.head)
    | cancelled =>
      simp only [MacroEngine.proceed, at_pc] at run
      split at run <;> cases run
      · exact .head (.leave (by rw [at_pc]; rfl)) (.throwCancelled fun _ g member => stacked.begun member)
      · exact .head (.leave (by rw [at_pc]; rfl)) (.leave stacked.head)

/-- The step of a running task calls a macro that the task is inside already.
The call chain refuses this in the engine's own calls; a plugin's handler calls
`execute` without a chain. -/
def Reenters (macros : MacroId → Option Macro) (E : MacroEngine) : Label → Prop
  | .pluginCall t m => m ∈ (E.tasks t).stack.map Frame.macroId
  | .resume t (.ok skip _) =>
    match (E.tasks t).stack with
    | f :: rest => f.pc = .progress ∧ ∃ sub ∈ Frame.calls f skip, refuseStart macros sub f.chain = false ∧
        sub ∈ (f :: rest).map Frame.macroId
    | [] => False
  | _ => False

instance (macros : MacroId → Option Macro) (E : MacroEngine) (l : Label) : Decidable (Reenters macros E l) := by
  unfold Reenters
  split
  · infer_instance
  · split <;> infer_instance
  · infer_instance

/-- CancelledError is raised in a call that awaits its `macro.started` emit. -/
def CancelsStarting (E : MacroEngine) : Label → Prop
  | .resume t .cancelled => (E.tasks t).stack.head?.map Frame.pc = some .started
  | _ => False

instance (E : MacroEngine) (l : Label) : Decidable (CancelsStarting E l) := by
  unfold CancelsStarting
  split <;> infer_instance

/-- `E` as the task `t` begins to run in it: its cancellation, if one was
requested, is being delivered. -/
def Resumed (E : MacroEngine) (t : TaskId) (E' : MacroEngine) : Prop :=
  E' = E ∨ E' = E.deliver t

/-- All that one step of the engine can be. -/
inductive Effect (macros : MacroId → Option Macro) (fresh quiet : Prop) (E : MacroEngine) :
    MacroEngine → Prop
  | same : Effect macros fresh quiet E E
  | run {t E₀ E'} : Resumed E t E₀ → Segment macros fresh quiet t (E₀, (E.tasks t).stack) E' →
      Effect macros fresh quiet E E'
  | cancel (targets : List TaskId) : Effect macros fresh quiet E (E.cancelTasks targets)
  | tick (elapsed : Nat) : Effect macros fresh quiet E { E with clock := E.clock + elapsed }

theorem Segment.resume {wake : Wake} (stacked : Stacked (E.tasks t).stack)
    (unrequested : ¬ (E.tasks t).cancelRequested = true) {E' : MacroEngine}
    (run : E.next macros (.resume t wake) = some E') :
    Segment macros (¬ Reenters macros E (.resume t wake)) quiet t (E, (E.tasks t).stack) E' := by
  simp only [MacroEngine.next] at run
  split at run
  · cases run
  · rename_i f rest at_stack
    rw [at_stack] at stacked
    rw [if_neg unrequested] at run
    rw [at_stack]
    refine .proceed stacked ?_ run
    intro fresh skip holds sub isOk at_pc calls accepted member
    subst isOk
    refine fresh ?_
    simp only [Reenters, at_stack]
    exact ⟨at_pc, sub, calls, accepted, member⟩

theorem next_effect {l : Label} {E' : MacroEngine} (stacked : ∀ t, Stacked (E.tasks t).stack)
    (run : E.next macros l = some E') :
    Effect macros (¬ Reenters macros E l) (¬ CancelsStarting E l) E E' := by
  cases l with
  | call t m chain =>
    simp only [MacroEngine.next] at run
    split at run <;> cases run
    rename_i empty
    cases entered : E.execute macros t m chain [] with
    | none => exact .same
    | some E' =>
      refine .run (t := t) (Or.inl rfl) ?_
      rw [empty]
      exact .execute (by simp) (by simp) entered
  | pluginCall t m =>
    simp only [MacroEngine.next] at run
    split at run
    · rename_i f rest at_stack
      split at run <;> cases run
      rename_i awaiting
      cases entered : E.execute macros t m ∅ (f :: rest) with
      | none => exact .same
      | some E' =>
        refine .run (t := t) (Or.inl rfl) ?_
        rw [at_stack]
        have plugin : f.pc = .plugin := by simp at awaiting; exact awaiting.1
        refine .execute (by simp [Await.waits, plugin]) ?_ entered
        intro fresh
        rwa [← at_stack]
    · cases run
  | resume t wake =>
    by_cases requested : (E.tasks t).cancelRequested = true
    · simp only [MacroEngine.next] at run
      split at run
      · cases run
      · rename_i f rest at_stack
        have top := stacked t
        rw [at_stack] at top
        rw [if_pos requested] at run
        split at run <;> cases run
        rename_i thrown
        subst thrown
        refine .run (t := t) (Or.inr rfl) ?_
        rw [at_stack]
        refine .throwCancelled fun quiet g member => ?_
        rcases List.mem_cons.mp member with same | below
        · subst same
          exact fun at_pc => quiet (by simp [CancelsStarting, at_stack, at_pc])
        · exact top.begun below
    · exact .run (t := t) (Or.inl rfl) (.resume (stacked t) requested run)
  | cancel m => cases run; exact .cancel _
  | cancelAll => cases run; exact .cancel _
  | tick elapsed => cases run; exact .tick _

end MacroEngine

end OpenAvc
