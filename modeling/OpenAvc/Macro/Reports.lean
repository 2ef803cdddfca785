import OpenAvc.Macro.Guards
import OpenAvc.Macro.Stems
import OpenAvc.Macro.Turns

namespace OpenAvc

/-- The step at work does not begin: it calls a macro that cannot start from
here, or it is a conditional that lies too deep. -/
def Frame.refusesStep (macros : MacroId → Option Macro) (f : Frame) (skip : Bool) : Bool :=
  match f.todo with
  | (step :: _) :: up => !(step.skipIf && skip) && (match step with
    | .callMacro _ sub => MacroEngine.refuseStart macros sub f.chain
    | .conditional _ condition _ _ => condition && decide (maxConditionalDepth ≤ up.length)
    | _ => false)
  | _ => false

/-- A step of the call fails as its await answers: a leaf step raises, a group
command reaches nobody, or the step is refused. -/
def Frame.failsStep (macros : MacroId → Option Macro) (f : Frame) : Wake → Bool
  | .fail | .unreported => true
  | .ok skip _ => decide (f.pc = .progress) && f.refusesStep macros skip
  | .cancelled => false

/-- What `execute` returns when the last await of the call answers. -/
def Frame.returned (f : Frame) : Option Outcome :=
  match f.pc with
  | .skipped => some .skipped
  | .completed outcome => some outcome
  | .error => if f.nestedCall then none else some .failed
  | .cancelled => if f.nestedCall then none else some .cancelled
  | _ => none

/-- A call whose start the macro's guards have just decided. -/
def Await.entering : Await → Bool
  | skipped | started | drain _ => true
  | _ => false

/-- A called macro ended in failure. -/
def MacroEngine.Ending.bad : MacroEngine.Ending → Prop
  | .returned outcome => outcome = .failed
  | .raised => True

namespace Frame

variable {macros : MacroId → Option Macro} {f g : Frame}

/-- The tally of a call that has not been cancelled agrees with where it is. -/
def Coherent (f : Frame) : Prop :=
  match f.pc with
  | .queue _ | .skipped | .drain _ | .started => f.failures = 0
  | .stepError _ | .error => 0 < f.failures
  | .completed outcome => outcome = if f.failures = 0 then .completed else .failed
  | .cancelled => False
  | _ => True

/-- The call goes on from `f` to `g`, and a step of it fails on the way if `fails`. -/
structure Goes (macros : MacroId → Option Macro) (fails : Prop) (f g : Frame) : Prop where
  same : f.SameRun g
  coherent : g.Coherent
  awake : g.pc ≠ .nested
  tally : 0 < g.failures ↔ 0 < f.failures ∨ fails
  turns : g.turns macros < f.turns macros

theorem coherent_stepDone : f.stepDone.Coherent ∧ f.stepDone.pc ≠ .nested ∧ f.stepDone.failures = f.failures := by
  unfold stepDone
  split
  · exact ⟨rfl, nofun, rfl⟩
  · exact ⟨trivial, nofun, rfl⟩

theorem Goes.stepDone (later : pendingTurns (f.callTurns macros) f.todo + 1 < f.turns macros) :
    f.Goes macros False f.stepDone where
  same := f.advances_stepDone.1
  coherent := coherent_stepDone.1
  awake := coherent_stepDone.2.1
  tally := by rw [coherent_stepDone.2.2, or_false]
  turns := (stepDone_turns macros f).trans_lt later

theorem Goes.stepFailed (later : pendingTurns (f.callTurns macros) f.todo + 2 < f.turns macros) :
    f.Goes macros True f.stepFailed where
  same := f.advances_stepFailed.1
  coherent := Nat.succ_pos f.failures
  awake := nofun
  tally := by simp [Frame.stepFailed]
  turns := later

theorem Goes.stepUnreported (later : pendingTurns (f.callTurns macros) f.todo + 2 < f.turns macros) :
    f.Goes macros True f.stepUnreported where
  same := f.advances_stepUnreported.1
  coherent := Nat.succ_pos f.failures
  awake := nofun
  tally := by simp [Frame.stepUnreported]
  turns := later

theorem Goes.stepRaised (failed : 0 < f.failures)
    (later : pendingTurns (f.callTurns macros) f.todo + 1 < f.turns macros) : f.Goes macros False f.stepRaised where
  same := f.advances_stepRaised.1
  coherent := by
    unfold Frame.stepRaised
    split
    · exact Nat.succ_pos f.failures
    · exact failed
  awake := by
    unfold Frame.stepRaised
    split <;> nofun
  tally := by
    unfold Frame.stepRaised
    split
    · simp [Frame.stepFailed, failed]
    · simp
  turns := stepRaised_turns.trans_lt later

theorem Goes.firstStep (later : allTurns (f.callTurns macros) f.todo + 2 < f.turns macros) :
    f.Goes macros False f.firstStep where
  same := f.advances_firstStep.1
  coherent := by
    unfold Frame.firstStep
    split
    · exact coherent_stepDone.1
    · trivial
  awake := by
    unfold Frame.firstStep
    split
    · exact coherent_stepDone.2.1
    · nofun
  tally := by
    unfold Frame.firstStep
    split
    · rw [coherent_stepDone.2.2, or_false]
    · simp
  turns := firstStep_turns.trans_lt later

theorem Goes.enterBranch (branch : List Step)
    (later : pendingTurns (f.callTurns macros) f.todo + 2 + stepsTurns (f.callTurns macros) branch < f.turns macros) :
    f.Goes macros False (f.enterBranch branch) where
  same := (f.advances_enterBranch branch).1
  coherent := by
    unfold Frame.enterBranch
    split
    · exact coherent_stepDone.1
    · trivial
  awake := by
    unfold Frame.enterBranch
    split
    · exact coherent_stepDone.2.1
    · nofun
  tally := by
    unfold Frame.enterBranch
    split
    · rw [coherent_stepDone.2.2, or_false]
    · simp
  turns := (enterBranch_turns branch).trans_lt later

/-- The call is at a later await, and nothing has been counted. -/
theorem Goes.pc {pc : Await} (coherent : ({ f with pc := pc } : Frame).Coherent) (awake : pc ≠ .nested)
    (later : ({ f with pc := pc } : Frame).turns macros < f.turns macros) : f.Goes macros False { f with pc := pc } :=
  ⟨.pc f pc, coherent, awake, by simp, later⟩

theorem coherent_entering (macros : MacroId → Option Macro) {pc : Await} (entering : pc.entering = true) (fresh : f.failures = 0) :
    ({ f with pc := pc } : Frame).Coherent ∧ pc ≠ .nested ∧
      ({ f with pc := pc } : Frame).turns macros ≤ 4 + allTurns (f.callTurns macros) f.todo := by
  cases pc with
  | skipped => exact ⟨fresh, (by rintro ⟨⟩), by simp only [turns]; omega⟩
  | started => exact ⟨fresh, (by rintro ⟨⟩), by simp only [turns, callTurns]; omega⟩
  | drain => exact ⟨fresh, (by rintro ⟨⟩), le_rfl⟩
  | _ => cases entering

/-- The call goes on when the macro it called has ended. -/
def resumed (f : Frame) : MacroEngine.Ending → Frame
  | .returned .failed => { f with failures := f.failures + 1 }.stepDone
  | .returned _ => f.stepDone
  | .raised => f.stepFailed

/-- A call that waits for another one goes on with the failure of that one counted. -/
theorem resumed_spec (macros : MacroId → Option Macro) (nested : f.pc = .nested) (ending : MacroEngine.Ending) :
    f.SameRun (f.resumed ending) ∧ (f.resumed ending).Coherent ∧ (f.resumed ending).pc ≠ .nested ∧
      (0 < (f.resumed ending).failures ↔ 0 < f.failures ∨ ending.bad) ∧
      (f.resumed ending).turns macros ≤ f.turns macros := by
  have here : f.turns macros = pendingTurns (f.callTurns macros) f.todo + 2 := by simp only [turns, nested]
  have done := f.stepDone_turns macros
  rw [here]
  cases ending with
  | raised => exact ⟨f.advances_stepFailed.1, Nat.succ_pos _, by rintro ⟨⟩, by simp [resumed, stepFailed, MacroEngine.Ending.bad],
      le_rfl⟩
  | returned outcome =>
    cases outcome with
    | failed =>
      refine ⟨f.advances_failed_stepDone.1, coherent_stepDone.1, coherent_stepDone.2.1, ?_, ?_⟩
      · rw [resumed, coherent_stepDone.2.2]
        simp [MacroEngine.Ending.bad]
      · exact (stepDone_turns macros { f with failures := f.failures + 1 }).trans (Nat.le_succ _)
    | completed | cancelled | skipped =>
      refine ⟨f.advances_stepDone.1, coherent_stepDone.1, coherent_stepDone.2.1, ?_, ?_⟩
      · rw [resumed, coherent_stepDone.2.2]
        · simp [MacroEngine.Ending.bad]
        · rintro ⟨⟩
      · rw [resumed]
        · omega
        · rintro ⟨⟩

end Frame

namespace MacroEngine

variable {macros : MacroId → Option Macro} {t : TaskId} {E E' : MacroEngine} {f g h : Frame} {i : RunId} {m : MacroId}
  {inner base rest : List Frame}

/-- The calls of one run of `m`, the innermost first: each waits for the one above it. -/
def Nested (i : RunId) (m : MacroId) : List Frame → Prop
  | [] => False
  | [f] => f.id = i ∧ f.macroId = m ∧ f.nestedCall = false
  | _ :: f :: rest => f.pc = .nested ∧ Nested i m (f :: rest)

theorem Nested.congr (nested : Nested i m (f :: rest)) (same : f.SameRun g) : Nested i m (g :: rest) := by
  cases rest with
  | nil => exact ⟨same.id.trans nested.1, same.macroId.trans nested.2.1, same.nestedCall.trans nested.2.2⟩
  | cons h rest => exact nested

/-- The stack of an uncancelled run between two of its resumptions. -/
structure Level (i : RunId) (m : MacroId) (inner : List Frame) : Prop where
  nested : Nested i m inner
  coherent : ∀ f ∈ inner, f.Coherent
  awake : ∀ f ∈ inner.head?, f.pc ≠ .nested

/-- Some call of the run has counted a failure. -/
def Tallied (inner : List Frame) : Prop := ∃ f ∈ inner, 0 < f.failures

def turns (macros : MacroId → Option Macro) (inner : List Frame) : Nat := (inner.map (Frame.turns macros)).sum

theorem tallied_cons : Tallied (f :: rest) ↔ 0 < f.failures ∨ Tallied rest := by
  simp only [Tallied, List.mem_cons, exists_eq_or_imp]

/-- The run goes on from `inner` to `inner'`, and a step of it fails on the way if `fails`. -/
structure RunGoes (macros : MacroId → Option Macro) (i : RunId) (m : MacroId) (fails : Prop)
    (inner inner' : List Frame) : Prop where
  level : Level i m inner'
  tally : Tallied inner' ↔ Tallied inner ∨ fails
  turns : turns macros inner' < turns macros inner

theorem Level.goes {fails : Prop} (level : Level i m (f :: rest)) (goes : f.Goes macros fails g) :
    RunGoes macros i m fails (f :: rest) (g :: rest) where
  level := ⟨level.nested.congr goes.same, List.forall_mem_cons.mpr
    ⟨goes.coherent, fun h member => level.coherent h (List.mem_cons_of_mem f member)⟩,
    fun h member => by cases member; exact goes.awake⟩
  tally := by rw [tallied_cons, tallied_cons, goes.tally, or_right_comm]
  turns := by
    have less := goes.turns
    simp only [MacroEngine.turns, List.map_cons, List.sum_cons]
    omega

/-- A run after a resumption: it goes on, or it has returned. -/
def Comes (macros : MacroId → Option Macro) (i : RunId) (m : MacroId) (fails : Prop) (inner base after : List Frame) :
    Prop :=
  (∃ inner', after = inner' ++ base ∧ RunGoes macros i m fails inner inner') ∨
    (after = base ∧ ¬ fails ∧ ∃ f outcome, inner = [f] ∧ f.returned = some outcome)

theorem Comes.suspend {fails : Prop} (level : Level i m (f :: rest)) (goes : f.Goes macros fails g) :
    Comes macros i m fails (f :: rest) base ((E.suspend t g (rest ++ base)).tasks t).stack :=
  Or.inl ⟨g :: rest, stack_suspend, level.goes goes⟩

theorem leave_nested {ending : Ending} (nested : h.pc = .nested) :
    ((E.leave t ending (h :: rest)).tasks t).stack = h.resumed ending :: rest := by
  simp only [leave, nested]
  cases ending with
  | raised => exact stack_suspend
  | returned outcome => cases outcome <;> exact stack_suspend

theorem leave_base {ending : Ending} (plugin : ∀ g ∈ base.head?, g.pc = .plugin) :
    ((E.leave t ending base).tasks t).stack = base := by
  cases base with
  | nil => exact stack_setStack_self
  | cons g rest =>
    have at_pc := plugin g rfl
    simp only [leave, at_pc]
    exact stack_suspend

/-- The call on top ends: the run returns, or the call that waited for it goes on. -/
theorem Comes.leave {ending : Ending} (level : Level i m (f :: rest)) (plugin : ∀ g ∈ base.head?, g.pc = .plugin)
    (bad : 0 < f.failures ↔ ending.bad) (returned : f.nestedCall = false → ∃ outcome, f.returned = some outcome) :
    Comes macros i m False (f :: rest) base ((E.leave t ending (rest ++ base)).tasks t).stack := by
  cases rest with
  | nil =>
    obtain ⟨outcome, last⟩ := returned level.nested.2.2
    exact Or.inr ⟨leave_base plugin, not_false, f, outcome, rfl, last⟩
  | cons h rest =>
    have waits := level.nested.1
    obtain ⟨same, coherent, awake, tally, fewer⟩ := Frame.resumed_spec macros waits ending
    refine Or.inl ⟨h.resumed ending :: rest, leave_nested waits, ⟨level.nested.2.congr same,
      List.forall_mem_cons.mpr ⟨coherent, fun g member => level.coherent g (List.mem_cons_of_mem f
        (List.mem_cons_of_mem h member))⟩, fun g member => by cases member; exact awake⟩, ?_, ?_⟩
    · simp only [tallied_cons, tally, ← bad, or_false]
      rw [or_right_comm, or_comm]
    · have more := f.turns_pos macros
      simp only [turns, List.map_cons, List.sum_cons]
      omega

/-- The guards have let the call through, or turned it away. -/
theorem claim_entering (macros : MacroId → Option Macro) (E : MacroEngine) (t : TaskId) (f : Frame) (rest : List Frame) : ∃ pc : Await, pc.entering = true ∧
    ((E.claim macros t f rest).tasks t).stack = { f with pc := pc } :: rest := by
  unfold claim
  split
  · exact ⟨.skipped, rfl, stack_suspend⟩
  · exact ⟨_, by split <;> rfl, stack_suspend⟩

/-- A call as `execute` makes it, at its first await. -/
def calledFrame (id : RunId) (m : MacroId) (config : Macro) (chain : Finset MacroId) (pc : Await) : Frame where
  id := id
  macroId := m
  config := config
  chain := insert m chain
  nestedCall := decide (chain ≠ ∅)
  todo := [config.steps]
  pc := pc

/-- A call that is not refused is on top of the stack it was made on. -/
theorem execute_enters {chain : Finset MacroId} {stack : List Frame}
    (run : E.execute macros t m chain stack = some E') :
    refuseStart macros m chain = false ∧ ∃ config pc, macros m = some config ∧ (pc = .queue 0 ∨ pc.entering = true) ∧
      (E'.tasks t).stack = calledFrame E.nextRun m config chain pc :: stack := by
  unfold execute at run
  split at run
  · cases run
  · rename_i accepted
    obtain ⟨config, atConfig, result⟩ := Option.map_eq_some_iff.mp run
    subst result
    refine ⟨Bool.not_eq_true _ ▸ accepted, config, ?_⟩
    dsimp only
    split
    · exact ⟨.queue 0, atConfig, Or.inl rfl, stack_suspend⟩
    · obtain ⟨pc, entering, stack⟩ := claim_entering macros { E with nextRun := E.nextRun + 1 } t
        (calledFrame E.nextRun m config chain (.queue 0)) stack
      exact ⟨pc, atConfig, Or.inr entering, stack⟩

theorem execute_of_accepted (E : MacroEngine) (t : TaskId) {chain : Finset MacroId} (stack : List Frame) (accepted : refuseStart macros m chain = false) :
    ∃ E', E.execute macros t m chain stack = some E' := by
  have known : (macros m).isNone = false := by
    simp only [refuseStart, Bool.or_eq_false_iff] at accepted
    exact accepted.1.1
  cases atConfig : macros m with
  | none => simp [atConfig] at known
  | some config =>
    unfold execute
    rw [if_neg (by simp [accepted]), atConfig]
    exact ⟨_, rfl⟩

theorem entered_turns {chain : Finset MacroId} {config : Macro} {pc : Await} (atConfig : macros m = some config)
    (accepted : refuseStart macros m chain = false) (early : pc = .queue 0 ∨ pc.entering = true) (id : RunId) :
    (calledFrame id m config chain pc).Coherent ∧ pc ≠ .nested ∧
      (calledFrame id m config chain pc).turns macros ≤ callTurns macros (maxDepth - chain.card) m := by
  have cost : (calledFrame id m config chain (.queue 0)).turns macros ≤ callTurns macros (maxDepth - chain.card) m :=
    Frame.fresh_turns atConfig accepted id (decide (chain ≠ ∅))
  rcases early with rfl | entering
  · exact ⟨rfl, nofun, cost⟩
  · obtain ⟨coherent, awake, fewer⟩ := @Frame.coherent_entering
      (calledFrame id m config chain (.queue 0)) macros pc entering rfl
    refine ⟨coherent, awake, fewer.trans (le_trans ?_ cost)⟩
    simp only [Frame.turns, calledFrame]
    omega

/-- The step at work begins. -/
theorem Comes.beginStep {skip holds : Bool} (level : Level i m (f :: rest)) (at_pc : f.pc = .progress) :
    Comes macros i m (f.refusesStep macros skip = true) (f :: rest) base
      ((E.beginStep macros t f (rest ++ base) skip holds).tasks t).stack := by
  have here : f.turns macros = pendingTurns (f.callTurns macros) f.todo + 1 + headTurns (f.callTurns macros) f.todo := by
    simp only [Frame.turns, at_pc]
  have costs {fails : Prop} (refuses : f.refusesStep macros skip = true ↔ fails) {g : Frame}
      (goes : f.Goes macros fails g) : Comes macros i m (f.refusesStep macros skip = true) (f :: rest) base
        ((E.suspend t g (rest ++ base)).tasks t).stack := by
    rw [propext refuses]
    exact .suspend level goes
  unfold MacroEngine.beginStep
  split
  · rename_i step tail up todo
    have three := @Step.turns_pos (f.callTurns macros) step
    simp only [todo, headTurns] at here
    split
    · rename_i skips
      refine costs ?_ (.stepDone (by rw [here, todo]; omega))
      simp [Frame.refusesStep, todo, Bool.and_eq_true _ _ ▸ skips]
    · rename_i begins
      have begun : (!(step.skipIf && skip)) = true := by
        cases skips : step.skipIf && skip with
        | false => rfl
        | true => exact absurd skips begins
      cases step with
      | leaf =>
        refine costs (by simp [Frame.refusesStep, todo]) (.pc trivial (by rintro ⟨⟩) ?_)
        rw [here]
        simp only [Frame.turns, Frame.callTurns, todo, Step.turns]
        omega
      | plugin =>
        refine costs (by simp [Frame.refusesStep, todo]) (.pc trivial (by rintro ⟨⟩) ?_)
        rw [here]
        simp only [Frame.turns, Frame.callTurns, todo, Step.turns]
        omega
      | callMacro skipIf sub =>
        dsimp only
        simp only [Step.turns] at here
        cases run : E.execute macros t sub f.chain ({ f with pc := .nested } :: (rest ++ base)) with
        | none =>
          refine costs ?_ (.stepFailed (by rw [here, todo]; omega))
          simp only [Frame.refusesStep, todo, begun, Bool.true_and, iff_true]
          by_contra accepted
          obtain ⟨_, runs⟩ := execute_of_accepted E t ({ f with pc := .nested } :: (rest ++ base))
            (Bool.not_eq_true _ ▸ accepted)
          rw [run] at runs
          cases runs
        | some E' =>
          obtain ⟨accepted, config, pc, atConfig, early, stack⟩ := execute_enters run
          obtain ⟨coherent, awake, fewer⟩ := entered_turns atConfig accepted early E.nextRun
          rw [Option.getD_some, stack]
          refine Or.inl ⟨_ :: { f with pc := .nested } :: rest, rfl, ⟨⟨rfl, level.nested.congr (.pc f _)⟩,
            List.forall_mem_cons.mpr ⟨coherent, List.forall_mem_cons.mpr ⟨trivial,
              fun g member => level.coherent g (List.mem_cons_of_mem f member)⟩⟩,
            fun g member => by cases member; exact awake⟩, ?_, ?_⟩
          · simp only [tallied_cons, Frame.refusesStep, todo, begun, accepted, calledFrame, Nat.lt_irrefl]
            simp
          · have nested : ({ f with pc := .nested } : Frame).turns macros = pendingTurns (f.callTurns macros) f.todo + 2 := rfl
            simp only [turns, List.map_cons, List.sum_cons, nested]
            rw [here, todo]
            simp only [Frame.callTurns] at fewer ⊢
            omega
      | conditional skipIf condition thenSteps elseSteps =>
        dsimp only
        simp only [Step.turns] at here
        cases condition with
        | false =>
          refine costs (by simp [Frame.refusesStep, todo]) (.stepDone (by rw [here, todo]; omega))
        | true =>
          simp only [Bool.not_true, Bool.false_eq_true, if_false]
          have depth : f.todo.length - 1 = up.length := by simp [todo]
          rw [depth]
          split
          · rename_i deep
            refine costs ?_ (.stepFailed (by rw [here, todo]; omega))
            simp only [Frame.refusesStep, todo, begun, Bool.true_and, decide_eq_true_eq, deep]
          · rename_i shallow
            refine costs ?_ (.pc trivial (by rintro ⟨⟩) ?_)
            · simp only [Frame.refusesStep, todo, begun, Bool.true_and, decide_eq_true_eq, shallow]
            · rw [here]
              simp only [Frame.turns, Frame.callTurns, branchOf, todo, if_true, Bool.false_eq_true, if_false]
              omega
  · rename_i todo
    have one : headTurns (f.callTurns macros) f.todo = 1 := by
      unfold headTurns
      split
      · rename_i step tail up same
        exact absurd same (todo step tail up)
      · rfl
    refine costs ?_ (.stepDone (by rw [here]; omega))
    unfold Frame.refusesStep
    split
    · rename_i step tail up same
      exact absurd same (todo step tail up)
    · simp

theorem Comes.congr {fails fails' : Prop} {after : List Frame} (same : fails ↔ fails')
    (comes : Comes macros i m fails' inner base after) : Comes macros i m fails inner base after :=
  propext same ▸ comes

/-- What the innermost call of a run makes of it when its await answers. -/
theorem Comes.proceed {wake : Wake} (level : Level i m (f :: rest)) (plugin : ∀ g ∈ base.head?, g.pc = .plugin)
    (run : E.proceed macros t f (rest ++ base) wake = some E') :
    Comes macros i m (f.failsStep macros wake = true) (f :: rest) base (E'.tasks t).stack := by
  have coherent := level.coherent f (List.mem_cons_self ..)
  cases wake with
  | cancelled => cases run
  | fail =>
    simp only [MacroEngine.proceed, Option.ite_none_right_eq_some, Option.some.injEq] at run
    obtain ⟨awaiting, result⟩ := run
    subst result
    refine .congr (iff_of_true rfl trivial) (.suspend level (.stepFailed ?_))
    rcases Bool.or_eq_true _ _ ▸ awaiting with leaf | plugin
    · simp only [Frame.turns, of_decide_eq_true leaf]
      omega
    · simp only [Frame.turns, of_decide_eq_true plugin]
      omega
  | unreported =>
    simp only [MacroEngine.proceed, Option.ite_none_right_eq_some, Option.some.injEq] at run
    obtain ⟨awaiting, result⟩ := run
    subst result
    refine .congr (iff_of_true rfl trivial) (.suspend level (.stepUnreported ?_))
    simp only [Frame.turns, awaiting]
    omega
  | ok skip holds =>
    have silent (other : f.pc ≠ .progress) : f.failsStep macros (.ok skip holds) = true ↔ False := by
      simp [Frame.failsStep, other]
    cases at_pc : f.pc with
    | nested => simp [MacroEngine.proceed, at_pc] at run
    | queue waited =>
      simp only [Frame.Coherent, at_pc] at coherent
      refine .congr (silent (by simp [at_pc])) ?_
      simp only [MacroEngine.proceed, at_pc] at run
      split at run
      · rename_i again
        cases run
        have below : waited + 1 < queueMaxWait := of_decide_eq_true (Bool.and_eq_true _ _ ▸ again).2
        refine .suspend level (.pc coherent (by rintro ⟨⟩) ?_)
        simp only [Frame.turns, Frame.callTurns, at_pc]
        omega
      · cases run
        obtain ⟨pc, entering, stack⟩ := claim_entering macros E t f (rest ++ base)
        obtain ⟨early, awake, fewer⟩ := Frame.coherent_entering macros entering coherent
        rw [stack]
        refine Or.inl ⟨{ f with pc := pc } :: rest, rfl, level.goes (.pc early awake (fewer.trans_lt ?_))⟩
        simp only [Frame.turns, at_pc]
        omega
    | skipped =>
      simp only [Frame.Coherent, at_pc] at coherent
      refine .congr (silent (by simp [at_pc])) ?_
      simp only [MacroEngine.proceed, at_pc, Option.some.injEq] at run
      subst run
      refine .leave level plugin ?_ fun _ => ⟨.skipped, by simp only [Frame.returned, at_pc]⟩
      simp [coherent, Ending.bad]
    | drain cancelled =>
      simp only [Frame.Coherent, at_pc] at coherent
      refine .congr (silent (by simp [at_pc])) ?_
      simp only [MacroEngine.proceed, at_pc, Option.some.injEq] at run
      subst run
      refine .suspend level (.pc coherent (by rintro ⟨⟩) ?_)
      simp only [Frame.turns, Frame.callTurns, at_pc]
      omega
    | started =>
      refine .congr (silent (by simp [at_pc])) ?_
      simp only [MacroEngine.proceed, at_pc, Option.some.injEq] at run
      subst run
      refine .suspend level (.firstStep ?_)
      simp only [Frame.turns, at_pc]
      omega
    | progress =>
      simp only [MacroEngine.proceed, at_pc, Option.some.injEq] at run
      subst run
      exact .congr (by simp [Frame.failsStep, at_pc]) (.beginStep level at_pc)
    | leaf | plugin =>
      refine .congr (silent (by simp [at_pc])) ?_
      simp only [MacroEngine.proceed, at_pc, Option.some.injEq] at run
      subst run
      refine .suspend level (.stepDone ?_)
      simp only [Frame.turns, at_pc]
      omega
    | branch taken =>
      refine .congr (silent (by simp [at_pc])) ?_
      simp only [MacroEngine.proceed, at_pc, Option.some.injEq] at run
      subst run
      refine .suspend level (.enterBranch _ ?_)
      simp only [Frame.turns, at_pc]
      cases taken <;> omega
    | stepError halt =>
      simp only [Frame.Coherent, at_pc] at coherent
      refine .congr (silent (by simp [at_pc])) ?_
      simp only [MacroEngine.proceed, at_pc, Option.some.injEq] at run
      subst run
      refine .suspend level ?_
      split
      · refine .stepRaised coherent ?_
        simp only [Frame.turns, at_pc]
        omega
      · refine .stepDone ?_
        simp only [Frame.turns, at_pc]
        omega
    | completed outcome =>
      simp only [Frame.Coherent, at_pc] at coherent
      refine .congr (silent (by simp [at_pc])) ?_
      simp only [MacroEngine.proceed, at_pc, Option.some.injEq] at run
      subst run
      refine .leave level plugin ?_ fun _ => ⟨outcome, by simp only [Frame.returned, at_pc]⟩
      simp only [Ending.bad, coherent, Nat.pos_iff_ne_zero]
      split <;> simp_all
    | error =>
      simp only [Frame.Coherent, at_pc] at coherent
      refine .congr (silent (by simp [at_pc])) ?_
      simp only [MacroEngine.proceed, at_pc, Option.some.injEq] at run
      subst run
      refine .leave level plugin ?_ fun top => ⟨.failed, by simp [Frame.returned, at_pc, top]⟩
      split <;> simp [coherent, Ending.bad]
    | cancelled => simp only [Frame.Coherent, at_pc] at coherent

/-- Whatever answers, a task whose call is not being cancelled can go on. -/
theorem proceed_isSome (level : Level i m (f :: rest)) (skip holds : Bool) (below : List Frame) :
    (E.proceed macros t f below (.ok skip holds)).isSome = true := by
  have awake := level.awake f rfl
  cases at_pc : f.pc with
  | nested => exact absurd at_pc awake
  | queue | cancelled =>
    simp only [MacroEngine.proceed, at_pc]
    split <;> rfl
  | _ => simp only [MacroEngine.proceed, at_pc, Option.isSome_some]

variable {fresh quiet : Prop} {u : TaskId} {stack : List Frame}

/-- The calls on the stack of `t` are among the starts if they have been let
through, and only then. -/
structure Started (E : MacroEngine) (t : TaskId) (stack : List Frame) : Prop where
  before : ∀ i n, (i, n, t) ∈ E.starts → i < E.nextRun
  numbered : ∀ f ∈ stack, f.id < E.nextRun
  decided : ∀ f ∈ stack, f.pc.unregistered = false ↔ (f.id, f.macroId, t) ∈ E.starts
  stacked : Stacked stack

theorem Started.pop (started : Started E t (f :: rest)) : Started E t rest where
  before := started.before
  numbered g member := started.numbered g (List.mem_cons_of_mem f member)
  decided g member := started.decided g (List.mem_cons_of_mem f member)
  stacked := started.stacked.tail

theorem Started.goOn (started : Started E t (f :: rest)) (same : f.SameRun g)
    (kept : g.pc.unregistered = f.pc.unregistered) : Started E t (g :: rest) where
  before := started.before
  numbered := List.forall_mem_cons.mpr ⟨same.id ▸ started.numbered f (List.mem_cons_self ..), started.pop.numbered⟩
  decided := List.forall_mem_cons.mpr
    ⟨by rw [kept, same.id, same.macroId]; exact started.decided f (List.mem_cons_self ..), started.pop.decided⟩
  stacked := started.stacked

theorem Started.congr (started : Started E t stack) (starts : E'.starts = E.starts) (nextRun : E.nextRun ≤ E'.nextRun) :
    Started E' t stack where
  before i n member := (started.before i n (starts ▸ member)).trans_le nextRun
  numbered f member := (started.numbered f member).trans_le nextRun
  decided f member := by rw [starts]; exact started.decided f member
  stacked := started.stacked

/-- A call is among the starts from its registration on. -/
theorem Started.claim (started : Started E t (f :: rest)) (same : f.SameRun g) (registered : g.pc.registered = true)
    (starts : E'.starts = (f.id, f.macroId, t) :: E.starts) (nextRun : E'.nextRun = E.nextRun) :
    Started E' t (g :: rest) := by
  refine ⟨fun i n member => ?_, fun h member => ?_, List.forall_mem_cons.mpr ⟨?_, fun h member => ?_⟩, started.stacked⟩
  · rw [starts] at member
    rw [nextRun]
    rcases List.mem_cons.mp member with itself | before
    · cases itself
      exact started.numbered f (List.mem_cons_self ..)
    · exact started.before i n before
  · rw [nextRun]
    rcases List.mem_cons.mp member with rfl | below
    · rw [same.id]
      exact started.numbered f (List.mem_cons_self ..)
    · exact started.pop.numbered h below
  · rw [starts, same.id, same.macroId]
    exact iff_of_true (Await.registered_begun registered) (List.mem_cons_self ..)
  · have begun : h.pc.unregistered = false := Await.registered_begun (started.stacked h member).registered
    rw [starts]
    exact iff_of_true begun (List.mem_cons_of_mem _ ((started.pop.decided h member).mp begun))

theorem Started.claim_other (started : Started E u stack) (apart : u ≠ t)
    (starts : E'.starts = (f.id, f.macroId, t) :: E.starts) (nextRun : E'.nextRun = E.nextRun) : Started E' u stack := by
  have same (i : RunId) (n : MacroId) : (i, n, u) ∈ E'.starts ↔ (i, n, u) ∈ E.starts := by
    rw [starts, List.mem_cons]
    exact or_iff_right fun itself => apart (congrArg (fun s => s.2.2) itself)
  refine ⟨fun i n member => ?_, fun g member => ?_, fun g member => ?_, started.stacked⟩
  · rw [nextRun]
    exact started.before i n ((same i n).mp member)
  · rw [nextRun]
    exact started.numbered g member
  · rw [same]
    exact started.decided g member

theorem Move.started {c c' : Config} (move : Move macros fresh quiet t c c') (started : Started c.1 t c.2) :
    Started c'.1 t c'.2 := by
  cases move with
  | goOn began same registered =>
    exact started.goOn same (by rw [Await.registered_begun began, Await.registered_begun registered])
  | finish began same released =>
    exact (started.goOn same (by rw [began, Await.released_begun released])).congr rfl le_rfl
  | leave => exact started.pop.congr rfl le_rfl
  | refused | lose => exact started.pop
  | @call E f stack numbered unregistered _ waiting _ =>
    have later : Started { E with nextRun := E.nextRun + 1 } t stack := started.congr rfl (Nat.le_succ _)
    have stacked : Stacked (f :: stack) :=
      (Move.call numbered unregistered ‹_› waiting False.elim : Move macros False quiet t (E, stack) _).stacked
        started.stacked
    refine ⟨later.before, List.forall_mem_cons.mpr ⟨?_, later.numbered⟩,
      List.forall_mem_cons.mpr ⟨iff_of_false (by simp [unregistered]) fun member => ?_, later.decided⟩, stacked⟩
    · rw [numbered]
      exact Nat.lt_succ_self _
    · rw [numbered] at member
      exact Nat.lt_irrefl _ (started.before _ _ member)
  | hold off same still => exact started.goOn same (by rw [off, still])
  | claim _ same registered => exact started.claim same registered rfl rfl

theorem started_kept : Kept macros fresh quiet Started where
  own := Move.started
  other apart move _ started := by
    cases move with
    | goOn | refused | lose | hold => exact started
    | finish | leave => exact started.congr rfl le_rfl
    | call => exact started.congr rfl (Nat.le_succ _)
    | claim => exact started.claim_other apart rfl rfl
  cancelled _ started := started.congr rfl le_rfl
  books same started := started.congr same.starts same.nextRun.ge

theorem started {ok : MacroEngine → Label → Prop} (reach : Run.Reach (macroMachine macros) ok E) (t : TaskId) :
    Started E t (E.tasks t).stack := by
  induction reach generalizing t with
  | init start => cases start; exact ⟨nofun, nofun, nofun, trivial⟩
  | step before _ run ih => exact (next_effect (stacked before) run).keeps started_kept ih t

/-- `t` is not being cancelled, and its plugin steps answer without calling `execute`. -/
def Undisturbed (t : TaskId) : Label → Prop
  | .resume u wake => u = t → wake ≠ .cancelled
  | .pluginCall u _ => u ≠ t
  | _ => True

/-- `t` is still in the calls it has made on top of `depth` others. -/
def Running (depth : Nat) (E : MacroEngine) (t : TaskId) : Prop := depth < (E.tasks t).stack.length

/-- The course of a run of `t` from `E₁`, the latest step first, whatever the other tasks do meanwhile. -/
inductive Course (macros : MacroId → Option Macro) (t : TaskId) (depth : Nat) (E₁ : MacroEngine) :
    List (MacroEngine × Label) → MacroEngine → Prop
  | start : Course macros t depth E₁ [] E₁
  | step {trace E l E'} : Course macros t depth E₁ trace E → Running depth E t → Undisturbed t l →
      E.next macros l = some E' → Course macros t depth E₁ ((E, l) :: trace) E'

/-- A step that `t` has begun fails. -/
def FailsStep (macros : MacroId → Option Macro) (t : TaskId) (s : MacroEngine × Label) : Prop :=
  ∃ wake, s.2 = .resume t wake ∧ ∃ f ∈ (s.1.tasks t).stack.head?, f.failsStep macros wake = true

def resumes (t : TaskId) (s : MacroEngine × Label) : Bool :=
  match s.2 with
  | .resume u _ => u = t
  | _ => false

/-- What is known of a run all along its course. -/
structure OnCourse (macros : MacroId → Option Macro) (i : RunId) (m : MacroId) (t : TaskId) (base : List Frame)
    (trace : List (MacroEngine × Label)) (E : MacroEngine) : Prop where
  reach : Run.Reach (macroMachine macros) Run.always E
  bounded : trace.countP (resumes t) ≤ callTurns macros maxDepth m
  going : Running base.length E t → ∃ inner, (E.tasks t).stack = inner ++ base ∧ Level i m inner ∧
    (Tallied inner ↔ ∃ s ∈ trace, FailsStep macros t s) ∧
    trace.countP (resumes t) + turns macros inner ≤ callTurns macros maxDepth m

/-- The step that resumes the run. -/
theorem Comes.next {wake : Wake} {inner : List Frame} (level : Level i m inner) (plugin : ∀ g ∈ base.head?, g.pc = .plugin)
    (at_stack : (E.tasks t).stack = inner ++ base) (spared : wake ≠ .cancelled)
    (run : E.next macros (.resume t wake) = some E') :
    Comes macros i m (FailsStep macros t (E, .resume t wake)) inner base (E'.tasks t).stack := by
  cases inner with
  | nil => exact absurd level.nested id
  | cons f rest =>
    simp only [MacroEngine.next, at_stack, List.cons_append] at run
    split at run
    · cases run
    · refine .congr ?_ (Comes.proceed level plugin run)
      simp only [FailsStep, at_stack, List.cons_append, List.head?_cons, Option.mem_def, Option.some.injEq,
        exists_eq_left', Label.resume.injEq, true_and]

theorem Nested.ne_nil {inner : List Frame} (nested : Nested i m inner) : inner ≠ [] := by
  rintro rfl
  exact nested

theorem RunGoes.running {fails : Prop} {inner inner' : List Frame} (goes : RunGoes macros i m fails inner inner')
    (after : (E.tasks t).stack = inner' ++ base) : Running base.length E t := by
  have some_ := List.length_pos_of_ne_nil goes.level.nested.ne_nil
  rw [Running, after, List.length_append]
  omega

/-- What does not resume `t` leaves its calls as they are. -/
theorem unmoved {l : Label} {depth : Nat} (reach : Run.Reach (macroMachine macros) Run.always E)
    (running : Running depth E t) (calm : Undisturbed t l) (other : ¬ ∃ wake, l = .resume t wake)
    (run : E.next macros l = some E') : (E'.tasks t).stack = (E.tasks t).stack := by
  refine (next_stems (stacked reach) run).2.2.1 t fun task => ?_
  cases l with
  | resume u wake => cases task; exact other ⟨wake, rfl⟩
  | pluginCall u n => cases task; exact calm rfl
  | call u n chain =>
    cases task
    simp only [MacroEngine.next] at run
    split at run
    · rename_i empty
      rw [Running, empty] at running
      exact Nat.not_lt_zero _ running
    · cases run
  | cancel | cancelAll | tick => cases task

theorem OnCourse.step {l : Label} {trace : List (MacroEngine × Label)} (on : OnCourse macros i m t base trace E)
    (plugin : ∀ g ∈ base.head?, g.pc = .plugin) (running : Running base.length E t) (calm : Undisturbed t l)
    (run : E.next macros l = some E') : OnCourse macros i m t base ((E, l) :: trace) E' := by
  obtain ⟨inner, at_stack, level, tally, bounded⟩ := on.going running
  have positive : 1 ≤ turns macros inner := by
    cases inner with
    | nil => exact absurd level.nested id
    | cons f rest =>
      have := f.turns_pos macros
      simp only [turns, List.map_cons, List.sum_cons]
      omega
  have reach := on.reach.step (l := l) trivial run
  by_cases resumed : ∃ wake, l = .resume t wake
  · obtain ⟨wake, rfl⟩ := resumed
    have counted : ((E, Label.resume t wake) :: trace).countP (resumes t) = trace.countP (resumes t) + 1 := by
      rw [List.countP_cons]
      simp [resumes]
    refine ⟨reach, by rw [counted]; omega, fun still => ?_⟩
    rcases Comes.next level plugin at_stack (calm rfl) run with ⟨inner', after, goes⟩ | ⟨returned, _⟩
    · refine ⟨inner', after, goes.level, ?_, ?_⟩
      · rw [goes.tally, tally, List.exists_mem_cons_iff, or_comm]
      · have fewer := goes.turns
        rw [counted]
        omega
    · rw [Running, returned] at still
      exact absurd still (Nat.lt_irrefl _)
  · have quiet : ¬ FailsStep macros t (E, l) := fun ⟨wake, same, _⟩ => resumed ⟨wake, same⟩
    have uncounted : ((E, l) :: trace).countP (resumes t) = trace.countP (resumes t) := by
      have other : resumes t (E, l) = false := by
        cases l with
        | resume u wake =>
          have apart : u ≠ t := fun same => resumed ⟨wake, by rw [same]⟩
          simp [resumes, apart]
        | _ => rfl
      rw [List.countP_cons, other]
      simp
    refine ⟨reach, uncounted ▸ on.bounded, fun _ => ⟨inner, ?_, level, ?_, uncounted ▸ bounded⟩⟩
    · rw [unmoved on.reach running calm resumed run, at_stack]
    · rw [List.exists_mem_cons_iff, tally]
      exact (or_iff_right quiet).symm

/-- What a run numbered `i` reports at its end. It has been skipped if its own
guards turned it away; else it has failed if a step of it failed, in whatever
branch or called macro, and is completed if none did. -/
structure HonestOutcome (macros : MacroId → Option Macro) (i : RunId) (m : MacroId) (t : TaskId)
    (trace : List (MacroEngine × Label)) (E : MacroEngine) (outcome : Outcome) : Prop where
  skipped : outcome = .skipped ↔ (i, m, t) ∉ E.starts
  failed : outcome = .failed ↔ ∃ s ∈ trace, FailsStep macros t s
  completed : outcome = .completed ↔ (i, m, t) ∈ E.starts ∧ ¬ ∃ s ∈ trace, FailsStep macros t s

/-- The call on top of the stack of `t` returns `outcome` when its await answers. -/
def Returns (E : MacroEngine) (t : TaskId) (outcome : Outcome) : Prop :=
  ∃ f ∈ (E.tasks t).stack.head?, f.returned = some outcome

theorem Level.honest {trace : List (MacroEngine × Label)} {outcome : Outcome} (level : Level i m [f])
    (tally : Tallied [f] ↔ ∃ s ∈ trace, FailsStep macros t s) (started : Started E t (f :: base))
    (returned : f.returned = some outcome) : HonestOutcome macros i m t trace E outcome := by
  obtain ⟨id, name, top⟩ := level.nested
  have coherent := level.coherent f (List.mem_singleton_self f)
  have decided := started.decided f (List.mem_cons_self ..)
  have counts : Tallied [f] ↔ 0 < f.failures := by simp [Tallied]
  rw [id, name] at decided
  rw [counts] at tally
  cases at_pc : f.pc with
  | skipped =>
    simp only [Frame.returned, at_pc, Option.some.injEq] at returned
    simp only [Frame.Coherent, at_pc] at coherent
    have off : (i, m, t) ∉ E.starts := fun member => by simpa [at_pc, Await.unregistered] using decided.mpr member
    subst returned
    exact ⟨iff_of_true rfl off, iff_of_false (by rintro ⟨⟩) fun fails => absurd (tally.mpr fails) (by omega),
      iff_of_false (by rintro ⟨⟩) fun both => off both.1⟩
  | completed ends =>
    simp only [Frame.returned, at_pc, Option.some.injEq] at returned
    simp only [Frame.Coherent, at_pc] at coherent
    have on : (i, m, t) ∈ E.starts := decided.mp (by rw [at_pc]; rfl)
    subst returned
    by_cases clean : f.failures = 0
    · rw [if_pos clean] at coherent
      subst coherent
      have none : ¬ ∃ s ∈ trace, FailsStep macros t s := fun fails => absurd (tally.mpr fails) (by omega)
      exact ⟨iff_of_false (by rintro ⟨⟩) (not_not.mpr on), iff_of_false (by rintro ⟨⟩) none, iff_of_true rfl ⟨on, none⟩⟩
    · rw [if_neg clean] at coherent
      subst coherent
      have fails := tally.mp (Nat.pos_of_ne_zero clean)
      exact ⟨iff_of_false (by rintro ⟨⟩) (not_not.mpr on), iff_of_true rfl fails, iff_of_false (by rintro ⟨⟩) fun both => both.2 fails⟩
  | error =>
    simp only [Frame.returned, at_pc, top, Bool.false_eq_true, if_false, Option.some.injEq] at returned
    simp only [Frame.Coherent, at_pc] at coherent
    have on : (i, m, t) ∈ E.starts := decided.mp (by rw [at_pc]; rfl)
    have fails := tally.mp coherent
    subst returned
    exact ⟨iff_of_false (by rintro ⟨⟩) (not_not.mpr on), iff_of_true rfl fails, iff_of_false (by rintro ⟨⟩) fun both => both.2 fails⟩
  | cancelled => simp only [Frame.Coherent, at_pc] at coherent
  | _ => simp [Frame.returned, at_pc] at returned

/-- A run that nobody cancels, made by a call outside every call chain. It is
resumed a bounded number of times and can be resumed until it returns, which
is the only way it ends, and its outcome is honest. -/
structure Reports (macros : MacroId → Option Macro) (E : MacroEngine) (t : TaskId) (m : MacroId) (E₁ : MacroEngine) :
    Prop where
  bounded : ∀ trace E₂, Course macros t (E.tasks t).stack.length E₁ trace E₂ →
    trace.countP (resumes t) ≤ callTurns macros maxDepth m
  live : ∀ trace E₂, Course macros t (E.tasks t).stack.length E₁ trace E₂ →
    Running (E.tasks t).stack.length E₂ t → (E₂.tasks t).cancelRequested = false →
    ∀ skip holds, (E₂.next macros (.resume t (.ok skip holds))).isSome = true
  honest : ∀ trace E₂ l E₃, Course macros t (E.tasks t).stack.length E₁ trace E₂ →
    Running (E.tasks t).stack.length E₂ t → Undisturbed t l → E₂.next macros l = some E₃ →
    ¬ Running (E.tasks t).stack.length E₃ t →
    (E₃.tasks t).stack = (E.tasks t).stack ∧
      ∃ outcome, Returns E₂ t outcome ∧ HonestOutcome macros E.nextRun m t trace E₂ outcome

/-- A call made outside every call chain puts one frame on the stack. -/
theorem called_enters {config : Macro} {l : Label} {E₁ : MacroEngine} (atConfig : macros m = some config)
    (calls : l = .call t m ∅ ∨ l = .pluginCall t m) (run : E.next macros l = some E₁) :
    (∀ g ∈ (E.tasks t).stack.head?, g.pc = .plugin) ∧ refuseStart macros m ∅ = false ∧
      ∃ config pc, macros m = some config ∧ (pc = .queue 0 ∨ pc.entering = true) ∧
        (E₁.tasks t).stack = calledFrame E.nextRun m config ∅ pc :: (E.tasks t).stack := by
  have accepted : refuseStart macros m ∅ = false := by simp [refuseStart, atConfig, maxDepth]
  refine (?_ : (∀ g ∈ (E.tasks t).stack.head?, g.pc = .plugin) ∧
    E.execute macros t m ∅ (E.tasks t).stack = some E₁).imp_right execute_enters
  obtain ⟨entered, runs⟩ := execute_of_accepted E t (E.tasks t).stack accepted
  rcases calls with rfl | rfl
  · simp only [MacroEngine.next] at run
    split at run
    · rename_i empty
      rw [empty] at runs ⊢
      rw [runs] at run
      cases run
      exact ⟨by rintro _ ⟨⟩, runs⟩
    · cases run
  · simp only [MacroEngine.next] at run
    split at run
    · rename_i f rest at_stack
      split at run
      · rename_i awaiting
        rw [at_stack] at runs ⊢
        rw [runs] at run
        cases run
        have plugin : f.pc = .plugin := of_decide_eq_true (Bool.and_eq_true _ _ ▸ awaiting).1
        exact ⟨fun g member => by cases member; exact plugin, runs⟩
      · cases run
    · cases run

theorem onCourse {config : Macro} {l : Label} {E₁ : MacroEngine} (atConfig : macros m = some config)
    (reach : Run.Reach (macroMachine macros) Run.always E) (calls : l = .call t m ∅ ∨ l = .pluginCall t m)
    (run : E.next macros l = some E₁) {trace : List (MacroEngine × Label)} {E₂ : MacroEngine}
    (course : Course macros t (E.tasks t).stack.length E₁ trace E₂) :
    OnCourse macros E.nextRun m t (E.tasks t).stack trace E₂ := by
  obtain ⟨plugin, accepted, config, pc, atConfig, early, at_stack⟩ := called_enters atConfig calls run
  induction course with
  | start =>
    obtain ⟨coherent, awake, cost⟩ := entered_turns atConfig accepted early E.nextRun
    refine ⟨reach.step (l := l) trivial run, Nat.zero_le _, fun _ => ⟨[calledFrame E.nextRun m config ∅ pc], at_stack,
      ⟨⟨rfl, rfl, rfl⟩, List.forall_mem_singleton.mpr coherent, fun g member => by cases member; exact awake⟩,
      iff_of_false ?_ nofun, ?_⟩⟩
    · rintro ⟨f, member, counted⟩
      rw [List.mem_singleton] at member
      subst member
      exact Nat.lt_irrefl _ counted
    · simpa [turns] using cost
  | step _ running calm next ih => exact ih.step plugin running calm next

/-- Every run that is called outside a call chain and never cancelled reports honestly. -/
theorem execute_reports (macros : MacroId → Option Macro) (m : MacroId) (config : Macro) (E E₁ : MacroEngine) (t : TaskId)
    (l : Label) (atConfig : macros m = some config) (reach : Run.Reach (macroMachine macros) Run.always E)
    (calls : l = .call t m ∅ ∨ l = .pluginCall t m) (run : E.next macros l = some E₁) : Reports macros E t m E₁ where
  bounded trace E₂ course := (onCourse atConfig reach calls run course).bounded
  live trace E₂ course running free skip holds := by
    obtain ⟨inner, at_stack, level, _⟩ := (onCourse atConfig reach calls run course).going running
    cases inner with
    | nil => exact absurd level.nested id
    | cons f rest =>
      simp only [MacroEngine.next, at_stack, List.cons_append, free, Bool.false_eq_true, if_false]
      exact proceed_isSome level skip holds _
  honest trace E₂ l' E₃ course running calm ends left := by
    have on := onCourse atConfig reach calls run course
    have plugin := (called_enters atConfig calls run).1
    obtain ⟨inner, at_stack, level, tally, _⟩ := on.going running
    by_cases resumed : ∃ wake, l' = .resume t wake
    · obtain ⟨wake, rfl⟩ := resumed
      rcases Comes.next level plugin at_stack (calm rfl) ends with ⟨inner', after, goes⟩ | ⟨returned, _, f, outcome, only, last⟩
      · exact absurd (goes.running after) left
      · subst only
        have books := started on.reach t
        rw [at_stack] at books
        exact ⟨returned, outcome, ⟨f, by simp [at_stack], last⟩, level.honest tally books last⟩
    · rw [Running, unmoved on.reach running calm resumed ends] at left
      exact absurd running left

/-- A macro that goes on past its failures calls one that stops at them. -/
def callingMacros (m : MacroId) : Option Macro :=
  if m = "a" then some { steps := [.callMacro false "b", .leaf false] }
  else if m = "b" then some { steps := [.leaf false], stopOnError := true }
  else none

theorem execute_reports_of_call :
    ∃ E₁, next callingMacros {} (.call 0 "a" ∅) = some E₁ ∧ Reports callingMacros {} 0 "a" E₁ := by
  have made : ∃ E₁, next callingMacros {} (.call 0 "a" ∅) = some E₁ := ⟨_, rfl⟩
  obtain ⟨E₁, run⟩ := made
  exact ⟨E₁, run, execute_reports callingMacros "a" _ {} E₁ 0 (.call 0 "a" ∅) rfl (.init rfl) (Or.inl rfl) run⟩

/-- The step that fails in `b` halts `b`; `a` runs its second step and reports the failure. -/
example : ((macroMachine callingMacros).run Run.always {} [.call 0 "a" ∅, .resume 0 (.ok false false),
    .resume 0 (.ok false false), .resume 0 (.ok false false), .resume 0 (.ok false false), .resume 0 .fail,
    .resume 0 (.ok false false), .resume 0 (.ok false false), .resume 0 (.ok false false), .resume 0 (.ok false false),
    .resume 0 (.ok false false)]).bind (fun E => (E.tasks 0).stack.head?.bind Frame.returned) = some .failed := by
  rfl

/-- A run need not report `completed` or `failed`: its own guard can turn it away. -/
theorem execute_reports_skipped :
    ¬ ∀ (macros : MacroId → Option Macro) (m : MacroId) (config : Macro) (E E₁ : MacroEngine) (t : TaskId) (l : Label),
      macros m = some config → Run.Reach (macroMachine macros) Run.always E →
      (l = .call t m ∅ ∨ l = .pluginCall t m) → E.next macros l = some E₁ →
      ∀ trace E₂ l' E₃, Course macros t (E.tasks t).stack.length E₁ trace E₂ →
        Running (E.tasks t).stack.length E₂ t → Undisturbed t l' → E₂.next macros l' = some E₃ →
        ¬ Running (E.tasks t).stack.length E₃ t →
        ∃ outcome, Returns E₂ t outcome ∧ ((outcome = .failed ∧ ∃ s ∈ trace, FailsStep macros t s) ∨
          (outcome = .completed ∧ ¬ ∃ s ∈ trace, FailsStep macros t s)) := by
  intro claimed
  have made : ∃ E E₁ E₃, (macroMachine singleMacro).run Run.always {} [.call 0 "a" ∅] = some E ∧
      E.next singleMacro (.call 1 "a" ∅) = some E₁ ∧ E₁.next singleMacro (.resume 1 (.ok false false)) = some E₃ ∧
      (E.tasks 1).stack = [] ∧ Running 0 E₁ 1 ∧ (E₃.tasks 1).stack = [] ∧
      (E₁.tasks 1).stack.head?.bind Frame.returned = some .skipped :=
    ⟨_, _, _, rfl, rfl, rfl, rfl, Nat.one_pos, rfl, rfl⟩
  obtain ⟨E, E₁, E₃, before, called, ends, free, running, left, skipped⟩ := made
  have reach := Run.Reach.run (M := macroMachine singleMacro) (.init rfl) before
  have depth : (E.tasks 1).stack.length = 0 := by rw [free]; rfl
  obtain ⟨outcome, ⟨f, top, returned⟩, reported⟩ := claimed singleMacro "a" _ E E₁ 1 (.call 1 "a" ∅) rfl reach
    (Or.inl rfl) called [] E₁ (.resume 1 (.ok false false)) E₃ .start (depth ▸ running) (fun _ => nofun) ends
    (by rw [Running, left, depth]; exact Nat.lt_irrefl 0)
  rw [Option.mem_def.mp top, Option.bind_some, returned, Option.some.injEq] at skipped
  subst skipped
  rcases reported with ⟨failed, _⟩ | ⟨completed, _⟩
  · cases failed
  · cases completed

end MacroEngine

end OpenAvc
