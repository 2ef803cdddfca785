import OpenAvc.Macro.Registry

/-! Which call each frame on a stack is, and at what await it can have been before. -/

namespace OpenAvc

/-- The wait of a start with overlap `queue`. -/
def Await.queues : Await → Bool
  | queue _ => true
  | _ => false

/-- `g` is `f` further on; it is registered only if `f` was, or waited for it. -/
structure Frame.Stem (f g : Frame) : Prop where
  same : f.SameRun g
  registered : g.pc.registered = true → f.pc.registered = true ∨ f.pc.queues = true
  queues : g.pc.queues = true → f.pc.queues = true

theorem Frame.Stem.refl (f : Frame) : f.Stem f := ⟨⟨rfl, rfl, rfl, rfl, rfl⟩, Or.inl, fun queued => queued⟩

theorem Frame.Stem.trans {f f' g : Frame} (first : f.Stem f') (second : f'.Stem g) : f.Stem g where
  same := ⟨second.same.id.trans first.same.id, second.same.macroId.trans first.same.macroId,
    second.same.config.trans first.same.config, second.same.chain.trans first.same.chain,
    second.same.nestedCall.trans first.same.nestedCall⟩
  registered on := (second.registered on).elim first.registered fun queued => Or.inr (first.queues queued)
  queues queued := first.queues (second.queues queued)

theorem Frame.Stem.of_advances {f g : Frame} (registered : f.pc.registered = true) (advances : f.Advances g) : f.Stem g where
  same := advances.1
  registered _ := Or.inl registered
  queues queued := by
    have later := advances.2
    cases at_pc : g.pc <;> simp_all [Await.queues, Await.unregistered]

/-- A call goes on to where it is not registered any more, or not yet. -/
theorem Frame.Stem.moved {f : Frame} {pc : Await} (registered : pc.registered = false) (queues : pc.queues = false) :
    f.Stem { f with pc := pc } where
  same := .pc f pc
  registered still := absurd still (by simp [registered])
  queues still := absurd still (by simp [queues])

namespace MacroEngine

variable {macros : MacroId → Option Macro} {t u : TaskId} {E E' : MacroEngine} {f g : Frame} {rest stack : List Frame}

/-- A call that was made since: it waits in the queue only if its macro says so. -/
structure Called (macros : MacroId → Option Macro) (E : MacroEngine) (g : Frame) : Prop where
  numbered : E.nextRun ≤ g.id
  queues : g.pc.queues = true → (macros g.macroId).map Macro.overlap = some .queue

/-- `E'` is `E` further on while only `t` has run. -/
structure Near (t : TaskId) (E E' : MacroEngine) : Prop where
  clock : E'.clock = E.clock
  nextRun : E.nextRun ≤ E'.nextRun
  others : ∀ u ≠ t, (E'.tasks u).stack = (E.tasks u).stack

theorem Near.refl : Near t E E := ⟨rfl, le_rfl, fun _ _ => rfl⟩

theorem Near.trans {E'' : MacroEngine} (first : Near t E E') (second : Near t E' E'') : Near t E E'' :=
  ⟨second.clock.trans first.clock, first.nextRun.trans second.nextRun,
    fun u apart => (second.others u apart).trans (first.others u apart)⟩

theorem Near.release (m : MacroId) : Near t E (E.release m t) := ⟨rfl, le_rfl, fun _ _ => rfl⟩

theorem Near.register (f : Frame) : Near t E (E.register t f) := ⟨rfl, le_rfl, fun _ _ => rfl⟩

theorem Near.cancelTasks (targets : List TaskId) : Near t E (E.cancelTasks targets) :=
  ⟨rfl, le_rfl, fun _ _ => stack_cancelTasks _⟩

theorem Near.deliver : Near t E (E.deliver t) :=
  ⟨rfl, le_rfl, fun _ apart => by simp [MacroEngine.deliver, apart]⟩

theorem Near.setStack : Near t E (E.setStack t stack) := ⟨rfl, le_rfl, fun _ apart => stack_setStack_of_ne apart⟩

theorem Near.suspend : Near t E (E.suspend t g rest) := by
  unfold MacroEngine.suspend
  split
  · exact (Near.release _).trans .setStack
  · exact .setStack

theorem stack_suspend : ((E.suspend t g rest).tasks t).stack = g :: rest := stack_setStack_self

/-- What task `t`, at first with `stack`, has made of the engine: every call on
its stack was there before or is new. -/
structure Stems (macros : MacroId → Option Macro) (E : MacroEngine) (t : TaskId) (stack : List Frame) (E' : MacroEngine) :
    Prop extends Near t E E' where
  own : ∀ g ∈ (E'.tasks t).stack, (∃ f ∈ stack, f.Stem g) ∨ Called macros E g

theorem Stems.after {E₀ : MacroEngine} (near : Near t E E₀) (stems : Stems macros E₀ t stack E') :
    Stems macros E t stack E' where
  toNear := near.trans stems.toNear
  own g member := (stems.own g member).imp_right fun called => ⟨near.nextRun.trans called.numbered, called.queues⟩

theorem Stems.refl : Stems macros E t (E.tasks t).stack E := ⟨.refl, fun g member => Or.inl ⟨g, member, .refl g⟩⟩

theorem Stems.push (stems : Stems macros E t rest E') : Stems macros E t (f :: rest) E' where
  toNear := stems.toNear
  own g member := (stems.own g member).imp_left fun ⟨f', below, stem⟩ => ⟨f', List.mem_cons_of_mem _ below, stem⟩

theorem Stems.reach {stack' : List Frame} (stems : Stems macros E t stack' E')
    (reach : ∀ f' ∈ stack', ∃ f ∈ stack, f.Stem f') : Stems macros E t stack E' where
  toNear := stems.toNear
  own g member := by
    rcases stems.own g member with ⟨f', there, stem⟩ | called
    · obtain ⟨f, before, earlier⟩ := reach f' there
      exact Or.inl ⟨f, before, earlier.trans stem⟩
    · exact Or.inr called

theorem Stems.setStack : Stems macros E t stack (E.setStack t stack) where
  toNear := .setStack
  own g member := Or.inl ⟨g, by rwa [stack_setStack_self] at member, .refl g⟩

theorem Stems.suspend {E₀ : MacroEngine} (near : Near t E E₀) (below : rest ⊆ stack)
    (top : (∃ f ∈ stack, f.Stem g) ∨ Called macros E g) : Stems macros E t stack (E₀.suspend t g rest) where
  toNear := near.trans .suspend
  own h member := by
    rw [stack_suspend] at member
    rcases List.mem_cons.mp member with rfl | further
    · exact top
    · exact Or.inl ⟨h, below further, .refl h⟩

theorem Stems.top (stem : f.Stem g) : Stems macros E t (f :: rest) (E.suspend t g rest) :=
  .suspend .refl (List.subset_cons_self _ _) (Or.inl ⟨f, List.mem_cons_self, stem⟩)

theorem Stems.advance (registered : f.pc.registered = true) (advances : f.Advances g) :
    Stems macros E t (f :: rest) (E.suspend t g rest) := .top (.of_advances registered advances)

theorem Stems.throwCancelled : Stems macros E t stack (E.throwCancelled t stack) := by
  induction stack generalizing E with
  | nil => exact .setStack
  | cons f rest ih =>
    cases at_pc : f.pc with
    | queue | skipped | started =>
      simp only [MacroEngine.throwCancelled, at_pc]
      exact ih.push
    | cancelled | error =>
      simp only [MacroEngine.throwCancelled, at_pc]
      exact (ih.after (.release _)).push
    | completed =>
      simp only [MacroEngine.throwCancelled, at_pc]
      exact .top (.moved rfl rfl)
    | drain | progress | leaf | plugin | nested | branch | stepError =>
      simp only [MacroEngine.throwCancelled, at_pc]
      exact .advance (by rw [at_pc]; rfl) (f.advances_pc rfl)

theorem Stems.leave {ending : Ending} (waiting : ∀ g ∈ stack.head?, g.pc.waits) :
    Stems macros E t stack (E.leave t ending stack) := by
  cases stack with
  | nil => exact .setStack
  | cons f rest =>
    have registered := (waiting f rfl).registered
    simp only [MacroEngine.leave]
    split
    · exact .advance registered f.advances_failed_stepDone
    · exact .advance registered f.advances_stepDone
    · exact .advance registered f.advances_stepFailed
    · exact .top (.refl f)

/-- A start is registered or skipped. -/
theorem Stems.claim {E₀ : MacroEngine} (near : Near t E E₀) (below : rest ⊆ stack)
    (top : ∀ pc : Await, pc.queues = false →
      (∃ f' ∈ stack, f'.Stem { f with pc := pc }) ∨ Called macros E { f with pc := pc }) :
    Stems macros E t stack (E₀.claim macros t f rest) := by
  unfold MacroEngine.claim
  split
  · exact .suspend near below (top _ rfl)
  · have started : Near t E ((E₀.register t f).cancelTasks
        (((E₀.register t f).preempted macros f.config t).map Prod.snd)) :=
      near.trans ((Near.register f).trans (.cancelTasks _))
    exact .suspend started below (top _ (by split <;> rfl))

theorem claim_stack (macros : MacroId → Option Macro) (E : MacroEngine) (t : TaskId) (f : Frame) (rest : List Frame) :
    Near t E (E.claim macros t f rest) ∧
    ∃ pc : Await, pc.queues = false ∧ ((E.claim macros t f rest).tasks t).stack = { f with pc := pc } :: rest := by
  unfold MacroEngine.claim
  split
  · exact ⟨.suspend, .skipped, rfl, stack_suspend⟩
  · exact ⟨(Near.register f).trans ((Near.cancelTasks _).trans .suspend), _, by split <;> rfl, stack_suspend⟩

/-- A call that is made outside all others is the only one on its stack. -/
theorem execute_stack {m : MacroId} {chain : Finset MacroId} (run : E.execute macros t m chain [] = some E') :
    E.nextRun < E'.nextRun ∧ ∃ g, (E'.tasks t).stack = [g] ∧ g.id = E.nextRun ∧ g.macroId = m ∧
      (g.pc.queues = true → (macros m).map Macro.overlap = some .queue) := by
  unfold MacroEngine.execute at run
  split at run
  · cases run
  · obtain ⟨config, atConfig, result⟩ := Option.map_eq_some_iff.mp run
    subst result
    let E₀ : MacroEngine := { E with nextRun := E.nextRun + 1 }
    let f : Frame := { id := E.nextRun, macroId := m, config := config, chain := insert m chain,
                       nestedCall := decide (chain ≠ ∅), todo := [config.steps], pc := .queue 0 }
    simp only
    split
    · rename_i queue
      have overlap : config.overlap = .queue := of_decide_eq_true (Bool.and_eq_true _ _ ▸ queue).1
      have near : Near t E₀ (E₀.suspend t f []) := .suspend
      exact ⟨near.nextRun, f, stack_suspend, rfl, rfl, fun _ => by simp [atConfig, overlap]⟩
    · obtain ⟨near, pc, idle, stack⟩ := claim_stack macros E₀ t f []
      exact ⟨near.nextRun, _, stack, rfl, rfl, fun queued => absurd queued (by simp [idle])⟩

theorem Stems.execute {m : MacroId} {chain : Finset MacroId} (below : rest ⊆ stack)
    (run : E.execute macros t m chain rest = some E') : Stems macros E t stack E' := by
  unfold MacroEngine.execute at run
  split at run
  · cases run
  · obtain ⟨config, atConfig, result⟩ := Option.map_eq_some_iff.mp run
    subst result
    have near : Near t E { E with nextRun := E.nextRun + 1 } := ⟨rfl, Nat.le_succ _, fun _ _ => rfl⟩
    simp only
    split
    · rename_i queue
      have overlap : config.overlap = .queue := of_decide_eq_true (Bool.and_eq_true _ _ ▸ queue).1
      exact .suspend near below (Or.inr ⟨le_rfl, fun _ => by simp [atConfig, overlap]⟩)
    · exact .claim near below fun pc idle => Or.inr ⟨le_rfl, fun queued => absurd queued (by simp [idle])⟩

theorem Stems.beginStep {skip holds : Bool} (registered : f.pc.registered = true) :
    Stems macros E t (f :: rest) (E.beginStep macros t f rest skip holds) := by
  unfold MacroEngine.beginStep
  split
  · rename_i step _ _ at_todo
    split
    · exact .advance registered f.advances_stepDone
    · cases step with
      | leaf => exact .advance registered (f.advances_pc rfl)
      | plugin => exact .advance registered (f.advances_pc rfl)
      | callMacro skipIf sub =>
        simp only
        cases run : E.execute macros t sub f.chain ({ f with pc := .nested } :: rest) with
        | none => exact .advance registered f.advances_stepFailed
        | some E' =>
          have stems : Stems macros E t ({ f with pc := .nested } :: rest) E' := .execute (List.Subset.refl _) run
          refine stems.reach fun f' member => ?_
          rcases List.mem_cons.mp member with rfl | below
          · exact ⟨f, List.mem_cons_self, .of_advances registered (f.advances_pc rfl)⟩
          · exact ⟨f', List.mem_cons_of_mem _ below, .refl f'⟩
      | conditional _ condition =>
        simp only
        split
        · exact .advance registered f.advances_stepDone
        · split
          · exact .advance registered f.advances_stepFailed
          · exact .advance registered (f.advances_pc rfl)
  · exact .advance registered f.advances_stepDone

theorem Stems.proceed {wake : Wake} (stacked : Stacked (f :: rest)) (run : E.proceed macros t f rest wake = some E') :
    Stems macros E t (f :: rest) E' := by
  cases wake with
  | cancelled => cases run
  | fail =>
    simp only [MacroEngine.proceed, Option.ite_none_right_eq_some, Option.some.injEq] at run
    obtain ⟨awaiting, result⟩ := run
    subst result
    refine .advance ?_ f.advances_stepFailed
    rcases Bool.or_eq_true _ _ ▸ awaiting with leaf | plugin
    · rw [of_decide_eq_true leaf]; rfl
    · rw [of_decide_eq_true plugin]; rfl
  | unreported =>
    simp only [MacroEngine.proceed, Option.ite_none_right_eq_some, Option.some.injEq] at run
    obtain ⟨awaiting, result⟩ := run
    subst result
    exact .advance (by rw [awaiting]; rfl) f.advances_stepUnreported
  | ok skip holds =>
    cases at_pc : f.pc with
    | nested => simp [MacroEngine.proceed, at_pc] at run
    | queue waited =>
      have queues : f.pc.queues = true := by rw [at_pc]; rfl
      simp only [MacroEngine.proceed, at_pc] at run
      split at run <;> cases run
      · exact .top ⟨.pc f _, fun _ => Or.inr queues, fun _ => queues⟩
      · exact .claim .refl (List.subset_cons_self _ _) fun pc idle =>
          Or.inl ⟨f, List.mem_cons_self, .pc f pc, fun _ => Or.inr queues, fun queued => absurd queued (by simp [idle])⟩
    | skipped =>
      simp only [MacroEngine.proceed, at_pc, Option.some.injEq] at run
      subst run
      exact (Stems.leave stacked.head).push
    | drain =>
      simp only [MacroEngine.proceed, at_pc, Option.some.injEq] at run
      subst run
      exact .advance (by rw [at_pc]; rfl) (f.advances_pc rfl)
    | started =>
      simp only [MacroEngine.proceed, at_pc, Option.some.injEq] at run
      subst run
      exact .advance (by rw [at_pc]; rfl) f.advances_firstStep
    | progress =>
      simp only [MacroEngine.proceed, at_pc, Option.some.injEq] at run
      subst run
      exact .beginStep (by rw [at_pc]; rfl)
    | leaf | plugin =>
      simp only [MacroEngine.proceed, at_pc, Option.some.injEq] at run
      subst run
      exact .advance (by rw [at_pc]; rfl) f.advances_stepDone
    | branch taken =>
      simp only [MacroEngine.proceed, at_pc, Option.some.injEq] at run
      subst run
      exact .advance (by rw [at_pc]; rfl) (f.advances_enterBranch _)
    | stepError halt =>
      simp only [MacroEngine.proceed, at_pc, Option.some.injEq] at run
      subst run
      refine .advance (by rw [at_pc]; rfl) ?_
      split
      · exact f.advances_stepRaised
      · exact f.advances_stepDone
    | completed | error =>
      simp only [MacroEngine.proceed, at_pc, Option.some.injEq] at run
      subst run
      exact ((Stems.leave stacked.head).after (.release _)).push
    | cancelled =>
      simp only [MacroEngine.proceed, at_pc] at run
      split at run <;> cases run
      · exact (Stems.throwCancelled.after (.release _)).push
      · exact ((Stems.leave stacked.head).after (.release _)).push

/-- The task whose stack a step of the engine changes. -/
def Label.task : Label → Option TaskId
  | .call t _ _ | .pluginCall t _ | .resume t _ => some t
  | _ => none

/-- A task that is in no call runs in the engine only to make one. -/
theorem call_of_empty {l : Label} (run : E.next macros l = some E') (task : l.task = some u)
    (empty : (E.tasks u).stack = []) : ∃ m chain, l = .call u m chain := by
  cases l with
  | call t m chain => cases task; exact ⟨m, chain, rfl⟩
  | pluginCall t m | resume t wake =>
    cases task
    simp [MacroEngine.next, empty] at run
  | cancel | cancelAll | tick => cases task

/-- What a step of the engine can make of the stacks. -/
theorem next_stems {l : Label} (stacked : ∀ t, Stacked (E.tasks t).stack) (run : E.next macros l = some E') :
    E.clock ≤ E'.clock ∧ E.nextRun ≤ E'.nextRun ∧
      (∀ u, l.task ≠ some u → (E'.tasks u).stack = (E.tasks u).stack) ∧
      ∀ u, ∀ g ∈ (E'.tasks u).stack, (∃ f ∈ (E.tasks u).stack, f.Stem g) ∨ Called macros E g := by
  have ran : ∀ t, Stems macros E t (E.tasks t).stack E' → E.clock ≤ E'.clock ∧ E.nextRun ≤ E'.nextRun ∧
      (∀ u, some t ≠ some u → (E'.tasks u).stack = (E.tasks u).stack) ∧
      ∀ u, ∀ g ∈ (E'.tasks u).stack, (∃ f ∈ (E.tasks u).stack, f.Stem g) ∨ Called macros E g := by
    intro t stems
    refine ⟨stems.clock.ge, stems.nextRun, fun u apart => stems.others u fun same => apart (same ▸ rfl),
      fun u g member => ?_⟩
    by_cases same : u = t
    · subst same
      exact stems.own g member
    · rw [stems.others u same] at member
      exact Or.inl ⟨g, member, .refl g⟩
  have struck : ∀ targets, E.clock ≤ (E.cancelTasks targets).clock ∧ E.nextRun ≤ (E.cancelTasks targets).nextRun ∧
      (∀ u, none ≠ some u → ((E.cancelTasks targets).tasks u).stack = (E.tasks u).stack) ∧
      ∀ u, ∀ g ∈ ((E.cancelTasks targets).tasks u).stack, (∃ f ∈ (E.tasks u).stack, f.Stem g) ∨ Called macros E g :=
    fun targets => ⟨le_rfl, le_rfl, fun _ _ => stack_cancelTasks _, fun _ g member =>
      Or.inl ⟨g, by rwa [stack_cancelTasks] at member, .refl g⟩⟩
  cases l with
  | call t m chain =>
    simp only [MacroEngine.next] at run
    split at run <;> cases run
    rename_i empty
    refine ran t ?_
    cases entered : E.execute macros t m chain [] with
    | none => exact .refl
    | some E' =>
      rw [empty]
      exact .execute (List.Subset.refl _) entered
  | pluginCall t m =>
    simp only [MacroEngine.next] at run
    split at run
    · rename_i f rest at_stack
      split at run <;> cases run
      refine ran t ?_
      cases entered : E.execute macros t m ∅ (f :: rest) with
      | none => exact .refl
      | some E' =>
        rw [at_stack]
        exact .execute (List.Subset.refl _) entered
    · cases run
  | resume t wake =>
    refine ran t ?_
    simp only [MacroEngine.next] at run
    have stacked := stacked t
    split at run
    · cases run
    · rename_i f rest at_stack
      rw [at_stack] at stacked ⊢
      split at run
      · split at run <;> cases run
        exact Stems.throwCancelled.after .deliver
      · exact .proceed stacked run
  | cancel m =>
    cases run
    exact struck _
  | cancelAll =>
    cases run
    exact struck _
  | tick elapsed =>
    cases run
    exact ⟨Nat.le_add_right _ _, le_rfl, fun _ _ => rfl, fun _ g member => Or.inl ⟨g, member, .refl g⟩⟩

end MacroEngine

end OpenAvc
