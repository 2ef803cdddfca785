import OpenAvc.Macro.Moves

namespace OpenAvc.MacroEngine

variable {macros : MacroId → Option Macro} {fresh quiet : Prop} {t u : TaskId} {E E' : MacroEngine}
  {f : Frame} {m n : MacroId} {stack : List Frame}

/-- `t` is in `_running[m]`. -/
def Holds (E : MacroEngine) (t : TaskId) (m : MacroId) : Prop := (m, t) ∈ E.running

@[simp] theorem holds_setStack : Holds (E.setStack u stack) t m ↔ Holds E t m := Iff.rfl

@[simp] theorem holds_cancelTasks {targets : List TaskId} :
    Holds (E.cancelTasks targets) t m ↔ Holds E t m := Iff.rfl

@[simp] theorem holds_register : Holds (E.register t f) u n ↔ (n = f.macroId ∧ u = t) ∨ Holds E u n := by
  simp only [Holds, register, List.mem_insert_iff, Prod.mk.injEq]

@[simp] theorem holds_release : Holds (E.release m t) u n ↔ Holds E u n ∧ ¬ (n = m ∧ u = t) := by
  simp only [Holds, release, List.mem_filter, ne_eq, decide_not, Bool.not_eq_true', decide_eq_false_iff_not,
    Prod.mk.injEq]

theorem stack_setStack_self : ((E.setStack t stack).tasks t).stack = stack := by
  simp [setStack]

theorem stack_setStack_of_ne (other : u ≠ t) :
    ((E.setStack t stack).tasks u).stack = (E.tasks u).stack := by
  simp [setStack, other]

theorem stack_cancelTasks (targets : List TaskId) :
    ((E.cancelTasks targets).tasks u).stack = (E.tasks u).stack := by
  simp only [cancelTasks]
  split <;> rfl

theorem Move.stack_eq {c c' : Config} (move : Move macros fresh quiet t c c') :
    (c'.1.tasks u).stack = (c.1.tasks u).stack := by
  cases move with
  | claim => exact stack_cancelTasks _
  | _ => rfl

theorem Resumed.stack_eq (resumed : Resumed E t E') : (E'.tasks u).stack = (E.tasks u).stack := by
  rcases resumed with rfl | rfl
  · rfl
  · by_cases same : u = t
    · subst same; simp [deliver]
    · simp [deliver, same]

theorem Segment.along {I : Config → Prop} {c : Config} (segment : Segment macros fresh quiet t c E)
    (keep : ∀ c c', Move macros fresh quiet t c c' → I c → I c') (start : I c) :
    ∃ c', I c' ∧ E = c'.1.setStack t c'.2 := by
  obtain ⟨last, moves, put⟩ := segment
  refine ⟨last, ?_, put⟩
  clear put
  induction moves with
  | refl => exact start
  | tail _ step ih => exact keep _ _ step ih

/-- The same registry, numbers and records: only the tasks or the clock differ. -/
structure SameBooks (E E' : MacroEngine) : Prop where
  running : E'.running = E.running
  nextRun : E'.nextRun = E.nextRun
  struck : E'.struck = E.struck
  starts : E'.starts = E.starts

theorem SameBooks.setStack : SameBooks E (E.setStack t stack) := ⟨rfl, rfl, rfl, rfl⟩

theorem Resumed.sameBooks (resumed : Resumed E t E') : SameBooks E E' := by
  rcases resumed with rfl | rfl
  · exact ⟨rfl, rfl, rfl, rfl⟩
  · exact ⟨rfl, rfl, rfl, rfl⟩

/-- A relation between the books and one task's stack that the moves of that
task and of every other one keep. -/
structure Kept (macros : MacroId → Option Macro) (fresh quiet : Prop)
    (Q : MacroEngine → TaskId → List Frame → Prop) : Prop where
  own : ∀ {t c c'}, Move macros fresh quiet t c c' → Q c.1 t c.2 → Q c'.1 t c'.2
  other : ∀ {t u c c'}, u ≠ t → Move macros fresh quiet t c c' → Q c.1 t c.2 →
    Q c.1 u (c.1.tasks u).stack → Q c'.1 u (c.1.tasks u).stack
  cancelled : ∀ {E u} (targets : List TaskId), Q E u (E.tasks u).stack →
    Q (E.cancelTasks targets) u (E.tasks u).stack
  books : ∀ {E E' u stack}, SameBooks E E' → Q E u stack → Q E' u stack

variable {Q : MacroEngine → TaskId → List Frame → Prop}

theorem Segment.keeps (kept : Kept macros fresh quiet Q) (segment : Segment macros fresh quiet t (E, stack) E')
    (own : Q E t stack) (others : ∀ u ≠ t, Q E u (E.tasks u).stack) (u : TaskId) :
    Q E' u (E'.tasks u).stack := by
  obtain ⟨⟨last, top⟩, ⟨atEnd, elsewhere⟩, put⟩ := segment.along
    (I := fun c => Q c.1 t c.2 ∧ ∀ v ≠ t, Q c.1 v (c.1.tasks v).stack)
    (fun c c' move now => ⟨kept.own move now.1, fun v apart => by
      rw [move.stack_eq]; exact kept.other apart move now.1 (now.2 v apart)⟩) ⟨own, others⟩
  subst put
  by_cases same : u = t
  · subst same
    rw [stack_setStack_self]
    exact kept.books .setStack atEnd
  · rw [stack_setStack_of_ne same]
    exact kept.books .setStack (elsewhere u same)

/-- What every move keeps holds of every task all along. -/
theorem Effect.keeps (kept : Kept macros fresh quiet Q) (effect : Effect macros fresh quiet E E')
    (start : ∀ u, Q E u (E.tasks u).stack) (u : TaskId) : Q E' u (E'.tasks u).stack := by
  cases effect with
  | same => exact start u
  | cancel targets =>
    rw [stack_cancelTasks]
    exact kept.cancelled targets (start u)
  | tick elapsed => exact kept.books (E := E) ⟨rfl, rfl, rfl, rfl⟩ (start u)
  | run resumed segment =>
    refine segment.keeps kept (kept.books resumed.sameBooks (start _)) (fun v _ => ?_) u
    rw [resumed.stack_eq]
    exact kept.books resumed.sameBooks (start v)

theorem Move.stacked {c c' : Config} (move : Move macros fresh quiet t c c') (stacked : Stacked c.2) :
    Stacked c'.2 := by
  cases move with
  | goOn | finish | hold | claim => exact stacked
  | leave | refused | lose => exact stacked.tail
  | @call _ _ stack _ _ _ waiting =>
    cases stack with
    | nil => exact fun g member => absurd member (List.not_mem_nil)
    | cons top rest =>
      intro g member
      rcases List.mem_cons.mp member with rfl | below
      · exact waiting g rfl
      · exact stacked g below

theorem stacked_kept : Kept macros fresh quiet fun _ _ => Stacked where
  own := Move.stacked
  other _ _ _ stacked := stacked
  cancelled _ stacked := stacked
  books _ stacked := stacked

theorem stacked {ok : MacroEngine → Label → Prop} (reach : Run.Reach (macroMachine macros) ok E) (t : TaskId) :
    Stacked (E.tasks t).stack := by
  induction reach generalizing t with
  | init start => cases start; trivial
  | step _ _ run ih => exact (next_effect ih run).keeps stacked_kept ih t

/-- A registered macro is one that the task is inside, and has not left. -/
def Inside (held : MacroId → Prop) (stack : List Frame) : Prop :=
  ∀ m, held m → ∃ f ∈ stack, f.macroId = m ∧ f.pc.registered = true

theorem Await.not_registered {a : Await} (unregistered : a.unregistered = true) : a.registered ≠ true := by
  simp [Await.registered, unregistered]

theorem Await.not_registered_of_released {a : Await} (released : a.released = true) : a.registered ≠ true := by
  simp [Await.registered, released]

theorem Inside.pop {held : MacroId → Prop} {rest : List Frame} (inside : Inside held (f :: rest))
    (gone : f.pc.registered ≠ true) : Inside held rest := by
  intro m holds
  obtain ⟨g, member, same, registered⟩ := inside m holds
  rcases List.mem_cons.mp member with rfl | below
  · exact absurd registered gone
  · exact ⟨g, below, same, registered⟩

theorem Inside.release {rest : List Frame} (inside : Inside (Holds E t) (f :: rest)) :
    Inside (Holds (E.release f.macroId t) t) rest := by
  intro m holds
  obtain ⟨still, other⟩ := holds_release.mp holds
  obtain ⟨g, member, same, registered⟩ := inside m still
  rcases List.mem_cons.mp member with rfl | below
  · exact absurd ⟨same.symm, rfl⟩ other
  · exact ⟨g, below, same, registered⟩

theorem Inside.push {held : MacroId → Prop} (inside : Inside held stack) : Inside held (f :: stack) :=
  fun m holds => (inside m holds).imp fun _ found => ⟨List.mem_cons_of_mem f found.1, found.2⟩

/-- Only the call lost at its `started` emit leaves its registration behind. -/
theorem Move.inside {c c' : Config} (kept : quiet) (move : Move macros fresh quiet t c c')
    (inside : Inside (Holds c.1 t) c.2) : Inside (Holds c'.1 t) c'.2 := by
  cases move with
  | @goOn _ f g rest began same registered =>
    intro m holds
    obtain ⟨h, member, at_m, still⟩ := inside m holds
    rcases List.mem_cons.mp member with rfl | below
    · exact ⟨g, List.mem_cons_self .., same.macroId.trans at_m, registered⟩
    · exact ⟨h, List.mem_cons_of_mem g below, at_m, still⟩
  | finish _ _ _ => exact inside.release.push
  | leave _ => exact inside.release
  | refused unregistered => exact inside.pop (Await.not_registered unregistered)
  | lose _ loud => exact absurd kept loud
  | call _ _ _ _ _ => exact inside.push
  | hold unregistered _ _ => exact (inside.pop (Await.not_registered unregistered)).push
  | @claim _ f g rest unregistered same registered =>
    intro m holds
    rcases holds_register.mp (holds_cancelTasks.mp holds) with ⟨at_m, _⟩ | before
    · exact ⟨g, List.mem_cons_self .., same.macroId.trans at_m.symm, registered⟩
    · exact (inside.pop (Await.not_registered unregistered)).push m before

theorem Move.holds_other {c c' : Config} (other : u ≠ t) (move : Move macros fresh quiet t c c') :
    Holds c'.1 u = Holds c.1 u := by
  funext n
  cases move with
  | finish | leave | claim => simp [other]
  | goOn | refused | lose | call | hold => rfl

theorem inside_kept (kept : quiet) : Kept macros fresh quiet fun E t => Inside (Holds E t) where
  own move := move.inside kept
  other apart move _ inside := by rwa [move.holds_other apart]
  cancelled _ inside := inside
  books same inside := by
    simp only [Inside, Holds, same.running]
    exact inside

/-- `t` is inside a call of `execute(m)`. -/
def InsideExecute (E : MacroEngine) (t : TaskId) (m : MacroId) : Prop :=
  ∃ f ∈ (E.tasks t).stack, f.macroId = m

/-- The registry names no run that is over: a task in `_running[m]` is inside
`execute(m)`, the registry is empty once every task has ended, and a start that
the macro's overlap guard alone refuses, or that a trigger refuses by asking
`is_macro_running`, is refused for a run still going on. -/
structure RegistrySound (E : MacroEngine) : Prop where
  inside : ∀ m t, (m, t) ∈ E.running → InsideExecute E t m
  ended : (∀ t, (E.tasks t).stack = []) → E.running = [] ∧ ∀ m, E.isMacroRunning m = false
  running : ∀ m, E.isMacroRunning m = true → ∃ t, InsideExecute E t m
  refused : ∀ m config, config.cooldown = 0 → E.throttled m config = true → ∃ t, InsideExecute E t m

theorem RegistrySound.of_inside (inside : ∀ m t, (m, t) ∈ E.running → InsideExecute E t m) :
    RegistrySound E := by
  have running : ∀ m, E.isMacroRunning m = true → ∃ t, InsideExecute E t m := by
    intro m isRunning
    obtain ⟨⟨n, t⟩, member, same⟩ := List.any_eq_true.mp isRunning
    cases of_decide_eq_true same
    exact ⟨t, inside _ _ member⟩
  refine ⟨inside, fun ended => ?_, running, fun m config free throttled => ?_⟩
  · have empty : E.running = [] := by
      refine List.eq_nil_iff_forall_not_mem.mpr fun ⟨m, t⟩ member => ?_
      obtain ⟨f, on, _⟩ := inside m t member
      rw [ended t] at on
      exact absurd on List.not_mem_nil
    exact ⟨empty, fun m => by simp [isMacroRunning, empty]⟩
  · simp only [MacroEngine.throttled, free, Nat.lt_irrefl, decide_false, Bool.false_and, Bool.false_or,
      Bool.and_eq_true] at throttled
    exact running m throttled.2

/-- Unless a CancelledError is raised in a call at its `macro.started` emit,
every reached registry is sound. -/
theorem running_registry_sound (macros : MacroId → Option Macro)
    (reach : Run.Reach (macroMachine macros) (fun E l => ¬ CancelsStarting E l) E) : RegistrySound E := by
  have inside : ∀ t, Inside (Holds E t) (E.tasks t).stack := by
    induction reach with
    | init start => cases start; exact fun _ _ holds => absurd holds List.not_mem_nil
    | step previous quiet run ih =>
      exact (next_effect (stacked previous) run).keeps (inside_kept quiet) ih
  refine .of_inside fun m t member => ?_
  obtain ⟨f, on, same, _⟩ := inside t m member
  exact ⟨f, on, same⟩

/-- One macro of one step. -/
def singleMacro (m : MacroId) : Option Macro :=
  if m = "a" then some { steps := [.leaf false], overlap := .skip } else none

/-- A run of it that is cancelled in its step and then ends. -/
theorem running_registry_sound_of_cancelled_step :
    ∃ E, (macroMachine singleMacro).run (fun E l => ¬ CancelsStarting E l) {}
        [.call 0 "a" ∅, .resume 0 (.ok false false), .resume 0 (.ok false false), .cancel "a",
          .resume 0 .cancelled, .resume 0 (.ok false false)] = some E ∧
      E.running = [] ∧ RegistrySound E := by
  have reach : ∃ E, (macroMachine singleMacro).run (fun E l => ¬ CancelsStarting E l) {}
      [.call 0 "a" ∅, .resume 0 (.ok false false), .resume 0 (.ok false false), .cancel "a",
        .resume 0 .cancelled, .resume 0 (.ok false false)] = some E ∧ E.running = [] := ⟨_, rfl, rfl⟩
  obtain ⟨E, run, free⟩ := reach
  exact ⟨E, run, free, running_registry_sound singleMacro (.run (.init rfl) run)⟩

/-- Cancelled at its `macro.started` emit, the run leaves its task registered,
and the macro can never be started again. -/
theorem running_registry_unsound :
    ¬ ∀ (macros : MacroId → Option Macro) (E : MacroEngine),
      Run.Reach (macroMachine macros) Run.always E → RegistrySound E := by
  intro sound
  have reach : ∃ E, (macroMachine singleMacro).run Run.always {}
      [.call 0 "a" ∅, .cancel "a", .resume 0 .cancelled] = some E ∧
      E.running = [("a", 0)] ∧ (E.tasks 0).stack = [] := ⟨_, rfl, rfl, rfl⟩
  obtain ⟨E, run, held, ended⟩ := reach
  obtain ⟨f, on, _⟩ := (sound singleMacro E (.run (.init rfl) run)).inside "a" 0 (by simp [held])
  rw [ended] at on
  exact absurd on List.not_mem_nil

end OpenAvc.MacroEngine
