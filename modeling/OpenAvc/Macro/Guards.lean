import OpenAvc.Macro.Registry

namespace OpenAvc.MacroEngine

variable {macros : MacroId → Option Macro} {fresh quiet outwaited : Prop} {t u : TaskId} {E E' : MacroEngine}
  {f g : Frame} {m n : MacroId} {config : Macro} {stack rest : List Frame}

/-- A step that registers no call: only the clock may have run on. -/
structure Unstarted (E E' : MacroEngine) : Prop where
  starts : E'.starts = E.starts
  lastStarted : E'.lastStarted = E.lastStarted
  clock : E.clock ≤ E'.clock

theorem Unstarted.suspend : Unstarted E (E.suspend t f rest) := by
  unfold MacroEngine.suspend
  split <;> exact ⟨rfl, rfl, le_rfl⟩

theorem Unstarted.after {E₀ : MacroEngine} (later : Unstarted E₀ E') (starts : E₀.starts = E.starts)
    (lastStarted : E₀.lastStarted = E.lastStarted) (clock : E₀.clock = E.clock) : Unstarted E E' :=
  ⟨later.starts.trans starts, later.lastStarted.trans lastStarted, clock ▸ later.clock⟩

theorem Unstarted.throwCancelled : Unstarted E (E.throwCancelled t stack) := by
  induction stack generalizing E with
  | nil => exact ⟨rfl, rfl, le_rfl⟩
  | cons f rest ih =>
    unfold MacroEngine.throwCancelled
    split
    · exact ih
    · exact ih
    · exact ih
    · exact .suspend
    · exact ih.after rfl rfl rfl
    · exact ih.after rfl rfl rfl
    all_goals exact .suspend

theorem Unstarted.leave {ending : Ending} : Unstarted E (E.leave t ending stack) := by
  unfold MacroEngine.leave
  split
  · exact ⟨rfl, rfl, le_rfl⟩
  · split <;> exact .suspend

/-- The step from `E` to `E'` registers a call of `n` that the macro's own
guards let through. A queued call is let through while another one runs only
where it is `outwaited`. -/
structure Admission (outwaited : Prop) (E E' : MacroEngine) (n : MacroId) (config : Macro) : Prop where
  starts : ∃ i t, E'.starts = (i, n, t) :: E.starts
  lastStarted : E'.lastStarted =
    if 0 < config.cooldown then Function.update E.lastStarted n (some E.clock) else E.lastStarted
  clock : E'.clock = E.clock
  free : E.throttled n config = false
  alone : config.overlap = .queue → outwaited ∨ E.isMacroRunning n = false

/-- What a step does to the starts and to the cooldowns. -/
def Timed (macros : MacroId → Option Macro) (outwaited : MacroId → Prop) (E E' : MacroEngine) : Prop :=
  Unstarted E E' ∨ ∃ n config, macros n = some config ∧ Admission (outwaited n) E E' n config

variable {passed : MacroId → Prop}

theorem Timed.claim (loaded : macros f.macroId = some f.config)
    (alone : f.config.overlap = .queue → passed f.macroId ∨ E.isMacroRunning f.macroId = false) :
    Timed macros passed E (E.claim macros t f rest) := by
  unfold MacroEngine.claim
  split
  · exact Or.inl .suspend
  · rename_i free
    refine Or.inr ⟨f.macroId, f.config, loaded, ?_⟩
    simp only [MacroEngine.suspend]
    split <;> exact ⟨⟨f.id, t, rfl⟩, rfl, rfl, Bool.not_eq_true _ ▸ free, alone⟩

theorem Timed.execute {chain : Finset MacroId} (run : E.execute macros t m chain stack = some E') :
    Timed macros passed E E' := by
  unfold MacroEngine.execute at run
  split at run
  · cases run
  · obtain ⟨config, loaded, result⟩ := Option.map_eq_some_iff.mp run
    subst result
    let f : Frame := { id := E.nextRun, macroId := m, config := config, chain := insert m chain,
                       nestedCall := decide (chain ≠ ∅), todo := [config.steps], pc := .queue 0 }
    have started : Timed macros passed { E with nextRun := E.nextRun + 1 }
        (if config.overlap = .queue && E.isMacroRunning m then
          { E with nextRun := E.nextRun + 1 }.suspend t f stack
        else { E with nextRun := E.nextRun + 1 }.claim macros t f stack) := by
      split
      · exact Or.inl .suspend
      · rename_i entered
        refine .claim (f := f) loaded fun queue => Or.inr ?_
        have idle : ¬ E.isMacroRunning m = true := fun running => entered (by
          rw [show config.overlap = .queue from queue, running]; rfl)
        exact Bool.not_eq_true _ ▸ idle
    rcases started with unstarted | ⟨n, config, loaded, admission⟩
    · exact Or.inl (unstarted.after rfl rfl rfl)
    · exact Or.inr ⟨n, config, loaded, ⟨admission.starts, admission.lastStarted, admission.clock,
        admission.free, admission.alone⟩⟩

theorem Timed.beginStep {skip holds : Bool} : Timed macros passed E (E.beginStep macros t f rest skip holds) := by
  unfold MacroEngine.beginStep
  split
  · rename_i step _ _ _
    split
    · exact Or.inl .suspend
    · cases step with
      | leaf => exact Or.inl .suspend
      | plugin => exact Or.inl .suspend
      | callMacro _ sub =>
        dsimp only
        cases run : E.execute macros t sub f.chain ({ f with pc := .nested } :: rest) with
        | none => exact Or.inl .suspend
        | some E' => exact .execute run
      | conditional =>
        dsimp only
        split
        · exact Or.inl .suspend
        · split <;> exact Or.inl .suspend
  · exact Or.inl .suspend

/-- A call of `m` gives up its wait in the queue and starts although `m` runs. -/
def OutWaits (m : MacroId) (E : MacroEngine) : Label → Prop
  | .resume t (.ok _ _) => E.isMacroRunning m = true ∧ ∃ f ∈ (E.tasks t).stack.head?, f.macroId = m ∧
      ∃ waited, f.pc = .queue waited ∧ queueMaxWait ≤ waited + 1
  | _ => False

theorem Timed.proceed {wake : Wake} (at_stack : (E.tasks t).stack = f :: rest)
    (loaded : macros f.macroId = some f.config) (run : E.proceed macros t f rest wake = some E') :
    Timed macros (OutWaits · E (.resume t wake)) E E' := by
  unfold MacroEngine.proceed at run
  split at run
  · rename_i skip holds
    split at run
    · rename_i waited at_pc
      split at run <;> cases run
      · exact Or.inl .suspend
      · rename_i entered
        refine .claim loaded fun _ => ?_
        by_cases running : E.isMacroRunning f.macroId = true
        · refine Or.inl ⟨running, f, by simp [at_stack], rfl, waited, at_pc, ?_⟩
          by_contra below
          exact entered (by simp [running, Nat.not_le.mp below])
        · exact Or.inr (Bool.not_eq_true _ ▸ running)
    · cases run; exact Or.inl .leave
    · cases run; exact Or.inl .suspend
    · cases run; exact Or.inl .suspend
    · cases run; exact .beginStep
    · cases run; exact Or.inl .suspend
    · cases run; exact Or.inl .suspend
    · cases run
    · cases run; exact Or.inl .suspend
    · cases run; exact Or.inl .suspend
    · cases run; exact Or.inl (Unstarted.leave.after rfl rfl rfl)
    · split at run <;> cases run
      · exact Or.inl (Unstarted.throwCancelled.after rfl rfl rfl)
      · exact Or.inl (Unstarted.leave.after rfl rfl rfl)
    · cases run; exact Or.inl (Unstarted.leave.after rfl rfl rfl)
  · split at run <;> cases run
    exact Or.inl .suspend
  · split at run <;> cases run
    exact Or.inl .suspend
  · cases run

/-- Every step registers one call at most, and none that its own guards refuse. -/
theorem next_timed {l : Label} (loaded : ∀ t, ∀ f ∈ (E.tasks t).stack, macros f.macroId = some f.config)
    (run : E.next macros l = some E') : Timed macros (OutWaits · E l) E E' := by
  cases l with
  | call t m chain =>
    simp only [MacroEngine.next] at run
    split at run <;> cases run
    cases entered : E.execute macros t m chain [] with
    | none => exact Or.inl ⟨rfl, rfl, le_rfl⟩
    | some E' => exact .execute entered
  | pluginCall t m =>
    simp only [MacroEngine.next] at run
    split at run
    · rename_i f rest _
      split at run <;> cases run
      cases entered : E.execute macros t m ∅ (f :: rest) with
      | none => exact Or.inl ⟨rfl, rfl, le_rfl⟩
      | some E' => exact .execute entered
    · cases run
  | resume t wake =>
    simp only [MacroEngine.next] at run
    split at run
    · cases run
    · rename_i f rest at_stack
      split at run
      · split at run <;> cases run
        exact Or.inl (Unstarted.throwCancelled.after rfl rfl rfl)
      · exact .proceed at_stack (loaded t f (by simp [at_stack])) run
  | cancel m => cases run; exact Or.inl ⟨rfl, rfl, le_rfl⟩
  | cancelAll => cases run; exact Or.inl ⟨rfl, rfl, le_rfl⟩
  | tick elapsed => cases run; exact Or.inl ⟨rfl, rfl, Nat.le_add_right _ _⟩

/-- Every call on the stack was made with the configuration its macro has. -/
def Loaded (macros : MacroId → Option Macro) (stack : List Frame) : Prop :=
  ∀ f ∈ stack, macros f.macroId = some f.config

theorem Loaded.pop (loaded : Loaded macros (f :: rest)) : Loaded macros rest :=
  fun g member => loaded g (List.mem_cons_of_mem f member)

theorem Loaded.goOn (loaded : Loaded macros (f :: rest)) (same : f.SameRun g) : Loaded macros (g :: rest) := by
  refine List.forall_mem_cons.mpr ⟨?_, loaded.pop⟩
  rw [same.macroId, same.config]
  exact loaded f (List.mem_cons_self ..)

theorem Move.loaded {c c' : Config} (move : Move macros fresh quiet t c c') (loaded : Loaded macros c.2) :
    Loaded macros c'.2 := by
  cases move with
  | goOn _ same _ | finish _ same _ | hold _ same _ | claim _ same _ => exact loaded.goOn same
  | leave | refused | lose => exact loaded.pop
  | call _ _ atConfig _ _ => exact List.forall_mem_cons.mpr ⟨atConfig, loaded⟩

theorem loaded_kept : Kept macros fresh quiet fun _ _ => Loaded macros where
  own := Move.loaded
  other _ _ _ loaded := loaded
  cancelled _ loaded := loaded
  books _ loaded := loaded

theorem loaded {ok : MacroEngine → Label → Prop} (reach : Run.Reach (macroMachine macros) ok E) (t : TaskId) :
    Loaded macros (E.tasks t).stack := by
  induction reach generalizing t with
  | init start => cases start; exact fun _ member => absurd member List.not_mem_nil
  | step before _ run ih => exact (next_effect (stacked before) run).keeps loaded_kept ih t

/-- The calls of `m` on a stack that have been registered, released or not. -/
def begunCalls (m : MacroId) (stack : List Frame) : Nat :=
  stack.countP fun f => f.macroId = m && !f.pc.unregistered

theorem begunCalls_cons : begunCalls m (f :: rest) =
    begunCalls m rest + if f.macroId = m ∧ f.pc.unregistered = false then 1 else 0 := by
  simp only [begunCalls, List.countP_cons, Bool.and_eq_true, decide_eq_true_eq, Bool.not_eq_true']

theorem begunCalls_goOn (same : f.SameRun g) (kept : g.pc.unregistered = f.pc.unregistered) :
    begunCalls m (g :: rest) = begunCalls m (f :: rest) := by
  rw [begunCalls_cons, begunCalls_cons, same.macroId, kept]

/-- What `m` has on the stack of `t`: one call that has begun, and the task is
in `_running[m]` as long as the call has not been released. -/
structure Calls (m : MacroId) (E : MacroEngine) (t : TaskId) (stack : List Frame) : Prop where
  once : begunCalls m stack ≤ 1
  held : ∀ f ∈ stack, f.macroId = m → f.pc.registered = true → Holds E t m

theorem Await.registered_begun {a : Await} (registered : a.registered = true) : a.unregistered = false := by
  simp only [Await.registered, Bool.and_eq_true, Bool.not_eq_true'] at registered
  exact registered.1

theorem Await.released_begun {a : Await} (released : a.released = true) : a.unregistered = false := by
  cases a <;> simp_all [Await.released, Await.unregistered]

/-- Under a call of `m` that has begun, the stack holds no other. -/
theorem Calls.alone (calls : Calls m E t (f :: rest)) (same : f.macroId = m) (begun : f.pc.unregistered = false) :
    ∀ g ∈ rest, g.macroId = m → g.pc.registered ≠ true := by
  intro g member at_m registered
  have once := calls.once
  rw [begunCalls_cons, if_pos ⟨same, begun⟩] at once
  have none : begunCalls m rest = 0 := by omega
  rw [begunCalls, List.countP_eq_zero] at none
  exact none g member (by simp [at_m, Await.registered_begun registered])

theorem Calls.pop (calls : Calls m E t (f :: rest)) : Calls m E t rest where
  once := by have once := calls.once; rw [begunCalls_cons] at once; omega
  held g member := calls.held g (List.mem_cons_of_mem f member)

theorem Calls.release (calls : Calls m E t (f :: rest)) (begun : f.pc.unregistered = false) :
    Calls m (E.release f.macroId t) t rest where
  once := calls.pop.once
  held g member at_m registered := by
    refine holds_release.mpr ⟨calls.pop.held g member at_m registered, fun same => ?_⟩
    exact calls.alone same.1.symm begun g member at_m registered

theorem Calls.push (calls : Calls m E t rest) (unregistered : f.pc.unregistered = true) : Calls m E t (f :: rest) where
  once := by have once := calls.once; rw [begunCalls_cons]; simpa [unregistered] using once
  held := List.forall_mem_cons.mpr
    ⟨fun _ registered => absurd registered (Await.not_registered unregistered), calls.held⟩

theorem Calls.mono (calls : Calls m E t stack) (still : Holds E t m → Holds E' t m) : Calls m E' t stack where
  once := calls.once
  held f member at_m registered := still (calls.held f member at_m registered)

/-- A stack whose task is not in `_running[m]` has no registered call of `m` on it. -/
theorem Calls.none (calls : Calls m E t stack) (waiting : ∀ f ∈ stack, f.pc.waits) (idle : ¬ Holds E t m) :
    begunCalls m stack = 0 := by
  rw [begunCalls, List.countP_eq_zero]
  intro f member counted
  simp only [Bool.and_eq_true, decide_eq_true_eq] at counted
  exact idle (calls.held f member counted.1 (waiting f member).registered)

/-- The tasks in `_running[m]`, each in it once. -/
def entries (m : MacroId) (E : MacroEngine) : List (MacroId × TaskId) := E.running.filter fun entry => entry.1 = m

theorem entries_eq_nil (idle : E.isMacroRunning m = false) : entries m E = [] := by
  refine List.filter_eq_nil_iff.mpr fun entry member same => ?_
  simp only [isMacroRunning, List.any_eq_false] at idle
  exact idle entry member same

theorem not_holds_of_entries (idle : entries m E = []) : ¬ Holds E t m := by
  intro holds
  refine List.not_mem_nil (a := (m, t)) (idle ▸ ?_)
  exact List.mem_filter.mpr ⟨holds, decide_eq_true rfl⟩

theorem entries_release : (entries m (E.release n t)).Sublist (entries m E) :=
  List.Sublist.filter _ List.filter_sublist

/-- What `m` has in the registry and on the stacks while `t` runs. -/
structure Exclusive (m : MacroId) (t : TaskId) (c : Config) : Prop where
  entries : (entries m c.1).length ≤ 1
  own : Calls m c.1 t c.2
  others : ∀ u ≠ t, Calls m c.1 u (c.1.tasks u).stack
  stacked : Stacked c.2

/-- A start of `m` that finds `_running[m]` empty makes its task the only one in it. -/
theorem Exclusive.claim (exclusive : Exclusive m t (E, f :: rest)) (same : f.SameRun g)
    (idle : f.macroId = m → MacroEngine.entries m E = [])
    (targets : List TaskId) : Exclusive m t ((E.register t f).cancelTasks targets, g :: rest) := by
  have more (v : TaskId) (holds : Holds E v m) : Holds ((E.register t f).cancelTasks targets) v m :=
    holds_cancelTasks.mpr (holds_register.mpr (Or.inr holds))
  refine ⟨?_, ?_, fun u apart => ?_, exclusive.stacked⟩
  · by_cases started : f.macroId = m
    · have empty := idle started
      have absent : (f.macroId, t) ∉ E.running := by rw [started]; exact not_holds_of_entries empty
      have inserted : ((E.register t f).cancelTasks targets).running = (f.macroId, t) :: E.running :=
        List.insert_of_not_mem absent
      rw [MacroEngine.entries, inserted, List.filter_cons, if_pos (by simp [started])]
      have : (E.running.filter fun entry => entry.1 = m) = [] := empty
      simp [this]
    · have kept : MacroEngine.entries m ((E.register t f).cancelTasks targets) = MacroEngine.entries m E := by
        change (E.running.insert (f.macroId, t)).filter _ = E.running.filter _
        rw [List.insert]
        split
        · rfl
        · rw [List.filter_cons, if_neg (by simp [started])]
      rw [kept]
      exact exclusive.entries
  · by_cases started : f.macroId = m
    · refine ⟨?_, fun h member at_m on => holds_cancelTasks.mpr (holds_register.mpr (Or.inl ⟨started.symm, rfl⟩))⟩
      have none := exclusive.own.pop.none exclusive.stacked (not_holds_of_entries (idle started))
      rw [begunCalls_cons, none]
      split <;> omega
    · refine ⟨?_, List.forall_mem_cons.mpr ⟨fun at_m _ => absurd (same.macroId.symm.trans at_m) started,
        fun h member at_m on => more t (exclusive.own.pop.held h member at_m on)⟩⟩
      have once := exclusive.own.pop.once
      rw [begunCalls_cons, if_neg fun counted => started (same.macroId.symm.trans counted.1)]
      exact once
  · have before := exclusive.others u apart
    rw [stack_cancelTasks]
    exact before.mono (more u)

/-- Every move keeps `m` alone, a start of `m` where it is not running. -/
theorem Move.exclusive {c c' : Config} (move : Move macros fresh quiet t c c')
    (idle : (∃ i, c'.1.starts = (i, m, t) :: c.1.starts) → MacroEngine.entries m c.1 = [])
    (exclusive : Exclusive m t c) : Exclusive m t c' := by
  have stacked := move.stacked exclusive.stacked
  have entries := exclusive.entries
  have own := exclusive.own
  have others := exclusive.others
  cases move with
  | @goOn _ f g _ began same registered =>
    refine ⟨entries, ⟨?_, List.forall_mem_cons.mpr ⟨fun at_m _ => ?_, own.pop.held⟩⟩, others, stacked⟩
    · rw [begunCalls_goOn same (by rw [Await.registered_begun began, Await.registered_begun registered])]
      exact own.once
    · exact own.held f (List.mem_cons_self ..) (same.macroId.symm.trans at_m) began
  | @finish _ f g _ began same released =>
    refine ⟨entries_release.length_le.trans entries, ⟨?_, List.forall_mem_cons.mpr ⟨fun _ on => ?_,
      (own.release began).held⟩⟩, fun u apart => ?_, stacked⟩
    · rw [begunCalls_goOn same (by rw [began, Await.released_begun released])]
      exact own.once
    · exact absurd on (Await.not_registered_of_released released)
    · exact (others u apart).mono fun holds => holds_release.mpr ⟨holds, fun same => apart same.2⟩
  | leave released =>
    exact ⟨entries_release.length_le.trans entries, own.release (Await.released_begun released),
      fun u apart => (others u apart).mono fun holds => holds_release.mpr ⟨holds, fun same => apart same.2⟩, stacked⟩
  | refused | lose => exact ⟨entries, own.pop, others, stacked⟩
  | call _ unregistered _ _ _ =>
    exact ⟨entries, (own.push unregistered).mono id, fun u apart => (others u apart).mono id, stacked⟩
  | hold _ _ still => exact ⟨entries, own.pop.push still, others, stacked⟩
  | @claim E f g rest _ same _ =>
    exact exclusive.claim same (fun started => idle ⟨f.id, by rw [← started]; rfl⟩) _

/-- A move registers one call at most, and takes a task out of the registry
unless it does. -/
theorem Move.registry {c c' : Config} (move : Move macros fresh quiet t c c') :
    (c'.1.starts = c.1.starts ∧ (MacroEngine.entries m c'.1).Sublist (MacroEngine.entries m c.1)) ∨
      ∃ start, c'.1.starts = start :: c.1.starts := by
  cases move with
  | goOn | refused | lose | call | hold => exact Or.inl ⟨rfl, .refl _⟩
  | finish | leave => exact Or.inl ⟨rfl, entries_release⟩
  | claim => exact Or.inr ⟨_, rfl⟩

/-- Along moves that register one call at most, `m` stays alone if it is not
running where that call is one of `m`. -/
theorem moves_exclusive {c c' : Config} (moves : Relation.ReflTransGen (Move macros fresh quiet t) c c')
    (idle : (∃ i, c'.1.starts = (i, m, t) :: c.1.starts) → MacroEngine.entries m c.1 = [])
    (once : c'.1.starts = c.1.starts ∨ ∃ start, c'.1.starts = start :: c.1.starts) (exclusive : Exclusive m t c) :
    Exclusive m t c' ∧
      (c'.1.starts = c.1.starts → (MacroEngine.entries m c'.1).Sublist (MacroEngine.entries m c.1)) := by
  have grows {c c' : Config} (moves : Relation.ReflTransGen (Move macros fresh quiet t) c c') :
      c.1.starts <:+ c'.1.starts := by
    induction moves with
    | refl => exact List.suffix_refl _
    | tail _ move ih =>
      rcases move.registry (m := m) with ⟨same, _⟩ | ⟨start, more⟩
      · rwa [same]
      · rw [more]
        exact ih.trans (List.suffix_cons start _)
  induction moves with
  | refl => exact ⟨exclusive, fun _ => .refl _⟩
  | @tail b c' before move ih =>
    have within := (grows before).length_le
    rcases move.registry (m := m) with ⟨same, fewer⟩ | ⟨start, more⟩
    · rw [same] at idle once
      obtain ⟨kept, shrinks⟩ := ih idle once
      refine ⟨move.exclusive (fun ⟨i, grown⟩ => ?_) kept, fun none => fewer.trans (shrinks (same ▸ none))⟩
      have length := congrArg List.length (same.symm.trans grown)
      simp only [List.length_cons] at length
      omega
    · -- this move is the one that registers the call, so none before it did
      have unstarted : b.1.starts = c.1.starts := by
        refine ((grows before).eq_of_length ?_).symm
        rcases once with none | ⟨start', one⟩
        · have length := congrArg List.length (more.symm.trans none)
          simp only [List.length_cons] at length
          omega
        · have length := congrArg List.length (more.symm.trans one)
          simp only [List.length_cons] at length
          omega
      obtain ⟨kept, shrinks⟩ := ih
        (fun ⟨i, grown⟩ => absurd (congrArg List.length (unstarted.symm.trans grown)) (by simp)) (Or.inl unstarted)
      refine ⟨move.exclusive (fun ⟨i, grown⟩ => ?_) kept, fun none => ?_⟩
      · have fewer := shrinks unstarted
        rw [idle ⟨i, by rw [grown, unstarted]⟩] at fewer
        exact List.sublist_nil.mp fewer
      · have length := congrArg List.length (more.symm.trans (none.trans unstarted.symm))
        simp at length

/-- `m` is alone in the registry and on all stacks. -/
def Sole (m : MacroId) (E : MacroEngine) : Prop := ∀ t, Exclusive m t (E, (E.tasks t).stack)

/-- The step from `E` to `E'` accepts a start of `m`. -/
def Accepts (m : MacroId) (E E' : MacroEngine) : Prop := ∃ i t, E'.starts = (i, m, t) :: E.starts

theorem Timed.once (timed : Timed macros passed E E') :
    E'.starts = E.starts ∨ ∃ start, E'.starts = start :: E.starts := by
  rcases timed with unstarted | ⟨_, _, _, admission⟩
  · exact Or.inl unstarted.starts
  · obtain ⟨i, t, one⟩ := admission.starts
    exact Or.inr ⟨_, one⟩

theorem Sole.step (sole : Sole m E) (effect : Effect macros fresh quiet E E') (timed : Timed macros passed E E')
    (stacked : ∀ t, Stacked (E'.tasks t).stack) (idle : Accepts m E E' → entries m E = []) : Sole m E' := by
  cases effect with
  | same => exact sole
  | cancel targets =>
    intro t
    have before := sole t
    rw [stack_cancelTasks]
    refine ⟨before.entries, before.own.mono id, fun u apart => ?_, before.stacked⟩
    have other := before.others u apart
    rw [stack_cancelTasks]
    exact other.mono id
  | tick elapsed =>
    exact fun t => ⟨(sole t).entries, (sole t).own.mono id, fun u apart => ((sole t).others u apart).mono id,
      (sole t).stacked⟩
  | @run t E₀ E' resumed segment =>
    obtain ⟨last, moves, put⟩ := segment
    have books := resumed.sameBooks
    have before := sole t
    have entered : Exclusive m t (E₀, (E.tasks t).stack) := by
      have same : entries m E₀ = entries m E := congrArg (List.filter _) books.running
      refine ⟨same ▸ before.entries, before.own.mono (by simp only [Holds, books.running]; exact id),
        fun u apart => ?_, before.stacked⟩
      rw [resumed.stack_eq]
      exact (before.others u apart).mono (by simp only [Holds, books.running]; exact id)
    have ends : E'.starts = last.1.starts := by rw [put]; rfl
    obtain ⟨after, _⟩ := moves_exclusive moves
      (by
        rintro ⟨i, one⟩
        have empty := idle ⟨i, t, by rw [ends, one, books.starts]⟩
        rwa [entries, books.running])
      (by simpa only [ends, books.starts] using timed.once) entered
    have all (u : TaskId) : Calls m E' u (E'.tasks u).stack := by
      subst put
      by_cases same : u = t
      · subst same
        rw [stack_setStack_self]
        exact after.own.mono id
      · rw [stack_setStack_of_ne same]
        exact (after.others u same).mono id
    exact fun u => ⟨by rw [put]; exact after.entries, all u, fun v _ => all v, stacked u⟩

/-- How many invocations of `m` task `t` has registered and running. -/
def invocations (E : MacroEngine) (m : MacroId) (t : TaskId) : Nat :=
  (E.tasks t).stack.countP fun f => f.macroId = m && f.pc.registered

/-- At most one invocation of `m` is registered and running. -/
structure OneInvocation (E : MacroEngine) (m : MacroId) : Prop where
  registry : (E.running.filter fun entry => entry.1 = m).length ≤ 1
  each : ∀ t, E.invocations m t ≤ 1
  task : ∀ t u, 0 < E.invocations m t → 0 < E.invocations m u → t = u

theorem Sole.oneInvocation (sole : Sole m E) : OneInvocation E m := by
  have holds (t : TaskId) (some_ : 0 < E.invocations m t) : (m, t) ∈ entries m E := by
    obtain ⟨f, member, counted⟩ := List.countP_pos_iff.mp some_
    simp only [Bool.and_eq_true, decide_eq_true_eq] at counted
    exact List.mem_filter.mpr ⟨(sole t).own.held f member counted.1 counted.2, decide_eq_true rfl⟩
  refine ⟨(sole 0).entries, fun t => ?_, fun t u first second => ?_⟩
  · refine (List.countP_mono_left fun f _ counted => ?_).trans (sole t).own.once
    simp only [Bool.and_eq_true, decide_eq_true_eq, Bool.not_eq_true'] at counted ⊢
    exact ⟨counted.1, Await.registered_begun counted.2⟩
  · have single := (sole 0).entries
    obtain ⟨entry, only⟩ : ∃ entry, entries m E = [entry] :=
      List.length_eq_one_iff.mp (Nat.le_antisymm single (List.length_pos_of_mem (holds t first)))
    have atT := holds t first
    have atU := holds u second
    rw [only, List.mem_singleton] at atT atU
    exact congrArg Prod.snd (atT.trans atU.symm)

/-- A start that is accepted is admitted by the macro's own guards. -/
theorem Timed.admission (timed : Timed macros passed E E') (accepted : Accepts m E E')
    (atConfig : macros m = some config) : Admission (passed m) E E' m config := by
  obtain ⟨i, t, start⟩ := accepted
  rcases timed with unstarted | ⟨n, config', atOther, admission⟩
  · have length := congrArg List.length (start.symm.trans unstarted.starts)
    simp at length
  · obtain ⟨j, u, one⟩ := admission.starts
    have same : (i, m, t) = (j, n, u) := (List.cons.inj (start.symm.trans one)).1
    have named : n = m := congrArg (fun s => s.2.1) same.symm
    subst named
    have : config' = config := Option.some.inj (atOther.symm.trans atConfig)
    exact this ▸ admission

/-- A run in which no accepted start of `m` finds it running has one invocation of `m` at most. -/
theorem sole {ok : MacroEngine → Label → Prop}
    (idle : ∀ E l E', ok E l → Timed macros (OutWaits · E l) E E' → Accepts m E E' → E.isMacroRunning m = false)
    (reach : Run.Reach (macroMachine macros) ok E) : Sole m E := by
  induction reach with
  | init start =>
    cases start
    exact fun t => ⟨Nat.zero_le 1, ⟨Nat.zero_le 1, nofun⟩, fun _ _ => ⟨Nat.zero_le 1, nofun⟩, trivial⟩
  | @step E l E' before meets run ih =>
    have timed := next_timed (loaded before) run
    exact ih.step (next_effect (stacked before) run) timed (stacked (.step before meets run))
      fun accepted => entries_eq_nil (idle E l E' meets timed accepted)

/-- The steps the engine takes from one state to another. -/
def Steps (macros : MacroId → Option Macro) : MacroEngine → MacroEngine → Prop :=
  Relation.ReflTransGen fun E E' => ∃ l, E.next macros l = some E'

theorem loaded_steps (before : ∀ t, Stacked (E.tasks t).stack ∧ Loaded macros (E.tasks t).stack)
    (steps : Steps macros E E') : ∀ t, Stacked (E'.tasks t).stack ∧ Loaded macros (E'.tasks t).stack := by
  induction steps with
  | refl => exact before
  | tail _ step ih =>
    obtain ⟨l, run⟩ := step
    have effect := next_effect (fun t => (ih t).1) run
    exact fun t => ⟨effect.keeps stacked_kept (fun u => (ih u).1) t, effect.keeps loaded_kept (fun u => (ih u).2) t⟩

/-- The cooldown of `m` counts from `since` or from later. -/
def CountsFrom (m : MacroId) (since : Nat) (E : MacroEngine) : Prop :=
  ∃ last, E.lastStarted m = some last ∧ since ≤ last ∧ last ≤ E.clock

theorem Timed.countsFrom {since : Nat} (timed : Timed macros passed E E') (atConfig : macros m = some config)
    (cooling : 0 < config.cooldown) (counts : CountsFrom m since E) : CountsFrom m since E' := by
  obtain ⟨last, atLast, after, past⟩ := counts
  rcases timed with unstarted | ⟨n, config', atOther, admission⟩
  · exact ⟨last, by rw [unstarted.lastStarted]; exact atLast, after, past.trans unstarted.clock⟩
  · by_cases same : n = m
    · subst same
      have : config' = config := Option.some.inj (atOther.symm.trans atConfig)
      subst this
      refine ⟨E.clock, ?_, after.trans past, admission.clock.ge⟩
      rw [admission.lastStarted, if_pos cooling, Function.update_self]
    · refine ⟨last, ?_, after, admission.clock ▸ past⟩
      rw [admission.lastStarted]
      split
      · rw [Function.update_of_ne (Ne.symm same)]
        exact atLast
      · exact atLast

theorem Admission.countsFrom (admission : Admission outwaited E E' m config) (cooling : 0 < config.cooldown) :
    CountsFrom m E.clock E' := by
  refine ⟨E.clock, ?_, le_rfl, admission.clock.ge⟩
  rw [admission.lastStarted, if_pos cooling, Function.update_self]

theorem Admission.cooled {since : Nat} (admission : Admission outwaited E E' m config)
    (counts : CountsFrom m since E) : since + config.cooldown ≤ E.clock := by
  obtain ⟨last, atLast, after, past⟩ := counts
  have free := admission.free
  simp only [MacroEngine.throttled, atLast, Bool.or_eq_false_iff, Bool.and_eq_false_iff,
    decide_eq_false_iff_not] at free
  have := free.1
  omega

theorem Steps.clock (steps : Steps macros E E')
    (before : ∀ t, Stacked (E.tasks t).stack ∧ Loaded macros (E.tasks t).stack) : E.clock ≤ E'.clock := by
  induction steps with
  | refl => exact le_rfl
  | tail previous step ih =>
    obtain ⟨l, run⟩ := step
    rcases next_timed (fun t => (loaded_steps before previous t).2) run with unstarted | ⟨_, _, _, admission⟩
    · exact ih.trans unstarted.clock
    · exact ih.trans admission.clock.ge

theorem Steps.countsFrom {since : Nat} (steps : Steps macros E E')
    (before : ∀ t, Stacked (E.tasks t).stack ∧ Loaded macros (E.tasks t).stack) (atConfig : macros m = some config)
    (cooling : 0 < config.cooldown) (counts : CountsFrom m since E) : CountsFrom m since E' := by
  induction steps with
  | refl => exact counts
  | tail previous step ih =>
    obtain ⟨l, run⟩ := step
    exact (next_timed (fun t => (loaded_steps before previous t).2) run).countsFrom atConfig cooling ih

/-- The guards a macro declares for itself. With `overlap: skip` it is never
running twice, with `overlap: queue` only where a queued call gave up its wait,
and two accepted starts are a cooldown apart. -/
structure OwnGuards (macros : MacroId → Option Macro) (m : MacroId) (config : Macro) : Prop where
  skip : config.overlap = .skip → ∀ E, Run.Reach (macroMachine macros) Run.always E → OneInvocation E m
  queue : config.overlap = .queue → ∀ E, Run.Reach (macroMachine macros) (fun E l => ¬ OutWaits m E l) E →
    OneInvocation E m
  cooldown : ∀ E l E' F l' F', Run.Reach (macroMachine macros) Run.always E → E.next macros l = some E' →
    Accepts m E E' → Steps macros E' F → F.next macros l' = some F' → Accepts m F F' →
    E.clock + config.cooldown ≤ F.clock

/-- Whoever calls `execute`, and however the calls interleave, every macro keeps its own guards. -/
theorem own_guards (macros : MacroId → Option Macro) (m : MacroId) (config : Macro)
    (atConfig : macros m = some config) : OwnGuards macros m config where
  skip overlap E reach := by
    refine (sole (fun E l E' _ timed accepted => ?_) reach).oneInvocation
    have free := (timed.admission accepted atConfig).free
    simp only [MacroEngine.throttled, overlap, decide_true, Bool.true_and, Bool.or_eq_false_iff] at free
    exact free.2
  queue overlap E reach := by
    refine (sole (fun E l E' waits timed accepted => ?_) reach).oneInvocation
    exact ((timed.admission accepted atConfig).alone overlap).resolve_left waits
  cooldown E l E' F l' F' reach run accepted steps again accepted' := by
    have first := (next_timed (loaded reach) run).admission accepted atConfig
    have after : ∀ t, Stacked (E'.tasks t).stack ∧ Loaded macros (E'.tasks t).stack :=
      fun t => ⟨stacked (.step reach trivial run) t, loaded (.step reach trivial run) t⟩
    have second := (next_timed (fun t => (loaded_steps after steps t).2) again).admission accepted' atConfig
    rcases Nat.eq_zero_or_pos config.cooldown with free | cooling
    · rw [free, Nat.add_zero]
      exact first.clock.ge.trans (steps.clock after)
    · exact second.cooled (steps.countsFrom after atConfig cooling (first.countsFrom cooling))

/-- One macro that may run once at a time and every other tick. -/
def guardedMacro : Macro := { steps := [.leaf false], overlap := .skip, cooldown := 2 }

/-- Called again by another task once it has cooled, it is still running and is not started twice. -/
theorem own_guards_of_two_calls :
    ∃ E, (macroMachine fun m => if m = "a" then some guardedMacro else none).run Run.always {}
        [.call 0 "a" ∅, .tick 3, .call 1 "a" ∅] = some E ∧
      E.invocations "a" 0 = 1 ∧ E.invocations "a" 1 = 0 ∧ OneInvocation E "a" := by
  have reach : ∃ E, (macroMachine fun m => if m = "a" then some guardedMacro else none).run Run.always {}
      [.call 0 "a" ∅, .tick 3, .call 1 "a" ∅] = some E ∧
      E.invocations "a" 0 = 1 ∧ E.invocations "a" 1 = 0 := ⟨_, rfl, rfl, rfl⟩
  obtain ⟨E, run, first, second⟩ := reach
  exact ⟨E, run, first, second, (own_guards _ "a" guardedMacro rfl).skip rfl E (.run (.init rfl) run)⟩

end OpenAvc.MacroEngine
