import Mathlib.Logic.Relation
import OpenAvc.Triggers.Engine

namespace OpenAvc.Triggers

/-- The wait of `_queued_fire`. -/
def Point.queues : Point → Bool
  | queued _ => true
  | _ => false

/-- `f'` is what has become of `f`. -/
structure Fire.Leads (f f' : Fire) : Prop where
  trigger : f'.trigger = f.trigger
  stamp : f'.stamp = f.stamp
  pending : f'.pc.pending = true → f.pc.pending = true
  queued : f'.pc.queues = true → f.pc.queues = true

/-- `f` as it is after something that fires no macro and ends no run. -/
structure Fire.Keeps (f f' : Fire) : Prop extends f.Leads f' where
  active : f'.pc = f.pc ∨ f.pc.active = false ∧ f'.pc.active = false

theorem Fire.Leads.refl (f : Fire) : f.Leads f := ⟨rfl, rfl, id, id⟩

/-- A task that does not go on waiting moves to `pc`. -/
theorem Fire.Leads.moved {f : Fire} {pc : Point} (past : pc.pending = false) : f.Leads { f with pc := pc } where
  trigger := rfl
  stamp := rfl
  pending still := absurd still (by simp [past])
  queued still := by cases pc <;> simp_all [Point.queues, Point.pending]

theorem Fire.Keeps.refl (f : Fire) : f.Keeps f := ⟨.refl f, Or.inl rfl⟩

theorem Fire.Keeps.trans {f f' f'' : Fire} (first : f.Keeps f') (second : f'.Keeps f'') : f.Keeps f'' where
  trigger := second.trigger.trans first.trigger
  stamp := second.stamp.trans first.stamp
  pending still := first.pending (second.pending still)
  queued still := first.queued (second.queued still)
  active := by
    rcases first.active with same | ⟨before, between⟩ <;> rcases second.active with same' | ⟨between', after⟩
    · exact Or.inl (same'.trans same)
    · exact Or.inr ⟨same ▸ between', after⟩
    · exact Or.inr ⟨before, same' ▸ between⟩
    · exact Or.inr ⟨before, after⟩

theorem Fire.Keeps.moved {f : Fire} {pc : Point} (idle : f.pc.active = false) (idle' : pc.active = false)
    (past : pc.pending = false) : f.Keeps { f with pc := pc } := ⟨.moved past, Or.inr ⟨idle, idle'⟩⟩

theorem Point.active_of_pending {pc : Point} (pending : pc.pending = true) : pc.active = false := by
  cases pc <;> simp_all [Point.pending, Point.active]

theorem Point.active_of_executes {pc : Point} (executes : pc.executes = true) : pc.active = true := by
  cases pc <;> simp_all [Point.executes, Point.active]

/-- Some of the macro engine's tasks have been cancelled. -/
def Cancelled : MacroEngine → MacroEngine → Prop :=
  Relation.ReflTransGen fun E E' => ∃ targets, E' = E.cancelTasks targets

namespace TriggerEngine

variable {s s' s'' : TriggerEngine} {fresh : Trigger → Option Nat → Prop} {t u : TaskId} {f f' : Fire}

theorem fire?_setFire (there : s.fire? t = some f) (u : TaskId) :
    (s.setFire t f').fire? u = if u = t then some f' else s.fire? u := by
  have inside : t < s.tasks.length := by
    by_contra outside
    rw [fire?, List.getElem?_eq_none (not_lt.mp outside)] at there
    cases there
  by_cases same : u = t
  · subst same
    simp [fire?, setFire, List.getElem?_set_self inside]
  · simp [fire?, setFire, List.getElem?_set_ne (Ne.symm same), same]

theorem fire?_lt (there : s.fire? t = some f) : t < s.tasks.length := by
  by_contra outside
  rw [fire?, List.getElem?_eq_none (not_lt.mp outside)] at there
  cases there

@[simp] theorem fire?_updateState (k : StateId) (update : TriggerState → TriggerState) :
    (s.updateState k update).fire? t = s.fire? t := rfl

theorem triggers_updateState (k : StateId) {update : TriggerState → TriggerState}
    (keeps : ∀ ts, (update ts).trigger = ts.trigger) :
    (s.updateState k update).states.map TriggerState.trigger = s.states.map TriggerState.trigger := by
  refine List.ext_getElem? fun i => ?_
  simp only [updateState, List.getElem?_map, List.getElem?_modify]
  cases s.states[i]? with
  | none => rfl
  | some ts =>
    by_cases here : k = i
    · simp [here, keeps]
    · simp [here]

theorem fire?_addFire (u : TaskId) :
    (s.addFire f).fire? u = if u = s.tasks.length then some f else s.fire? u := by
  rcases lt_trichotomy u s.tasks.length with before | rfl | after
  · simp [fire?, addFire, List.getElem?_append_left before, before.ne]
  · simp [fire?, addFire]
  · have outside : (s.tasks ++ [some f]).length ≤ u := by rw [List.length_append]; exact after
    simp only [fire?, addFire, List.getElem?_eq_none outside, List.getElem?_eq_none after.le, after.ne', if_false]

/-- The task of somebody else is no fire. -/
theorem fire?_outside (u : TaskId) : ({ s with tasks := s.tasks ++ [none] } : TriggerEngine).fire? u = s.fire? u := by
  rcases lt_trichotomy u s.tasks.length with before | rfl | after
  · simp [fire?, List.getElem?_append_left before]
  · simp [fire?]
  · have outside : (s.tasks ++ [none]).length ≤ u := by rw [List.length_append]; exact after
    simp only [fire?, List.getElem?_eq_none outside, List.getElem?_eq_none after.le]

/-- What a step does that neither fires a macro nor ends a fire: tasks are made
for what `fresh` allows, and others give up or are told to. -/
structure Quiet (fresh : Trigger → Option Nat → Prop) (s s' : TriggerEngine) : Prop where
  macros : Cancelled s.macros s'.macros
  activeTriggerDepth : s'.activeTriggerDepth = s.activeTriggerDepth
  lastFiredMonotonic : s'.lastFiredMonotonic = s.lastFiredMonotonic
  firings : s'.firings = s.firings
  states : s'.states.map TriggerState.trigger = s.states.map TriggerState.trigger
  length : s.tasks.length ≤ s'.tasks.length
  kept : ∀ t f, s.fire? t = some f → ∃ f', s'.fire? t = some f' ∧ f.Keeps f'
  made : ∀ t f', s.fire? t = none → s'.fire? t = some f' →
    s.tasks.length ≤ t ∧ f'.pc.active = false ∧ (f'.pc.queues = true → f'.trigger.overlap = .queue) ∧
      fresh f'.trigger f'.stamp

/-- Changes that only the engine's own lists see. -/
theorem Quiet.lists (macros : s'.macros = s.macros) (depth : s'.activeTriggerDepth = s.activeTriggerDepth)
    (stamps : s'.lastFiredMonotonic = s.lastFiredMonotonic) (firings : s'.firings = s.firings)
    (states : s'.states.map TriggerState.trigger = s.states.map TriggerState.trigger)
    (tasks : s'.tasks = s.tasks) : Quiet fresh s s' where
  macros := macros ▸ .refl
  activeTriggerDepth := depth
  lastFiredMonotonic := stamps
  firings := firings
  states := states
  length := by rw [tasks]
  kept t f there := ⟨f, by rwa [fire?, tasks], .refl f⟩
  made t f' absent there := by
    rw [fire?, tasks] at there
    cases absent.symm.trans there

theorem Quiet.refl : Quiet fresh s s := .lists rfl rfl rfl rfl rfl rfl

theorem Quiet.trans (first : Quiet fresh s s') (second : Quiet fresh s' s'') : Quiet fresh s s'' where
  macros := first.macros.trans second.macros
  activeTriggerDepth := second.activeTriggerDepth.trans first.activeTriggerDepth
  lastFiredMonotonic := second.lastFiredMonotonic.trans first.lastFiredMonotonic
  firings := second.firings.trans first.firings
  states := second.states.trans first.states
  length := first.length.trans second.length
  kept t f there := by
    obtain ⟨f', between, keeps⟩ := first.kept t f there
    obtain ⟨f'', after, keeps'⟩ := second.kept t f' between
    exact ⟨f'', after, keeps.trans keeps'⟩
  made t f'' absent there := by
    cases between : s'.fire? t with
    | none =>
      obtain ⟨beyond, rest⟩ := second.made t f'' between there
      exact ⟨first.length.trans beyond, rest⟩
    | some f' =>
      obtain ⟨beyond, idle, queue, new⟩ := first.made t f' absent between
      obtain ⟨_, after, keeps⟩ := second.kept t f' between
      cases after.symm.trans there
      refine ⟨beyond, ?_, fun queued => keeps.trigger ▸ queue (keeps.queued queued), ?_⟩
      · rcases keeps.active with same | ⟨_, idle'⟩
        · rwa [same]
        · exact idle'
      · rw [keeps.trigger, keeps.stamp]
        exact new

theorem Quiet.setFire (there : s.fire? t = some f) (keeps : f.Keeps f') : Quiet fresh s (s.setFire t f') where
  macros := .refl
  activeTriggerDepth := rfl
  lastFiredMonotonic := rfl
  firings := rfl
  states := rfl
  length := by simp [TriggerEngine.setFire]
  kept u g at_u := by
    rw [fire?_setFire there]
    by_cases same : u = t
    · subst same
      cases there.symm.trans at_u
      exact ⟨f', if_pos rfl, keeps⟩
    · exact ⟨g, by rw [if_neg same, at_u], .refl g⟩
  made u g absent at_u := by
    rw [fire?_setFire there] at at_u
    by_cases same : u = t
    · subst same
      cases there.symm.trans absent
    · rw [if_neg same] at at_u
      cases absent.symm.trans at_u

theorem Quiet.updateState (k : StateId) {update : TriggerState → TriggerState}
    (keeps : ∀ ts, (update ts).trigger = ts.trigger) : Quiet fresh s (s.updateState k update) :=
  .lists rfl rfl rfl rfl (triggers_updateState k keeps) rfl

theorem Quiet.settle (there : s.fire? t = some f) (idle : f.pc.active = false) : Quiet fresh s (s.settle t f) :=
  .trans (.setFire there (.moved idle rfl rfl)) (.updateState _ fun _ => rfl)

theorem Quiet.skip (there : s.fire? t = some f) (idle : f.pc.active = false) (reason : SkipReason) :
    Quiet fresh s (s.setFire t { f with pc := .skipped reason }) := .setFire there (.moved idle rfl rfl)

theorem Quiet.addFire (idle : f.pc.active = false) (queue : f.pc.queues = true → f.trigger.overlap = .queue)
    (new : fresh f.trigger f.stamp) : Quiet fresh s (s.addFire f) where
  macros := .refl
  activeTriggerDepth := rfl
  lastFiredMonotonic := rfl
  firings := rfl
  states := rfl
  length := by simp [TriggerEngine.addFire]
  kept u g at_u := ⟨g, by rw [fire?_addFire, if_neg (fire?_lt at_u).ne, at_u], .refl g⟩
  made u g absent at_u := by
    rw [fire?_addFire] at at_u
    split at at_u
    · rename_i last
      cases at_u
      exact ⟨last.ge, idle, queue, new⟩
    · cases absent.symm.trans at_u

theorem Quiet.cancelFire : Quiet fresh s (s.cancelFire t) := by
  unfold TriggerEngine.cancelFire
  split
  · exact .refl
  · rename_i f there
    split
    · exact .refl
    · split
      · exact {
          macros := .single ⟨[t], rfl⟩
          activeTriggerDepth := rfl
          lastFiredMonotonic := rfl
          firings := rfl
          states := rfl
          length := le_rfl
          kept := fun u g at_u => ⟨g, at_u, .refl g⟩
          made := fun u g absent at_u => by cases absent.symm.trans at_u }
      · exact .setFire there ⟨⟨rfl, rfl, id, id⟩, Or.inl rfl⟩

theorem Quiet.cancelEarlier (earlier : Option TaskId) : Quiet fresh s (earlier.elim s s.cancelFire) := by
  cases earlier with
  | none => exact .refl
  | some t => exact .cancelFire

theorem Quiet.scheduleFire {k : StateId} {trigger : Trigger} {stamp : Option Nat} (new : fresh trigger stamp) :
    Quiet fresh s (s.scheduleFire k trigger stamp) := by
  unfold TriggerEngine.scheduleFire
  split
  · exact (Quiet.cancelEarlier _).trans ((Quiet.addFire rfl Bool.noConfusion new).trans (.updateState _ fun _ => rfl))
  · exact .addFire rfl Bool.noConfusion new

/-- A change that is let in makes one attempt, dated by the stamp it was checked against. -/
theorem Quiet.initiateFire {k : StateId} {ts : TriggerState}
    (new : s.coolingDown ts = false → fresh ts.trigger (s.lastFiredMonotonic ts.trigger.id)) :
    Quiet fresh s (s.initiateFire k ts) := by
  unfold TriggerEngine.initiateFire
  split
  · exact .refl
  · split
    · exact .refl
    · rename_i cooled
      have new := new (Bool.not_eq_true _ ▸ cooled)
      simp only
      split
      · exact (Quiet.cancelEarlier _).trans ((Quiet.addFire rfl Bool.noConfusion new).trans (.updateState _ fun _ => rfl))
      · exact .scheduleFire new

theorem Quiet.cancelled (targets : List TaskId) : Quiet fresh s (targets.foldl TriggerEngine.cancelFire s) := by
  induction targets generalizing s with
  | nil => exact .refl
  | cons t targets ih => exact Quiet.cancelFire.trans ih

theorem Quiet.queuesCleared (l : List (TriggerId × StateId)) : Quiet fresh s
    (l.foldl (fun s u => s.updateState u.2 fun ts => { ts with pendingQueue := [] }) s) := by
  induction l generalizing s with
  | nil => exact .refl
  | cons u l ih =>
    have first : Quiet fresh s (s.updateState u.2 fun ts => { ts with pendingQueue := [] }) :=
      .updateState _ fun _ => rfl
    exact first.trans ih

/-- `_execute_trigger` of a waiting task: it fires, or gives up or waits further. -/
theorem executeTrigger_cases (there : s.fire? t = some f) (pending : f.pc.pending = true)
    (again : fresh f.trigger f.stamp) (holds : Bool) :
    Quiet fresh s (s.executeTrigger t f holds) ∨
      (holds = true ∧ s.decision f.trigger = .fire) ∧ s.executeTrigger t f holds = s.fireMacro t f := by
  have idle := Point.active_of_pending pending
  unfold TriggerEngine.executeTrigger
  split
  · exact Or.inl (.skip there idle _)
  · rename_i met
    split
    · exact Or.inl (.skip there idle _)
    · rename_i queue
      have overlap : f.trigger.overlap = .queue := by
        unfold TriggerEngine.decision at queue
        simp only at queue
        split at queue
        · split at queue <;> cases queue
        · split at queue
          · cases queue
          · split at queue <;> cases queue
        · assumption
      let waiting : Fire := { owner := f.owner, trigger := f.trigger, pc := .queued 0, stamp := f.stamp }
      have made : Quiet fresh (s.settle t f) ((s.settle t f).addFire waiting) := .addFire rfl (fun _ => overlap) again
      exact Or.inl ((Quiet.settle there idle).trans (made.trans (.updateState _ fun _ => rfl)))
    · rename_i fires
      exact Or.inr ⟨⟨by simpa using met, fires⟩, rfl⟩

theorem cancelPending_cases : ∃ s₁, Quiet fresh s s₁ ∧
    (s.pendingTasks ≠ [] ∧ s.cancelPending = s₁ ∨ s.pendingTasks = [] ∧ s.cancelPending = s₁.clearDepth) := by
  let s₁ := s.pendingTasks.foldl cancelFire s
  let s₂ := s₁.triggers.foldl (fun s u => s.updateState u.2 fun ts => { ts with pendingQueue := [] }) s₁
  let s₃ : TriggerEngine := { s₂ with startupTasks := [], stage := .draining }
  have quiet : Quiet fresh s s₃ :=
    (Quiet.cancelled _).trans ((Quiet.queuesCleared s₁.triggers).trans (.lists rfl rfl rfl rfl rfl rfl))
  refine ⟨s₃, quiet, ?_⟩
  unfold TriggerEngine.cancelPending
  by_cases none : s.pendingTasks = []
  · exact Or.inr ⟨none, if_pos none⟩
  · exact Or.inl ⟨none, if_neg none⟩

theorem Quiet.start {fireStartup : Bool}
    (new : fireStartup = true → ∀ k ts, (k, ts) ∈ s.liveStates → ts.trigger.enabled = true →
      ts.trigger.type = .startup → fresh ts.trigger (s.lastFiredMonotonic ts.trigger.id)) :
    Quiet fresh s (s.start fireStartup) where
  macros := .refl
  activeTriggerDepth := rfl
  lastFiredMonotonic := rfl
  firings := rfl
  states := rfl
  length := by simp [TriggerEngine.start]
  kept u g at_u := by
    refine ⟨g, ?_, .refl g⟩
    rw [← at_u]
    simp only [fire?, TriggerEngine.start]
    rw [List.getElem?_append_left (fire?_lt at_u)]
  made u g absent at_u := by
    simp only [fire?, TriggerEngine.start] at absent at_u
    by_cases inside : u < s.tasks.length
    · rw [List.getElem?_append_left inside] at at_u
      cases absent.symm.trans at_u
    · rw [List.getElem?_append_right (not_lt.mp inside)] at at_u
      have found := List.mem_of_getElem? (Option.join_eq_some_iff.mp at_u)
      obtain ⟨⟨k, ts⟩, member, same⟩ := List.mem_map.mp found
      cases same
      refine ⟨not_lt.mp inside, rfl, Bool.noConfusion, ?_⟩
      split at member
      · rename_i asked
        simp only [List.mem_filter, decide_eq_true_eq] at member
        obtain ⟨⟨live, enabled⟩, startup⟩ := member
        exact new asked k ts live enabled startup
      · cases member

/-- The task, resumed, goes on to `_fire_macro`. -/
def fires (s : TriggerEngine) (f : Fire) (matched holds : Bool) : Bool :=
  match f.pc with
  | .startup => decide (s.stage = .running) && holds && decide (s.decision f.trigger = .fire)
  | .delaying => decide (s.stage = .running) && !(decide (f.trigger.type = .stateChange) && !matched) && holds &&
      decide (s.decision f.trigger = .fire)
  | .spawned => holds && decide (s.decision f.trigger = .fire)
  | .queued _ => decide (s.stage = .running) && f.trigger.enabled && holds &&
      !s.macros.isMacroRunning f.trigger.macroId
  | _ => false

/-- It has passed the checks of `_execute_trigger`, or those of `_queued_fire`. -/
theorem passes_of_fires {matched holds : Bool} (fires : s.fires f matched holds = true) : f.pc.pending = true ∧
    (s.decision f.trigger = .fire ∨ f.pc.queues = true ∧ s.macros.isMacroRunning f.trigger.macroId = false) := by
  unfold TriggerEngine.fires at fires
  cases pc : f.pc <;> simp_all [Point.pending, Point.queues]

/-- The step empties `_active_trigger_depth`. -/
def clears (s : TriggerEngine) : Label → Bool
  | .stop => !s.cronTask && s.pendingTasks.isEmpty
  | .stopGoesOn => decide (s.stage = .draining) || (decide (s.stage = .awaitingCron) && s.pendingTasks.isEmpty)
  | _ => false

/-- All that one step of the engine can be. -/
inductive Effect (macros : MacroId → Option Macro) (fresh : Trigger → Option Nat → Prop) (s : TriggerEngine)
    (l : Label) : TriggerEngine → Prop
  | quiet {s' : TriggerEngine} : Quiet fresh s s' → Effect macros fresh s l s'
  | cleared {s' : TriggerEngine} : s.clears l = true → Quiet fresh s s' → Effect macros fresh s l s'.clearDepth
  | loaded {triggers : List Trigger} : l = .load triggers → Effect macros fresh s l (s.load triggers)
  | fired {t : TaskId} {f : Fire} {matched holds : Bool} : l = .resume t (.ok matched holds) → s.fire? t = some f →
      s.fires f matched holds = true → Effect macros fresh s l (s.fireMacro t f)
  | lost {t : TaskId} {f : Fire} : l = .resume t .cancelled → s.fire? t = some f → f.pc = .fired →
      Effect macros fresh s l (s.settle t f)
  | entered {t : TaskId} {f : Fire} {E : MacroEngine} {chain : Finset MacroId} : l = .enter t chain →
      s.fire? t = some f → f.pc = .fired → s.macros.execute macros t f.trigger.macroId chain [] = some E →
      Effect macros fresh s l { s.setFire t { f with pc := .executing s.macros.nextRun } with macros := E }
  | refused {t : TaskId} {f : Fire} : s.fire? t = some f → f.pc = .fired →
      Effect macros fresh s l (s.finishFire t f false)
  | engine {el : MacroEngine.Label} {escaped : Bool} {E : MacroEngine} : l = .engine el escaped →
      s.callsFrom el = true → s.macros.next macros el = some E → Effect macros fresh s l { s with macros := E }
  | ended {t : TaskId} {wake : OpenAvc.Wake} {escaped : Bool} {f : Fire} {E : MacroEngine} :
      l = .engine (.resume t wake) escaped → s.macros.next macros (.resume t wake) = some E → s.fire? t = some f →
      f.pc.executes = true → (E.tasks t).stack = [] →
      Effect macros fresh s l (({ s with macros := E } : TriggerEngine).finishFire t f escaped)

variable {macros : MacroId → Option Macro} {l : Label}

theorem executeTrigger_effect {matched holds : Bool} (label : l = .resume t (.ok matched holds))
    (there : s.fire? t = some f) (pending : f.pc.pending = true) (again : fresh f.trigger f.stamp)
    (fires : holds = true → s.decision f.trigger = .fire → s.fires f matched holds = true) :
    Effect macros fresh s l (s.executeTrigger t f holds) := by
  rcases executeTrigger_cases there pending again holds with quiet | ⟨⟨met, decided⟩, same⟩
  · exact .quiet quiet
  · rw [same]
    exact .fired label there (fires met decided)

theorem proceed_effect {matched holds : Bool} (label : l = .resume t (.ok matched holds)) (there : s.fire? t = some f)
    (again : f.pc.pending = true → fresh f.trigger f.stamp) (run : s.proceed t f matched holds = some s') :
    Effect macros fresh s l s' := by
  unfold TriggerEngine.proceed at run
  cases at_pc : f.pc with
  | startup =>
    simp only [at_pc] at run
    have pending : f.pc.pending = true := by rw [at_pc]; rfl
    split at run <;> cases run
    · rename_i running
      exact executeTrigger_effect label there pending (again pending) fun met decided => by
        simp [TriggerEngine.fires, at_pc, running, met, decided]
    · exact .quiet (.settle there (Point.active_of_pending pending))
  | debouncing =>
    simp only [at_pc] at run
    have pending : f.pc.pending = true := by rw [at_pc]; rfl
    have settled : Quiet fresh s (s.settle t f) := .settle there (Point.active_of_pending pending)
    split at run <;> cases run
    · exact .quiet (settled.trans (.scheduleFire (again pending)))
    · exact .quiet settled
  | delaying =>
    simp only [at_pc] at run
    have pending : f.pc.pending = true := by rw [at_pc]; rfl
    have idle := Point.active_of_pending pending
    split at run
    · cases run
      exact .quiet (.settle there idle)
    · rename_i running
      split at run
      · cases run
        exact .quiet (.skip there idle _)
      · rename_i still
        split at run <;> cases run
        · exact .quiet (.skip there idle _)
        · refine executeTrigger_effect label there pending (again pending) fun met decided => ?_
          have running : s.stage = .running := not_not.mp running
          have still : (decide (f.trigger.type = .stateChange) && !matched) = false := Bool.not_eq_true _ ▸ still
          simp only [TriggerEngine.fires, at_pc, running, still, met, decided, decide_true, Bool.not_false, Bool.and_true]
  | spawned =>
    simp only [at_pc] at run
    cases run
    have pending : f.pc.pending = true := by rw [at_pc]; rfl
    exact executeTrigger_effect label there pending (again pending) fun met decided => by
      simp [TriggerEngine.fires, at_pc, met, decided]
  | queued polls =>
    simp only [at_pc] at run
    have pending : f.pc.pending = true := by rw [at_pc]; rfl
    have idle := Point.active_of_pending pending
    have settled : Quiet fresh s (s.settle t f) := .settle there idle
    split at run
    · cases run
      exact .quiet settled
    · rename_i running
      split at run
      · split at run <;> cases run
        · exact .quiet (.setFire there ⟨⟨rfl, rfl, fun _ => pending, fun _ => by rw [at_pc]; rfl⟩, Or.inr ⟨idle, rfl⟩⟩)
        · exact .quiet settled
      · rename_i idleMacro
        split at run <;> cases run
        · exact .quiet settled
        · rename_i met
          exact .fired label there (by simp_all [TriggerEngine.fires])
  | skipped reason =>
    simp only [at_pc] at run
    cases run
    exact .quiet (.settle there (by rw [at_pc]; rfl))
  | completed =>
    simp only [at_pc] at run
    cases run
    exact .quiet (.settle there (by rw [at_pc]; rfl))
  | fired | executing _ | ended => simp [at_pc] at run

/-- Every step of the engine has one of its effects. `fresh` is to hold of the
attempts that the step begins, and of those still on their way. -/
theorem next_effect (going : ∀ t f, s.fire? t = some f → f.pc.pending = true → fresh f.trigger f.stamp)
    (begun : ∀ k ts, l = .change k → s.states[k]? = some ts → s.coolingDown ts = false →
      fresh ts.trigger (s.lastFiredMonotonic ts.trigger.id))
    (startup : l = .start true → ∀ k ts, (k, ts) ∈ s.liveStates → ts.trigger.enabled = true →
      ts.trigger.type = .startup → fresh ts.trigger (s.lastFiredMonotonic ts.trigger.id))
    (run : s.next macros l = some s') : Effect macros fresh s l s' := by
  cases l with
  | load triggers =>
    simp only [TriggerEngine.next] at run
    split at run <;> cases run
    exact .loaded rfl
  | start fireStartup =>
    simp only [TriggerEngine.next] at run
    split at run <;> cases run
    exact .quiet (.start fun asked => startup (asked ▸ rfl))
  | stop =>
    simp only [TriggerEngine.next, TriggerEngine.stop] at run
    split at run
    · split at run <;> cases run
      · exact .quiet (.lists rfl rfl rfl rfl rfl rfl)
      · rename_i noCron
        obtain ⟨s₁, (quiet : Quiet fresh s s₁), ⟨_, same⟩ | ⟨none, same⟩⟩ := cancelPending_cases
        · rw [same]
          exact .quiet quiet
        · rw [same]
          exact .cleared (by simp [TriggerEngine.clears, noCron, none]) quiet
    · cases run
  | stopGoesOn =>
    simp only [TriggerEngine.next] at run
    split at run
    · rename_i at_stage
      cases run
      obtain ⟨s₁, (quiet : Quiet fresh s s₁), ⟨_, same⟩ | ⟨none, same⟩⟩ := cancelPending_cases
      · rw [same]
        exact .quiet quiet
      · rw [same]
        exact .cleared (by simp [TriggerEngine.clears, at_stage, none]) quiet
    · rename_i at_stage
      cases run
      exact .cleared (by simp [TriggerEngine.clears, at_stage]) .refl
    · cases run
  | change k =>
    simp only [TriggerEngine.next] at run
    obtain ⟨ts, at_k, rest⟩ := Option.bind_eq_some_iff.mp run
    split at rest <;> cases rest
    exact .quiet (.initiateFire fun cooled => begun k ts rfl at_k cooled)
  | resume t wake =>
    simp only [TriggerEngine.next] at run
    obtain ⟨f, there, rest⟩ := Option.bind_eq_some_iff.mp run
    cases wake with
    | ok matched holds =>
      simp only at rest
      split at rest
      · cases rest
      · exact proceed_effect rfl there (going t f there) rest
    | cancelled =>
      simp only at rest
      split at rest <;> cases rest
      rename_i cancels
      by_cases at_pc : f.pc = .fired
      · exact .lost rfl there at_pc
      · refine .quiet (.settle there ?_)
        cases pc : f.pc <;> simp_all [Point.active, Point.executes]
  | enter t chain =>
    simp only [TriggerEngine.next] at run
    obtain ⟨f, there, rest⟩ := Option.bind_eq_some_iff.mp run
    split at rest <;> cases rest
    rename_i ready
    have at_pc : f.pc = .fired := by simp at ready; exact ready.1
    unfold TriggerEngine.enterMacro
    split
    · rename_i entered
      exact .entered rfl there at_pc entered
    · exact .refused there at_pc
  | outside =>
    cases run
    refine .quiet ⟨.refl, rfl, rfl, rfl, rfl, by simp, fun u g at_u => ⟨g, ?_, .refl g⟩, fun u g absent at_u => ?_⟩
    · rw [fire?_outside, at_u]
    · rw [fire?_outside] at at_u
      cases absent.symm.trans at_u
  | engine el escaped =>
    simp only [TriggerEngine.next] at run
    split at run
    · rename_i calls
      obtain ⟨E, step, rest⟩ := Option.map_eq_some_iff.mp run
      subst rest
      cases el with
      | resume t wake =>
        simp only [TriggerEngine.leaveMacro]
        split
        · rename_i f there
          split
          · rename_i ended
            obtain ⟨executes, empty⟩ := Bool.and_eq_true _ _ ▸ ended
            exact .ended rfl step there executes (List.isEmpty_iff.mp empty)
          · exact .engine rfl calls step
        · exact .engine rfl calls step
      | call | pluginCall | cancel | cancelAll | tick => exact .engine rfl calls step
    · cases run
  | wall now =>
    cases run
    exact .quiet (.lists rfl rfl rfl rfl rfl rfl)

theorem fire?_fireMacro (there : s.fire? t = some f) (u : TaskId) :
    (s.fireMacro t f).fire? u = if u = t then some { f with pc := .fired } else s.fire? u := fire?_setFire there u

@[simp] theorem macros_fireMacro : (s.fireMacro t f).macros = s.macros := rfl

@[simp] theorem activeTriggerDepth_fireMacro : (s.fireMacro t f).activeTriggerDepth =
    Function.update s.activeTriggerDepth f.trigger.id (s.activeTriggerDepth f.trigger.id + 1) := rfl

@[simp] theorem lastFiredMonotonic_fireMacro : (s.fireMacro t f).lastFiredMonotonic =
    Function.update s.lastFiredMonotonic f.trigger.id (some s.macros.clock) := rfl

@[simp] theorem firings_fireMacro : (s.fireMacro t f).firings = Function.update s.firings f.trigger.id
    ((f.trigger.cooldownSeconds, s.macros.clock) :: s.firings f.trigger.id) := rfl

theorem fire?_settle (there : s.fire? t = some f) (u : TaskId) :
    (s.settle t f).fire? u = if u = t then some { f with pc := .ended } else s.fire? u := fire?_setFire there u

theorem fire?_finishFire (there : s.fire? t = some f) (escaped : Bool) (u : TaskId) : (s.finishFire t f escaped).fire? u =
    if u = t then some { f with pc := if escaped then .ended else .completed } else s.fire? u := by
  cases escaped <;> exact fire?_setFire there u

/-- Where the fires after a step come from. -/
theorem Effect.origin (effect : Effect macros fresh s l s') {f' : Fire} (there' : s'.fire? t = some f') :
    (∃ f, s.fire? t = some f ∧ f.Leads f') ∨ s.tasks.length ≤ t ∧ f'.pc.active = false ∧
      (f'.pc.queues = true → f'.trigger.overlap = .queue) ∧ fresh f'.trigger f'.stamp := by
  have moved : ∀ {u f pc}, s.fire? u = some f → pc.pending = false →
      (if t = u then some { f with pc := pc } else s.fire? t) = some f' → ∃ g, s.fire? t = some g ∧ g.Leads f' := by
    intro u f pc there past found
    split at found
    · rename_i same
      cases found
      exact ⟨f, same ▸ there, .moved past⟩
    · exact ⟨f', found, .refl f'⟩
  have quiet : ∀ {s₁}, Quiet fresh s s₁ → s₁.fire? t = some f' → (∃ f, s.fire? t = some f ∧ f.Leads f') ∨
      s.tasks.length ≤ t ∧ f'.pc.active = false ∧ (f'.pc.queues = true → f'.trigger.overlap = .queue) ∧
        fresh f'.trigger f'.stamp := by
    intro s₁ quiet there'
    cases there : s.fire? t with
    | none => exact Or.inr (quiet.made t f' there there')
    | some f =>
      obtain ⟨g, at_t, keeps⟩ := quiet.kept t f there
      cases at_t.symm.trans there'
      exact Or.inl ⟨f, rfl, keeps.toLeads⟩
  cases effect with
  | quiet step => exact quiet step there'
  | cleared _ step => exact quiet step there'
  | loaded _ => exact Or.inl ⟨f', there', .refl f'⟩
  | fired _ there _ => exact Or.inl (moved there rfl (fire?_fireMacro there _ ▸ there'))
  | lost _ there _ => exact Or.inl (moved there rfl (fire?_settle there _ ▸ there'))
  | entered _ there _ _ => exact Or.inl (moved there rfl (fire?_setFire there _ ▸ there'))
  | refused there _ => exact Or.inl (moved there rfl (fire?_finishFire there false _ ▸ there'))
  | engine _ _ _ => exact Or.inl ⟨f', there', .refl f'⟩
  | @ended _ _ escaped _ E _ _ there _ _ =>
    have there₀ : ({ s with macros := E } : TriggerEngine).fire? _ = some _ := there
    exact Or.inl (moved there (by cases escaped <;> rfl) (fire?_finishFire there₀ escaped _ ▸ there'))

theorem triggers_settle : (s.settle t f).states.map TriggerState.trigger = s.states.map TriggerState.trigger :=
  triggers_updateState (s := s.setFire t { f with pc := .ended }) _ fun _ => rfl

theorem triggers_fireMacro : (s.fireMacro t f).states.map TriggerState.trigger = s.states.map TriggerState.trigger :=
  triggers_updateState (s := s.setFire t { f with pc := .fired }) _ fun _ => rfl

end TriggerEngine

end OpenAvc.Triggers
