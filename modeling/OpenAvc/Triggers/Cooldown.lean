import OpenAvc.Triggers.Inside

/-! How far apart the firings of a trigger are. -/

namespace OpenAvc.Triggers.TriggerEngine

variable {macros : MacroId → Option Macro} {s s' : TriggerEngine} {l : Label} {t : TaskId} {f : Fire}

/-- An attempt that was checked against `stamp` has its cooldown behind it. -/
def Cooled (s : TriggerEngine) (trigger : Trigger) (stamp : Option Nat) : Prop :=
  ∀ b, stamp = some b → b + trigger.cooldownSeconds ≤ s.macros.clock

/-- Of two successive firings of an id the later one has waited its cooldown. -/
def Spaced (s : TriggerEngine) (id : TriggerId) : Prop :=
  (s.firings id).IsChain fun later earlier => earlier.2 + later.1 ≤ later.2

/-- No attempt goes by a check that is out of date: none fires once another one
has since its own check, and a startup trigger, which is not checked, is begun
when the check would let it in. -/
def Timely (s : TriggerEngine) : Label → Bool
  | .resume t (.ok matched holds) => (s.fire? t).all fun f => !s.fires f matched holds ||
      (s.lastFiredMonotonic f.trigger.id).all fun b => decide (f.stamp = some b)
  | .start true => s.liveStates.all fun u =>
      !(u.2.trigger.enabled && decide (u.2.trigger.type = .startup)) || !s.coolingDown u.2
  | _ => true

/-- The stamps and the attempts on their way agree with the firings. -/
structure Stamped (s : TriggerEngine) : Prop where
  last : ∀ id, s.lastFiredMonotonic id = (s.firings id).head?.map Prod.snd
  past : ∀ id, ∀ firing ∈ s.firings id, firing.2 ≤ s.macros.clock
  cooled : ∀ t f, s.fire? t = some f → f.pc.pending = true → s.Cooled f.trigger f.stamp
  spaced : ∀ id, s.Spaced id

theorem Stamped.stamp_past (stamped : s.Stamped) {id : TriggerId} {b : Nat} (last : s.lastFiredMonotonic id = some b) :
    b ≤ s.macros.clock := by
  rw [stamped.last] at last
  obtain ⟨firing, head, rfl⟩ := Option.map_eq_some_iff.mp last
  exact stamped.past id firing (List.mem_of_mem_head? head)

/-- What the check lets in has its cooldown behind it. -/
theorem Stamped.cooled_of_check (stamped : s.Stamped) {ts : TriggerState} (check : s.coolingDown ts = false) :
    s.Cooled ts.trigger (s.lastFiredMonotonic ts.trigger.id) := by
  intro b last
  have past := stamped.stamp_past last
  simp only [coolingDown, last, Bool.and_eq_false_iff, decide_eq_false_iff_not] at check
  omega

theorem Timely.fired {matched holds : Bool} (timely : s.Timely (.resume t (.ok matched holds)) = true)
    (there : s.fire? t = some f) (fires : s.fires f matched holds = true) {b : Nat}
    (last : s.lastFiredMonotonic f.trigger.id = some b) : f.stamp = some b := by
  simpa [Timely, there, fires, last] using timely

theorem Timely.started (timely : s.Timely (.start true) = true) {k : StateId} {ts : TriggerState}
    (live : (k, ts) ∈ s.liveStates) (enabled : ts.trigger.enabled = true) (startup : ts.trigger.type = .startup) :
    s.coolingDown ts = false := by
  have each := List.all_eq_true.mp timely _ live
  simpa [enabled, startup] using each

theorem Stamped.fireMacro (stamped : s.Stamped) (there : s.fire? t = some f) (pending : f.pc.pending = true)
    (fresh : ∀ b, s.lastFiredMonotonic f.trigger.id = some b → f.stamp = some b) : (s.fireMacro t f).Stamped where
  last id := by
    rw [lastFiredMonotonic_fireMacro, firings_fireMacro]
    by_cases same : id = f.trigger.id
    · simp [same]
    · simp [same, stamped.last id]
  past id firing member := by
    rw [firings_fireMacro] at member
    by_cases same : id = f.trigger.id
    · subst same
      rw [Function.update_self] at member
      rcases List.mem_cons.mp member with rfl | before
      · exact le_rfl
      · exact stamped.past _ firing before
    · rw [Function.update_of_ne same] at member
      exact stamped.past id firing member
  cooled u g at_u waits := by
    rw [fire?_fireMacro there] at at_u
    split at at_u
    · cases at_u
      cases waits
    · exact stamped.cooled u g at_u waits
  spaced id := by
    unfold Spaced
    rw [firings_fireMacro]
    by_cases same : id = f.trigger.id
    · subst same
      rw [Function.update_self]
      have spaced := stamped.spaced f.trigger.id
      have last := stamped.last f.trigger.id
      unfold Spaced at spaced
      cases firings : s.firings f.trigger.id with
      | nil => exact .singleton _
      | cons earlier before =>
        rw [firings] at spaced last
        exact .cons_cons (stamped.cooled t f there pending _ (fresh _ last)) spaced
    · rw [Function.update_of_ne same]
      exact stamped.spaced id

/-- Nothing is fired and no id is dropped. -/
theorem Stamped.kept (stamped : s.Stamped) (later : s.macros.clock ≤ s'.macros.clock)
    (stamps : s'.lastFiredMonotonic = s.lastFiredMonotonic) (firings : s'.firings = s.firings)
    (cooled : ∀ t f, s'.fire? t = some f → f.pc.pending = true → s'.Cooled f.trigger f.stamp) : s'.Stamped where
  last id := by rw [stamps, firings, stamped.last]
  past id firing member := (stamped.past id firing (firings ▸ member)).trans later
  cooled := cooled
  spaced id := by
    unfold Spaced
    rw [firings]
    exact stamped.spaced id

theorem Stamped.effect (stamped : s.Stamped) (timely : s.Timely l = true)
    (later : s.macros.clock ≤ s'.macros.clock) (effect : Effect macros s.Cooled s l s') : s'.Stamped := by
  have cooled : ∀ t f, s'.fire? t = some f → f.pc.pending = true → s'.Cooled f.trigger f.stamp := by
    intro t f' there' waits b at_stamp
    refine le_trans ?_ later
    rcases effect.origin there' with ⟨f, there, leads⟩ | ⟨_, _, _, made⟩
    · rw [leads.trigger]
      exact stamped.cooled t f there (leads.pending waits) b (leads.stamp ▸ at_stamp)
    · exact made b at_stamp
  cases effect with
  | quiet quiet => exact stamped.kept later quiet.lastFiredMonotonic quiet.firings cooled
  | cleared _ quiet => exact stamped.kept later quiet.lastFiredMonotonic quiet.firings cooled
  | @loaded triggers _ =>
    refine ⟨fun id => ?_, fun id => ?_, cooled, fun id => ?_⟩
    · simp only [load]
      split
      · exact stamped.last id
      · rfl
    · simp only [load]
      split
      · exact stamped.past id
      · exact nofun
    · simp only [Spaced, load]
      split
      · exact stamped.spaced id
      · exact .nil
  | fired label there fires =>
    subst label
    exact stamped.fireMacro there (passes_of_fires fires).1 fun b last => Timely.fired timely there fires last
  | lost _ _ _ => exact stamped.kept later rfl rfl cooled
  | entered _ _ _ _ => exact stamped.kept later rfl rfl cooled
  | refused _ _ => exact stamped.kept later rfl rfl cooled
  | engine _ _ _ => exact stamped.kept later rfl rfl cooled
  | @ended _ _ escaped _ _ _ _ _ _ _ => cases escaped <;> exact stamped.kept later rfl rfl cooled

/-- Unless an attempt goes by a check that is out of date, the firings of every
id are its cooldown apart, however the engine is reloaded. -/
theorem firings_spaced (macros : MacroId → Option Macro)
    (reach : Run.Reach (triggerMachine macros) (fun s l => s.Timely l = true) s) (id : TriggerId) : s.Spaced id := by
  have stamped : s.Stamped := by
    induction reach with
    | init start =>
      cases start
      exact ⟨fun _ => rfl, fun _ => nofun, fun _ _ there => absurd there fire?_new, fun _ => .nil⟩
    | @step s l s' previous timely run stamped =>
      have effect : Effect macros s.Cooled s l s' := by
        refine next_effect stamped.cooled (fun _ _ _ _ check => stamped.cooled_of_check check) ?_ run
        rintro rfl k ts live enabled startup
        exact stamped.cooled_of_check (Timely.started timely live enabled startup)
      exact stamped.effect timely (effect.clock (inside_sound previous).2) effect
  exact stamped.spaced id

/-- A trigger that waits ten ticks between its firings. -/
def everyTen : Trigger := { onEvent .allow with cooldownSeconds := 10 }

/-- Changes that come ten ticks apart fire it twice, also across a reload. -/
theorem firings_spaced_across_reload :
    ∃ s, (triggerMachine oneStep).run (fun s l => s.Timely l = true) {}
        [.wall 1000, .load [everyTen], .start true, .change 0, .resume 0 (.ok true true), .stop, .stopGoesOn,
          .load [everyTen], .start false, .engine (.tick 10) false, .change 1, .resume 1 (.ok true true)] = some s ∧
      s.firings "t" = [(10, 10), (10, 0)] ∧ s.Spaced "t" := by
  have reach : ∃ s, (triggerMachine oneStep).run (fun s l => s.Timely l = true) {}
      [.wall 1000, .load [everyTen], .start true, .change 0, .resume 0 (.ok true true), .stop, .stopGoesOn,
        .load [everyTen], .start false, .engine (.tick 10) false, .change 1, .resume 1 (.ok true true)] = some s ∧
      s.firings "t" = [(10, 10), (10, 0)] := ⟨_, rfl, rfl⟩
  obtain ⟨s, run, firings⟩ := reach
  exact ⟨s, run, firings, firings_spaced oneStep (.run (.init rfl) run) "t"⟩

/-- Two changes of one turn of the event loop are both let in, and both fire. -/
theorem firings_not_spaced :
    ¬ ∀ (macros : MacroId → Option Macro) (s : TriggerEngine) (id : TriggerId),
      Run.Reach (triggerMachine macros) Run.always s → s.Spaced id := by
  intro spaced
  have reach : ∃ s, (triggerMachine oneStep).run Run.always {}
      [.wall 1000, .load [everyTen], .start true, .change 0, .change 0, .resume 0 (.ok true true),
        .resume 1 (.ok true true)] = some s ∧ s.firings "t" = [(10, 0), (10, 0)] := ⟨_, rfl, rfl⟩
  obtain ⟨s, run, firings⟩ := reach
  have apart := spaced oneStep s "t" (.run (.init rfl) run)
  unfold Spaced at apart
  rw [firings] at apart
  cases apart with
  | cons_cons now _ => simp at now

end OpenAvc.Triggers.TriggerEngine
