import OpenAvc.Macro.Stems
import OpenAvc.Triggers.Effects

/-! What the steps of the trigger engine do to the macro engine under it. -/

namespace OpenAvc.Triggers

variable {macros : MacroId → Option Macro} {once : Prop} {E E' : MacroEngine} {t u : TaskId}

/-- Some steps of the macro engine; under `once` none of them enters a macro twice. -/
def Steps (macros : MacroId → Option Macro) (once : Prop) : MacroEngine → MacroEngine → Prop :=
  Relation.ReflTransGen fun E E' => ∃ quiet, MacroEngine.Effect macros once quiet E E'

theorem Steps.keeps {Q : MacroEngine → TaskId → List Frame → Prop} (kept : ∀ quiet, MacroEngine.Kept macros once quiet Q)
    (steps : Steps macros once E E') (start : ∀ u, Q E u (E.tasks u).stack) (u : TaskId) :
    Q E' u (E'.tasks u).stack := by
  induction steps generalizing u with
  | refl => exact start u
  | tail _ step ih =>
    obtain ⟨quiet, effect⟩ := step
    exact effect.keeps (kept quiet) ih u

theorem Cancelled.steps (cancelled : Cancelled E E') : Steps macros once E E' := by
  induction cancelled with
  | refl => exact .refl
  | tail _ step ih =>
    obtain ⟨targets, rfl⟩ := step
    exact ih.tail ⟨True, .cancel targets⟩

/-- Cancelling changes neither the stacks nor what is registered. -/
theorem Cancelled.same (cancelled : Cancelled E E') :
    E'.clock = E.clock ∧ E'.nextRun = E.nextRun ∧ E'.running = E.running ∧
      ∀ u, (E'.tasks u).stack = (E.tasks u).stack := by
  induction cancelled with
  | refl => exact ⟨rfl, rfl, rfl, fun _ => rfl⟩
  | tail _ step ih =>
    obtain ⟨targets, rfl⟩ := step
    obtain ⟨clock, nextRun, running, same⟩ := ih
    exact ⟨clock, nextRun, running, fun u => (MacroEngine.stack_cancelTasks targets).trans (same u)⟩

namespace TriggerEngine

variable {s s' : TriggerEngine} {fresh : Trigger → Option Nat → Prop} {f : Fire} {l : Label}

/-- A fire that is not in the macro engine has no calls there, and a task that
is still to be made has none. -/
structure Idle (s : TriggerEngine) : Prop where
  fires : ∀ t f, s.fire? t = some f → f.pc.executes = false → (s.macros.tasks t).stack = []
  further : ∀ t, s.tasks.length ≤ t → (s.macros.tasks t).stack = []

/-- The step is one of the macro engine, and a task enters a macro it is inside. -/
def Reenters (macros : MacroId → Option Macro) (s : TriggerEngine) : Label → Prop
  | .engine el _ => MacroEngine.Reenters macros s.macros el
  | _ => False

instance (macros : MacroId → Option Macro) (s : TriggerEngine) (l : Label) : Decidable (Reenters macros s l) := by
  unfold Reenters
  split <;> infer_instance

/-- The macro engine of a step is some steps on. -/
theorem Effect.steps (effect : Effect macros fresh s l s') (idle : s.Idle)
    (stacked : ∀ t, MacroEngine.Stacked (s.macros.tasks t).stack) :
    Steps macros (¬ s.Reenters macros l) s.macros s'.macros := by
  cases effect with
  | quiet quiet => exact quiet.macros.steps
  | cleared _ quiet => exact quiet.macros.steps
  | loaded _ => exact .refl
  | fired _ _ _ => exact .refl
  | lost _ _ _ => exact .refl
  | @entered t f E chain _ there at_pc entered =>
    have empty := idle.fires t f there (by rw [at_pc]; rfl)
    refine .single ⟨True, .run (t := t) (Or.inl rfl) ?_⟩
    rw [empty]
    exact .execute (by simp) (by simp) entered
  | refused _ _ => exact .refl
  | engine label _ step =>
    subst label
    exact .single ⟨_, MacroEngine.next_effect stacked step⟩
  | @ended _ _ escaped _ _ label step _ _ _ =>
    subst label
    cases escaped <;> exact .single ⟨_, MacroEngine.next_effect stacked step⟩

theorem Quiet.idle (quiet : Quiet fresh s s') (idle : s.Idle) : s'.Idle where
  fires t f' there' outside := by
    rw [quiet.macros.same.2.2.2]
    cases there : s.fire? t with
    | none => exact idle.further t (quiet.made t f' there there').1
    | some f =>
      obtain ⟨g, at_t, keeps⟩ := quiet.kept t f there
      cases at_t.symm.trans there'
      refine idle.fires t f there ?_
      rcases keeps.active with same | ⟨inactive, _⟩
      · rwa [← same]
      · cases pc : f.pc <;> simp_all [Point.active, Point.executes]
  further t beyond := by
    rw [quiet.macros.same.2.2.2]
    exact idle.further t (quiet.length.trans beyond)

theorem Idle.moved (idle : s.Idle) (there : s.fire? t = some f) (pc : Point)
    (empty : pc.executes = false → (s.macros.tasks t).stack = []) : (s.setFire t { f with pc := pc }).Idle where
  fires u g at_u outside := by
    rw [fire?_setFire there] at at_u
    split at at_u
    · rename_i same
      cases at_u
      exact same ▸ empty outside
    · exact idle.fires u g at_u outside
  further u beyond := idle.further u (by simpa [setFire] using beyond)

/-- A step of the macro engine runs in a task that is in it, or that somebody else made. -/
theorem Idle.stepped (idle : s.Idle) (stacked : ∀ t, MacroEngine.Stacked (s.macros.tasks t).stack)
    {el : MacroEngine.Label} (calls : s.callsFrom el = true) (step : s.macros.next macros el = some E) :
    ({ s with macros := E } : TriggerEngine).Idle := by
  have others := (MacroEngine.next_stems stacked step).2.2.1
  have stays : ∀ u, (s.macros.tasks u).stack = [] → (∃ f, s.fire? u = some f) ∨ s.tasks.length ≤ u →
      (E.tasks u).stack = [] := by
    intro u empty known
    by_cases runs : el.task = some u
    · obtain ⟨m, chain, rfl⟩ := MacroEngine.call_of_empty step runs empty
      simp only [callsFrom, Bool.and_eq_true, decide_eq_true_eq, Option.isNone_iff_eq_none] at calls
      rcases known with ⟨f, there⟩ | beyond
      · cases calls.2.symm.trans there
      · exact absurd calls.1 (not_lt.mpr beyond)
    · rw [others u runs, empty]
  exact ⟨fun u f there outside => stays u (idle.fires u f there outside) (Or.inl ⟨f, there⟩),
    fun u beyond => stays u (idle.further u beyond) (Or.inr beyond)⟩

theorem Idle.finishFire (idle : s.Idle) (there : s.fire? t = some f) (empty : (s.macros.tasks t).stack = [])
    (escaped : Bool) : (s.finishFire t f escaped).Idle := by
  cases escaped
  · have moved := idle.moved there .completed fun _ => empty
    exact ⟨moved.fires, moved.further⟩
  · have moved := idle.moved there .ended fun _ => empty
    exact ⟨moved.fires, moved.further⟩

theorem Effect.idle (effect : Effect macros fresh s l s') (idle : s.Idle)
    (stacked : ∀ t, MacroEngine.Stacked (s.macros.tasks t).stack) : s'.Idle := by
  cases effect with
  | quiet quiet => exact quiet.idle idle
  | cleared _ quiet =>
    have idle := quiet.idle idle
    exact ⟨idle.fires, idle.further⟩
  | loaded _ => exact ⟨idle.fires, idle.further⟩
  | @fired t f _ _ _ there fires =>
    have pending := (passes_of_fires fires).1
    have waits : f.pc.executes = false := by cases pc : f.pc <;> simp_all [Point.pending, Point.executes]
    have moved := idle.moved there .fired fun _ => idle.fires t f there waits
    exact ⟨moved.fires, moved.further⟩
  | @lost t f _ there at_pc =>
    have moved := idle.moved there .ended fun _ => idle.fires t f there (by rw [at_pc]; rfl)
    exact ⟨moved.fires, moved.further⟩
  | @entered t f E chain _ there at_pc entered =>
    have near := (MacroEngine.Stems.execute (List.Subset.refl _) entered).toNear
    have moved := idle.moved there (.executing s.macros.nextRun) Bool.noConfusion
    have inside := fire?_lt there
    refine ⟨fun u g at_u outside => ?_, fun u beyond => ?_⟩
    · have at_u : (s.setFire t { f with pc := .executing s.macros.nextRun }).fire? u = some g := at_u
      by_cases same : u = t
      · rw [fire?_setFire there, if_pos same] at at_u
        cases at_u
        cases outside
      · exact (near.others u same).trans (moved.fires u g at_u outside)
    · have beyond : s.tasks.length ≤ u := by simpa [setFire] using beyond
      exact (near.others u (inside.trans_le beyond).ne').trans (idle.further u beyond)
  | @refused t f there at_pc => exact idle.finishFire there (idle.fires t f there (by rw [at_pc]; rfl)) false
  | engine _ calls step => exact idle.stepped stacked calls step
  | @ended t wake escaped f E _ step there _ empty =>
    have stepped : ({ s with macros := E } : TriggerEngine).Idle := idle.stepped stacked rfl step
    have there₀ : ({ s with macros := E } : TriggerEngine).fire? t = some f := there
    exact stepped.finishFire there₀ empty escaped

/-- In every reached engine the stacks of the macro engine are in order, and
those of the fires outside it are empty. -/
theorem inside_sound {ok : TriggerEngine → Label → Prop} (reach : Run.Reach (triggerMachine macros) ok s) :
    s.Idle ∧ ∀ t, MacroEngine.Stacked (s.macros.tasks t).stack := by
  induction reach with
  | init start =>
    cases start
    exact ⟨⟨fun _ _ there => absurd there fire?_new, fun _ _ => rfl⟩, fun _ => trivial⟩
  | step _ _ run ih =>
    obtain ⟨idle, stacked⟩ := ih
    have effect : Effect macros (fun _ _ => True) _ _ _ := next_effect (fun _ _ _ _ => trivial)
      (fun _ _ _ _ _ => trivial) (fun _ _ _ _ _ _ => trivial) run
    exact ⟨effect.idle idle stacked,
      (effect.steps idle stacked).keeps (fun _ => MacroEngine.stacked_kept) stacked⟩

theorem Effect.clock (effect : Effect macros fresh s l s')
    (stacked : ∀ t, MacroEngine.Stacked (s.macros.tasks t).stack) : s.macros.clock ≤ s'.macros.clock := by
  cases effect with
  | quiet quiet => exact quiet.macros.same.1.ge
  | cleared _ quiet => exact quiet.macros.same.1.ge
  | loaded _ => exact le_rfl
  | fired _ _ _ => exact le_rfl
  | lost _ _ _ => exact le_rfl
  | entered _ _ _ entered => exact (MacroEngine.Stems.execute (List.Subset.refl _) entered).clock.ge
  | refused _ _ => exact le_rfl
  | engine _ _ step => exact (MacroEngine.next_stems stacked step).1
  | @ended _ _ escaped _ _ _ step _ _ _ => cases escaped <;> exact (MacroEngine.next_stems stacked step).1

end TriggerEngine

end OpenAvc.Triggers
