import Mathlib.Data.Finset.Card
import Mathlib.Data.Finset.Range
import OpenAvc.Triggers.Effects

/-! How many fires of a trigger are under way, and what its count tells of that. -/

namespace OpenAvc.Triggers.TriggerEngine

variable {s s' : TriggerEngine} {fresh : Trigger → Option Nat → Prop} {t : TaskId} {f f' : Fire} {p : Trigger → Bool}
  {id : TriggerId}

/-- The fires, of triggers that `p` holds of, that have raised the count and not ended. -/
def active (s : TriggerEngine) (p : Trigger → Bool) : Finset TaskId :=
  (Finset.range s.tasks.length).filter fun t => (s.fire? t).any fun f => p f.trigger && f.pc.active

def ofId (id : TriggerId) (trigger : Trigger) : Bool := trigger.id = id

def ofIdAllowing (id : TriggerId) (trigger : Trigger) : Bool := ofId id trigger && trigger.overlap = .allow

@[simp] theorem mem_active : t ∈ s.active p ↔ ∃ f, s.fire? t = some f ∧ p f.trigger = true ∧ f.pc.active = true := by
  simp only [active, Finset.mem_filter, Finset.mem_range, Option.any_eq_true, Bool.and_eq_true]
  constructor
  · exact fun member => member.2
  · rintro ⟨f, there, rest⟩
    exact ⟨fire?_lt there, f, there, rest⟩

theorem Fire.Keeps.active_iff {f f' : Fire} (keeps : f.Keeps f') : f'.pc.active = true ↔ f.pc.active = true := by
  rcases keeps.active with same | ⟨before, after⟩
  · rw [same]
  · rw [before, after]

theorem Quiet.active (quiet : Quiet fresh s s') (p : Trigger → Bool) : s'.active p = s.active p := by
  ext t
  simp only [mem_active]
  constructor
  · rintro ⟨f', there', rest, active⟩
    cases there : s.fire? t with
    | none =>
      have idle := (quiet.made t f' there there').2.1
      rw [idle] at active
      cases active
    | some f =>
      obtain ⟨g, at_t, keeps⟩ := quiet.kept t f there
      cases at_t.symm.trans there'
      exact ⟨f, rfl, keeps.trigger ▸ rest, (Fire.Keeps.active_iff keeps).mp active⟩
  · rintro ⟨f, there, rest, active⟩
    obtain ⟨f', there', keeps⟩ := quiet.kept t f there
    exact ⟨f', there', keeps.trigger.symm ▸ rest, (Fire.Keeps.active_iff keeps).mpr active⟩

theorem active_moved (there : s.fire? t = some f) (pc : Point) (p : Trigger → Bool) :
    (s.setFire t { f with pc := pc }).active p =
      if p f.trigger && pc.active then insert t (s.active p) else (s.active p).erase t := by
  ext u
  by_cases at_t : u = t
  · subst at_t
    split <;> simp_all [fire?_setFire there]
  · split <;> simp [fire?_setFire there, at_t]

theorem notMem_active (there : s.fire? t = some f) (idle : f.pc.active = false) : t ∉ s.active p := by
  simp [there, idle]

theorem mem_active_of (there : s.fire? t = some f) (active : f.pc.active = true) (holds : p f.trigger = true) :
    t ∈ s.active p := by
  simp [there, active, holds]

/-- The counts agree with the fires. -/
def Accounts (s : TriggerEngine) : Prop := ∀ id, s.activeTriggerDepth id = (s.active (ofId id)).card

theorem Accounts.fireMacro (accounts : s.Accounts) (there : s.fire? t = some f) (idle : f.pc.active = false) :
    (s.fireMacro t f).Accounts := by
  intro id
  have after : (s.fireMacro t f).active (ofId id) = (s.setFire t { f with pc := .fired }).active (ofId id) := rfl
  have absent := notMem_active (p := ofId id) there idle
  rw [after, activeTriggerDepth_fireMacro, active_moved there]
  by_cases here : f.trigger.id = id
  · subst here
    have fires : (ofId f.trigger.id f.trigger && Point.fired.active) = true := by simp [ofId, Point.active]
    rw [Function.update_self, if_pos fires, Finset.card_insert_of_notMem absent, accounts]
  · have other : (ofId id f.trigger && Point.fired.active) ≠ true := by simp [ofId, here]
    rw [Function.update_of_ne (Ne.symm here), if_neg other, Finset.erase_eq_of_notMem absent, accounts]

/-- A fire that ends lowers the count. -/
theorem Accounts.finishFire (accounts : s.Accounts) (there : s.fire? t = some f) (active : f.pc.active = true)
    (escaped : Bool) : (s.finishFire t f escaped).Accounts := by
  intro id
  have after : ∃ pc, pc.active = false ∧
      (s.finishFire t f escaped).active (ofId id) = (s.setFire t { f with pc := pc }).active (ofId id) ∧
      (s.finishFire t f escaped).activeTriggerDepth =
        Function.update s.activeTriggerDepth f.trigger.id (s.activeTriggerDepth f.trigger.id - 1) := by
    cases escaped
    · exact ⟨.completed, rfl, rfl, rfl⟩
    · exact ⟨.ended, rfl, rfl, rfl⟩
  obtain ⟨pc, idle, same, depth⟩ := after
  rw [same, depth, active_moved there, idle, Bool.and_false, if_neg Bool.false_ne_true]
  by_cases here : f.trigger.id = id
  · subst here
    have member : t ∈ s.active (ofId f.trigger.id) := mem_active_of there active (by simp [ofId])
    rw [Function.update_self, accounts, Finset.card_erase_of_mem member]
  · have absent : t ∉ s.active (ofId id) := by simp [there, ofId, here]
    rw [Function.update_of_ne (Ne.symm here), accounts, Finset.erase_eq_of_notMem absent]

/-- The step lowers the counts of the fires that end in it and no others: the
counts are not thrown away under a fire that is under way, and no fire is
cancelled at its `trigger.fired` emit, where it has no `finally` yet. -/
def KeepsAccount (s : TriggerEngine) : Label → Bool
  | .resume t .cancelled => (s.fire? t).all fun f => decide (f.pc ≠ .fired)
  | l => !s.clears l || s.tasks.all fun f => f.all fun f => !f.pc.active

theorem active_eq_empty (idle : (s.tasks.all fun f => f.all fun f => !f.pc.active) = true) (p : Trigger → Bool) :
    s.active p = ∅ := by
  refine Finset.eq_empty_of_forall_notMem fun t member => ?_
  obtain ⟨f, there, _, active⟩ := mem_active.mp member
  have found := List.mem_of_getElem? (Option.join_eq_some_iff.mp there)
  have stops := List.all_eq_true.mp idle _ found
  simp [active] at stops

theorem idle_of_clears {l : Label} (clears : s.clears l = true) (keeps : s.KeepsAccount l = true) :
    (s.tasks.all fun f => f.all fun f => !f.pc.active) = true := by
  cases l with
  | stop =>
    have keeps : (!s.clears .stop || s.tasks.all fun f => f.all fun f => !f.pc.active) = true := keeps
    rwa [clears] at keeps
  | stopGoesOn =>
    have keeps : (!s.clears .stopGoesOn || s.tasks.all fun f => f.all fun f => !f.pc.active) = true := keeps
    rwa [clears] at keeps
  | load | start | change | resume | enter | outside | engine | wall => cases clears

theorem Accounts.effect {macros : MacroId → Option Macro} {l : Label} (accounts : s.Accounts)
    (keeps : s.KeepsAccount l = true) (effect : Effect macros fresh s l s') : s'.Accounts := by
  cases effect with
  | quiet quiet =>
    intro id
    rw [quiet.activeTriggerDepth, quiet.active]
    exact accounts id
  | @cleared s₁ clears quiet =>
    have none : s₁.active = s.active := funext quiet.active
    intro id
    have after : s₁.clearDepth.active (ofId id) = s₁.active (ofId id) := rfl
    rw [after, none, active_eq_empty (idle_of_clears clears keeps)]
    rfl
  | loaded _ => exact accounts
  | fired _ there fires => exact accounts.fireMacro there (Point.active_of_pending (passes_of_fires fires).1)
  | @lost t f label there at_pc =>
    subst label
    simp [KeepsAccount, there, at_pc] at keeps
  | @entered t f E chain label there at_pc entered =>
    intro id
    have after : ({ s.setFire t { f with pc := .executing s.macros.nextRun } with macros := E } : TriggerEngine).active
        (ofId id) = (s.setFire t { f with pc := .executing s.macros.nextRun }).active (ofId id) := rfl
    rw [after, active_moved there]
    split
    · rename_i same
      have member : t ∈ s.active (ofId id) := mem_active_of there (by rw [at_pc]; rfl) (Bool.and_eq_true _ _ ▸ same).1
      rw [Finset.insert_eq_of_mem member]
      exact accounts id
    · rename_i other
      have absent : t ∉ s.active (ofId id) := by
        simp [there] at other ⊢
        simp_all [Point.active]
      rw [Finset.erase_eq_of_notMem absent]
      exact accounts id
  | refused there at_pc => exact accounts.finishFire there (by rw [at_pc]; rfl) false
  | engine _ _ _ => exact accounts
  | @ended _ _ _ _ E _ _ there executes _ =>
    have accounts : ({ s with macros := E } : TriggerEngine).Accounts := accounts
    exact accounts.finishFire there (Point.active_of_executes executes) _

/-- Only the fires of triggers with overlap `queue` wait in a queue. -/
def Queues (s : TriggerEngine) : Prop := ∀ t f, s.fire? t = some f → f.pc.queues = true → f.trigger.overlap = .queue

theorem Queues.effect {macros : MacroId → Option Macro} {l : Label} (queues : s.Queues)
    (effect : Effect macros fresh s l s') : s'.Queues := by
  intro t f' there' queued
  rcases effect.origin there' with ⟨f, there, leads⟩ | ⟨_, _, made, _⟩
  · rw [leads.trigger]
    exact queues t f there (leads.queued queued)
  · exact made queued

theorem active_shrinks (there : s.fire? t = some f) (active : f.pc.active = true) (pc : Point) (p : Trigger → Bool) :
    (s.setFire t { f with pc := pc }).active p ⊆ s.active p := by
  rw [active_moved there]
  split
  · rename_i both
    exact Finset.insert_subset (mem_active_of there active (Bool.and_eq_true _ _ ▸ both).1) Finset.Subset.rfl
  · exact Finset.erase_subset _ _

/-- Only a fire that passes its checks adds to those under way. -/
theorem Effect.active {macros : MacroId → Option Macro} {l : Label} (effect : Effect macros fresh s l s') :
    (∀ p, s'.active p ⊆ s.active p) ∨
      ∃ t f matched holds, s.fire? t = some f ∧ s.fires f matched holds = true ∧ s' = s.fireMacro t f := by
  cases effect with
  | quiet quiet => exact Or.inl fun p => (quiet.active p).subset
  | cleared _ quiet => exact Or.inl fun p => (quiet.active p).subset
  | loaded _ => exact Or.inl fun p => Finset.Subset.rfl
  | fired _ there fires => exact Or.inr ⟨_, _, _, _, there, fires, rfl⟩
  | lost _ there at_pc => exact Or.inl (active_shrinks there (by rw [at_pc]; rfl) .ended)
  | entered _ there at_pc _ => exact Or.inl (active_shrinks there (by rw [at_pc]; rfl) _)
  | refused there at_pc => exact Or.inl (active_shrinks there (by rw [at_pc]; rfl) .completed)
  | engine _ _ _ => exact Or.inl fun p => Finset.Subset.rfl
  | @ended _ _ escaped _ E _ _ there executes _ =>
    have there₀ : ({ s with macros := E } : TriggerEngine).fire? _ = some _ := there
    cases escaped
    · exact Or.inl (active_shrinks there₀ (Point.active_of_executes executes) .completed)
    · exact Or.inl (active_shrinks there₀ (Point.active_of_executes executes) .ended)

/-- No more fires of a trigger with overlap `allow` are under way than the count lets through. -/
def Capped (s : TriggerEngine) : Prop := ∀ id, (s.active (ofIdAllowing id)).card ≤ maxOverlapAllowDepth

theorem Capped.effect {macros : MacroId → Option Macro} {l : Label} (capped : s.Capped) (accounts : s.Accounts)
    (queues : s.Queues) (effect : Effect macros fresh s l s') : s'.Capped := by
  intro id
  rcases effect.active with fewer | ⟨t, f, _, _, there, fires, rfl⟩
  · exact (Finset.card_le_card (fewer _)).trans (capped id)
  · obtain ⟨pending, passes⟩ := passes_of_fires fires
    have idle := Point.active_of_pending pending
    have after : (s.fireMacro t f).active (ofIdAllowing id) =
        (s.setFire t { f with pc := .fired }).active (ofIdAllowing id) := rfl
    rw [after, active_moved there]
    split
    · rename_i both
      simp only [ofIdAllowing, ofId, Bool.and_eq_true, decide_eq_true_eq] at both
      obtain ⟨⟨rfl, allow⟩, _⟩ := both
      have below : s.activeTriggerDepth f.trigger.id < maxOverlapAllowDepth := by
        rcases passes with fires | ⟨queued, _⟩
        · by_contra full
          simp [TriggerEngine.decision, allow, not_lt.mp full] at fires
        · rw [queues t f there queued] at allow
          cases allow
      have fewer : s.active (ofIdAllowing f.trigger.id) ⊆ s.active (ofId f.trigger.id) := by
        intro u member
        obtain ⟨g, at_u, both, active⟩ := mem_active.mp member
        exact mem_active.mpr ⟨g, at_u, (Bool.and_eq_true _ _ ▸ both).1, active⟩
      have count := Finset.card_le_card fewer
      rw [← accounts] at count
      exact (Finset.card_insert_le _ _).trans (by omega)
    · exact (Finset.card_le_card (Finset.erase_subset _ _)).trans (capped id)

/-- What the counts are for: each is the number of the trigger's fires under
way, which for a trigger with overlap `allow` is at most the cap; and any other
trigger is called circular, at the check that its macro is not running, exactly
when one of its fires is under way. -/
structure DepthSound (s : TriggerEngine) : Prop where
  counted : s.Accounts
  capped : s.Capped
  circular : ∀ t f, s.fire? t = some f → f.trigger.overlap ≠ .allow →
    s.macros.isMacroRunning f.trigger.macroId = false →
    (((s.executeTrigger t f true).fire? t).map Fire.pc = some (.skipped .circular) ↔
      (s.active (ofId f.trigger.id)).Nonempty)

theorem Accounts.circular (accounts : s.Accounts) (there : s.fire? t = some f) (exclusive : f.trigger.overlap ≠ .allow)
    (idle : s.macros.isMacroRunning f.trigger.macroId = false) :
    ((s.executeTrigger t f true).fire? t).map Fire.pc = some (.skipped .circular) ↔
      (s.active (ofId f.trigger.id)).Nonempty := by
  have decided : s.decision f.trigger = if 0 < s.activeTriggerDepth f.trigger.id then .skip .circular else .fire := by
    unfold TriggerEngine.decision
    cases overlap : f.trigger.overlap with
    | allow => exact absurd overlap exclusive
    | skip => simp [idle]
    | queue => simp [idle]
  have positive : 0 < s.activeTriggerDepth f.trigger.id ↔ (s.active (ofId f.trigger.id)).Nonempty := by
    rw [accounts, Finset.card_pos]
  rw [← positive]
  by_cases depth : 0 < s.activeTriggerDepth f.trigger.id
  · simp [TriggerEngine.executeTrigger, decided, depth, fire?_setFire there]
  · simp [TriggerEngine.executeTrigger, decided, depth, fire?_fireMacro there]

theorem next_clears {macros : MacroId → Option Macro} {l : Label} (clears : s.clears l = true)
    (run : s.next macros l = some s') : s'.activeTriggerDepth = (fun _ => 0) ∧ ∀ p, s'.active p = s.active p := by
  have cancelled : s.pendingTasks = [] →
      s.cancelPending.activeTriggerDepth = (fun _ => 0) ∧ ∀ p, s.cancelPending.active p = s.active p := by
    intro none
    obtain ⟨s₁, (quiet : Quiet (fun _ _ => True) s s₁), ⟨some, _⟩ | ⟨_, same⟩⟩ := cancelPending_cases
    · exact absurd none some
    · rw [same]
      exact ⟨rfl, quiet.active⟩
  cases l with
  | stop =>
    simp only [TriggerEngine.clears, Bool.and_eq_true, Bool.not_eq_true', List.isEmpty_iff] at clears
    simp only [TriggerEngine.next, TriggerEngine.stop, clears.1] at run
    split at run <;> cases run
    exact cancelled clears.2
  | stopGoesOn =>
    simp only [TriggerEngine.clears, Bool.or_eq_true, Bool.and_eq_true, decide_eq_true_eq, List.isEmpty_iff] at clears
    simp only [TriggerEngine.next] at run
    split at run
    · rename_i at_stage
      cases run
      exact cancelled (by simpa [at_stage] using clears)
    · cases run
      exact ⟨rfl, fun _ => rfl⟩
    · cases run
  | load | start | change | resume | enter | outside | engine | wall => cases clears

theorem exists_active (busy : (s.tasks.all fun f => f.all fun f => !f.pc.active) ≠ true) :
    ∃ id, (s.active (ofId id)).Nonempty := by
  simp only [ne_eq, List.all_eq_true, not_forall] at busy
  obtain ⟨entry, member, busy⟩ := busy
  obtain ⟨t, at_t⟩ := List.mem_iff_getElem?.mp member
  cases entry with
  | none => exact absurd rfl busy
  | some f =>
    have there : s.fire? t = some f := by simp [fire?, at_t]
    have active : f.pc.active = true := by simpa using busy
    exact ⟨f.trigger.id, t, mem_active_of there active (by simp [ofId])⟩

/-- A step that keeps no account leaves the counts wrong. -/
theorem Accounts.next_iff {macros : MacroId → Option Macro} {l : Label} (accounts : s.Accounts)
    (run : s.next macros l = some s') : s'.Accounts ↔ s.KeepsAccount l = true := by
  constructor
  · intro accounts'
    by_contra loses
    by_cases clears : s.clears l = true
    · have busy : (s.tasks.all fun f => f.all fun f => !f.pc.active) ≠ true := by
        cases l with
        | stop | stopGoesOn => exact fun idle => loses (by rw [KeepsAccount, idle, Bool.or_true]; exact nofun)
        | load | start | change | resume | enter | outside | engine | wall => cases clears
      obtain ⟨depth, same⟩ := next_clears clears run
      obtain ⟨id, some⟩ := exists_active busy
      have count := accounts' id
      rw [depth, same] at count
      exact absurd count.symm (Finset.card_pos.mpr some).ne'
    · cases l with
      | resume t wake =>
        cases wake with
        | ok => exact loses rfl
        | cancelled =>
          simp only [TriggerEngine.next] at run
          obtain ⟨f, there, rest⟩ := Option.bind_eq_some_iff.mp run
          have at_pc : f.pc = .fired := by simpa [KeepsAccount, there] using loses
          simp only [at_pc] at rest
          split at rest <;> cases rest
          have member : t ∈ s.active (ofId f.trigger.id) := mem_active_of there (by rw [at_pc]; rfl) (by simp [ofId])
          have after : (s.settle t f).active (ofId f.trigger.id) =
              (s.setFire t { f with pc := .ended }).active (ofId f.trigger.id) := rfl
          have count := accounts' f.trigger.id
          rw [after, active_moved there, if_neg (by simp [Point.active]), Finset.card_erase_of_mem member] at count
          have same : (s.settle t f).activeTriggerDepth = s.activeTriggerDepth := rfl
          have positive := Finset.card_pos.mpr ⟨t, member⟩
          rw [same, accounts] at count
          omega
      | stop | stopGoesOn => exact loses (by simp only [KeepsAccount, Bool.not_eq_true _ ▸ clears]; rfl)
      | load | start | change | enter | outside | engine | wall => exact loses rfl
  · have effect : Effect macros (fun _ _ => True) s l s' := next_effect (fun _ _ _ _ => trivial)
      (fun _ _ _ _ _ => trivial) (fun _ _ _ _ _ _ => trivial) run
    exact fun keeps => accounts.effect keeps effect

/-- Unless the counts are cleared under a fire that is under way, or a fire is
cancelled at its `trigger.fired` emit, every reached engine has sound counts;
and such a step always makes them wrong. -/
theorem depth_sound (macros : MacroId → Option Macro)
    (reach : Run.Reach (triggerMachine macros) (fun s l => s.KeepsAccount l = true) s) :
    DepthSound s ∧ ∀ l s', s.next macros l = some s' → (s'.Accounts ↔ s.KeepsAccount l = true) := by
  have sound : s.Accounts ∧ s.Queues ∧ s.Capped := by
    induction reach with
    | init start =>
      cases start
      exact ⟨fun _ => rfl, fun _ _ there => absurd there fire?_new, fun _ => Nat.zero_le _⟩
    | step _ keeps run ih =>
      obtain ⟨accounts, queues, capped⟩ := ih
      have effect : Effect macros (fun _ _ => True) _ _ _ := next_effect (fun _ _ _ _ => trivial)
        (fun _ _ _ _ _ => trivial) (fun _ _ _ _ _ _ => trivial) run
      exact ⟨accounts.effect keeps effect, queues.effect effect, capped.effect accounts queues effect⟩
  obtain ⟨accounts, queues, capped⟩ := sound
  exact ⟨⟨accounts, capped, fun _ _ there exclusive idle => accounts.circular there exclusive idle⟩,
    fun _ _ run => accounts.next_iff run⟩

/-- A fire whose macro runs is counted, also while a second one is refused. -/
theorem depth_sound_of_two_changes :
    ∃ s, (triggerMachine oneStep).run (fun s l => s.KeepsAccount l = true) {}
        [.load [onEvent .allow], .start true, .change 0, .change 0, .resume 0 (.ok true true), .enter 0 ∅,
          .resume 1 (.ok true false)] = some s ∧
      s.activeTriggerDepth "t" = 1 ∧ DepthSound s := by
  have reach : ∃ s, (triggerMachine oneStep).run (fun s l => s.KeepsAccount l = true) {}
      [.load [onEvent .allow], .start true, .change 0, .change 0, .resume 0 (.ok true true), .enter 0 ∅,
        .resume 1 (.ok true false)] = some s ∧ s.activeTriggerDepth "t" = 1 := ⟨_, rfl, rfl⟩
  obtain ⟨s, run, depth⟩ := reach
  exact ⟨s, run, depth, (depth_sound oneStep (.run (.init rfl) run)).1⟩

/-- A reload while its macro runs clears the count of the fire. -/
theorem depth_unsound :
    ¬ ∀ (macros : MacroId → Option Macro) (s : TriggerEngine),
      Run.Reach (triggerMachine macros) Run.always s → DepthSound s := by
  intro sound
  have reach : ∃ s, (triggerMachine oneStep).run Run.always {}
      [.load [onEvent .allow], .start true, .change 0, .resume 0 (.ok true true), .enter 0 ∅, .stop] = some s ∧
      s.activeTriggerDepth "t" = 0 ∧ (s.active (ofId "t")).card = 1 := ⟨_, rfl, rfl, rfl⟩
  obtain ⟨s, run, depth, one⟩ := reach
  have counted := (sound oneStep s (.run (.init rfl) run)).counted "t"
  omega

end OpenAvc.Triggers.TriggerEngine
