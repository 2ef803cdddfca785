import OpenAvc.Macro.Preemption
import OpenAvc.Triggers.Inside

/-! Whether runs of one macro that triggers start can be under way together. -/

namespace OpenAvc.Triggers.TriggerEngine

variable {macros : MacroId → Option Macro} {m : MacroId} {s s' : TriggerEngine} {l : Label} {t u : TaskId}
  {f : Fire} {fresh : Trigger → Option Nat → Prop}

/-- Task `t` is inside a run of `m` that its trigger started: registered, and not over. -/
def Runs (s : TriggerEngine) (t : TaskId) (m : MacroId) : Prop :=
  ∃ f run, s.fire? t = some f ∧ f.trigger.macroId = m ∧ f.pc = .executing run ∧
    ∃ g ∈ (s.macros.tasks t).stack, g.id = run ∧ g.pc.registered = true

/-- A trigger of `m` does not allow runs beside others. -/
def Exclusive (m : MacroId) (trigger : Trigger) : Prop := trigger.macroId = m → trigger.overlap ≠ .allow

/-- Every trigger that is loaded for `m` has overlap skip or queue. -/
def LoadsExclusive (m : MacroId) : Label → Prop
  | .load triggers => ∀ trigger ∈ triggers, Exclusive m trigger
  | _ => True

instance (m : MacroId) (trigger : Trigger) : Decidable (Exclusive m trigger) :=
  inferInstanceAs (Decidable (trigger.macroId = m → trigger.overlap ≠ .allow))

instance (m : MacroId) (l : Label) : Decidable (LoadsExclusive m l) :=
  match l with
  | .load triggers => inferInstanceAs (Decidable (∀ trigger ∈ triggers, Exclusive m trigger))
  | .start _ | .stop | .stopGoesOn | .change _ | .resume _ _ | .enter _ _ | .outside | .engine _ _ | .wall _ =>
    .isTrue trivial

/-- No fire of `m` passes its checks while another one that has passed them is
not in the macro engine yet. -/
def Alone (m : MacroId) (s : TriggerEngine) : Label → Bool
  | .resume t (.ok matched holds) => (s.fire? t).all fun f =>
      !(decide (f.trigger.macroId = m) && s.fires f matched holds) ||
        s.tasks.all fun g => g.all fun g => !(decide (g.trigger.macroId = m) && decide (g.pc = .fired))
  | _ => true

/-- The step keeps the runs of `m` apart; and no task enters a macro that it is inside. -/
def KeepsApart (macros : MacroId → Option Macro) (m : MacroId) (s : TriggerEngine) (l : Label) : Prop :=
  s.Alone m l = true ∧ ¬ s.Reenters macros l

instance (macros : MacroId → Option Macro) (m : MacroId) (s : TriggerEngine) (l : Label) :
    Decidable (KeepsApart macros m s l) := inferInstanceAs (Decidable (_ ∧ _))

/-- Task `t` has passed the checks for `m` and its run, if it gets one, is not over. -/
def Underway (s : TriggerEngine) (t : TaskId) (m : MacroId) : Prop :=
  (∃ f, s.fire? t = some f ∧ f.trigger.macroId = m ∧ f.pc = .fired) ∨ s.Runs t m

/-- The calls of the fires of `m` are known by their numbers, and never wait in a queue. -/
structure Apart (m : MacroId) (s : TriggerEngine) : Prop where
  states : ∀ ts ∈ s.states, Exclusive m ts.trigger
  fires : ∀ t f, s.fire? t = some f → Exclusive m f.trigger
  numbered : ∀ t f run, s.fire? t = some f → f.pc = .executing run → f.trigger.macroId = m →
    run < s.macros.nextRun ∧ ∀ g ∈ (s.macros.tasks t).stack, g.id = run → g.macroId = m ∧ g.pc.queues = false
  alone : ∀ t u, s.Underway t m → s.Underway u m → t = u

theorem not_underway_of_idle (apart : Apart m s) (booked : ∀ t, MacroEngine.Booked macros s.macros t (s.macros.tasks t).stack)
    (idle : s.macros.isMacroRunning m = false) : ¬ s.Runs t m := by
  rintro ⟨f, run, there, name, at_pc, g, member, id, registered⟩
  have held := ((booked t).frames g member).held registered
  rw [((apart.numbered t f run there at_pc name).2 g member id).1] at held
  have running : s.macros.isMacroRunning m = true := List.any_eq_true.mpr ⟨(m, t), held, by simp⟩
  rw [idle] at running
  cases running

/-- A fire of `m` that passes its checks finds `m` idle. -/
theorem idle_of_fires {matched holds : Bool} (exclusive : Exclusive m f.trigger) (name : f.trigger.macroId = m)
    (fires : s.fires f matched holds = true) : s.macros.isMacroRunning m = false := by
  rcases (passes_of_fires fires).2 with decided | ⟨_, idle⟩
  · unfold TriggerEngine.decision at decided
    cases overlap : f.trigger.overlap with
    | allow => exact absurd overlap (exclusive name)
    | skip | queue =>
      simp only [overlap, name] at decided
      split at decided
      · cases decided
      · rename_i idle
        exact Bool.not_eq_true _ ▸ idle
  · rwa [← name]

theorem Alone.fired {matched holds : Bool} (alone : s.Alone m (.resume t (.ok matched holds)) = true)
    (there : s.fire? t = some f) (name : f.trigger.macroId = m) (fires : s.fires f matched holds = true) {g : Fire}
    (at_u : s.fire? u = some g) (same : g.trigger.macroId = m) : g.pc ≠ .fired := by
  intro at_pc
  simp only [Alone, there, Option.all_some, name, fires, decide_true, Bool.and_true, Bool.not_true, Bool.false_or,
    List.all_eq_true] at alone
  have each := alone _ (List.mem_of_getElem? (Option.join_eq_some_iff.mp at_u))
  simp [same, at_pc] at each

/-- Of a fire of `m` that is in the macro engine both before and after. -/
theorem Apart.stem (apart : Apart m s) (macros : MacroId → Option Macro) {E : MacroEngine} (there : s.fire? t = some f) (name : f.trigger.macroId = m)
    {run : RunId} (at_pc : f.pc = .executing run)
    (own : ∀ g ∈ (E.tasks t).stack, (∃ f ∈ (s.macros.tasks t).stack, f.Stem g) ∨ MacroEngine.Called macros s.macros g)
    {g : Frame} (member : g ∈ (E.tasks t).stack) (id : g.id = run) : g.macroId = m ∧ g.pc.queues = false ∧
      (g.pc.registered = true → ∃ g₀ ∈ (s.macros.tasks t).stack, g₀.id = run ∧ g₀.pc.registered = true) := by
  obtain ⟨bound, calls⟩ := apart.numbered t f run there at_pc name
  rcases own g member with ⟨g₀, before, stem⟩ | called
  · have id₀ : g₀.id = run := stem.same.id.symm.trans id
    obtain ⟨name₀, queues⟩ := calls g₀ before id₀
    refine ⟨stem.same.macroId.trans name₀, ?_, fun registered => ⟨g₀, before, id₀, ?_⟩⟩
    · by_contra queued
      rw [stem.queues (Bool.not_eq_false _ ▸ queued)] at queues
      cases queues
    · exact (stem.registered registered).resolve_right (by simp [queues])
  · exact absurd (id ▸ called.numbered) bound.not_ge

theorem Apart.known (apart : Apart m s)
    (states : s'.states.map TriggerState.trigger = s.states.map TriggerState.trigger) {ts : TriggerState}
    (member : ts ∈ s'.states) : Exclusive m ts.trigger := by
  have listed : ts.trigger ∈ s'.states.map TriggerState.trigger := List.mem_map.mpr ⟨ts, member, rfl⟩
  rw [states] at listed
  obtain ⟨ts₀, before, same⟩ := List.mem_map.mp listed
  exact same ▸ apart.states ts₀ before

/-- Where the fires stay and the calls go on, nothing new is under way. -/
theorem Apart.goesOn (apart : Apart m s) (macros : MacroId → Option Macro)
    (states : s'.states.map TriggerState.trigger = s.states.map TriggerState.trigger)
    (nextRun : s.macros.nextRun ≤ s'.macros.nextRun)
    (origin : ∀ t f', s'.fire? t = some f' → Exclusive m f'.trigger ∧ (f'.pc.active = true → ∃ f, s.fire? t = some f ∧
      f.trigger = f'.trigger ∧ f.pc = f'.pc))
    (own : ∀ t, ∀ g ∈ (s'.macros.tasks t).stack, (∃ f ∈ (s.macros.tasks t).stack, f.Stem g) ∨
      MacroEngine.Called macros s.macros g) : Apart m s' where
  states _ member := apart.known states member
  fires t f' there' := (origin t f' there').1
  numbered t f' run there' at_pc name := by
    obtain ⟨f, there, same, pc⟩ := (origin t f' there').2 (by rw [at_pc]; rfl)
    have name : f.trigger.macroId = m := same ▸ name
    have at_pc : f.pc = .executing run := pc.trans at_pc
    refine ⟨(apart.numbered t f run there at_pc name).1.trans_le nextRun, fun g member id => ?_⟩
    obtain ⟨at_m, queues, _⟩ := apart.stem macros there name at_pc (own t) member id
    exact ⟨at_m, queues⟩
  alone t u first second := by
    have before : ∀ t, s'.Underway t m → s.Underway t m := by
      rintro t (⟨f', there', name, at_pc⟩ | ⟨f', run, there', name, at_pc, g, member, id, registered⟩)
      · obtain ⟨f, there, same, pc⟩ := (origin t f' there').2 (by rw [at_pc]; rfl)
        exact Or.inl ⟨f, there, same ▸ name, pc.trans at_pc⟩
      · obtain ⟨f, there, same, pc⟩ := (origin t f' there').2 (by rw [at_pc]; rfl)
        have name : f.trigger.macroId = m := same ▸ name
        obtain ⟨_, _, earlier⟩ := apart.stem macros there name (pc.trans at_pc) (own t) member id
        exact Or.inr ⟨f, run, there, name, pc.trans at_pc, earlier registered⟩
    exact apart.alone t u (before t first) (before u second)

theorem Quiet.apart (quiet : Quiet (fun trigger _ => Exclusive m trigger) s s') (apart : Apart m s) : Apart m s' := by
  obtain ⟨_, nextRun, _, same⟩ := quiet.macros.same
  refine apart.goesOn (fun _ => none) quiet.states nextRun.ge (fun t f' there' => ?_) fun t g member =>
    Or.inl ⟨g, same t ▸ member, .refl g⟩
  cases there : s.fire? t with
  | none =>
    obtain ⟨_, idle, _, exclusive⟩ := quiet.made t f' there there'
    exact ⟨exclusive, fun active => absurd active (by simp [idle])⟩
  | some f =>
    obtain ⟨g, at_t, keeps⟩ := quiet.kept t f there
    cases at_t.symm.trans there'
    refine ⟨keeps.trigger ▸ apart.fires t f there, fun active => ⟨f, rfl, keeps.trigger.symm, ?_⟩⟩
    rcases keeps.active with same | ⟨_, idle⟩
    · exact same.symm
    · rw [idle] at active
      cases active

/-- A fire of which the task ends, or is over with its macro. -/
theorem Apart.settled (apart : Apart m s) (there : s.fire? t = some f) (pc : Point) (idle : pc.active = false)
    (states : s'.states.map TriggerState.trigger = s.states.map TriggerState.trigger) (same : s'.macros = s.macros)
    (fires : ∀ u, s'.fire? u = if u = t then some { f with pc := pc } else s.fire? u) : Apart m s' := by
  refine apart.goesOn (fun _ => none) states (same ▸ le_rfl) (fun u f' there' => ?_) fun u g member =>
    Or.inl ⟨g, same ▸ member, .refl g⟩
  rw [fires] at there'
  split at there'
  · cases there'
    exact ⟨apart.fires t f there, fun active => absurd active (by simp [idle])⟩
  · exact ⟨apart.fires u f' there', fun _ => ⟨f', there', rfl, rfl⟩⟩

theorem Apart.stepped (apart : Apart m s) (stacked : ∀ t, MacroEngine.Stacked (s.macros.tasks t).stack)
    {el : MacroEngine.Label} {E : MacroEngine} (step : s.macros.next macros el = some E) :
    Apart m { s with macros := E } := by
  obtain ⟨_, nextRun, _, own⟩ := MacroEngine.next_stems stacked step
  exact apart.goesOn macros rfl nextRun (fun t f' there' => ⟨apart.fires t f' there', fun _ => ⟨f', there', rfl, rfl⟩⟩) own

theorem Apart.fired (apart : Apart m s)
    (booked : ∀ t, MacroEngine.Booked macros s.macros t (s.macros.tasks t).stack) {matched holds : Bool}
    (alone : s.Alone m (.resume t (.ok matched holds)) = true) (there : s.fire? t = some f)
    (fires : s.fires f matched holds = true) : Apart m (s.fireMacro t f) := by
  have kept : ∀ u g, (s.fireMacro t f).fire? u = some g → g.pc ≠ .fired → s.fire? u = some g := by
    intro u g at_u other
    rw [fire?_fireMacro there] at at_u
    split at at_u
    · cases at_u
      exact absurd rfl other
    · exact at_u
  have before : ∀ u, (s.fireMacro t f).Underway u m → u = t ∧ f.trigger.macroId = m ∨ s.Underway u m := by
    rintro u (⟨g, at_u, name, at_pc⟩ | ⟨g, run, at_u, name, at_pc, calls⟩)
    · rw [fire?_fireMacro there] at at_u
      split at at_u
      · cases at_u
        exact Or.inl ⟨by assumption, name⟩
      · exact Or.inr (Or.inl ⟨g, at_u, name, at_pc⟩)
    · exact Or.inr (Or.inr ⟨g, run, kept u g at_u (by rw [at_pc]; exact nofun), name, at_pc, calls⟩)
  refine ⟨fun ts member => ?_, fun u g at_u => ?_, fun u g run at_u at_pc => ?_, fun u v first second => ?_⟩
  · exact apart.known triggers_fireMacro member
  · rw [fire?_fireMacro there] at at_u
    split at at_u
    · cases at_u
      exact apart.fires t f there
    · exact apart.fires u g at_u
  · exact apart.numbered u g run (kept u g at_u (by rw [at_pc]; exact nofun)) at_pc
  · by_cases name : f.trigger.macroId = m
    · have idle := idle_of_fires (apart.fires t f there) name fires
      have nobody : ∀ w, ¬ s.Underway w m := by
        rintro w (⟨g, at_w, same, at_pc⟩ | runs)
        · exact Alone.fired alone there name fires at_w same at_pc
        · exact not_underway_of_idle apart booked idle runs
      exact ((before u first).resolve_right (nobody u)).1.trans ((before v second).resolve_right (nobody v)).1.symm
    · exact apart.alone u v ((before u first).resolve_left fun new => name new.2)
        ((before v second).resolve_left fun new => name new.2)

/-- The fire calls the macro engine, where its run starts unless it is skipped. -/
theorem Apart.entered (plain : ∀ config, macros m = some config → config.overlap = .allow) (apart : Apart m s)
    {E : MacroEngine} {chain : Finset MacroId} (there : s.fire? t = some f) (at_pc : f.pc = .fired)
    (entered : s.macros.execute macros t f.trigger.macroId chain [] = some E) :
    Apart m { s.setFire t { f with pc := .executing s.macros.nextRun } with macros := E } := by
  obtain ⟨further, g, stack, id, macroId, queues⟩ := MacroEngine.execute_stack entered
  have others := (MacroEngine.Stems.execute (List.Subset.refl _) entered).others
  have fires : ∀ u g, (s.setFire t { f with pc := .executing s.macros.nextRun }).fire? u = some g →
      u = t ∧ g = { f with pc := .executing s.macros.nextRun } ∨ u ≠ t ∧ s.fire? u = some g := by
    intro u g at_u
    rw [fire?_setFire there] at at_u
    split at at_u
    · rename_i same
      exact Or.inl ⟨same, (Option.some.inj at_u).symm⟩
    · rename_i other
      exact Or.inr ⟨other, at_u⟩
  refine ⟨apart.states, fun u h at_u => ?_, fun u h run at_u executing name => ?_, fun u v first second => ?_⟩
  · rcases fires u h at_u with ⟨rfl, rfl⟩ | ⟨_, before⟩
    · exact apart.fires u f there
    · exact apart.fires u h before
  · rcases fires u h at_u with ⟨rfl, rfl⟩ | ⟨other, before⟩
    · cases executing
      refine ⟨further, fun g' member _ => ?_⟩
      have member : g' ∈ (E.tasks u).stack := member
      rw [stack, List.mem_singleton] at member
      subst member
      refine ⟨macroId.trans name, ?_⟩
      by_contra queued
      have overlap := queues (Bool.not_eq_false _ ▸ queued)
      have name : f.trigger.macroId = m := name
      rw [name] at overlap
      obtain ⟨config, loaded, queue⟩ := Option.map_eq_some_iff.mp overlap
      rw [plain config loaded] at queue
      cases queue
    · obtain ⟨bound, calls⟩ := apart.numbered u h run before executing name
      refine ⟨bound.trans further, fun g' member => ?_⟩
      have member : g' ∈ (E.tasks u).stack := member
      rw [others u other] at member
      exact calls g' member
  · have before : ∀ w, Underway { s.setFire t { f with pc := .executing s.macros.nextRun } with macros := E } w m →
        s.Underway w m := by
      rintro w (⟨h, at_w, name, at_h⟩ | ⟨h, run, at_w, name, at_h, g', member, rest⟩)
      · rcases fires w h at_w with ⟨rfl, rfl⟩ | ⟨_, known⟩
        · cases at_h
        · exact Or.inl ⟨h, known, name, at_h⟩
      · rcases fires w h at_w with ⟨rfl, rfl⟩ | ⟨other, known⟩
        · exact Or.inl ⟨f, there, name, at_pc⟩
        · have member : g' ∈ (E.tasks w).stack := member
          rw [others w other] at member
          exact Or.inr ⟨h, run, known, name, at_h, g', member, rest⟩
    exact apart.alone u v (before u first) (before v second)

theorem Apart.effect (plain : ∀ config, macros m = some config → config.overlap = .allow) (apart : Apart m s)
    (stacked : ∀ t, MacroEngine.Stacked (s.macros.tasks t).stack)
    (booked : ∀ t, MacroEngine.Booked macros s.macros t (s.macros.tasks t).stack) (loads : LoadsExclusive m l)
    (alone : s.Alone m l = true) (effect : Effect macros (fun trigger _ => Exclusive m trigger) s l s') : Apart m s' := by
  cases effect with
  | quiet quiet => exact quiet.apart apart
  | cleared _ quiet =>
    have apart := quiet.apart apart
    exact ⟨apart.states, apart.fires, apart.numbered, apart.alone⟩
  | @loaded triggers label =>
    subst label
    refine ⟨fun ts member => ?_, apart.fires, apart.numbered, apart.alone⟩
    rcases List.mem_append.mp member with before | new
    · exact apart.states ts before
    · obtain ⟨u, live, rfl⟩ := List.mem_map.mp new
      exact loads u.2 (mem_loadedTriggers live)
  | fired label there fires =>
    subst label
    exact apart.fired booked alone there fires
  | lost _ there _ => exact apart.settled there .ended rfl triggers_settle rfl (fire?_settle there)
  | entered _ there at_pc entered => exact apart.entered plain there at_pc entered
  | refused there _ => exact apart.settled there .completed rfl rfl rfl (fire?_finishFire there false)
  | engine _ _ step => exact apart.stepped stacked step
  | @ended t _ escaped f E _ step there _ _ =>
    have stepped : Apart m { s with macros := E } := apart.stepped stacked step
    have there₀ : ({ s with macros := E } : TriggerEngine).fire? t = some f := there
    cases escaped
    · exact stepped.settled there₀ .completed rfl rfl rfl (fire?_finishFire there₀ false)
    · exact stepped.settled there₀ .ended rfl triggers_settle rfl (fire?_finishFire there₀ true)

/-- As long as no fire of `m` passes its checks while another one is between
its own and the macro engine, and no task enters a macro that it is inside, no
two runs of `m` that triggers started are under way together. -/
theorem runs_exclusive (macros : MacroId → Option Macro) (m : MacroId)
    (plain : ∀ config, macros m = some config → config.overlap = .allow)
    (reach : Run.Reach (triggerMachine macros) (fun s l => LoadsExclusive m l ∧ KeepsApart macros m s l) s) :
    ∀ t u, s.Runs t m → s.Runs u m → t = u := by
  have sound : Apart m s ∧ ∀ t, MacroEngine.Booked macros s.macros t (s.macros.tasks t).stack := by
    induction reach with
    | init start =>
      cases start
      refine ⟨⟨nofun, fun _ _ there => absurd there fire?_new, fun _ _ _ there => absurd there fire?_new, ?_⟩,
        fun t => ⟨List.nodup_nil, nofun, nofun, nofun⟩⟩
      rintro t u (⟨_, there, _⟩ | ⟨_, _, there, _⟩) <;> exact absurd there fire?_new
    | @step s l s' previous allowed run ih =>
      obtain ⟨apart, booked⟩ := ih
      obtain ⟨loads, alone, once⟩ := allowed
      obtain ⟨idle, stacked⟩ := inside_sound previous
      have live : ∀ k ts, (k, ts) ∈ s.liveStates → ts ∈ s.states := by
        intro k ts member
        obtain ⟨u, _, found⟩ := List.mem_filterMap.mp member
        obtain ⟨ts', at_k, same⟩ := Option.map_eq_some_iff.mp found
        cases same
        exact List.mem_of_getElem? at_k
      have effect : Effect macros (fun trigger _ => Exclusive m trigger) s l s' :=
        next_effect (fun t f there _ => apart.fires t f there)
          (fun k ts _ at_k _ => apart.states ts (List.mem_of_getElem? at_k))
          (fun _ k ts member _ _ => apart.states ts (live k ts member)) run
      exact ⟨apart.effect plain stacked booked loads alone effect,
        (effect.steps idle stacked).keeps (fun _ => MacroEngine.booked_kept once) booked⟩
  exact fun t u first second => sound.1.alone t u (Or.inr first) (Or.inr second)

/-- A second change while the first one's fire is under way starts no second run. -/
theorem runs_exclusive_of_two_changes :
    ∃ s, (triggerMachine oneStep).run (fun s l => LoadsExclusive "m" l ∧ KeepsApart oneStep "m" s l) {}
        [.load [onEvent .skip], .start true, .change 0, .change 0, .resume 0 (.ok true true), .enter 0 ∅,
          .resume 1 (.ok true true)] = some s ∧
      s.Runs 0 "m" ∧ ¬ s.Runs 1 "m" := by
  have reach : ∃ s, (triggerMachine oneStep).run (fun s l => LoadsExclusive "m" l ∧ KeepsApart oneStep "m" s l) {}
      [.load [onEvent .skip], .start true, .change 0, .change 0, .resume 0 (.ok true true), .enter 0 ∅,
        .resume 1 (.ok true true)] = some s ∧ s.Runs 0 "m" :=
    ⟨_, rfl, _, _, rfl, rfl, rfl, _, List.mem_cons_self, rfl, rfl⟩
  obtain ⟨s, run, runs⟩ := reach
  have plain : ∀ config, oneStep "m" = some config → config.overlap = .allow := by
    intro config loaded
    cases loaded
    rfl
  refine ⟨s, run, runs, fun second => ?_⟩
  exact absurd (runs_exclusive oneStep "m" plain (.run (.init rfl) run) 0 1 runs second) (by decide)

/-- Two triggers of `m` with overlap skip, on one event: each finds `m` idle and
no fire of its own, and both run it. -/
theorem runs_not_exclusive :
    ¬ ∀ (macros : MacroId → Option Macro) (m : MacroId) (s : TriggerEngine),
      (∀ config, macros m = some config → config.overlap = .allow) →
      Run.Reach (triggerMachine macros) (fun _ l => LoadsExclusive m l) s →
      ∀ t u, s.Runs t m → s.Runs u m → t = u := by
  intro claim
  have reach : ∃ s, (triggerMachine oneStep).run (fun _ l => LoadsExclusive "m" l) {}
      [.load [onEvent .skip, { onEvent .skip with id := "u" }], .start true, .change 0, .change 1,
        .resume 0 (.ok true true), .resume 1 (.ok true true), .enter 0 ∅, .enter 1 ∅] = some s ∧
      s.Runs 0 "m" ∧ s.Runs 1 "m" :=
    ⟨_, rfl, ⟨_, _, rfl, rfl, rfl, _, List.mem_cons_self, rfl, rfl⟩, _, _, rfl, rfl, rfl, _, List.mem_cons_self, rfl, rfl⟩
  obtain ⟨s, run, first, second⟩ := reach
  have plain : ∀ config, oneStep "m" = some config → config.overlap = .allow := by
    intro config loaded
    cases loaded
    rfl
  exact absurd (claim oneStep "m" s plain (.run (.init rfl) run) 0 1 first second) (by decide)

end OpenAvc.Triggers.TriggerEngine
