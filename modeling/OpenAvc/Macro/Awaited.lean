import OpenAvc.Macro.WaitUntil

/-! What a `wait_until` step leaves behind, and what it misses. -/

namespace OpenAvc.WaitUntil

open State

variable {normcase : Text → Text} {w : WaitStep} {W W' : Waiter} {s s' : StateStore}

/-! ### The steps of the store -/

@[simp] theorem hushed_get (s : StateStore) (k : Text) : (hushed s).get k = s.get k := by
  unfold hushed
  split <;> rfl

@[simp] theorem hushed_subs (s : StateStore) : (hushed s).subs = s.subs := by
  unfold hushed
  split <;> rfl

@[simp] theorem hushed_nextSub (s : StateStore) : (hushed s).nextSub = s.nextSub := by
  unfold hushed
  split <;> rfl

theorem holds_congr (same : s'.get w.key = s.get w.key) : holds w s' = holds w s := by
  simp only [holds, evaluateCondition, conditionActual, same]

@[simp] theorem holds_hushed : holds w (hushed s) = holds w s := holds_congr (hushed_get s w.key)

theorem get_call (s : StateStore) (op : Op) (k : Text) : (s.call normcase op).get k = (s.write op).1.get k := by
  unfold StateStore.call
  dsimp only
  split <;> rfl

/-- Only a write changes what is read. -/
theorem get_next {l : StateStore.Label} (quiet : ∀ op, l ≠ .call op) (run : s.next normcase l = some s') (k : Text) :
    s'.get k = s.get k := by
  cases l with
  | call op => exact absurd rfl (quiet op)
  | deliver =>
    simp only [StateStore.next, StateStore.deliver] at run
    split at run <;> cases run <;> rfl
  | resume t =>
    simp only [StateStore.next, StateStore.resume] at run
    split at run
    · cases run
    · simp only [Option.ite_none_right_eq_some, Option.some.injEq] at run
      rw [← run.2]
      rfl
  | emit waits =>
    simp only [StateStore.next, StateStore.emit] at run
    split at run
    · cases run
    · split at run <;> cases run
      rfl
  | subscribe pattern bulk =>
    simp only [StateStore.next, Option.ite_none_right_eq_some, Option.some.injEq] at run
    rw [← run.2]
    rfl
  | unsubscribe subId =>
    simp only [StateStore.next, Option.ite_none_right_eq_some, Option.some.injEq] at run
    rw [← run.2]
    rfl

/-- The subscriptions of the store are in order. -/
def Indexed (s : StateStore) : Prop := s.Indexed (s.subs.allSubs, s.nextSub)

theorem indexed_of {flat : List Sub × Nat} (indexed : s.Indexed flat) : Indexed s :=
  ⟨indexed.filed, indexed.held, rfl⟩

/-- What a step of the store does to the subscriptions. -/
theorem next_subs {l : StateStore.Label} (indexed : Indexed s) (run : s.next normcase l = some s') :
    Indexed s' ∧ s.nextSub ≤ s'.nextSub ∧
      ∀ sub, (sub ∈ s'.subs.allSubs → sub ∈ s.subs.allSubs ∨ sub.subId = s.nextSub) ∧
        (sub ∈ s.subs.allSubs → (∀ subId, l = .unsubscribe subId → subId ≠ sub.subId) → sub ∈ s'.subs.allSubs) := by
  have after := indexed.next run
  have flat := after.flat
  refine ⟨indexed_of after, ?_⟩
  cases l with
  | subscribe pattern bulk =>
    obtain ⟨all, numbered⟩ := Prod.mk.inj flat
    rw [all, numbered]
    refine ⟨Nat.le_succ _, fun sub => ⟨fun member => ?_, fun member _ => List.mem_append_left _ member⟩⟩
    rcases List.mem_append.mp member with before | new
    · exact Or.inl before
    · rw [List.mem_singleton.mp new]
      exact Or.inr rfl
  | unsubscribe subId =>
    obtain ⟨all, numbered⟩ := Prod.mk.inj flat
    rw [all, numbered]
    refine ⟨le_rfl, fun sub => ⟨fun member => Or.inl (List.mem_of_mem_filter member), fun member other => ?_⟩⟩
    exact List.mem_filter.mpr ⟨member, decide_eq_true (other subId rfl).symm⟩
  | call | deliver | resume | emit =>
    obtain ⟨all, numbered⟩ := Prod.mk.inj flat
    rw [all, numbered]
    exact ⟨le_rfl, fun sub => ⟨Or.inl, fun member _ => member⟩⟩

/-! ### The subscription of the step -/

/-- The subscription of the step is not among those of the store any more. -/
def Gone (W : Waiter) : Prop :=
  ∀ subId, W.subId = some subId → ∀ sub ∈ W.state.subs.allSubs, sub.subId ≠ subId

/-- The step's subscription stands as it was made while the step listens. -/
structure Listed (w : WaitStep) (W : Waiter) : Prop where
  indexed : Indexed W.state
  numbered : ∀ subId, W.subId = some subId → subId < W.state.nextSub
  listed : W.stage.listens = true → ∃ subId, W.subId = some subId ∧ ⟨subId, w.key, false⟩ ∈ W.state.subs.allSubs
  unmade : W.stage = .ready → W.subId = none

theorem Listed.at_stage (listed : Listed w W) {stage : Stage} (quiet : stage.listens = false) (begun : stage ≠ .ready) :
    Listed w { W with stage := stage } where
  indexed := listed.indexed
  numbered := listed.numbered
  listed on := absurd on (by simp [quiet])
  unmade ready := absurd ready begun

theorem unsubscribed_stage (W : Waiter) : W.unsubscribed.stage = W.stage ∧ W.unsubscribed.subId = W.subId ∧
    W.unsubscribed.satisfied = W.satisfied ∧ W.unsubscribed.held = W.held := by
  unfold Waiter.unsubscribed
  split
  · exact ⟨rfl, rfl, rfl, rfl⟩
  · exact ⟨rfl, rfl, rfl, rfl⟩

theorem Listed.unsubscribed (listed : Listed w W) {stage : Stage} (quiet : stage.listens = false)
    (begun : stage ≠ .ready) : Listed w { W.unsubscribed with stage := stage } := by
  unfold Waiter.unsubscribed
  split
  · rename_i subId _
    refine ⟨⟨listed.indexed.filed.unsubscribe subId, listed.indexed.held.unsubscribe listed.indexed.filed subId, rfl⟩,
      listed.numbered, fun on => absurd on (by simp [quiet]), fun ready => absurd ready begun⟩
  · exact listed.at_stage quiet begun

theorem gone_unsubscribed (W : Waiter) (stage : Stage) : Gone { W.unsubscribed with stage := stage } := by
  intro subId own sub member
  have known : W.subId = some subId := (unsubscribed_stage W).2.1.symm.trans own
  simp only [Waiter.unsubscribed, known, Subscriptions.allSubs_unsubscribe, Subscriptions.mem_without] at member
  exact member.2

theorem Listed.wait (listed : Listed w W) (on : W.stage.listens = true) : Listed w (W.wait w) := by
  unfold Waiter.wait
  split
  · exact listed.unsubscribed rfl nofun
  · exact ⟨listed.indexed, listed.numbered, fun _ => listed.listed on, nofun⟩

/-- The step as it has subscribed. -/
def subscribed (w : WaitStep) (W : Waiter) (stage : Stage) : Waiter := { W with
  state := { W.state with
    subs := W.state.subs.addSub ⟨W.state.nextSub, w.key, false⟩
    nextSub := W.state.nextSub + 1 }
  subId := some W.state.nextSub
  stage := stage }

theorem Listed.subscribed (listed : Listed w W) {stage : Stage} (on : stage ≠ .ready) :
    Listed w (subscribed w W stage) where
  indexed := ⟨listed.indexed.filed.addSub w.key false, listed.indexed.held.addSub _, rfl⟩
  numbered subId own := by
    cases own
    exact Nat.lt_succ_self _
  listed _ := ⟨W.state.nextSub, rfl, List.mem_append_right _ (List.mem_singleton_self _)⟩
  unmade ready := absurd ready on

/-- The step begins: it is refused, it is satisfied at once, or it listens. -/
inductive Begins (w : WaitStep) (W : Waiter) : Waiter → Prop
  | refused {ending : Ending} : ending ≠ .satisfied → Begins w W { W with stage := .ended ending }
  | satisfied {stage : Stage} : stage = .satisfiedAtOnce ∨ stage = .ended .satisfied →
      Begins w W { W with held := true, stage := stage }
  | announces : holds w W.state = false → Begins w W (subscribed w W .announcing)
  | waits : holds w W.state = false → Begins w W ((subscribed w W .announcing).wait w)

theorem wait_stage (W : Waiter) (stage : Stage) : ({ W with stage := stage } : Waiter).wait w = W.wait w := by
  unfold Waiter.wait
  dsimp only
  split
  · unfold Waiter.unsubscribed
    dsimp only
    split <;> rfl
  · rfl

theorem begins (w : WaitStep) (W : Waiter) : Begins w W (W.begin w) := by
  unfold Waiter.begin
  split
  · exact .refused nofun
  · split
    · exact .refused nofun
    · split
      · exact .refused nofun
      · split
        · exact .refused nofun
        · refine .satisfied ?_
          split
          · exact Or.inl rfl
          · exact Or.inr rfl
        · rename_i answer
          have fails : holds w W.state = false := by simp only [holds, answer]
          dsimp only
          split
          · exact .announces fails
          · rw [← wait_stage _ .announcing]
            exact .waits fails

/-- What a step of the store does to the waiting step. -/
theorem store_spec {l : StateStore.Label} (run : W.store normcase w l = some W') : ∃ s, W.state.next normcase l = some s ∧
    W'.stage = W.stage ∧ W'.subId = W.subId ∧ W'.state.subs = s.subs ∧ W'.state.nextSub = s.nextSub ∧
    (∀ k, W'.state.get k = s.get k) := by
  unfold Waiter.store at run
  obtain ⟨s, next, result⟩ := Option.map_eq_some_iff.mp run
  subst result
  refine ⟨s, next, rfl, rfl, ?_, ?_, fun k => ?_⟩
  · dsimp only
    split
    · exact hushed_subs s
    · rfl
  · dsimp only
    split
    · exact hushed_nextSub s
    · rfl
  · dsimp only
    split
    · exact hushed_get s k
    · rfl

theorem Listed.store {l : StateStore.Label} (listed : Listed w W) (allowed : W.allows l = true)
    (run : W.store normcase w l = some W') : Listed w W' ∧ (Gone W → Gone W') := by
  obtain ⟨s, next, stage, own, subs, nextSub, _⟩ := store_spec run
  obtain ⟨indexed, later, members⟩ := next_subs listed.indexed next
  have numbered : ∀ subId, W'.subId = some subId → subId < W'.state.nextSub := by
    intro subId here
    rw [own] at here
    rw [nextSub]
    exact (listed.numbered subId here).trans_le later
  refine ⟨⟨?_, numbered, fun on => ?_, fun ready => ?_⟩, fun gone subId here sub member => ?_⟩
  · have all := indexed.flat
    exact ⟨by rw [subs, nextSub]; exact indexed.filed, by rw [subs]; exact indexed.held, rfl⟩
  · rw [stage] at on
    obtain ⟨subId, here, member⟩ := listed.listed on
    refine ⟨subId, own.trans here, ?_⟩
    rw [subs]
    refine (members _).2 member fun other same => ?_
    subst same
    rintro rfl
    simp [Waiter.allows, here] at allowed
  · rw [stage] at ready
    rw [own]
    exact listed.unmade ready
  · rw [own] at here
    rw [subs] at member
    rcases (members sub).1 member with before | new
    · exact gone subId here sub before
    · rw [new]
      exact (listed.numbered subId here).ne'

/-- The step ends while it announces that it waits. -/
def CancelsAnnouncing (W : Waiter) : Label → Prop
  | .resume .cancelled => W.stage = .announcing
  | _ => False

/-- The step has found its condition true, and says so. -/
def Stage.Reports (stage : Stage) : Prop :=
  stage = .satisfied ∨ stage = .satisfiedAtOnce ∨ stage = .ended .satisfied

/-- What the step does as it is resumed: it goes on listening, it gives the
subscription back, it is over without one, or it keeps one that nobody gives back. -/
inductive Resumes (w : WaitStep) (W : Waiter) : Waiter → Prop
  | waits : W.stage = .announcing → Resumes w W (W.wait w)
  | leaves {stage : Stage} : W.stage = .waiting → stage.listens = false → stage ≠ .ready →
      (stage.Reports → W.satisfied = true) →
      Resumes w W { W.unsubscribed with stage := stage }
  | ends {ending : Ending} : W.stage.listens = false → W.stage ≠ .ready →
      (ending = .satisfied → W.stage = .satisfied ∨ W.stage = .satisfiedAtOnce) →
      Resumes w W { W with stage := .ended ending }
  | leaks : W.stage = .announcing → Resumes w W { W with stage := .ended .cancelled }

theorem resumes {wake : Wake} (run : W.resume w wake = some W') :
    Resumes w W W' ∧ (wake = .cancelled ∨ W.stage ≠ .announcing ∨ W' = W.wait w) := by
  cases wake with
  | ok =>
    simp only [Waiter.resume] at run
    split at run
    · rename_i at_stage
      cases run
      exact ⟨.ends (by rw [at_stage]; rfl) (by rw [at_stage]; nofun) fun _ => Or.inr at_stage,
        Or.inr (Or.inl (by rw [at_stage]; nofun))⟩
    · rename_i at_stage
      cases run
      exact ⟨.ends (by rw [at_stage]; rfl) (by rw [at_stage]; nofun) fun _ => Or.inl at_stage,
        Or.inr (Or.inl (by rw [at_stage]; nofun))⟩
    · rename_i at_stage
      cases run
      refine ⟨.ends (by rw [at_stage]; rfl) (by rw [at_stage]; nofun) fun same => ?_,
        Or.inr (Or.inl (by rw [at_stage]; nofun))⟩
      split at same <;> cases same
    · rename_i at_stage
      cases run
      exact ⟨.waits at_stage, Or.inr (Or.inr rfl)⟩
    · rename_i at_stage
      split at run
      · rename_i told
        cases run
        refine ⟨.leaves at_stage ?_ ?_ fun _ => told, Or.inr (Or.inl (by rw [at_stage]; nofun))⟩
        · split <;> rfl
        · split <;> nofun
      · cases run
    · cases run
  | timeout =>
    simp only [Waiter.resume] at run
    split at run
    · rename_i at_stage _
      cases run
      refine ⟨.leaves at_stage ?_ ?_ fun same => ?_, Or.inr (Or.inl (by rw [at_stage]; nofun))⟩
      · split <;> rfl
      · split <;> nofun
      · split at same
        · rcases same with same | same | same <;> cases same
        · split at same <;> rcases same with same | same | same <;> cases same
    · cases run
  | cancelled =>
    refine ⟨?_, Or.inl rfl⟩
    simp only [Waiter.resume] at run
    split at run
    · rename_i at_stage
      cases run
      exact .leaves at_stage rfl nofun fun same => by rcases same with same | same | same <;> cases same
    · rename_i at_stage
      cases run
      exact .leaks at_stage
    · rename_i at_stage
      cases run
      exact .ends (by rw [at_stage]; rfl) (by rw [at_stage]; nofun) nofun
    · rename_i at_stage
      cases run
      exact .ends (by rw [at_stage]; rfl) (by rw [at_stage]; nofun) nofun
    · rename_i at_stage
      cases run
      exact .ends (by rw [at_stage]; rfl) (by rw [at_stage]; nofun) nofun
    · cases run

theorem Listed.next {l : Label} (listed : Listed w W) (run : WaitUntil.next normcase w W l = some W') : Listed w W' := by
  cases l with
  | store l =>
    simp only [WaitUntil.next, Option.ite_none_right_eq_some] at run
    exact (listed.store run.1 run.2).1
  | begin =>
    simp only [WaitUntil.next] at run
    split at run
    · simp only [Option.ite_none_right_eq_some, Option.some.injEq] at run
      obtain ⟨_, result⟩ := run
      have begun := begins w W
      rw [result] at begun
      cases begun with
      | refused _ => exact listed.at_stage rfl nofun
      | satisfied at_once =>
        rcases at_once with rfl | rfl
        · exact ⟨listed.indexed, listed.numbered, nofun, nofun⟩
        · exact ⟨listed.indexed, listed.numbered, nofun, nofun⟩
      | announces _ => exact listed.subscribed nofun
      | waits _ =>
        have on : Stage.announcing ≠ .ready := nofun
        exact (listed.subscribed on).wait rfl
    · cases run
  | resume wake =>
    simp only [WaitUntil.next, Option.ite_none_right_eq_some] at run
    cases (resumes run.2).1 with
    | waits at_stage => exact listed.wait (by rw [at_stage]; rfl)
    | leaves _ quiet begun _ => exact listed.unsubscribed quiet begun
    | ends _ _ _ => exact listed.at_stage rfl nofun
    | leaks _ => exact listed.at_stage rfl nofun

theorem listed {ok : Waiter → Label → Prop} (reach : Run.Reach (machine normcase w) ok W) : Listed w W := by
  induction reach with
  | init start =>
    cases start
    exact ⟨⟨.start, nofun, rfl⟩, nofun, nofun, fun _ => rfl⟩
  | step _ _ run ih => exact ih.next run

/-! ### Nothing is left behind -/

/-- A step that does not listen has no subscription. -/
def Tidy (W : Waiter) : Prop := W.stage.listens = false → Gone W

theorem tidy_wait (W : Waiter) : Tidy (W.wait w) := by
  intro quiet
  cases answer : evaluateCondition w W.state with
  | error error =>
    simp only [Waiter.wait, answer]
    exact gone_unsubscribed W _
  | ok answer' => simp [Waiter.wait, answer, Stage.listens] at quiet

theorem Tidy.next {l : Label} (tidy : Tidy W) (listed : Listed w W) (calm : ¬ CancelsAnnouncing W l)
    (run : WaitUntil.next normcase w W l = some W') : Tidy W' := by
  cases l with
  | store l =>
    simp only [WaitUntil.next, Option.ite_none_right_eq_some] at run
    intro quiet
    rw [(store_spec run.2).choose_spec.2.1] at quiet
    exact (listed.store run.1 run.2).2 (tidy quiet)
  | begin =>
    simp only [WaitUntil.next] at run
    split at run
    · rename_i ready
      simp only [Option.ite_none_right_eq_some, Option.some.injEq] at run
      obtain ⟨_, result⟩ := run
      have none := listed.unmade ready
      have begun := begins w W
      rw [result] at begun
      cases begun with
      | refused _ | satisfied _ => exact fun _ subId own => absurd (none.symm.trans own) nofun
      | announces _ => exact fun quiet => by cases quiet
      | waits _ => exact tidy_wait _
    · cases run
  | resume wake =>
    simp only [WaitUntil.next, Option.ite_none_right_eq_some] at run
    obtain ⟨resumed, awake⟩ := resumes run.2
    cases resumed with
    | waits _ => exact tidy_wait W
    | leaves _ _ _ _ => exact fun _ => gone_unsubscribed W _
    | ends quiet _ _ => exact fun _ => tidy quiet
    | leaks at_stage =>
      rcases awake with rfl | other | same
      · exact absurd at_stage calm
      · exact absurd at_stage other
      · rw [same]
        exact tidy_wait W

theorem tidy (reach : Run.Reach (machine normcase w) (fun W l => ¬ CancelsAnnouncing W l) W) : Tidy W := by
  induction reach with
  | init start =>
    cases start
    exact fun _ _ own => by cases own
  | step before calm run ih => exact ih.next (listed before) calm run

/-! ### What is reported as satisfied was -/

/-- The step knows of its condition only what is true. -/
structure Honest (w : WaitStep) (W : Waiter) : Prop where
  told : W.satisfied = true → W.held = true
  ended : W.stage.Reports → W.held = true
  sees : W.stage.listens = true → holds w W.state = true → W.held = true
  unbegun : W.stage = .ready → W.held = false ∧ W.satisfied = false

theorem Honest.wait (honest : Honest w W) (on : W.stage.listens = true) : Honest w (W.wait w) := by
  obtain ⟨_, _, satisfied, held⟩ := unsubscribed_stage W
  unfold Waiter.wait
  split
  · refine ⟨?_, ?_, nofun, nofun⟩
    · dsimp only
      rw [satisfied, held]
      exact honest.told
    · rintro (same | same | same) <;> cases same
  · rename_i answer looked
    refine ⟨fun told => ?_, ?_, fun _ => honest.sees on, nofun⟩
    · rcases Bool.or_eq_true _ _ ▸ told with before | now
      · exact honest.told before
      · exact honest.sees on (by simp only [holds, looked, now])
    · rintro (same | same | same) <;> cases same

theorem holds_subscribed (W : Waiter) (stage : Stage) : holds w (subscribed w W stage).state = holds w W.state :=
  holds_congr rfl

theorem Honest.subscribed (honest : Honest w W) (fails : holds w W.state = false) :
    Honest w (subscribed w W .announcing) where
  told := honest.told
  ended same := by rcases same with same | same | same <;> cases same
  sees _ now := by
    rw [holds_subscribed, fails] at now
    cases now
  unbegun := nofun

theorem Honest.store {l : StateStore.Label} (honest : Honest w W) (listed : Listed w W)
    (run : W.store normcase w l = some W') : Honest w W' := by
  unfold Waiter.store at run
  obtain ⟨s, next, result⟩ := Option.map_eq_some_iff.mp run
  subst result
  have begun : W.callsBack l = true → W.stage.begun = true := by
    intro called
    by_contra unbegun
    have ready : W.stage = .ready := by cases at_stage : W.stage <;> simp_all [Stage.begun]
    have none := listed.unmade ready
    unfold Waiter.callsBack at called
    split at called
    · split at called
      · rw [none] at called
        cases called
      · cases called
    · cases called
  refine ⟨fun told => ?_, fun ended => ?_, fun on now => ?_, fun ready => ?_⟩
  · rcases Bool.or_eq_true _ _ ▸ told with before | now
    · exact Bool.or_eq_true _ _ ▸ Or.inl (honest.told before)
    · obtain ⟨called, now⟩ := Bool.and_eq_true _ _ ▸ now
      exact Bool.or_eq_true _ _ ▸ Or.inr (Bool.and_eq_true _ _ ▸ ⟨begun called, now⟩)
  · exact Bool.or_eq_true _ _ ▸ Or.inl (honest.ended ended)
  · have same : holds w s = true := by
      dsimp only at now
      split at now
      · rwa [holds_hushed] at now
      · exact now
    have started : W.stage.begun = true := by
      dsimp only at on
      cases at_stage : W.stage <;> simp_all [Stage.begun, Stage.listens]
    exact Bool.or_eq_true _ _ ▸ Or.inr (Bool.and_eq_true _ _ ▸ ⟨started, same⟩)
  · dsimp only at ready
    obtain ⟨unheld, untold⟩ := honest.unbegun ready
    refine ⟨by simp [unheld, ready, Stage.begun], ?_⟩
    dsimp only
    rw [untold, Bool.false_or, Bool.and_eq_false_iff]
    left
    by_contra called
    have := begun (Bool.not_eq_false _ ▸ called)
    rw [ready] at this
    cases this

theorem Honest.next {l : Label} (honest : Honest w W) (listed : Listed w W)
    (run : WaitUntil.next normcase w W l = some W') : Honest w W' := by
  cases l with
  | store l =>
    simp only [WaitUntil.next, Option.ite_none_right_eq_some] at run
    exact honest.store listed run.2
  | begin =>
    simp only [WaitUntil.next] at run
    split at run
    · rename_i ready
      simp only [Option.ite_none_right_eq_some, Option.some.injEq] at run
      obtain ⟨_, result⟩ := run
      obtain ⟨unheld, untold⟩ := honest.unbegun ready
      have begun := begins w W
      rw [result] at begun
      cases begun with
      | refused other =>
        refine ⟨honest.told, fun same => ?_, nofun, nofun⟩
        rcases same with same | same | same
        · cases same
        · cases same
        · exact absurd (Stage.ended.inj same) other
      | satisfied at_once =>
        refine ⟨fun _ => rfl, fun _ => rfl, fun _ _ => rfl, fun same => ?_⟩
        rcases at_once with rfl | rfl <;> cases same
      | announces fails => exact honest.subscribed fails
      | waits fails => exact (honest.subscribed fails).wait rfl
    · cases run
  | resume wake =>
    simp only [WaitUntil.next, Option.ite_none_right_eq_some] at run
    obtain ⟨_, _, satisfied, held⟩ := unsubscribed_stage W
    cases (resumes run.2).1 with
    | waits at_stage => exact honest.wait (by rw [at_stage]; rfl)
    | leaves _ quiet begun told =>
      refine ⟨?_, fun same => ?_, fun on => absurd on (by simp [quiet]), fun ready => absurd ready begun⟩
      · dsimp only
        rw [satisfied, held]
        exact honest.told
      · dsimp only
        rw [held]
        exact honest.told (told same)
    | ends _ _ before =>
      refine ⟨honest.told, fun same => ?_, nofun, nofun⟩
      rcases same with same | same | same
      · cases same
      · cases same
      · rcases before (Stage.ended.inj same) with at_stage | at_stage
        · exact honest.ended (Or.inl at_stage)
        · exact honest.ended (Or.inr (Or.inl at_stage))
    | leaks _ =>
      refine ⟨honest.told, fun same => ?_, nofun, nofun⟩
      rcases same with same | same | same <;> cases same

theorem honest {ok : Waiter → Label → Prop} (reach : Run.Reach (machine normcase w) ok W) : Honest w W := by
  induction reach with
  | init start =>
    cases start
    refine ⟨nofun, fun same => ?_, nofun, fun _ => ⟨rfl, rfl⟩⟩
    rcases same with same | same | same <;> cases same
  | step before _ run ih => exact ih.next (listed before) run

/-! ### Nothing is missed -/

/-- A change of the condition's key calls the subscription made with that key. -/
def matchesItself (normcase : Text → Text) (key : Text) : Bool :=
  (classifyPattern key).finds normcase key key

/-- Only a key that is read as a glob pattern can fail to match itself. -/
theorem matchesItself_of_literal {key : Text} (literal : classifyPattern key ≠ .glob) : matchesItself normcase key = true := by
  unfold matchesItself
  cases place : classifyPattern key with
  | universal => rfl
  | exact k =>
    rw [(classifyPattern_exact place).1]
    exact decide_eq_true rfl
  | prefixed start =>
    obtain ⟨stem, rfl, rfl, _⟩ := classifyPattern_prefixed place
    refine decide_eq_true (mem_dottedPrefixes.mpr ⟨⟨text "*", ?_⟩, ?_⟩)
    · rw [List.append_assoc]
      rfl
    · simp [text]
  | glob => exact absurd place literal

/-- The step's own listener is still to be called. -/
def Pending (W : Waiter) : Prop :=
  ∃ n ∈ W.state.notifying, ∃ d ∈ n.remaining, W.subId = some d.subId

/-- A write makes the condition false again before the step has been told that it is true. -/
def TakesBack (w : WaitStep) (W : Waiter) : Label → Prop
  | .store (.call op) => W.satisfied = false ∧ Pending W ∧ holds w W.state = true ∧ holds w (W.state.write op).1 = false
  | _ => False

/-- A listening step whose condition has held has been told, or will be. -/
def Awake (w : WaitStep) (W : Waiter) : Prop :=
  W.stage.listens = true → W.held = true → W.satisfied = true ∨ (holds w W.state = true ∧ Pending W)

/-- A write that makes the condition true has the step's own listener called. -/
theorem pending_call {op : Op} (listed : Listed w W) (on : W.stage.listens = true) (own : matchesItself normcase w.key = true)
    (dict : op.isDict = true) (before : holds w W.state = false) (after : holds w (W.state.write op).1 = true)
    (state : s = W.state.call normcase op) :
    ∃ n ∈ s.notifying, ∃ d ∈ n.remaining, W.subId = some d.subId := by
  obtain ⟨subId, known, member⟩ := listed.listed on
  rcases change_of_key W.state dict w.key with ⟨_, same⟩ | ⟨c, changed, at_key, _⟩
  · rw [holds_congr same, before] at after
    cases after
  · have some_ : (W.state.write op).2 ≠ [] := List.ne_nil_of_mem changed
    have calls := @callsOf_notifications normcase _ _ listed.indexed.filed listed.indexed.held _ member _ some_
    have called : (⟨subId, [c]⟩ : Delivery) ∈ callsOf subId (notifications normcase W.state.subs (W.state.write op).2) := by
      rw [calls]
      simp only [Sub.calls, Bool.false_eq_true, if_false]
      refine List.mem_map.mpr ⟨c, List.mem_filter.mpr ⟨changed, ?_⟩, rfl⟩
      rw [at_key]
      exact own
    refine ⟨⟨(W.state.write op).2, notifications normcase W.state.subs (W.state.write op).2, false⟩, ?_,
      ⟨subId, [c]⟩, (List.mem_filter.mp called).1, known⟩
    rw [state, StateStore.notifying_call, if_neg some_]
    exact List.mem_cons_self

/-- What has been pending still is, unless the step's own listener is called. -/
theorem pending_next {l : StateStore.Label} (pending : Pending W) (uncalled : W.callsBack l = false)
    (run : W.state.next normcase l = some s) : ∃ n ∈ s.notifying, ∃ d ∈ n.remaining, W.subId = some d.subId := by
  obtain ⟨n, inside, d, member, own⟩ := pending
  rcases StateStore.next_notifying run with ⟨same, _⟩ | ⟨top, same, _⟩ | ⟨top, outer, notifying, same, none, _⟩ |
    ⟨top, first, rest, outer, notifying, remaining, same, at_depth⟩
  · exact ⟨n, same ▸ inside, d, member, own⟩
  · exact ⟨n, same ▸ List.mem_cons_of_mem top inside, d, member, own⟩
  · rw [notifying] at inside
    rcases List.mem_cons.mp inside with rfl | below
    · rw [none] at member
      cases member
    · exact ⟨n, same ▸ below, d, member, own⟩
  · rw [notifying] at inside
    rcases List.mem_cons.mp inside with rfl | below
    · refine ⟨{ n with remaining := rest, calling := true }, same ▸ List.mem_cons_self, d, ?_, own⟩
      rw [remaining] at member
      rcases List.mem_cons.mp member with rfl | later
      · exfalso
        have delivers : l = .deliver := by
          have called := at_depth outer.length
          rw [if_pos rfl] at called
          cases l <;> simp_all [StateStore.calledAt]
        subst delivers
        obtain ⟨changes, remaining', calling⟩ := n
        simp only at remaining
        subst remaining
        simp [Waiter.callsBack, notifying, own] at uncalled
      · exact later
    · exact ⟨n, same ▸ List.mem_cons_of_mem _ below, d, member, own⟩

theorem Awake.store {l : StateStore.Label} (awake : Awake w W) (listed : Listed w W) (honest : Honest w W)
    (own : matchesItself normcase w.key = true) (calm : ¬ TakesBack w W (.store l)) (allowed : W.allows l = true)
    (run : W.store normcase w l = some W') : Awake w W' := by
  unfold Waiter.store at run
  obtain ⟨s, next, result⟩ := Option.map_eq_some_iff.mp run
  subst result
  intro on held
  dsimp only at on held
  by_cases called : W.callsBack l = true
  · -- the own listener looks at the condition itself
    have delivers : ∀ op, l ≠ .call op := by
      rintro op rfl
      cases called
    have same : holds w s = holds w W.state := holds_congr (get_next delivers next w.key)
    cases now : holds w s with
    | true => exact Or.inl (by simp [called])
    | false =>
      rw [now] at same
      have before : W.held = true := by simpa [now] using held
      rcases awake on before with told | ⟨true_, _⟩
      · exact Or.inl (by simp [told])
      · rw [true_] at same
        cases same
  · have uncalled : W.callsBack l = false := Bool.not_eq_true _ ▸ called
    simp only [Pending, uncalled, Bool.false_eq_true, if_false, Bool.false_and, Bool.or_false]
    cases told : W.satisfied with
    | true => exact Or.inl rfl
    | false =>
      refine Or.inr ?_
      by_cases calls : ∃ op, l = .call op
      · obtain ⟨op, rfl⟩ := calls
        have state : s = W.state.call normcase op := by
          simp only [StateStore.next, Option.ite_none_right_eq_some, Option.some.injEq] at next
          exact next.2.symm
        have after : holds w s = holds w (W.state.write op).1 := holds_congr (state ▸ get_call W.state op w.key)
        cases before : W.held with
        | true =>
          rcases awake on before with now | ⟨true_, pending⟩
          · rw [told] at now
            cases now
          · refine ⟨?_, pending_next pending uncalled next⟩
            by_contra false_
            exact calm ⟨told, pending, true_, after ▸ Bool.not_eq_true _ ▸ false_⟩
        | false =>
          have now : holds w s = true := by
            rw [before, Bool.false_or] at held
            exact (Bool.and_eq_true _ _ ▸ held).2
          have false_ : holds w W.state = false := by
            by_contra true_
            have seen := honest.sees on (Bool.not_eq_false _ ▸ true_)
            rw [before] at seen
            cases seen
          exact ⟨now, pending_call listed on own allowed false_ (after ▸ now) state⟩
      · have same : holds w s = holds w W.state := holds_congr (get_next (fun op is => calls ⟨op, is⟩) next w.key)
        have before : W.held = true := by
          rcases Bool.or_eq_true _ _ ▸ held with before | now
          · exact before
          · exact honest.sees on (same ▸ (Bool.and_eq_true _ _ ▸ now).2)
        rcases awake on before with now | ⟨true_, pending⟩
        · rw [told] at now
          cases now
        · exact ⟨same.trans true_, pending_next pending uncalled next⟩

theorem not_pending_of_idle (idle : W.state.idle = true) : ¬ Pending W := by
  rintro ⟨n, inside, _⟩
  have empty := (Bool.and_eq_true _ _ ▸ idle).1
  rw [List.isEmpty_iff.mp empty] at inside
  cases inside

theorem Awake.wait (awake : Awake w W) (on : W.stage.listens = true) (idle : W.state.idle = true) : Awake w (W.wait w) := by
  intro on' held
  cases answer : evaluateCondition w W.state with
  | error error => simp [Waiter.wait, answer, Stage.listens] at on'
  | ok answer' =>
    simp only [Waiter.wait, answer] at held ⊢
    rcases awake on held with told | ⟨_, pending⟩
    · exact Or.inl (by rw [told]; rfl)
    · exact absurd pending (not_pending_of_idle idle)

theorem Awake.next {l : Label} (awake : Awake w W) (listed : Listed w W) (honest : Honest w W)
    (own : matchesItself normcase w.key = true) (calm : ¬ TakesBack w W l)
    (run : WaitUntil.next normcase w W l = some W') : Awake w W' := by
  cases l with
  | store l =>
    simp only [WaitUntil.next, Option.ite_none_right_eq_some] at run
    exact awake.store listed honest own calm run.1 run.2
  | begin =>
    simp only [WaitUntil.next] at run
    split at run
    · rename_i ready
      simp only [Option.ite_none_right_eq_some, Option.some.injEq] at run
      obtain ⟨idle, result⟩ := run
      have unheld := (honest.unbegun ready).1
      have begun := begins w W
      rw [result] at begun
      have fresh : Awake w (subscribed w W .announcing) := fun _ held => absurd (unheld.symm.trans held) nofun
      cases begun with
      | refused _ => exact nofun
      | satisfied at_once => rcases at_once with rfl | rfl <;> exact nofun
      | announces _ => exact fresh
      | waits _ => exact fresh.wait rfl idle
    · cases run
  | resume wake =>
    simp only [WaitUntil.next, Option.ite_none_right_eq_some] at run
    cases (resumes run.2).1 with
    | waits at_stage => exact awake.wait (by rw [at_stage]; rfl) run.1
    | leaves _ quiet _ _ => exact fun on => absurd on (by simp [quiet])
    | ends _ _ _ | leaks _ => exact nofun

theorem awake (own : matchesItself normcase w.key = true)
    (reach : Run.Reach (machine normcase w) (fun W l => ¬ TakesBack w W l) W) : Awake w W := by
  induction reach with
  | init start =>
    cases start
    exact nofun
  | step before calm run ih => exact ih.next (listed before) (honest before) own calm run

/-! ### What the step promises -/

/-- The step that has ended has given its subscription back. -/
def Clean (W : Waiter) : Prop := ∀ ending, W.stage = .ended ending → Gone W

/-- A step that returns as satisfied has seen its condition hold. -/
def Truthful (W : Waiter) : Prop := W.stage = .ended .satisfied → W.held = true

/-- A step without a timeout whose condition has held is free to go on, and goes. -/
def Roused (w : WaitStep) (W : Waiter) : Prop :=
  W.stage = .waiting → w.timeout = .never → W.state.idle = true → W.held = true →
    ∃ W', W.resume w .ok = some W' ∧ W'.stage.listens = false

/-- The subscription goes unless the step is cancelled while it announces its
wait. Nothing is missed of a key that matches itself as a pattern, unless the
condition is made false again before the step has been told. -/
theorem wait_until_kept (normcase : Text → Text) (w : WaitStep) :
    (∀ W, Run.Reach (machine normcase w) (fun W l => ¬ CancelsAnnouncing W l) W → Clean W) ∧
    (∀ W, Run.Reach (machine normcase w) Run.always W → Truthful W) ∧
    (matchesItself normcase w.key = true →
      ∀ W, Run.Reach (machine normcase w) (fun W l => ¬ TakesBack w W l) W → Roused w W) := by
  refine ⟨fun W reach ending ended => ?_, fun W reach ended => ?_, fun own W reach waiting _ idle held => ?_⟩
  · exact tidy reach (by rw [ended]; rfl)
  · exact (honest reach).ended (Or.inr (Or.inr ended))
  · rcases awake own reach (by rw [waiting]; rfl) held with told | ⟨_, pending⟩
    · refine ⟨{ W.unsubscribed with stage := if w.announced then .satisfied else .ended .satisfied }, ?_, ?_⟩
      · simp only [Waiter.resume, waiting, told, if_true]
      · dsimp only
        split <;> rfl
    · exact absurd pending (not_pending_of_idle idle)

section Runs

/-- A wait for a key to be true, with no timeout. -/
def untilTrue (key : Text) : WaitStep where
  key := key
  evaluate v := .ok (v = .bool true)

def turnOn (key : Text) : Label := .store (.call (.set key (.flat (.bool true)) (text "api")))

def ready : Text := text "var.ready"

/-- The condition comes true while the step waits: it is told, and goes on. -/
theorem wait_until_kept_told : ∃ W, (machine id (untilTrue ready)).run Run.always {}
      [.begin, .resume .ok, turnOn ready, .store .deliver, .store .deliver, .resume .ok, .resume .ok] = some W ∧
    W.stage = .ended .satisfied ∧ Truthful W := by
  have made : ∃ W, (machine id (untilTrue ready)).run Run.always {}
      [.begin, .resume .ok, turnOn ready, .store .deliver, .store .deliver, .resume .ok, .resume .ok] = some W ∧
      W.stage = .ended .satisfied := ⟨_, rfl, rfl⟩
  obtain ⟨W, run, ended⟩ := made
  exact ⟨W, run, ended, (wait_until_kept id (untilTrue ready)).2.1 W (.run (.init rfl) run)⟩

/-- Cancelled while it announces its wait, the step leaves its subscription behind. -/
theorem wait_until_leaks : ¬ ∀ (normcase : Text → Text) (w : WaitStep) (W : Waiter),
    Run.Reach (machine normcase w) Run.always W → Clean W ∧ Truthful W ∧ Roused w W := by
  intro claimed
  have made : ∃ W, (machine id (untilTrue ready)).run Run.always {} [.begin, .resume .cancelled] = some W ∧
      W.stage = .ended .cancelled ∧ W.subId = some 0 ∧ W.state.subs.allSubs = [⟨0, ready, false⟩] :=
    ⟨_, rfl, rfl, rfl, rfl⟩
  obtain ⟨W, run, ended, own, all⟩ := made
  have gone := (claimed id (untilTrue ready) W (.run (.init rfl) run)).1 _ ended
  exact gone 0 own ⟨0, ready, false⟩ (by rw [all]; exact List.mem_cons_self) rfl

/-- A key with brackets, read as a pattern, is not its own: the step waits on after the condition has come true. -/
theorem wait_until_misses : ∃ W, (machine id (untilTrue (text "var.[a]"))).run Run.always {}
      [.begin, .resume .ok, turnOn (text "var.[a]"), .store .deliver] = some W ∧
    W.stage = .waiting ∧ W.state.idle = true ∧ W.held = true ∧ ¬ Roused (untilTrue (text "var.[a]")) W := by
  have made : ∃ W, (machine id (untilTrue (text "var.[a]"))).run Run.always {}
      [.begin, .resume .ok, turnOn (text "var.[a]"), .store .deliver] = some W ∧
      W.stage = .waiting ∧ W.state.idle = true ∧ W.held = true ∧ W.satisfied = false := by
    refine ⟨_, rfl, rfl, rfl, rfl, rfl⟩
  obtain ⟨W, run, waiting, idle, held, untold⟩ := made
  refine ⟨W, run, waiting, idle, held, fun roused => ?_⟩
  obtain ⟨W', goes, _⟩ := roused waiting rfl idle held
  simp [Waiter.resume, waiting, untold] at goes

end Runs

end OpenAvc.WaitUntil
