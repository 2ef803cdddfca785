import OpenAvc.Data.Lookup
import OpenAvc.Scripts.Lanes

/-! One run of a script at a time, and no more stuck ones than the limit on them. -/

namespace OpenAvc.Scripts

open Run

/-- A lane and the workers it knows. -/
structure Kept (s : System) (l : Nat) : Prop where
  own : ∀ w, (s.lanes l).worker = some w → w < s.workerCount ∧ (s.workers w).lane = l ∧ (s.workers w).alive = true ∧
    (s.workers w).stopping = false ∧ w ∉ (s.lanes l).stuck ∧ w ∉ s.abandoned ∧
    ∀ job, (s.workers w).job = some job → (s.lanes l).holder = some (job.run, w)
  held : ∀ run w, (s.lanes l).holder = some (run, w) → w < s.workerCount ∧ (s.workers w).lane = l ∧
    w ∉ (s.lanes l).stuck ∧ w ∉ s.abandoned ∧ (∃ phase, (s.workers w).job = some ⟨run, phase⟩) ∧
    ((s.lanes l).worker = some w ∨ (s.lanes l).closed = true)
  left : ∀ w ∈ (s.lanes l).stuck, w < s.workerCount ∧ (s.workers w).lane = l
  room : (s.lanes l).stuck.length + (if (s.lanes l).holder.isSome then 1 else 0) ≤ maxStuckRuns

/-- The worker runs code. -/
def System.executes (s : System) (w : Nat) : Prop :=
  ∃ run, (s.workers w).job = some ⟨run, .executing⟩

/-- Code runs where the turn is, or where it has been given up. -/
structure Sound (s : System) : Prop where
  kept : ∀ l, Kept s l
  working : ∀ w job, (s.workers w).job = some job → job.phase ≠ .finished → w < s.workerCount ∧ (s.workers w).alive = true ∧
    ((s.lanes (s.workers w).lane).holder = some (job.run, w) ∨
      job.phase = .executing ∧ w ∈ (s.lanes (s.workers w).lane).stuck ∧ w ∈ s.abandoned)
  leashed : ∀ w ∈ s.abandoned, w < s.workerCount
  unmade : ∀ l, s.laneCount ≤ l → s.lanes l = {}
  filed : ∀ script l, s.byScript.lookup script = some l → l < s.laneCount

theorem sound_init : Sound {} where
  kept _ := ⟨by simp, by simp, by simp, by simp⟩
  working _ _ has := by simp at has
  leashed _ member := by simp at member
  unmade _ _ := rfl
  filed _ _ found := by simp at found

/-- What a lane keeps when it is written again, every lane keeps. -/
theorem System.setLane_keeps {s : System} {l : Nat} {lane : Lane} {α : Type*} (f : Lane → α) (same : f lane = f (s.lanes l))
    (l' : Nat) : f ((s.setLane l lane).lanes l') = f (s.lanes l') := by
  by_cases here : l' = l
  · subst here
    simpa [setLane] using same
  · simp [setLane, here]

namespace Kept

variable {s s' : System} {l : Nat}

/-- What goes on in other lanes does not touch this one. -/
theorem frame (kept : Kept s l) (lane : s'.lanes l = s.lanes l) (count : s.workerCount ≤ s'.workerCount)
    (workers : ∀ w, w < s.workerCount → (s.workers w).lane = l → s'.workers w = s.workers w)
    (abandoned : ∀ w, w < s.workerCount → (s.workers w).lane = l → w ∈ s'.abandoned → w ∈ s.abandoned) : Kept s' l where
  own w here := by
    rw [lane] at here ⊢
    obtain ⟨known, mine, alive, going, free, kept, job⟩ := kept.own w here
    rw [workers w known mine]
    exact ⟨known.trans_le count, mine, alive, going, free, fun gone => kept (abandoned w known mine gone), job⟩
  held run w here := by
    rw [lane] at here ⊢
    obtain ⟨known, mine, free, kept, job, own⟩ := kept.held run w here
    rw [workers w known mine]
    exact ⟨known.trans_le count, mine, free, fun gone => kept (abandoned w known mine gone), job, own⟩
  left w member := by
    rw [lane] at member
    obtain ⟨known, mine⟩ := kept.left w member
    rw [workers w known mine]
    exact ⟨known.trans_le count, mine⟩
  room := by
    rw [lane]
    exact kept.room

/-- Runs that come or go while they wait do not touch the lane's worker. -/
theorem alike (kept : Kept s l) (workers : s'.workers = s.workers) (count : s'.workerCount = s.workerCount)
    (abandoned : s'.abandoned = s.abandoned) (worker : (s'.lanes l).worker = (s.lanes l).worker)
    (holder : (s'.lanes l).holder = (s.lanes l).holder) (stuck : (s'.lanes l).stuck.Sublist (s.lanes l).stuck)
    (closed : (s'.lanes l).closed = (s.lanes l).closed) : Kept s' l where
  own w here := by
    rw [worker] at here
    rw [workers, count, abandoned, holder]
    obtain ⟨known, mine, alive, going, free, rest⟩ := kept.own w here
    exact ⟨known, mine, alive, going, fun member => free (stuck.subset member), rest⟩
  held run w here := by
    rw [holder] at here
    rw [workers, count, abandoned, worker, closed]
    obtain ⟨known, mine, free, rest⟩ := kept.held run w here
    exact ⟨known, mine, fun member => free (stuck.subset member), rest⟩
  left w member := by
    rw [workers, count]
    exact kept.left w (stuck.subset member)
  room := by
    rw [holder]
    exact (Nat.add_le_add_right stuck.length_le _).trans kept.room

end Kept

namespace Sound

variable {s s' : System}

/-- Steps that leave every worker alone, and take none out of the stuck ones that is alive. -/
theorem pruned (sound : Sound s) (workers : s'.workers = s.workers) (count : s'.workerCount = s.workerCount)
    (abandoned : s'.abandoned = s.abandoned) (worker : ∀ l, (s'.lanes l).worker = (s.lanes l).worker)
    (holder : ∀ l, (s'.lanes l).holder = (s.lanes l).holder)
    (stuck : ∀ l, (s'.lanes l).stuck.Sublist (s.lanes l).stuck)
    (alive : ∀ l, ∀ w ∈ (s.lanes l).stuck, (s.workers w).alive = true → w ∈ (s'.lanes l).stuck)
    (closed : ∀ l, (s'.lanes l).closed = (s.lanes l).closed)
    (unmade : ∀ l, s'.laneCount ≤ l → s'.lanes l = {})
    (filed : ∀ script l, s'.byScript.lookup script = some l → l < s'.laneCount) : Sound s' where
  kept l := (sound.kept l).alike workers count abandoned (worker l) (holder l) (stuck l) (closed l)
  working w job has busy := by
    rw [workers] at has
    rw [workers, count, abandoned, holder]
    obtain ⟨known, living, place⟩ := sound.working w job has busy
    exact ⟨known, living, place.imp id fun given => ⟨given.1, alive _ w given.2.1 living, given.2.2⟩⟩
  leashed w member := by
    rw [abandoned] at member
    rw [count]
    exact sound.leashed w member
  unmade := unmade
  filed := filed

theorem alike (sound : Sound s) (workers : s'.workers = s.workers) (count : s'.workerCount = s.workerCount)
    (abandoned : s'.abandoned = s.abandoned) (worker : ∀ l, (s'.lanes l).worker = (s.lanes l).worker)
    (holder : ∀ l, (s'.lanes l).holder = (s.lanes l).holder) (stuck : ∀ l, (s'.lanes l).stuck = (s.lanes l).stuck)
    (closed : ∀ l, (s'.lanes l).closed = (s.lanes l).closed)
    (unmade : ∀ l, s'.laneCount ≤ l → s'.lanes l = {})
    (filed : ∀ script l, s'.byScript.lookup script = some l → l < s'.laneCount) : Sound s' :=
  sound.pruned workers count abandoned worker holder (fun l => by rw [stuck l])
    (fun l w member _ => by rw [stuck l]; exact member) closed unmade filed

theorem ask (sound : Sound s) (script : Option Text) : Sound (s.ask script) := by
  unfold System.ask
  cases found : s.byScript.lookup script with
  | some l =>
    have made := sound.filed script l found
    refine sound.alike rfl rfl rfl (s.setLane_keeps Lane.worker rfl) (s.setLane_keeps Lane.holder rfl)
      (s.setLane_keeps Lane.stuck rfl) (s.setLane_keeps Lane.closed rfl) ?_ sound.filed
    intro l' beyond
    have other : l' ≠ l := by
      rintro rfl
      exact absurd made (Nat.not_lt.mpr beyond)
    simp only [System.note, System.setLane, Function.update_apply, if_neg other]
    exact sound.unmade l' beyond
  | none =>
    have fresh := sound.unmade s.laneCount le_rfl
    refine sound.alike rfl rfl rfl (s.setLane_keeps Lane.worker (by rw [fresh])) (s.setLane_keeps Lane.holder (by rw [fresh]))
      (s.setLane_keeps Lane.stuck (by rw [fresh])) (s.setLane_keeps Lane.closed (by rw [fresh])) ?_ ?_
    · intro l' beyond
      have beyond : s.laneCount + 1 ≤ l' := beyond
      have other : l' ≠ s.laneCount := by omega
      simp only [System.note, System.setLane, Function.update_apply, if_neg other]
      exact sound.unmade l' (by omega)
    · intro script' l' found'
      simp only [System.note, System.setLane, Dict.lookup_set] at found' ⊢
      split at found'
      · cases found'
        omega
      · have := sound.filed script' l' found'
        omega

/-- A lane that the system has: one where a run waits or has its turn. -/
theorem lane_made (sound : Sound s) {l : Nat} (used : (s.lanes l).holder ≠ none ∨ (s.lanes l).waiting ≠ []) : l < s.laneCount := by
  by_contra beyond
  rw [sound.unmade l (Nat.not_lt.mp beyond)] at used
  simp at used

theorem unmade_setLane (sound : Sound s) {l : Nat} (made : l < s.laneCount) (lane : Lane) (l' : Nat) (beyond : s.laneCount ≤ l') :
    (s.setLane l lane).lanes l' = {} := by
  have other : l' ≠ l := by omega
  simp only [System.setLane, Function.update_apply, if_neg other]
  exact sound.unmade l' beyond

/-- The worker that a run would be given to is there for it. -/
theorem workerFor (sound : Sound s) {l : Nat} (free : (s.lanes l).holder = none) {worker : Worker}
    (given : worker = if (s.lanes l).worker.isSome then s.workers (s.workerFor l) else { lane := l }) :
    worker.lane = l ∧ worker.alive = true ∧ worker.stopping = false ∧ s.workerFor l ∉ (s.lanes l).stuck ∧
      s.workerFor l ∉ s.abandoned ∧ (s.workerFor l < s.workerCount → (s.workers (s.workerFor l)).lane = l) ∧
      ∀ job, (s.workers (s.workerFor l)).job = some job → job.phase = .finished := by
  cases has : (s.lanes l).worker with
  | some w =>
    have here : s.workerFor l = w := by simp [System.workerFor, has]
    rw [here] at given ⊢
    rw [has] at given
    subst given
    obtain ⟨known, mine, alive, going, apart, leashed, job⟩ := (sound.kept l).own w has
    refine ⟨mine, alive, going, apart, leashed, fun _ => mine, fun job' busy => ?_⟩
    have turn := job job' busy
    rw [free] at turn
    cases turn
  | none =>
    have here : s.workerFor l = s.workerCount := by simp [System.workerFor, has]
    rw [here] at given ⊢
    rw [has] at given
    subst given
    refine ⟨rfl, rfl, rfl, fun member => ?_, fun member => ?_, fun beyond => absurd beyond (lt_irrefl _), fun job busy => ?_⟩
    · exact absurd ((sound.kept l).left _ member).1 (lt_irrefl _)
    · exact absurd (sound.leashed _ member) (lt_irrefl _)
    · by_contra working
      exact absurd (sound.working _ job busy working).1 (lt_irrefl _)

/-- A run is given to the lane's worker, or to a new one. -/
theorem started (sound : Sound s) {l : Nat} (made : l < s.laneCount) (free : (s.lanes l).holder = none)
    (room : ((s.lanes l).stuck.filter fun w => (s.workers w).alive).length < maxStuckRuns) (going : (s.lanes l).closed = false)
    (run : Nat) (rest : List Nat) :
    Sound ((({ s with workerCount := max s.workerCount (s.workerFor l + 1) }.setLane l
      { s.lanes l with
        waiting := rest, stuck := (s.lanes l).stuck.filter fun w => (s.workers w).alive,
        worker := some (s.workerFor l), holder := some (run, s.workerFor l) }).setWorker (s.workerFor l)
        { (if (s.lanes l).worker.isSome then s.workers (s.workerFor l) else { lane := l }) with
          job := some ⟨run, .queued⟩ }).note (.started l run)) := by
  generalize given : (if (s.lanes l).worker.isSome then s.workers (s.workerFor l) else { lane := l }) = worker
  obtain ⟨mine, alive, fresh, apart, leashed, before, idle⟩ := sound.workerFor free given.symm
  generalize s.workerFor l = w at *
  have others : ∀ w', w' ≠ w → ∀ worker', Function.update s.workers w worker' w' = s.workers w' :=
    fun w' other worker' => Function.update_of_ne other ..
  refine ⟨fun l' => ?_, fun w' job has busy => ?_, fun w' member => ?_, ?_, sound.filed⟩
  · by_cases here : l' = l
    · subst here
      refine ⟨fun w' own => ?_, fun run' w' held => ?_, fun w' member => ?_, ?_⟩
      · obtain rfl : w = w' := by simpa [System.note, System.setLane, System.setWorker] using own
        simp only [System.note, System.setLane, System.setWorker, Function.update_self]
        exact ⟨by omega, mine, alive, fresh, fun member => apart (List.mem_of_mem_filter member), leashed, by
          intro job same
          cases same
          rfl⟩
      · obtain ⟨rfl, rfl⟩ : run = run' ∧ w = w' := by simpa [System.note, System.setLane, System.setWorker] using held
        simp only [System.note, System.setLane, System.setWorker, Function.update_self]
        exact ⟨by omega, mine, fun member => apart (List.mem_of_mem_filter member), leashed, ⟨_, rfl⟩, Or.inl trivial⟩
      · have member : w' ∈ (s.lanes l').stuck := by
          simp only [System.note, System.setLane, System.setWorker, Function.update_self] at member
          exact List.mem_of_mem_filter member
        obtain ⟨known, own⟩ := (sound.kept l').left w' member
        have other : w' ≠ w := fun same => apart (same ▸ member)
        simp only [System.note, System.setLane, System.setWorker, others w' other]
        exact ⟨by omega, own⟩
      · simp only [System.note, System.setLane, System.setWorker, Function.update_self, Option.isSome_some, if_true]
        exact room
    · refine (sound.kept l').frame ?_ ?_ (fun w' known own => ?_) (fun w' _ _ member => member)
      · simp [System.note, System.setLane, System.setWorker, here]
      · exact le_max_left _ _
      · refine others w' ?_ _
        rintro rfl
        exact here (own.symm.trans (before known))
  · by_cases same : w' = w
    · subst same
      simp only [System.note, System.setLane, System.setWorker, Function.update_self] at has ⊢
      cases has
      rw [mine, Function.update_self]
      exact ⟨by omega, alive, Or.inl rfl⟩
    · simp only [System.note, System.setLane, System.setWorker, others w' same] at has ⊢
      obtain ⟨known, living, place⟩ := sound.working w' job has busy
      refine ⟨by omega, living, ?_⟩
      by_cases here : (s.workers w').lane = l
      · rw [here] at place
        rw [here, Function.update_self]
        rcases place with turn | ⟨executing, stuck, given⟩
        · rw [free] at turn
          cases turn
        · exact Or.inr ⟨executing, List.mem_filter.mpr ⟨stuck, living⟩, given⟩
      · rw [Function.update_of_ne here]
        exact place
  · exact lt_of_lt_of_le (sound.leashed w' member) (le_max_left _ _)
  · intro l' beyond
    have other : l' ≠ l := by
      rintro rfl
      exact absurd made (Nat.not_lt.mpr beyond)
    simp only [System.note, System.setLane, System.setWorker, Function.update_of_ne other]
    exact sound.unmade l' beyond

theorem turn (sound : Sound s) {l : Nat} (did : s.turn l = some s') : Sound s' := by
  unfold System.turn at did
  split at did
  · rename_i run rest free waits
    have made := sound.lane_made (l := l) (Or.inr (by simp [waits]))
    simp only at did
    split at did
    · cases did
      exact sound.alike rfl rfl rfl (s.setLane_keeps Lane.worker rfl) (s.setLane_keeps Lane.holder rfl)
        (s.setLane_keeps Lane.stuck rfl) (s.setLane_keeps Lane.closed rfl)
        (sound.unmade_setLane made _) sound.filed
    · rename_i going
      split at did
      · cases did
        refine sound.pruned rfl rfl rfl (s.setLane_keeps Lane.worker rfl) (s.setLane_keeps Lane.holder rfl)
          (fun l' => ?_) (fun l' w member alive => ?_) (s.setLane_keeps Lane.closed rfl) (sound.unmade_setLane made _) sound.filed
        · by_cases here : l' = l
          · subst here
            simp [System.note, System.setLane]
          · simp [System.note, System.setLane, here]
        · by_cases here : l' = l
          · subst here
            simpa [System.note, System.setLane] using ⟨member, alive⟩
          · simpa [System.note, System.setLane, here] using member
      · cases did
        exact sound.started made free (not_le.mp ‹_›) (by simpa using going) run rest
  · cases did

/-- A worker that goes on with its job. -/
theorem went_on (sound : Sound s) {w run : Nat} {phase phase' : Phase} (job : (s.workers w).job = some ⟨run, phase⟩)
    (busy : phase ≠ .finished) (onward : phase = .queued ∨ phase' = .finished) :
    Sound (s.setWorker w { s.workers w with job := some ⟨run, phase'⟩ }) where
  kept l := by
    obtain ⟨own, held, left, room⟩ := sound.kept l
    refine ⟨fun w' here => ?_, fun run' w' here => ?_, fun w' member => ?_, room⟩
    · obtain ⟨known, mine, alive, going, apart, leashed, turn⟩ := own w' here
      by_cases same : w' = w
      · subst same
        simp only [System.setWorker, Function.update_self]
        refine ⟨known, mine, alive, going, apart, leashed, fun job' has => ?_⟩
        have place := turn _ job
        cases has
        exact place
      · simp only [System.setWorker, Function.update_of_ne same]
        exact own w' here
    · obtain ⟨known, mine, apart, leashed, has, place⟩ := held run' w' here
      by_cases same : w' = w
      · subst same
        obtain ⟨phase'', has⟩ := has
        rw [job] at has
        cases has
        simp only [System.setWorker, Function.update_self]
        exact ⟨known, mine, apart, leashed, ⟨phase', rfl⟩, place⟩
      · simp only [System.setWorker, Function.update_of_ne same]
        exact ⟨known, mine, apart, leashed, has, place⟩
    · obtain ⟨known, mine⟩ := left w' member
      by_cases same : w' = w
      · subst same
        simp only [System.setWorker, Function.update_self]
        exact ⟨known, mine⟩
      · simp only [System.setWorker, Function.update_of_ne same]
        exact ⟨known, mine⟩
  working w' job' has working := by
    by_cases same : w' = w
    · subst same
      simp only [System.setWorker, Function.update_self] at has ⊢
      cases has
      obtain ⟨known, alive, place⟩ := sound.working w' _ job busy
      refine ⟨known, alive, ?_⟩
      rcases place with turn | ⟨executing, stuck⟩
      · exact Or.inl turn
      · rcases onward with queued | finished
        · exact absurd (queued.symm.trans executing) (by decide)
        · exact absurd finished working
    · simp only [System.setWorker, Function.update_of_ne same] at has ⊢
      exact sound.working w' job' has working
  leashed := sound.leashed
  unmade := sound.unmade
  filed := sound.filed

theorem leave (sound : Sound s) {w : Nat} (did : s.leave w = some s') : Sound s' := by
  simp only [System.leave, Option.ite_none_right_eq_some] at did
  obtain ⟨⟨known, alive, idle, told⟩, shape⟩ := did
  cases shape
  have others : ∀ w', w' ≠ w → ∀ worker', Function.update s.workers w worker' w' = s.workers w' :=
    fun w' other worker' => Function.update_of_ne other ..
  refine ⟨fun l => ?_, fun w' job has busy => ?_, fun w' member => ?_, sound.unmade, sound.filed⟩
  · obtain ⟨own, held, left, room⟩ := sound.kept l
    refine ⟨fun w' here => ?_, fun run w' here => ?_, fun w' member => ?_, room⟩
    · obtain ⟨known', mine, alive', going, apart, leashed, turn⟩ := own w' here
      have other : w' ≠ w := by
        rintro rfl
        rcases told with stops | given
        · exact absurd (stops.symm.trans going) (by decide)
        · exact leashed given
      simp only [System.setWorker, others w' other]
      exact ⟨known', mine, alive', going, apart, fun gone => leashed (List.mem_of_mem_filter gone), turn⟩
    · obtain ⟨known', mine, apart, leashed, has, place⟩ := held run w' here
      by_cases same : w' = w
      · subst same
        simp only [System.setWorker, Function.update_self]
        exact ⟨known', mine, apart, fun gone => leashed (List.mem_of_mem_filter gone), has, place⟩
      · simp only [System.setWorker, others w' same]
        exact ⟨known', mine, apart, fun gone => leashed (List.mem_of_mem_filter gone), has, place⟩
    · obtain ⟨known', mine⟩ := left w' member
      by_cases same : w' = w
      · subst same
        simp only [System.setWorker, Function.update_self]
        exact ⟨known', mine⟩
      · simp only [System.setWorker, others w' same]
        exact ⟨known', mine⟩
  · have other : w' ≠ w := by
      rintro rfl
      simp only [System.setWorker, Function.update_self] at has
      simp [has, busy] at idle
    simp only [System.setWorker, others w' other] at has ⊢
    obtain ⟨known', alive', place⟩ := sound.working w' job has busy
    exact ⟨known', alive', place.imp id fun given => ⟨given.1, given.2.1, List.mem_filter.mpr ⟨given.2.2, by simpa using other⟩⟩⟩
  · exact sound.leashed w' (List.mem_of_mem_filter member)

/-- A lane whose run's job is over, or was never taken, passes the lock on. -/
theorem released (sound : Sound s) {l run w : Nat} (turn : (s.lanes l).holder = some (run, w))
    (over_ : (s.workers w).job ≠ some ⟨run, .executing⟩) (outcome : Outcome) : Sound (s.release l run w outcome) := by
  have made := sound.lane_made (l := l) (Or.inl (by simp [turn]))
  obtain ⟨own, held, left, room⟩ := sound.kept l
  obtain ⟨known, mine, apart, leashed, ⟨phase, has⟩, place⟩ := held run w turn
  have gone : (Worker.letGo (s.workers w)).job = none := by
    have other : phase ≠ .executing := by
      rintro rfl
      exact over_ has
    simp [Worker.letGo, has, Option.filter, other]
  have others : ∀ w', w' ≠ w → ∀ worker', Function.update s.workers w worker' w' = s.workers w' :=
    fun w' other worker' => Function.update_of_ne other ..
  have held_only : ∀ run' w', (s.lanes l).holder = some (run', w') → w' = w := by
    intro run' w' here
    rw [turn] at here
    cases here
    rfl
  refine ⟨fun l' => ?_, fun w' job has' busy => ?_, sound.leashed, ?_, sound.filed⟩
  · by_cases here : l' = l
    · subst here
      refine ⟨fun w' worker => ?_, fun run' w' holder => ?_, fun w' member => ?_, ?_⟩
      · simp only [System.release, System.note, System.setLane, System.setWorker, Function.update_self] at worker ⊢
        obtain ⟨known', mine', alive, going, apart', leashed', job⟩ := own w' worker
        by_cases same : w' = w
        · subst same
          rw [Function.update_self]
          exact ⟨known', mine', alive, going, apart', leashed', fun job' has' => by simp [gone] at has'⟩
        · rw [others w' same]
          refine ⟨known', mine', alive, going, apart', leashed', fun job' has' => ?_⟩
          exact absurd (held_only _ _ (job job' has')) same
      · simp [System.release, System.note, System.setLane, System.setWorker] at holder
      · simp only [System.release, System.note, System.setLane, System.setWorker, Function.update_self] at member ⊢
        obtain ⟨known', mine'⟩ := left w' member
        have other : w' ≠ w := fun same => apart (same ▸ member)
        rw [others w' other]
        exact ⟨known', mine'⟩
      · simp only [System.release, System.note, System.setLane, System.setWorker, Function.update_self]
        exact (Nat.add_le_add_left (by simp) _).trans room
    · refine (sound.kept l').frame ?_ le_rfl (fun w' _ own' => ?_) (fun w' _ _ member => member)
      · simp [System.release, System.note, System.setLane, System.setWorker, here]
      · refine others w' ?_ _
        rintro rfl
        exact here (own'.symm.trans mine)
  · have other : w' ≠ w := by
      rintro rfl
      simp [System.release, System.note, System.setWorker, gone] at has'
    simp only [System.release, System.note, System.setLane, System.setWorker, others w' other] at has' ⊢
    obtain ⟨known', alive, placed⟩ := sound.working w' job has' busy
    refine ⟨known', alive, ?_⟩
    by_cases here : (s.workers w').lane = l
    · rw [here] at placed
      rw [here, Function.update_self]
      exact Or.inr (placed.resolve_left fun turn' => other (held_only _ _ turn'))
    · rw [Function.update_of_ne here]
      exact placed
  · intro l' beyond
    have other : l' ≠ l := by
      rintro rfl
      exact absurd made (Nat.not_lt.mpr beyond)
    simp only [System.release, System.note, System.setLane, System.setWorker, Function.update_of_ne other]
    exact sound.unmade l' beyond

/-- The run whose turn it is is given up, and its thread with it. -/
theorem gave_up (sound : Sound s) {l run w : Nat} (turn : (s.lanes l).holder = some (run, w)) (outcome : Outcome) :
    Sound ((s.abandon l w).release l run w outcome) := by
  have made := sound.lane_made (l := l) (Or.inl (by simp [turn]))
  obtain ⟨own, held, left, room⟩ := sound.kept l
  obtain ⟨known, mine, apart, leashed, ⟨phase, has⟩, place⟩ := held run w turn
  have held_only : ∀ run' w', (s.lanes l).holder = some (run', w') → w' = w := by
    intro run' w' here
    rw [turn] at here
    cases here
    rfl
  have lanes : ((s.abandon l w).release l run w outcome).lanes = Function.update s.lanes l
      { s.lanes l with
        stuck := (s.lanes l).stuck ++ [w], holder := none
        worker := if (s.lanes l).worker = some w then none else (s.lanes l).worker } := by
    simp [System.release, System.abandon, System.note, System.setLane, System.setWorker]
  have workers : ((s.abandon l w).release l run w outcome).workers = Function.update s.workers w
      (Worker.letGo { s.workers w with stopping := true }) := by
    simp [System.release, System.abandon, System.note, System.setLane, System.setWorker]
  have others : ∀ w', w' ≠ w → ((s.abandon l w).release l run w outcome).workers w' = s.workers w' := by
    intro w' other
    rw [workers, Function.update_of_ne other]
  have leashes : ((s.abandon l w).release l run w outcome).abandoned = w :: s.abandoned := rfl
  have count : ((s.abandon l w).release l run w outcome).workerCount = s.workerCount := rfl
  refine ⟨fun l' => ?_, fun w' job has' busy => ?_, fun w' member => ?_, ?_, sound.filed⟩
  · by_cases here : l' = l
    · subst here
      refine ⟨fun w' worker => ?_, fun run' w' holder => ?_, fun w' member => ?_, ?_⟩
      · rw [lanes, Function.update_self] at worker
        simp only at worker
        split at worker
        · cases worker
        · obtain ⟨known', mine', alive, going, apart', leashed', job⟩ := own w' worker
          have other : w' ≠ w := fun same => absurd (same ▸ worker) ‹_›
          rw [others w' other, lanes, Function.update_self, leashes, count]
          refine ⟨known', mine', alive, going, by simp [apart', other], by simp [leashed', other], fun job' has' => ?_⟩
          exact absurd (held_only _ _ (job job' has')) other
      · rw [lanes, Function.update_self] at holder
        cases holder
      · rw [lanes, Function.update_self] at member
        rw [count]
        rcases List.mem_append.mp member with before | last
        · obtain ⟨known', mine'⟩ := left w' before
          rw [others w' fun same => apart (same ▸ before)]
          exact ⟨known', mine'⟩
        · obtain rfl := List.mem_singleton.mp last
          rw [workers, Function.update_self]
          exact ⟨known, mine⟩
      · rw [lanes, Function.update_self]
        simpa [turn] using room
    · refine (sound.kept l').frame ?_ le_rfl (fun w' _ own' => others w' ?_) (fun w' _ own' member => ?_)
      · rw [lanes, Function.update_of_ne here]
      · rintro rfl
        exact here (own'.symm.trans mine)
      · rw [leashes] at member
        refine (List.mem_cons.mp member).resolve_left ?_
        rintro rfl
        exact here (own'.symm.trans mine)
  · rw [count, lanes, leashes]
    by_cases same : w' = w
    · subst same
      rw [workers, Function.update_self] at has' ⊢
      obtain ⟨had, executing⟩ := Option.filter_eq_some_iff.mp has'
      obtain ⟨-, alive, -⟩ := sound.working w' job had busy
      have here : (Worker.letGo { s.workers w' with stopping := true }).lane = l := mine
      rw [here, Function.update_self]
      exact ⟨known, alive, Or.inr ⟨by simpa using executing, by simp, List.mem_cons_self⟩⟩
    · rw [others w' same] at has' ⊢
      obtain ⟨known', alive, placed⟩ := sound.working w' job has' busy
      refine ⟨known', alive, ?_⟩
      by_cases here : (s.workers w').lane = l
      · rw [here] at placed
        rw [here, Function.update_self]
        obtain ⟨executing, stuck, given⟩ := placed.resolve_left fun turn' => same (held_only _ _ turn')
        exact Or.inr ⟨executing, List.mem_append_left _ stuck, List.mem_cons_of_mem _ given⟩
      · rw [Function.update_of_ne here]
        exact placed.imp id fun given => ⟨given.1, given.2.1, List.mem_cons_of_mem _ given.2.2⟩
  · rw [leashes] at member
    rcases List.mem_cons.mp member with rfl | before
    · exact known
    · exact sound.leashed w' before
  · intro l' beyond
    have other : l' ≠ l := by
      rintro rfl
      exact absurd made (Nat.not_lt.mpr beyond)
    rw [lanes, Function.update_of_ne other]
    exact sound.unmade l' beyond

theorem close (sound : Sound s) (script : Option Text) : Sound (s.close script) := by
  cases found : s.byScript.lookup script with
  | none =>
    have same : s.close script = s := by simp [System.close, found]
    rw [same]
    exact sound
  | some l =>
    have made := sound.filed script l found
    have lanes : (s.close script).lanes = Function.update s.lanes l { s.lanes l with closed := true, worker := none } := by
      simp only [System.close, found]
      split <;> rfl
    have count : (s.close script).workerCount = s.workerCount ∧ (s.close script).abandoned = s.abandoned ∧
        (s.close script).laneCount = s.laneCount ∧ (s.close script).byScript = s.byScript.filter (·.1 ≠ script) := by
      simp only [System.close, found]
      split <;> exact ⟨rfl, rfl, rfl, rfl⟩
    obtain ⟨count, leashes, laneCount, byScript⟩ := count
    have workers : ∀ w, (s.close script).workers w = s.workers w ∨
        (s.lanes l).worker = some w ∧ (s.close script).workers w = { s.workers w with stopping := true } := by
      intro w
      simp only [System.close, found]
      split
      · rename_i w' worker
        by_cases same : w = w'
        · subst same
          exact Or.inr ⟨worker, by simp [System.note, System.setWorker]⟩
        · exact Or.inl (by simp [System.note, System.setLane, System.setWorker, same])
      · exact Or.inl rfl
    have kept : ∀ w, ((s.close script).workers w).lane = (s.workers w).lane ∧ ((s.close script).workers w).job = (s.workers w).job ∧
        ((s.close script).workers w).alive = (s.workers w).alive := by
      intro w
      rcases workers w with same | ⟨-, same⟩ <;> simp [same]
    refine ⟨fun l' => ?_, fun w job has busy => ?_, fun w member => ?_, fun l' beyond => ?_, fun script' l' found' => ?_⟩
    · by_cases here : l' = l
      · subst here
        obtain ⟨own, held, left, room⟩ := sound.kept l'
        refine ⟨fun w worker => ?_, fun run w holder => ?_, fun w member => ?_, ?_⟩
        · rw [lanes, Function.update_self] at worker
          cases worker
        · rw [lanes, Function.update_self] at holder ⊢
          rw [count, leashes, (kept w).1, (kept w).2.1]
          obtain ⟨known, mine, apart, leashed, has, place⟩ := held run w holder
          exact ⟨known, mine, apart, leashed, has, Or.inr rfl⟩
        · rw [lanes, Function.update_self] at member
          rw [count, (kept w).1]
          exact left w member
        · rw [lanes, Function.update_self]
          exact room
      · refine (sound.kept l').frame ?_ count.ge (fun w _ own => ?_) (fun w _ _ member => leashes ▸ member)
        · rw [lanes, Function.update_of_ne here]
        · refine (workers w).resolve_right fun stopped => here ?_
          exact own.symm.trans ((sound.kept l).own w stopped.1).2.1
    · rw [(kept w).2.1] at has
      rw [count, leashes, (kept w).1, (kept w).2.2, lanes]
      obtain ⟨known, alive, place⟩ := sound.working w job has busy
      refine ⟨known, alive, ?_⟩
      by_cases here : (s.workers w).lane = l
      · rw [here] at place ⊢
        rw [Function.update_self]
        exact place
      · rw [Function.update_of_ne here]
        exact place
    · rw [leashes] at member
      exact count ▸ sound.leashed w member
    · rw [laneCount] at beyond
      have other : l' ≠ l := by omega
      rw [lanes, Function.update_of_ne other]
      exact sound.unmade l' beyond
    · rw [byScript, List.lookup_filter_keys (fun k => k ≠ script)] at found'
      rw [laneCount]
      split at found'
      · exact sound.filed script' l' found'
      · cases found'

theorem left_waiting (sound : Sound s) {l run : Nat} (waits : run ∈ (s.lanes l).waiting) (mark : Mark) :
    Sound ((s.setLane l { s.lanes l with waiting := (s.lanes l).waiting.filter (· ≠ run) }).note mark) := by
  have made := sound.lane_made (l := l) (Or.inr (List.ne_nil_of_mem waits))
  exact sound.alike rfl rfl rfl (s.setLane_keeps Lane.worker rfl) (s.setLane_keeps Lane.holder rfl)
    (s.setLane_keeps Lane.stuck rfl) (s.setLane_keeps Lane.closed rfl) (sound.unmade_setLane made _) sound.filed

theorem cancel (sound : Sound s) {l run : Nat} (did : s.cancel l run = some s') : Sound s' := by
  simp only [System.cancel] at did
  split at did
  · rename_i run' w turn
    split at did
    · rename_i same
      subst same
      cases did
      split
      · exact sound.gave_up turn _
      · exact sound.released turn ‹_› _
    · split at did
      · cases did
        exact sound.left_waiting ‹_› _
      · cases did
  · split at did
    · cases did
      exact sound.left_waiting ‹_› _
    · cases did

theorem next (sound : Sound s) {label : Label} (did : s.next label = some s') : Sound s' := by
  cases label with
  | ask script =>
    cases did
    exact sound.ask script
  | turn l => exact sound.turn did
  | take w =>
    simp only [System.next, System.take] at did
    split at did
    · split at did
      · cases did
        exact sound.went_on ‹_› (by decide) (Or.inl rfl)
      · cases did
    · cases did
  | finish w =>
    simp only [System.next, System.finish] at did
    split at did
    · cases did
      exact sound.went_on ‹_› (by decide) (Or.inr rfl)
    · cases did
  | leave w => exact sound.leave did
  | settle l =>
    simp only [System.next, System.settle] at did
    split at did
    · split at did
      · rename_i run w turn finished
        cases did
        exact sound.released turn (by simp [finished]) _
      · cases did
    · cases did
  | expire l =>
    obtain ⟨⟨run, w⟩, turn, rfl⟩ := Option.map_eq_some_iff.mp did
    exact sound.gave_up turn _
  | cancel l run => exact sound.cancel did
  | close script =>
    cases did
    exact sound.close script

end Sound

theorem sound_of_reach {s : System} (reach : Reach machine always s) : Sound s := by
  refine reach.invariant (I := Sound) ?_ fun _ _ _ _ sound _ did => sound.next did
  rintro _ rfl
  exact sound_init

/-- However many of a script's runs never come back, no more than three threads run its code
for one load of it, and only one of them that the limit has not given up. -/
theorem threads_le {s : System} (reach : Reach machine always s) (l : Nat) {ws : List Nat} (distinct : ws.Nodup)
    (executing : ∀ w ∈ ws, (s.workers w).lane = l ∧ s.executes w) :
    ws.length ≤ maxStuckRuns ∧ (ws.filter fun w => w ∉ s.abandoned).length ≤ 1 := by
  have sound := sound_of_reach reach
  have placed : ∀ w ∈ ws, (∃ run, (s.lanes l).holder = some (run, w)) ∨ w ∈ (s.lanes l).stuck ∧ w ∈ s.abandoned := by
    intro w member
    obtain ⟨mine, run, job⟩ := executing w member
    obtain ⟨-, -, place⟩ := sound.working w _ job (by simp)
    rw [mine] at place
    exact place.imp (fun turn => ⟨run, turn⟩) And.right
  have turns : ∀ w, (∃ run, (s.lanes l).holder = some (run, w)) → w ∈ (s.lanes l).holder.toList.map Prod.snd := by
    rintro w ⟨run, turn⟩
    simp [turn]
  constructor
  · have known : ws ⊆ (s.lanes l).stuck ++ (s.lanes l).holder.toList.map Prod.snd := by
      intro w member
      rcases placed w member with turn | stuck
      · exact List.mem_append_right _ (turns w turn)
      · exact List.mem_append_left _ stuck.1
    have room := (sound.kept l).room
    have length := (List.subperm_of_subset distinct known).length_le
    rw [List.length_append] at length
    cases turn : (s.lanes l).holder with
    | none =>
      simp only [turn, Option.toList_none, List.map_nil, List.length_nil] at length
      omega
    | some held =>
      simp only [turn, Option.toList_some, List.map_cons, List.map_nil, List.length_singleton, Option.isSome_some, if_true]
        at length room
      omega
  · have known : (ws.filter fun w => w ∉ s.abandoned) ⊆ (s.lanes l).holder.toList.map Prod.snd := by
      intro w member
      obtain ⟨member, free⟩ := List.mem_filter.mp member
      rcases placed w member with turn | stuck
      · exact turns w turn
      · exact absurd stuck.2 (by simpa using free)
    have length := (List.subperm_of_subset (distinct.filter _) known).length_le
    have single : ((s.lanes l).holder.toList.map Prod.snd).length ≤ 1 := by
      rw [List.length_map]
      cases (s.lanes l).holder <;> simp
    exact length.trans single

/-- The first of three runs asked for never comes back, and the second one has its turn. -/
def stuckOnce : List Label :=
  [.ask (some (text "lights")), .turn 0, .take 0, .ask (some (text "lights")), .ask (some (text "lights")), .expire 0,
    .turn 0, .take 1]

theorem threads_le_stuckOnce :
    ∃ s, machine.run always {} stuckOnce = some s ∧ [0, 1].length ≤ maxStuckRuns ∧
      ([0, 1].filter fun w => w ∉ s.abandoned).length ≤ 1 := by
  have jobs : (machine.run always {} stuckOnce).map (fun s => [0, 1].map fun w => ((s.workers w).lane, (s.workers w).job)) =
      some [(0, some ⟨0, .executing⟩), (0, some ⟨1, .executing⟩)] := by rfl
  obtain ⟨s, run, jobs⟩ := Option.map_eq_some_iff.mp jobs
  have reach : Reach machine always s := (Reach.init (M := machine) rfl).run run
  refine ⟨s, run, threads_le reach 0 (by decide) fun w member => ?_⟩
  simp only [List.map_cons, List.map_nil, List.cons.injEq, Prod.mk.injEq, and_true] at jobs
  rcases List.mem_cons.mp member with rfl | member
  · exact ⟨jobs.1.1, 0, jobs.1.2⟩
  · obtain rfl := List.mem_singleton.mp member
    exact ⟨jobs.2.1, 1, jobs.2.2⟩

end OpenAvc.Scripts
