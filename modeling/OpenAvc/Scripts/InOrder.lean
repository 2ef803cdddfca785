import OpenAvc.Scripts.Stuck

/-! A script's runs start in the order they were asked for, each when the one before it has
ended, and none of a script that has been unloaded. -/

namespace OpenAvc.Scripts

open Run

/-- The runs asked for in a lane, as the log tells it. -/
def asked (l : Nat) (log : List Mark) : List Nat :=
  log.filterMap fun
    | .asked l' run => if l' = l then some run else none
    | _ => none

def Ended (l run : Nat) (log : List Mark) : Prop :=
  ∃ outcome, .ended l run outcome ∈ log

theorem asked_append (l : Nat) (log later : List Mark) : asked l (log ++ later) = asked l log ++ asked l later :=
  List.filterMap_append

theorem Ended.append {l run : Nat} {log : List Mark} (ended : Ended l run log) (later : List Mark) : Ended l run (log ++ later) := by
  obtain ⟨outcome, member⟩ := ended
  exact ⟨outcome, List.mem_append_left _ member⟩

/-- What a step does to the runs of a lane. -/
inductive Moved (s s' : System) (l : Nat) : Prop
  | still (waiting : (s'.lanes l).waiting = (s.lanes l).waiting) (holder : (s'.lanes l).holder = (s.lanes l).holder)
      (marks : List Mark) (log : s'.log = s.log ++ marks)
      (elsewhere : ∀ mark ∈ marks, ∀ run outcome, mark ≠ .asked l run ∧ mark ≠ .started l run ∧ mark ≠ .ended l run outcome)
  | asked (waiting : (s'.lanes l).waiting = (s.lanes l).waiting ++ [s.nextRun])
      (holder : (s'.lanes l).holder = (s.lanes l).holder) (log : s'.log = s.log ++ [.asked l s.nextRun])
      (next : s'.nextRun = s.nextRun + 1)
  | started (run w : Nat) (waiting : (s.lanes l).waiting = run :: (s'.lanes l).waiting) (free : (s.lanes l).holder = none)
      (holder : (s'.lanes l).holder = some (run, w)) (log : s'.log = s.log ++ [.started l run])
      (going : (s.lanes l).closed = false)
  | turned_down (run : Nat) (waiting : (s.lanes l).waiting = run :: (s'.lanes l).waiting)
      (holder : (s'.lanes l).holder = (s.lanes l).holder) (outcome : Outcome)
      (log : s'.log = s.log ++ [.ended l run outcome])
      (why : outcome = .dropped ∧ (s.lanes l).closed = true ∨
        (s.lanes l).closed = false ∧ ∃ n, maxStuckRuns ≤ n ∧ outcome = .refused n)
  | released (run w : Nat) (waiting : (s'.lanes l).waiting = (s.lanes l).waiting) (turn : (s.lanes l).holder = some (run, w))
      (holder : (s'.lanes l).holder = none) (outcome : Outcome) (log : s'.log = s.log ++ [.ended l run outcome])
      (ran : outcome ≠ .dropped ∧ ∀ n, outcome ≠ .refused n)
  | cancelled (run : Nat) (waits : run ∈ (s.lanes l).waiting)
      (waiting : (s'.lanes l).waiting = (s.lanes l).waiting.filter (· ≠ run))
      (holder : (s'.lanes l).holder = (s.lanes l).holder) (log : s'.log = s.log ++ [.ended l run .cancelled])

/-- The lane that a step is about; the others stand still. -/
theorem Moved.elsewhere {s s' : System} {l l' : Nat} (other : l' ≠ l) (lanes : s'.lanes l' = s.lanes l') {mark : Mark}
    (log : s'.log = s.log ++ [mark]) (about : (∃ run, mark = .asked l run) ∨ (∃ run, mark = .started l run) ∨
      ∃ run outcome, mark = .ended l run outcome) : Moved s s' l' := by
  refine .still (by rw [lanes]) (by rw [lanes]) [mark] log fun mark' member run outcome => ?_
  obtain rfl := List.mem_singleton.mp member
  rcases about with ⟨run', rfl⟩ | ⟨run', rfl⟩ | ⟨run', outcome', rfl⟩ <;> simp [Ne.symm other]

theorem Moved.silent {s s' : System} {l : Nat} (lanes : s'.lanes = s.lanes) (log : s'.log = s.log) : Moved s s' l :=
  .still (by rw [lanes]) (by rw [lanes]) [] (by simp [log]) (by simp)

theorem moved_release {s : System} (s₀ : System) {l run w : Nat} (turn : (s.lanes l).holder = some (run, w))
    (waiting : (s₀.lanes l).waiting = (s.lanes l).waiting) (lanes : ∀ l', l' ≠ l → s₀.lanes l' = s.lanes l')
    (log : s₀.log = s.log) {outcome : Outcome} (ran : outcome ≠ .dropped ∧ ∀ n, outcome ≠ .refused n) (l' : Nat) :
    Moved s (s₀.release l run w outcome) l' := by
  have marked : (s₀.release l run w outcome).log = s.log ++ [.ended l run outcome] := by
    rw [← log]
    rfl
  by_cases here : l' = l
  · subst here
    refine .released run w ?_ turn ?_ outcome marked ran
    · simpa [System.release, System.note, System.setLane, System.setWorker] using waiting
    · simp [System.release, System.note, System.setLane, System.setWorker]
  · refine .elsewhere here ?_ marked (Or.inr (Or.inr ⟨_, _, rfl⟩))
    simpa [System.release, System.note, System.setLane, System.setWorker, here] using lanes l' here

theorem moved_cancel {s : System} {l run : Nat} (waits : run ∈ (s.lanes l).waiting) (l' : Nat) :
    Moved s ((s.setLane l { s.lanes l with waiting := (s.lanes l).waiting.filter (· ≠ run) }).note (.ended l run .cancelled)) l' := by
  by_cases here : l' = l
  · subst here
    exact .cancelled run waits (by simp [System.note, System.setLane]) (by simp [System.note, System.setLane]) rfl
  · exact .elsewhere here (by simp [System.note, System.setLane, here]) rfl (Or.inr (Or.inr ⟨_, _, rfl⟩))

theorem moved {s s' : System} (sound : Sound s) {label : Label} (did : s.next label = some s') (l : Nat) : Moved s s' l := by
  cases label with
  | ask script =>
    cases did
    unfold System.ask
    cases found : s.byScript.lookup script with
    | some l' =>
      by_cases here : l = l'
      · subst here
        exact .asked (by simp [System.note, System.setLane]) (by simp [System.note, System.setLane]) rfl rfl
      · exact .elsewhere here (by simp [System.note, System.setLane, here]) rfl (Or.inl ⟨_, rfl⟩)
    | none =>
      have fresh := sound.unmade s.laneCount le_rfl
      by_cases here : l = s.laneCount
      · subst here
        exact .asked (by simp [System.note, System.setLane, fresh]) (by simp [System.note, System.setLane, fresh]) rfl rfl
      · exact .elsewhere here (by simp [System.note, System.setLane, here]) rfl (Or.inl ⟨_, rfl⟩)
  | turn l' =>
    simp only [System.next, System.turn] at did
    split at did
    · rename_i run rest free waits
      split at did
      · rename_i closed
        cases did
        by_cases here : l = l'
        · subst here
          exact .turned_down run (by simpa [System.note, System.setLane] using waits) (by simp [System.note, System.setLane])
            .dropped rfl (Or.inl ⟨rfl, closed⟩)
        · exact .elsewhere here (by simp [System.note, System.setLane, here]) rfl (Or.inr (Or.inr ⟨_, _, rfl⟩))
      · rename_i going
        split at did
        · rename_i full
          cases did
          by_cases here : l = l'
          · subst here
            exact .turned_down run (by simpa [System.note, System.setLane] using waits) (by simp [System.note, System.setLane])
              _ rfl (Or.inr ⟨by simpa using going, _, full, rfl⟩)
          · exact .elsewhere here (by simp [System.note, System.setLane, here]) rfl (Or.inr (Or.inr ⟨_, _, rfl⟩))
        · cases did
          by_cases here : l = l'
          · subst here
            exact .started run _ (by simpa [System.note, System.setLane, System.setWorker] using waits) free
              (by simp [System.note, System.setLane, System.setWorker]; rfl) rfl (by simpa using going)
          · exact .elsewhere here (by simp [System.note, System.setLane, System.setWorker, here]) rfl (Or.inr (Or.inl ⟨_, rfl⟩))
    · cases did
  | take w =>
    simp only [System.next, System.take] at did
    split at did
    · split at did
      · cases did
        exact .silent rfl rfl
      · cases did
    · cases did
  | finish w =>
    simp only [System.next, System.finish] at did
    split at did
    · cases did
      exact .silent rfl rfl
    · cases did
  | leave w =>
    simp only [System.next, System.leave, Option.ite_none_right_eq_some] at did
    cases did.2
    exact .silent rfl rfl
  | settle l' =>
    simp only [System.next, System.settle] at did
    split at did
    · split at did
      · cases did
        exact moved_release s ‹_› rfl (fun _ _ => rfl) rfl (by simp) l
      · cases did
    · cases did
  | expire l' =>
    obtain ⟨⟨run, w⟩, turn, rfl⟩ := Option.map_eq_some_iff.mp did
    refine moved_release (s.abandon _ w) turn ?_ ?_ rfl ?_ l
    · simp [System.abandon, System.setLane, System.setWorker]
    · intro l'' other
      simp [System.abandon, System.setLane, System.setWorker, other]
    · exact ⟨by decide, fun n => by simp⟩
  | cancel l' run =>
    simp only [System.next, System.cancel] at did
    split at did
    · rename_i run' w turn
      split at did
      · rename_i same
        subst same
        cases did
        split
        · refine moved_release (s.abandon _ w) turn ?_ ?_ rfl ?_ l
          · simp [System.abandon, System.setLane, System.setWorker]
          · intro l'' other
            simp [System.abandon, System.setLane, System.setWorker, other]
          · exact ⟨by decide, fun n => by simp⟩
        · exact moved_release s turn rfl (fun _ _ => rfl) rfl (by simp) l
      · split at did
        · cases did
          exact moved_cancel ‹_› l
        · cases did
    · split at did
      · cases did
        exact moved_cancel ‹_› l
      · cases did
  | close script =>
    cases did
    cases found : s.byScript.lookup script with
    | none => exact .silent (by simp [System.close, found]) (by simp [System.close, found])
    | some l' =>
      have lanes : (s.close script).lanes = Function.update s.lanes l' { s.lanes l' with closed := true, worker := none } := by
        simp only [System.close, found]
        split <;> rfl
      have log : (s.close script).log = s.log ++ [.closed l'] := by
        simp only [System.close, found]
        split <;> rfl
      refine .still ?_ ?_ [.closed l'] log (by simp)
      · rw [lanes]
        by_cases here : l = l' <;> simp [here]
      · rw [lanes]
        by_cases here : l = l' <;> simp [here]

/-- The log says of the closed lanes that they are, and of no other. -/
def Shut (s s' : System) (l : Nat) : Prop :=
  ((s.lanes l).closed = true ↔ .closed l ∈ s.log) → ((s'.lanes l).closed = true ↔ .closed l ∈ s'.log)

/-- Only the unloading of a script closes a lane. -/
theorem Shut.alike {s s' : System} {l : Nat} (closed : ∀ l, (s'.lanes l).closed = (s.lanes l).closed) (marks : List Mark)
    (log : s'.log = s.log ++ marks) (other : .closed l ∉ marks) : Shut s s' l := by
  intro same
  rw [closed l, log, same, List.mem_append]
  exact ⟨Or.inl, fun member => member.resolve_right other⟩

theorem Shut.alike_one {s s' : System} {l : Nat} {mark : Mark} (closed : ∀ l, (s'.lanes l).closed = (s.lanes l).closed)
    (log : s'.log = s.log ++ [mark]) (other : .closed l ≠ mark) : Shut s s' l :=
  .alike closed [mark] log (by simpa using other)

theorem closed_release (s : System) (l run w : Nat) (outcome : Outcome) (l' : Nat) :
    ((s.release l run w outcome).lanes l').closed = (s.lanes l').closed := by
  by_cases here : l' = l
  · subst here
    simp [System.release, System.note, System.setLane, System.setWorker]
  · simp [System.release, System.note, System.setLane, System.setWorker, here]

theorem closed_abandon (s : System) (l w l' : Nat) : ((s.abandon l w).lanes l').closed = (s.lanes l').closed := by
  by_cases here : l' = l
  · subst here
    simp [System.abandon, System.setLane, System.setWorker]
  · simp [System.abandon, System.setLane, System.setWorker, here]

theorem closed_step {s s' : System} (sound : Sound s) {label : Label} (did : s.next label = some s') (l : Nat) : Shut s s' l := by
  cases label with
  | ask script =>
    cases did
    unfold System.ask
    cases s.byScript.lookup script with
    | some l' => exact .alike_one (s.setLane_keeps Lane.closed rfl) rfl (by simp)
    | none => exact .alike_one (s.setLane_keeps Lane.closed (by rw [sound.unmade s.laneCount le_rfl])) rfl (by simp)
  | turn l' =>
    simp only [System.next, System.turn] at did
    split at did
    · split at did
      · cases did
        exact .alike_one (s.setLane_keeps Lane.closed rfl) rfl (by simp)
      · split at did
        · cases did
          exact .alike_one (s.setLane_keeps Lane.closed rfl) rfl (by simp)
        · cases did
          exact .alike_one (s.setLane_keeps Lane.closed rfl) rfl (by simp)
    · cases did
  | take w =>
    simp only [System.next, System.take] at did
    split at did
    · split at did
      · cases did
        exact .alike (fun _ => rfl) [] (List.append_nil _).symm (by simp)
      · cases did
    · cases did
  | finish w =>
    simp only [System.next, System.finish] at did
    split at did
    · cases did
      exact .alike (fun _ => rfl) [] (List.append_nil _).symm (by simp)
    · cases did
  | leave w =>
    simp only [System.next, System.leave, Option.ite_none_right_eq_some] at did
    cases did.2
    exact .alike (fun _ => rfl) [] (List.append_nil _).symm (by simp)
  | settle l' =>
    simp only [System.next, System.settle] at did
    split at did
    · split at did
      · cases did
        exact .alike_one (closed_release s _ _ _ _) rfl (by simp)
      · cases did
    · cases did
  | expire l' =>
    obtain ⟨⟨run, w⟩, turn, rfl⟩ := Option.map_eq_some_iff.mp did
    exact .alike_one (fun l' => (closed_release _ _ _ _ _ l').trans (closed_abandon s _ _ l')) rfl (by simp)
  | cancel l' run =>
    simp only [System.next, System.cancel] at did
    split at did
    · split at did
      · cases did
        refine .alike (fun l'' => (closed_release _ _ _ _ _ l'').trans ?_) [.ended l' run .cancelled] ?_ (by simp)
        · split
          · exact closed_abandon s _ _ _
          · rfl
        · split <;> rfl
      · split at did
        · cases did
          exact .alike_one (s.setLane_keeps Lane.closed rfl) rfl (by simp)
        · cases did
    · split at did
      · cases did
        exact .alike_one (s.setLane_keeps Lane.closed rfl) rfl (by simp)
      · cases did
  | close script =>
    cases did
    cases found : s.byScript.lookup script with
    | none => exact .alike (by simp [System.close, found]) [] (by simp [System.close, found]) (by simp)
    | some l' =>
      have lanes : (s.close script).lanes = Function.update s.lanes l' { s.lanes l' with closed := true, worker := none } := by
        simp only [System.close, found]
        split <;> rfl
      have log : (s.close script).log = s.log ++ [.closed l'] := by
        simp only [System.close, found]
        split <;> rfl
      rw [Shut, lanes, log]
      by_cases here : l = l'
      · subst here
        simp
      · intro same
        simpa [here] using same

/-- The runs of a lane: those that are over or have their turn, and those that come after. -/
structure Waits (s : System) (l : Nat) (front back : List Nat) : Prop where
  all : asked l s.log = front ++ back
  waiting : (s.lanes l).waiting.Sublist back
  gone : ∀ run ∈ front, Ended l run s.log ∨ ∃ w, (s.lanes l).holder = some (run, w)
  left : ∀ run ∈ back, run ∈ (s.lanes l).waiting ∨ Ended l run s.log
  begun : ∀ run, .started l run ∈ s.log → run ∈ front
  turn : ∀ run w, (s.lanes l).holder = some (run, w) → .started l run ∈ s.log ∧ ¬Ended l run s.log
  fresh : ∀ run ∈ (s.lanes l).waiting, ¬Ended l run s.log
  known : ∀ run, Ended l run s.log → run ∈ asked l s.log

structure Ordered (s : System) : Prop where
  distinct : ∀ l, (asked l s.log).Nodup
  numbered : ∀ l, ∀ run ∈ asked l s.log, run < s.nextRun
  shut : ∀ l, (s.lanes l).closed = true ↔ .closed l ∈ s.log
  waits : ∀ l, ∃ front back, Waits s l front back

theorem asked_marks {l : Nat} {marks : List Mark} (elsewhere : ∀ mark ∈ marks, ∀ run outcome, mark ≠ .asked l run ∧
    mark ≠ .started l run ∧ mark ≠ .ended l run outcome) : asked l marks = [] := by
  refine List.filterMap_eq_nil_iff.mpr fun mark member => ?_
  cases mark with
  | asked l' run =>
    have other : l' ≠ l := by
      rintro rfl
      exact (elsewhere _ member run .returned).1 rfl
    simp [other]
  | started l' run => rfl
  | ended l' run outcome => rfl
  | closed l' => rfl

theorem ended_marks {l run : Nat} {log marks : List Mark} (elsewhere : ∀ mark ∈ marks, ∀ run outcome, mark ≠ .asked l run ∧
    mark ≠ .started l run ∧ mark ≠ .ended l run outcome) : Ended l run (log ++ marks) ↔ Ended l run log := by
  constructor
  · rintro ⟨outcome, member⟩
    rcases List.mem_append.mp member with before | new
    · exact ⟨outcome, before⟩
    · exact absurd rfl (elsewhere _ new run outcome).2.2
  · exact fun ended => ended.append _

theorem ended_one {l run run' : Nat} {log : List Mark} {outcome : Outcome} :
    Ended l run (log ++ [.ended l run' outcome]) ↔ Ended l run log ∨ run = run' := by
  constructor
  · rintro ⟨outcome', member⟩
    rcases List.mem_append.mp member with before | new
    · exact Or.inl ⟨outcome', before⟩
    · cases List.mem_singleton.mp new
      exact Or.inr rfl
  · rintro (ended | rfl)
    · exact ended.append _
    · exact ⟨outcome, by simp⟩

theorem asked_ended (l l' run : Nat) (log : List Mark) (outcome : Outcome) :
    asked l (log ++ [.ended l' run outcome]) = asked l log := by
  rw [asked_append]
  exact List.append_nil _

theorem asked_started (l l' run : Nat) (log : List Mark) : asked l (log ++ [.started l' run]) = asked l log := by
  rw [asked_append]
  exact List.append_nil _

theorem ended_other {l run l' run' : Nat} {log : List Mark} {mark : Mark} (about : mark = .asked l' run' ∨ mark = .started l' run') :
    Ended l run (log ++ [mark]) ↔ Ended l run log := by
  rcases about with rfl | rfl <;> simp [Ended]

/-- The runs before the next one that waits are over. -/
theorem Waits.next {s : System} {l : Nat} {front back : List Nat} (w : Waits s l front back) (distinct : (front ++ back).Nodup)
    {run : Nat} {rest : List Nat} (waiting : (s.lanes l).waiting = run :: rest) :
    ∃ over_ after, back = over_ ++ run :: after ∧ rest.Sublist after ∧ ∀ run' ∈ over_, Ended l run' s.log := by
  have queue := w.waiting
  rw [waiting, List.cons_sublist_iff] at queue
  obtain ⟨here, later, split, member, rest_later⟩ := queue
  obtain ⟨over_, between, rfl⟩ := List.append_of_mem member
  have whole : back = over_ ++ run :: (between ++ later) := by simp [split]
  refine ⟨over_, between ++ later, whole, rest_later.trans (List.sublist_append_right _ _), fun run' early => ?_⟩
  have place := w.left run' (whole ▸ List.mem_append_left _ early)
  refine place.resolve_left fun waits => ?_
  have late : run' ∈ run :: (between ++ later) := by
    rw [waiting] at waits
    rcases List.mem_cons.mp waits with rfl | behind
    · exact List.mem_cons_self
    · exact List.mem_cons_of_mem _ (List.mem_append_right _ (rest_later.subset behind))
  have apart := List.disjoint_of_nodup_append (whole ▸ distinct.of_append_right)
  exact apart early late

theorem Waits.step {s s' : System} {l : Nat} (ordered : Ordered s) (moved : Moved s s' l) : ∃ front back, Waits s' l front back := by
  obtain ⟨front, back, w⟩ := ordered.waits l
  have distinct : (front ++ back).Nodup := w.all ▸ ordered.distinct l
  cases moved with
  | still waiting holder marks log elsewhere =>
    refine ⟨front, back, ?_⟩
    have ended : ∀ run, Ended l run s'.log ↔ Ended l run s.log := fun run => by rw [log, ended_marks elsewhere]
    have same : asked l s'.log = asked l s.log := by rw [log, asked_append, asked_marks elsewhere, List.append_nil]
    have started : ∀ run, .started l run ∈ s'.log ↔ .started l run ∈ s.log := by
      intro run
      rw [log, List.mem_append]
      refine ⟨fun member => member.resolve_right fun new => ?_, Or.inl⟩
      exact (elsewhere _ new run .returned).2.1 rfl
    constructor
    · rw [same, w.all]
    · rw [waiting]
      exact w.waiting
    · simpa only [ended, holder] using w.gone
    · simpa only [ended, waiting] using w.left
    · simpa only [started] using w.begun
    · simpa only [started, ended, holder] using w.turn
    · simpa only [ended, waiting] using w.fresh
    · simpa only [ended, same] using w.known
  | asked waiting holder log next =>
    have ended : ∀ run, Ended l run s'.log ↔ Ended l run s.log := fun run => by rw [log, ended_other (Or.inl rfl)]
    have more : asked l s'.log = asked l s.log ++ [s.nextRun] := by
      rw [log, asked_append]
      simp [asked]
    have started : ∀ run, .started l run ∈ s'.log ↔ .started l run ∈ s.log := by simp [log]
    refine ⟨front, back ++ [s.nextRun], ?_, ?_, ?_, ?_, ?_, ?_, ?_, ?_⟩
    · rw [more, w.all, List.append_assoc]
    · rw [waiting]
      exact w.waiting.append (List.Sublist.refl _)
    · simpa only [ended, holder] using w.gone
    · intro run member
      rw [ended, waiting]
      rcases List.mem_append.mp member with before | new
      · exact (w.left run before).imp (List.mem_append_left _) id
      · exact Or.inl (List.mem_append_right _ new)
    · simpa only [started] using w.begun
    · simpa only [started, ended, holder] using w.turn
    · intro run member
      rw [ended]
      rw [waiting] at member
      rcases List.mem_append.mp member with before | new
      · exact w.fresh run before
      · intro over_
        have early := ordered.numbered l run (w.known run over_)
        obtain rfl := List.mem_singleton.mp new
        exact absurd early (lt_irrefl _)
    · intro run over_
      rw [more]
      exact List.mem_append_left _ (w.known run ((ended run).mp over_))
  | started run worker waiting free holder log going =>
    have ended : ∀ run', Ended l run' s'.log ↔ Ended l run' s.log := fun run' => by rw [log, ended_other (Or.inr rfl)]
    have same : asked l s'.log = asked l s.log := by rw [log, asked_started]
    obtain ⟨over_, after, rfl, rest, finished⟩ := w.next distinct waiting
    refine ⟨front ++ over_ ++ [run], after, ?_, rest, ?_, ?_, ?_, ?_, ?_, ?_⟩
    · rw [same, w.all]
      simp
    · intro run' member
      rw [ended, holder]
      rcases List.mem_append.mp member with before | here
      · rcases List.mem_append.mp before with first | second
        · exact Or.inl ((w.gone run' first).resolve_right (by simp [free]))
        · exact Or.inl (finished run' second)
      · obtain rfl := List.mem_singleton.mp here
        exact Or.inr ⟨worker, rfl⟩
    · intro run' member
      rw [ended]
      refine (w.left run' (List.mem_append_right _ (List.mem_cons_of_mem _ member))).imp (fun waits => ?_) id
      rw [waiting] at waits
      refine (List.mem_cons.mp waits).resolve_left ?_
      rintro rfl
      have late := (List.nodup_cons.mp distinct.of_append_right.of_append_right).1
      exact late member
    · intro run' member
      rw [log] at member
      rcases List.mem_append.mp member with before | new
      · simp [w.begun run' before]
      · cases List.mem_singleton.mp new
        simp
    · intro run' worker' turn
      rw [holder] at turn
      cases turn
      rw [ended, log]
      exact ⟨by simp, w.fresh run (by simp [waiting])⟩
    · intro run' member
      rw [ended]
      exact w.fresh run' (by rw [waiting]; exact List.mem_cons_of_mem _ member)
    · simpa only [ended, same] using w.known
  | turned_down run waiting holder outcome log why =>
    have ended : ∀ run', Ended l run' s'.log ↔ Ended l run' s.log ∨ run' = run := fun run' => by rw [log, ended_one]
    have same : asked l s'.log = asked l s.log := by rw [log, asked_ended]
    have started : ∀ run, .started l run ∈ s'.log ↔ .started l run ∈ s.log := by simp [log]
    obtain ⟨over_, after, rfl, rest, finished⟩ := w.next distinct waiting
    have apart := List.disjoint_of_nodup_append distinct
    have late := (List.nodup_cons.mp distinct.of_append_right.of_append_right).1
    refine ⟨front ++ over_ ++ [run], after, ?_, rest, ?_, ?_, ?_, ?_, ?_, ?_⟩
    · rw [same, w.all]
      simp
    · intro run' member
      rw [ended, holder]
      rcases List.mem_append.mp member with before | here
      · rcases List.mem_append.mp before with first | second
        · exact (w.gone run' first).imp Or.inl id
        · exact Or.inl (Or.inl (finished run' second))
      · exact Or.inl (Or.inr (List.mem_singleton.mp here))
    · intro run' member
      rw [ended]
      rcases w.left run' (List.mem_append_right _ (List.mem_cons_of_mem _ member)) with waits | done
      · rw [waiting] at waits
        exact (List.mem_cons.mp waits).elim (fun same => Or.inr (Or.inr same)) Or.inl
      · exact Or.inr (Or.inl done)
    · intro run' member
      have before := w.begun run' ((started run').mp member)
      simp [before]
    · intro run' worker turn
      rw [holder] at turn
      obtain ⟨begun, going⟩ := w.turn run' worker turn
      rw [started, ended]
      refine ⟨begun, not_or.mpr ⟨going, ?_⟩⟩
      rintro rfl
      exact apart (w.begun run' begun) (by simp)
    · intro run' member
      rw [ended]
      refine not_or.mpr ⟨w.fresh run' (by rw [waiting]; exact List.mem_cons_of_mem _ member), ?_⟩
      rintro rfl
      exact late (rest.subset member)
    · intro run' over_
      rw [same]
      rcases (ended run').mp over_ with before | rfl
      · exact w.known run' before
      · rw [w.all]
        simp
  | released run worker waiting turn holder outcome log ran =>
    have ended : ∀ run', Ended l run' s'.log ↔ Ended l run' s.log ∨ run' = run := fun run' => by rw [log, ended_one]
    have same : asked l s'.log = asked l s.log := by rw [log, asked_ended]
    have started : ∀ run, .started l run ∈ s'.log ↔ .started l run ∈ s.log := by simp [log]
    have apart := List.disjoint_of_nodup_append distinct
    have first := w.begun run (w.turn run worker turn).1
    refine ⟨front, back, ?_, ?_, ?_, ?_, ?_, ?_, ?_, ?_⟩
    · rw [same, w.all]
    · rw [waiting]
      exact w.waiting
    · intro run' member
      rw [ended]
      rcases w.gone run' member with done | ⟨worker', turn'⟩
      · exact Or.inl (Or.inl done)
      · rw [turn] at turn'
        cases turn'
        exact Or.inl (Or.inr rfl)
    · intro run' member
      rw [ended, waiting]
      exact (w.left run' member).imp id Or.inl
    · simpa only [started] using w.begun
    · intro run' worker' turn'
      rw [holder] at turn'
      cases turn'
    · intro run' member
      rw [ended]
      rw [waiting] at member
      refine not_or.mpr ⟨w.fresh run' member, ?_⟩
      rintro rfl
      exact apart first (w.waiting.subset member)
    · intro run' over_
      rw [same]
      rcases (ended run').mp over_ with before | rfl
      · exact w.known run' before
      · rw [w.all]
        exact List.mem_append_left _ first
  | cancelled run waits waiting holder log =>
    have ended : ∀ run', Ended l run' s'.log ↔ Ended l run' s.log ∨ run' = run := fun run' => by rw [log, ended_one]
    have same : asked l s'.log = asked l s.log := by rw [log, asked_ended]
    have started : ∀ run, .started l run ∈ s'.log ↔ .started l run ∈ s.log := by simp [log]
    have apart := List.disjoint_of_nodup_append distinct
    refine ⟨front, back, ?_, ?_, ?_, ?_, ?_, ?_, ?_, ?_⟩
    · rw [same, w.all]
    · rw [waiting]
      exact List.filter_sublist.trans w.waiting
    · intro run' member
      rw [ended, holder]
      exact (w.gone run' member).imp Or.inl id
    · intro run' member
      rw [ended, waiting]
      by_cases here : run' = run
      · exact Or.inr (Or.inr here)
      · exact (w.left run' member).imp (fun waits => List.mem_filter.mpr ⟨waits, by simpa using here⟩) Or.inl
    · simpa only [started] using w.begun
    · intro run' worker turn
      rw [holder] at turn
      obtain ⟨begun, going⟩ := w.turn run' worker turn
      rw [started, ended]
      refine ⟨begun, not_or.mpr ⟨going, ?_⟩⟩
      rintro rfl
      exact apart (w.begun run' begun) (w.waiting.subset waits)
    · intro run' member
      rw [waiting] at member
      obtain ⟨before, other⟩ := List.mem_filter.mp member
      rw [ended]
      exact not_or.mpr ⟨w.fresh run' before, by simpa using other⟩
    · intro run' over_
      rw [same]
      rcases (ended run').mp over_ with before | rfl
      · exact w.known run' before
      · rw [w.all]
        exact List.mem_append_right _ (w.waiting.subset waits)

theorem ordered_init : Ordered {} where
  distinct _ := List.nodup_nil
  numbered _ _ member := by simp [asked] at member
  shut _ := by simp
  waits _ := ⟨[], [], by constructor <;> simp [asked, Ended]⟩

/-- Runs are numbered as they are asked for. -/
theorem asked_next {s s' : System} {l : Nat} (moved : Moved s s' l) :
    asked l s'.log = asked l s.log ∨ asked l s'.log = asked l s.log ++ [s.nextRun] ∧ s'.nextRun = s.nextRun + 1 := by
  cases moved with
  | still _ _ marks log elsewhere => exact Or.inl (by rw [log, asked_append, asked_marks elsewhere, List.append_nil])
  | asked _ _ log next => exact Or.inr ⟨by rw [log, asked_append]; simp [asked], next⟩
  | started _ _ _ _ _ log => exact Or.inl (by rw [log, asked_started])
  | turned_down _ _ _ _ log => exact Or.inl (by rw [log, asked_ended])
  | released _ _ _ _ _ _ log => exact Or.inl (by rw [log, asked_ended])
  | cancelled _ _ _ _ log => exact Or.inl (by rw [log, asked_ended])

theorem nextRun_next {s s' : System} {label : Label} (did : s.next label = some s') : s.nextRun ≤ s'.nextRun := by
  cases label with
  | ask script =>
    cases did
    unfold System.ask
    split <;> exact Nat.le_succ _
  | turn l =>
    simp only [System.next, System.turn] at did
    split at did
    · split at did
      · cases did
        exact le_rfl
      · split at did <;> cases did <;> exact le_rfl
    · cases did
  | take w =>
    simp only [System.next, System.take] at did
    split at did
    · split at did <;> cases did
      exact le_rfl
    · cases did
  | finish w =>
    simp only [System.next, System.finish] at did
    split at did <;> cases did
    exact le_rfl
  | leave w =>
    simp only [System.next, System.leave, Option.ite_none_right_eq_some] at did
    cases did.2
    exact le_rfl
  | settle l =>
    simp only [System.next, System.settle] at did
    split at did
    · split at did <;> cases did
      exact le_rfl
    · cases did
  | expire l =>
    obtain ⟨⟨run, w⟩, turn, rfl⟩ := Option.map_eq_some_iff.mp did
    exact le_rfl
  | cancel l run =>
    simp only [System.next, System.cancel] at did
    split at did
    · split at did
      · cases did
        split <;> exact le_rfl
      · split at did <;> cases did
        exact le_rfl
    · split at did <;> cases did
      exact le_rfl
  | close script =>
    cases did
    unfold System.close
    split
    · exact le_rfl
    · simp only
      split <;> exact le_rfl

theorem Ordered.next {s s' : System} (ordered : Ordered s) (sound : Sound s) {label : Label} (did : s.next label = some s') :
    Ordered s' := by
  have numbers := nextRun_next did
  refine ⟨fun l => ?_, fun l run member => ?_, fun l => closed_step sound did l (ordered.shut l), fun l => ?_⟩
  · rcases asked_next (moved sound did l) with same | ⟨more, -⟩
    · rw [same]
      exact ordered.distinct l
    · rw [more, List.nodup_append]
      refine ⟨ordered.distinct l, List.nodup_singleton _, fun run early run' new => ?_⟩
      rw [List.mem_singleton.mp new]
      exact (ordered.numbered l run early).ne
  · rcases asked_next (moved sound did l) with same | ⟨more, next⟩
    · rw [same] at member
      exact (ordered.numbered l run member).trans_le numbers
    · rw [more] at member
      rcases List.mem_append.mp member with early | new
      · exact (ordered.numbered l run early).trans_le numbers
      · rw [List.mem_singleton.mp new]
        omega
  · exact Waits.step ordered (moved sound did l)

theorem ordered_of_reach {s : System} (reach : Reach machine always s) : Ordered s := by
  refine reach.invariant (I := Ordered) ?_ fun _ _ _ before ordered _ did => ordered.next (sound_of_reach before) did
  rintro _ rfl
  exact ordered_init

/-- A mark of a grown log is one of the old log, or one of what came. -/
theorem split_grown {log marks before after : List Mark} {mark : Mark} (here : log ++ marks = before ++ mark :: after) :
    (∃ after', log = before ++ mark :: after') ∨ mark ∈ marks ∧ ∃ first, before = log ++ first ∧ marks = first ++ mark :: after := by
  rcases List.append_eq_append_iff.mp here with ⟨first, rfl, rest⟩ | ⟨second, rfl, rest⟩
  · exact Or.inr ⟨by simp [rest], first, rfl, rest⟩
  · cases second with
    | nil =>
      obtain rfl : mark :: after = marks := rest
      exact Or.inr ⟨List.mem_cons_self, [], by simp, rfl⟩
    | cons head tail =>
      obtain ⟨rfl, -⟩ := List.cons.inj rest
      exact Or.inl ⟨tail, rfl⟩

theorem split_grown_one {log before after : List Mark} {mark mark' : Mark} (here : log ++ [mark'] = before ++ mark :: after) :
    (∃ after', log = before ++ mark :: after') ∨ mark = mark' ∧ before = log := by
  rcases split_grown here with old | ⟨new, first, rfl, rest⟩
  · exact Or.inl old
  · cases first with
    | nil => exact Or.inr ⟨List.mem_singleton.mp new, by simp⟩
    | cons head tail => simp at rest

/-- When a run starts, every run of its script asked for before it has ended, none asked for
after it has started, and the script has not been unloaded. -/
theorem started_in_order {s : System} (reach : Reach machine always s) {before after : List Mark} {l run : Nat}
    (here : s.log = before ++ .started l run :: after) :
    ∃ earlier later, asked l before = earlier ++ run :: later ∧ (∀ run' ∈ earlier, Ended l run' before) ∧
      (∀ run' ∈ run :: later, .started l run' ∉ before) ∧ .closed l ∉ before := by
  induction reach generalizing after with
  | init start =>
    cases start
    simp at here
  | @step s label s' reach _ did ih =>
    have ordered := ordered_of_reach reach
    have sound := sound_of_reach reach
    cases moved sound did l with
    | still _ _ marks log elsewhere =>
      rw [log] at here
      rcases split_grown here with ⟨after', old⟩ | ⟨new, -⟩
      · exact ih old
      · exact absurd rfl (elsewhere _ new run .returned).2.1
    | started run' worker waiting free holder log going =>
      rw [log] at here
      rcases split_grown_one here with ⟨after', old⟩ | ⟨same, rfl⟩
      · exact ih old
      · cases same
        obtain ⟨front, back, w⟩ := ordered.waits l
        have distinct : (front ++ back).Nodup := w.all ▸ ordered.distinct l
        obtain ⟨over_, later, rfl, rest, finished⟩ := w.next distinct waiting
        have apart := List.disjoint_of_nodup_append distinct
        refine ⟨front ++ over_, later, ?_, ?_, ?_, ?_⟩
        · rw [w.all, List.append_assoc]
        · intro run' member
          rcases List.mem_append.mp member with first | second
          · exact (w.gone run' first).resolve_right (by simp [free])
          · exact finished run' second
        · intro run' member begun
          exact apart (w.begun run' begun) (List.mem_append_right _ member)
        · intro closed
          rw [(ordered.shut l).mpr closed] at going
          cases going
    | asked _ _ log _ =>
      rw [log] at here
      obtain ⟨after', old⟩ := (split_grown_one here).resolve_right (by simp)
      exact ih old
    | turned_down _ _ _ _ log =>
      rw [log] at here
      obtain ⟨after', old⟩ := (split_grown_one here).resolve_right (by simp)
      exact ih old
    | released _ _ _ _ _ _ log =>
      rw [log] at here
      obtain ⟨after', old⟩ := (split_grown_one here).resolve_right (by simp)
      exact ih old
    | cancelled _ _ _ _ log =>
      rw [log] at here
      obtain ⟨after', old⟩ := (split_grown_one here).resolve_right (by simp)
      exact ih old

theorem started_in_order_stuckOnce :
    ∃ s before after, machine.run always {} stuckOnce = some s ∧ s.log = before ++ .started 0 1 :: after ∧
      ∃ earlier later, asked 0 before = earlier ++ 1 :: later ∧ (∀ run' ∈ earlier, Ended 0 run' before) ∧
        (∀ run' ∈ 1 :: later, .started 0 run' ∉ before) ∧ .closed 0 ∉ before := by
  have log : (machine.run always {} stuckOnce).map System.log = some
      ([.asked 0 0, .started 0 0, .asked 0 1, .asked 0 2, .ended 0 0 .timedOut] ++ [.started 0 1]) := by rfl
  obtain ⟨s, run, log⟩ := Option.map_eq_some_iff.mp log
  have reach : Reach machine always s := (Reach.init (M := machine) rfl).run run
  exact ⟨s, _, _, run, log, started_in_order reach log⟩

end OpenAvc.Scripts
