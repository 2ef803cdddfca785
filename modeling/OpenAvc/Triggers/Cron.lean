import Mathlib.Order.Bounds.Basic
import OpenAvc.Triggers.Definitions

/-! The poll loop of the schedules: which occurrences of a schedule it fires for. -/

namespace OpenAvc.Triggers

/-- An absolute instant, in microseconds. -/
abbrev Instant := Int

/-- The trigger engine as its schedules see it. `lastCheck` is the loop's own
variable. `lastPoll` is the clock at the last poll and `fired` has, for each
trigger, the occurrences fired for and the polls that did it, the latest first,
since the trigger was first loaded; the code reads neither. -/
structure CronLoop where
  triggers : List (TriggerId × Trigger) := []
  running : Bool := false
  looping : Bool := false
  lastCheck : Option Instant := none
  cronLastFires : TriggerId → Option Instant := fun _ => none
  lastPoll : Option Instant := none
  fired : TriggerId → List (Instant × Instant) := fun _ => []

namespace CronLoop

/-- The age up to which an occurrence is fired for at the first poll. -/
def recent : Int := 60 * 1000000

/-- `_schedule_prev_due`, with the library's `get_prev`, which may raise. -/
def schedulePrevDue (getPrev : String → Instant → Option Instant) (cron : String) (now : Instant)
    (lastCheck : Option Instant) : Option (Instant × Bool) :=
  (getPrev cron now).map fun prev =>
    match lastCheck with
    | none => (prev, decide (now - prev ≤ recent))
    | some last => (prev, decide (last < prev))

/-- `_already_fired`, of the stamp the trigger has. -/
def alreadyFired (last : Option Instant) (prev : Instant) : Bool :=
  last.any fun last => decide (prev ≤ last)

/-- The occurrence that a poll fires a trigger for. What raises on the way is
caught, and the trigger is passed over. -/
def dueOccurrence (getPrev : String → Instant → Option Instant) (t : Trigger) (now : Instant)
    (lastCheck last : Option Instant) : Option Instant :=
  if t.type ≠ .schedule || !t.enabled || t.cron = "" then none
  else
    match schedulePrevDue getPrev t.cron now lastCheck with
    | none => none
    | some (prev, shouldFire) => if !shouldFire || alreadyFired last prev then none else some prev

/-- One turn of the poll's loop over the triggers. -/
def checkTrigger (getPrev : String → Instant → Option Instant) (now : Instant) (s : CronLoop)
    (u : TriggerId × Trigger) : CronLoop :=
  match dueOccurrence getPrev u.2 now s.lastCheck (s.cronLastFires u.1) with
  | none => s
  | some prev => { s with
      cronLastFires := Function.update s.cronLastFires u.1 (some now)
      fired := Function.update s.fired u.1 ((prev, now) :: s.fired u.1) }

/-- One turn of `_cron_loop`. -/
def poll (getPrev : String → Instant → Option Instant) (s : CronLoop) (now : Instant) : CronLoop :=
  { s.triggers.foldl (checkTrigger getPrev now) s with lastCheck := some now, lastPoll := some now }

/-- `load_triggers`: the stamps of the ids that are still there stay. -/
def load (s : CronLoop) (triggers : List Trigger) : CronLoop :=
  let live := loadedTriggers triggers
  { s with
    triggers := live
    cronLastFires := fun id => if (live.lookup id).isSome then s.cronLastFires id else none
    fired := fun id => if (live.lookup id).isSome then s.fired id else [] }

inductive Label
  | load (triggers : List Trigger)
  | start
  | stop
  | poll (now : Instant)

def next (getPrev : String → Instant → Option Instant) (s : CronLoop) : Label → Option CronLoop
  | .load triggers => if s.running then none else some (s.load triggers)
  | .start =>
    if s.running then none
    else some { s with
      running := true
      looping := s.triggers.any fun u => u.2.enabled && u.2.type = .schedule
      lastCheck := none }
  | .stop => some { s with running := false, looping := false }
  | .poll now =>
    if s.looping && s.lastPoll.all (fun last => decide (last < now)) then some (s.poll getPrev now) else none

end CronLoop

/-- The loop with its polls at any increasing instants. -/
def cronMachine (getPrev : String → Instant → Option Instant) : Run.Machine CronLoop CronLoop.Label where
  init s := s = {}
  next := CronLoop.next getPrev

namespace CronLoop

variable (getPrev : String → Instant → Option Instant) (now : Instant) (s : CronLoop)

@[simp] theorem checkTrigger_lastCheck (u : TriggerId × Trigger) :
    (checkTrigger getPrev now s u).lastCheck = s.lastCheck := by
  unfold checkTrigger
  split <;> rfl

theorem checkTrigger_other {id : TriggerId} {u : TriggerId × Trigger} (other : id ≠ u.1) :
    (checkTrigger getPrev now s u).cronLastFires id = s.cronLastFires id ∧
      (checkTrigger getPrev now s u).fired id = s.fired id := by
  unfold checkTrigger
  split
  · exact ⟨rfl, rfl⟩
  · simp [other]

theorem checked_absent {id : TriggerId} {l : List (TriggerId × Trigger)} (absent : id ∉ l.map Prod.fst) :
    (l.foldl (checkTrigger getPrev now) s).cronLastFires id = s.cronLastFires id ∧
      (l.foldl (checkTrigger getPrev now) s).fired id = s.fired id := by
  induction l generalizing s with
  | nil => exact ⟨rfl, rfl⟩
  | cons u l ih =>
    obtain ⟨other, rest⟩ := not_or.mp (mt List.mem_cons.mpr absent)
    obtain ⟨stamp, fired⟩ := ih (checkTrigger getPrev now s u) rest
    obtain ⟨stamp', fired'⟩ := checkTrigger_other getPrev now s other
    exact ⟨stamp.trans stamp', fired.trans fired'⟩

@[simp] theorem poll_triggers : (s.poll getPrev now).triggers = s.triggers := by
  have walk : ∀ (l : List (TriggerId × Trigger)) (s : CronLoop),
      (l.foldl (checkTrigger getPrev now) s).triggers = s.triggers := by
    intro l
    induction l with
    | nil => exact fun _ => rfl
    | cons u l ih =>
      intro s
      rw [List.foldl_cons, ih]
      unfold checkTrigger
      split <;> rfl
  exact walk _ _

/-- What a poll does to a trigger: it leaves it alone, or fires it for an occurrence. -/
theorem checked_cases {id : TriggerId} {t : Trigger} {l : List (TriggerId × Trigger)}
    (distinct : (l.map Prod.fst).Nodup) (member : (id, t) ∈ l) :
    ((l.foldl (checkTrigger getPrev now) s).cronLastFires id, (l.foldl (checkTrigger getPrev now) s).fired id) =
      match dueOccurrence getPrev t now s.lastCheck (s.cronLastFires id) with
      | none => (s.cronLastFires id, s.fired id)
      | some prev => (some now, (prev, now) :: s.fired id) := by
  induction l generalizing s with
  | nil => cases member
  | cons u l ih =>
    obtain ⟨apart, distinct⟩ := List.nodup_cons.mp distinct
    rw [List.foldl_cons]
    rcases List.mem_cons.mp member with rfl | later
    · obtain ⟨stamp, fired⟩ := checked_absent getPrev now (checkTrigger getPrev now s (id, t)) apart
      rw [stamp, fired]
      unfold checkTrigger
      simp only
      split <;> simp
    · have other : id ≠ u.1 := by
        rintro rfl
        exact apart (List.mem_map.mpr ⟨_, later, rfl⟩)
      obtain ⟨stamp, fired⟩ := checkTrigger_other getPrev now s other
      rw [ih _ distinct later, checkTrigger_lastCheck, stamp, fired]

theorem poll_cases (distinct : (s.triggers.map Prod.fst).Nodup) (id : TriggerId) :
    ((s.poll getPrev now).cronLastFires id = s.cronLastFires id ∧ (s.poll getPrev now).fired id = s.fired id) ∨
      ∃ t prev, (id, t) ∈ s.triggers ∧ dueOccurrence getPrev t now s.lastCheck (s.cronLastFires id) = some prev ∧
        (s.poll getPrev now).cronLastFires id = some now ∧
        (s.poll getPrev now).fired id = (prev, now) :: s.fired id := by
  by_cases there : id ∈ s.triggers.map Prod.fst
  · obtain ⟨⟨name, t⟩, member, same⟩ := List.mem_map.mp there
    obtain rfl : name = id := same
    have cases := checked_cases getPrev now s distinct member
    cases due : dueOccurrence getPrev t now s.lastCheck (s.cronLastFires name) with
    | none =>
      simp only [due, Prod.mk.injEq] at cases
      exact Or.inl cases
    | some prev =>
      simp only [due, Prod.mk.injEq] at cases
      exact Or.inr ⟨t, prev, member, due, cases⟩
  · exact Or.inl (checked_absent getPrev now s there)

variable {getPrev now s} {s' : CronLoop} {id : TriggerId} {t : Trigger} {o p q : Instant}

/-- A trigger is fired for what the library answers, once it is due, and not
when its stamp is as late. -/
theorem dueOccurrence_eq_some {prev : Instant} {lastCheck last : Option Instant}
    (due : dueOccurrence getPrev t now lastCheck last = some prev) :
    getPrev t.cron now = some prev ∧ (∀ c ∈ lastCheck, c < prev) ∧ ∀ f ∈ last, f < prev := by
  unfold dueOccurrence at due
  split at due
  · cases due
  · cases answer : getPrev t.cron now with
    | none => simp [schedulePrevDue, answer] at due
    | some found =>
      cases lastCheck <;> cases last <;>
        simp [schedulePrevDue, answer, alreadyFired] at due ⊢ <;> grind

/-- The loop keeps its books: each trigger's firings are dated, the stamp is
the last of them, and each is for an occurrence later than the one before. -/
structure Booked (s : CronLoop) : Prop where
  distinct : (s.triggers.map Prod.fst).Nodup
  dated : ∀ id, ∀ f ∈ s.fired id, f.1 < f.2 ∧ ∃ last, s.lastPoll = some last ∧ f.2 ≤ last
  stamp : ∀ id, s.cronLastFires id = (s.fired id).head?.map Prod.snd
  ordered : ∀ id, (s.fired id).Pairwise fun later earlier => earlier.2 < later.1
  checked : ∀ c, s.lastCheck = some c → s.lastPoll = some c

/-- What is later than the last firing is later than all of them. -/
theorem firing_lt_of_head {l : List (Instant × Instant)} {prev : Instant} {last : Option Instant}
    (dated : ∀ f ∈ l, f.1 < f.2 ∧ ∃ p, last = some p ∧ f.2 ≤ p)
    (ordered : l.Pairwise fun later earlier => earlier.2 < later.1)
    (fresh : ∀ f ∈ l.head?.map Prod.snd, f < prev) {f : Instant × Instant} (member : f ∈ l) : f.2 < prev := by
  cases l with
  | nil => cases member
  | cons g l =>
    have head : g.2 < prev := fresh g.2 rfl
    rcases List.mem_cons.mp member with rfl | before
    · exact head
    · have older := (List.pairwise_cons.mp ordered).1 f before
      exact older.trans ((dated g List.mem_cons_self).1.trans head)

/-- `get_prev` answers the latest occurrence strictly before its argument. -/
def LatestBefore (occurs : String → Set Instant) (getPrev : String → Instant → Option Instant) : Prop :=
  ∀ cron now o, getPrev cron now = some o ↔ IsGreatest {o | o ∈ occurs cron ∧ o < now} o

variable {occurs : String → Set Instant}

theorem Booked.poll (latest : LatestBefore occurs getPrev) (booked : s.Booked)
    (later : ∀ last ∈ s.lastPoll, last < now) : (s.poll getPrev now).Booked where
  distinct := by
    rw [poll_triggers]
    exact booked.distinct
  dated id := by
    intro f member
    have old : ∀ f ∈ s.fired id, f.1 < f.2 ∧ ∃ last, some now = some last ∧ f.2 ≤ last := by
      intro f member
      obtain ⟨before, last, atLast, past⟩ := booked.dated id f member
      exact ⟨before, now, rfl, past.trans (later last atLast).le⟩
    rcases poll_cases getPrev now s booked.distinct id with ⟨_, same⟩ | ⟨t, prev, _, due, _, added⟩
    · exact old f (same ▸ member)
    · rw [added] at member
      rcases List.mem_cons.mp member with rfl | before
      · exact ⟨((latest _ _ _).mp (dueOccurrence_eq_some due).1).1.2, now, rfl, le_rfl⟩
      · exact old f before
  stamp id := by
    rcases poll_cases getPrev now s booked.distinct id with ⟨stamp, same⟩ | ⟨_, _, _, _, stamp, added⟩
    · rw [stamp, same]
      exact booked.stamp id
    · rw [stamp, added]
      rfl
  ordered id := by
    rcases poll_cases getPrev now s booked.distinct id with ⟨_, same⟩ | ⟨t, prev, _, due, _, added⟩
    · rw [same]
      exact booked.ordered id
    · rw [added]
      refine List.pairwise_cons.mpr ⟨fun f member => ?_, booked.ordered id⟩
      have fresh := (dueOccurrence_eq_some due).2.2
      rw [booked.stamp id] at fresh
      exact firing_lt_of_head (booked.dated id) (booked.ordered id) fresh member
  checked _ same := same

theorem Booked.next (latest : LatestBefore occurs getPrev) (booked : s.Booked) {l : Label}
    (run : s.next getPrev l = some s') : s'.Booked := by
  cases l with
  | load triggers =>
    simp only [CronLoop.next] at run
    split at run <;> cases run
    refine ⟨loadedTriggers_distinct triggers, fun id => ?_, fun id => ?_, fun id => ?_, booked.checked⟩
    · simp only [load]
      split
      · exact booked.dated id
      · exact nofun
    · simp only [load]
      split
      · exact booked.stamp id
      · rfl
    · simp only [load]
      split
      · exact booked.ordered id
      · exact .nil
  | start =>
    simp only [CronLoop.next] at run
    split at run <;> cases run
    exact ⟨booked.distinct, booked.dated, booked.stamp, booked.ordered, nofun⟩
  | stop =>
    cases run
    exact ⟨booked.distinct, booked.dated, booked.stamp, booked.ordered, booked.checked⟩
  | poll now =>
    simp only [CronLoop.next] at run
    split at run <;> cases run
    rename_i allowed
    refine booked.poll latest fun last member => ?_
    have later := (Bool.and_eq_true _ _ ▸ allowed).2
    rw [Option.mem_def.mp member] at later
    exact of_decide_eq_true later

theorem booked (latest : LatestBefore occurs getPrev) {ok : CronLoop → Label → Prop}
    (reach : Run.Reach (cronMachine getPrev) ok s) : s.Booked := by
  induction reach with
  | init start =>
    cases start
    exact ⟨List.nodup_nil, fun _ => nofun, fun _ => rfl, fun _ => .nil, nofun⟩
  | step _ _ run ih => exact ih.next latest run

/-- The latest occurrence after the poll at `p` and up to the one at `q`. -/
def LatestOfGap (occurrences : Set Instant) (p q o : Instant) : Prop :=
  IsGreatest {o | o ∈ occurrences ∧ p < o ∧ o ≤ q} o

/-- The trigger has been fired for the occurrence. -/
def FiredFor (s : CronLoop) (id : TriggerId) (o : Instant) : Prop := ∃ polled, (o, polled) ∈ s.fired id

theorem Booked.not_firedFor (booked : s.Booked) (atPoll : s.lastPoll = some p) (later : p ≤ o) :
    ¬ s.FiredFor id o := by
  rintro ⟨polled, member⟩
  obtain ⟨before, last, atLast, past⟩ := booked.dated id _ member
  cases atPoll.symm.trans atLast
  exact absurd (before.trans_le past) later.not_gt

theorem FiredFor.poll (distinct : (s.triggers.map Prod.fst).Nodup) (fired : s.FiredFor id o) :
    (s.poll getPrev now).FiredFor id o := by
  obtain ⟨polled, member⟩ := fired
  rcases poll_cases getPrev now s distinct id with ⟨_, same⟩ | ⟨_, _, _, _, _, added⟩
  · exact ⟨polled, same ▸ member⟩
  · exact ⟨polled, added ▸ List.mem_cons_of_mem _ member⟩

/-- The loop goes on polling: it fires for no occurrence that the last check
did not leave ahead. -/
theorem not_firedFor_poll (distinct : (s.triggers.map Prod.fst).Nodup) (atCheck : s.lastCheck = some p) (past : o ≤ p)
    (missed : ¬ s.FiredFor id o) : ¬ (s.poll getPrev now).FiredFor id o := by
  rintro ⟨polled, member⟩
  rcases poll_cases getPrev now s distinct id with ⟨_, same⟩ | ⟨t, prev, _, due, _, added⟩
  · exact missed ⟨polled, same ▸ member⟩
  · rcases List.mem_cons.mp (added ▸ member) with new | old
    · cases new
      exact absurd ((dueOccurrence_eq_some due).2.1 p atCheck) past.not_gt
    · exact missed ⟨polled, old⟩

/-- While the loop only polls, what it has fired for stays so, and what it has
not fired for by the poll after it never comes to be. -/
theorem firedFor_polls (latest : LatestBefore occurs getPrev) (booked : s.Booked) (atCheck : s.lastCheck = some p)
    (past : o ≤ p) {polls : List Instant}
    (run : (cronMachine getPrev).run Run.always s (polls.map Label.poll) = some s') :
    s'.FiredFor id o ↔ s.FiredFor id o := by
  induction polls generalizing s p with
  | nil => cases run; rfl
  | cons now polls ih =>
    simp only [List.map_cons, Run.Machine.run, Option.ite_none_right_eq_some] at run
    obtain ⟨middle, first, rest⟩ := Option.bind_eq_some_iff.mp run.2
    have first : s.next getPrev (.poll now) = some middle := first
    have booked' := booked.next latest first
    have polled : middle = s.poll getPrev now ∧ p < now := by
      simp only [CronLoop.next, booked.checked p atCheck] at first
      split at first <;> cases first
      rename_i allowed
      exact ⟨rfl, of_decide_eq_true (Bool.and_eq_true _ _ ▸ allowed).2⟩
    obtain ⟨rfl, later⟩ := polled
    rw [ih booked' rfl (past.trans later.le) rest]
    constructor
    · exact fun fired => not_imp_not.mp (not_firedFor_poll booked.distinct atCheck past) fired
    · exact FiredFor.poll booked.distinct

/-- The poll at `q` fires for the latest occurrence since the poll at `p` if it
comes before `q`. -/
theorem firedFor_poll (latest : LatestBefore occurs getPrev) (booked : s.Booked) (atCheck : s.lastCheck = some p)
    (member : (id, t) ∈ s.triggers) (scheduled : t.Scheduled) (newest : LatestOfGap (occurs t.cron) p q o) :
    (s.poll getPrev q).FiredFor id o ↔ o ≠ q := by
  obtain ⟨schedule, enabled, cron⟩ := scheduled
  obtain ⟨⟨occurrence, after, before⟩, newest⟩ := newest
  constructor
  · rintro ⟨polled, fired⟩ rfl
    rcases poll_cases getPrev o s booked.distinct id with ⟨_, same⟩ | ⟨t', prev, _, due, _, added⟩
    · exact booked.not_firedFor (booked.checked p atCheck) after.le ⟨polled, same ▸ fired⟩
    · rcases List.mem_cons.mp (added ▸ fired) with new | old
      · cases new
        exact lt_irrefl _ ((latest _ _ _).mp (dueOccurrence_eq_some due).1).1.2
      · exact booked.not_firedFor (booked.checked p atCheck) after.le ⟨polled, old⟩
  · intro other
    have early : o < q := lt_of_le_of_ne before other
    have answer : getPrev t.cron q = some o := by
      refine (latest _ _ _).mpr ⟨⟨occurrence, early⟩, fun o' ⟨there, lower⟩ => ?_⟩
      by_cases inside : p < o'
      · exact newest ⟨there, inside, lower.le⟩
      · exact (not_lt.mp inside).trans after.le
    have unfired : alreadyFired (s.cronLastFires id) o = false := by
      rw [booked.stamp id]
      cases firings : s.fired id with
      | nil => rfl
      | cons f _ =>
        obtain ⟨_, last, atLast, past⟩ := booked.dated id f (firings ▸ List.mem_cons_self)
        cases (booked.checked p atCheck).symm.trans atLast
        exact decide_eq_false (past.trans_lt after).not_ge
    have due : dueOccurrence getPrev t q s.lastCheck (s.cronLastFires id) = some o := by
      simp [dueOccurrence, schedulePrevDue, schedule, enabled, cron, answer, atCheck, unfired, after]
    have polled := checked_cases getPrev q s booked.distinct member
    simp only [due, Prod.mk.injEq] at polled
    exact ⟨q, polled.2 ▸ List.mem_cons_self⟩

/-- The schedules of every run. No occurrence is fired for twice while its
trigger stays loaded. Of a gap between two polls of a loop the latest occurrence
is fired for, whatever further polls there are, unless the poll that closes the
gap comes at that very instant. -/
theorem schedule_fires_once (latest : LatestBefore occurs getPrev)
    (reach : Run.Reach (cronMachine getPrev) Run.always s) :
    (∀ id, ((s.fired id).map Prod.fst).Nodup) ∧
      ∀ p q s' id t o, s.lastCheck = some p → s.next getPrev (.poll q) = some s' →
        (id, t) ∈ s.triggers → t.Scheduled → LatestOfGap (occurs t.cron) p q o →
        ∀ (polls : List Instant) s'', (cronMachine getPrev).run Run.always s' (polls.map Label.poll) = some s'' →
          (s''.FiredFor id o ↔ o ≠ q) := by
  have books := booked latest reach
  constructor
  · intro id
    refine List.pairwise_map.mpr ((books.ordered id).imp_of_mem fun _ earlier apart => ?_)
    exact ((books.dated id _ earlier).1.trans apart).ne'
  · intro p q s' id t o atCheck polled member scheduled newest polls s'' run
    have books' := books.next latest polled
    have fired := firedFor_poll latest books atCheck member scheduled newest
    simp only [CronLoop.next] at polled
    split at polled <;> cases polled
    rw [firedFor_polls latest books' rfl newest.1.2.2 run, fired]

/-- An occurrence at every full minute. -/
def everyMinute (_ : String) : Set Instant := {o | o % 60000000 = 0}

def minuteBefore (_ : String) (now : Instant) : Option Instant := some ((now - 1) / 60000000 * 60000000)

theorem latestBefore_minute : LatestBefore everyMinute minuteBefore := by
  have greatest : ∀ now : Int, IsGreatest {o : Int | o % 60000000 = 0 ∧ o < now} ((now - 1) / 60000000 * 60000000) := by
    intro now
    constructor
    · constructor <;> omega
    · rintro o ⟨full, before⟩
      omega
  intro cron now o
  constructor
  · intro same
    cases same
    exact greatest now
  · intro other
    exact congrArg some ((greatest now).unique other)

def minutely : Trigger := { id := "t", macroId := "m", type := .schedule, cron := "* * * * *" }

/-- Polled at 0:30 and 1:30, the schedule is fired for the minute in between. -/
theorem schedule_fires_once_at_half_minutes :
    ∃ s s', (cronMachine minuteBefore).run Run.always {} [.load [minutely], .start, .poll 30000000] = some s ∧
      s.next minuteBefore (.poll 90000000) = some s' ∧ s'.FiredFor "t" 60000000 := by
  have start : ∃ s, (cronMachine minuteBefore).run Run.always {} [.load [minutely], .start, .poll 30000000] = some s ∧
      s.lastCheck = some 30000000 ∧ ("t", minutely) ∈ s.triggers ∧
      ∃ s', s.next minuteBefore (.poll 90000000) = some s' := ⟨_, rfl, rfl, List.mem_singleton.mpr rfl, _, rfl⟩
  obtain ⟨s, run, atCheck, member, s', polled⟩ := start
  have newest : LatestOfGap (everyMinute "* * * * *") 30000000 90000000 60000000 := by
    have full : ∀ o : Int, o % 60000000 = 0 → o ≤ 90000000 → o ≤ 60000000 := by omega
    exact ⟨⟨rfl, by decide, by decide⟩, fun o ⟨minute, _, before⟩ => full o minute before⟩
  have fired := (schedule_fires_once latestBefore_minute (.run (.init rfl) run)).2 30000000 90000000 s' "t" minutely
    60000000 atCheck polled member ⟨rfl, rfl, by decide⟩ newest [] s' rfl
  exact ⟨s, s', run, polled, fired.mpr (by decide)⟩

/-- Polled at 0:30 and 1:00, it is never fired for the minute at 1:00. -/
theorem schedule_misses_occurrence_at_poll :
    ¬ ∀ (occurs : String → Set Instant) (getPrev : String → Instant → Option Instant) (s s' : CronLoop)
        (id : TriggerId) (t : Trigger) (o p q : Instant),
      LatestBefore occurs getPrev → Run.Reach (cronMachine getPrev) Run.always s → s.lastCheck = some p →
      s.next getPrev (.poll q) = some s' → (id, t) ∈ s.triggers → t.Scheduled → LatestOfGap (occurs t.cron) p q o →
      ∃ (polls : List Instant) (s'' : CronLoop),
        (cronMachine getPrev).run Run.always s' (polls.map Label.poll) = some s'' ∧ s''.FiredFor id o := by
  intro claim
  have start : ∃ s, (cronMachine minuteBefore).run Run.always {} [.load [minutely], .start, .poll 30000000] = some s ∧
      s.lastCheck = some 30000000 ∧ ("t", minutely) ∈ s.triggers ∧
      ∃ s', s.next minuteBefore (.poll 60000000) = some s' ∧ s'.lastCheck = some 60000000 ∧
        s'.fired "t" = [(0, 30000000)] := ⟨_, rfl, rfl, List.mem_singleton.mpr rfl, _, rfl, rfl, rfl⟩
  obtain ⟨s, run, atCheck, member, s', polled, atCheck', firings⟩ := start
  have newest : LatestOfGap (everyMinute "* * * * *") 30000000 60000000 60000000 :=
    ⟨⟨rfl, by decide, le_rfl⟩, fun o ⟨_, _, before⟩ => before⟩
  have reach : Run.Reach (cronMachine minuteBefore) Run.always s := .run (.init rfl) run
  obtain ⟨polls, s'', goesOn, fired⟩ := claim everyMinute minuteBefore s s' "t" minutely 60000000 30000000 60000000
    latestBefore_minute reach atCheck polled member ⟨rfl, rfl, by decide⟩ newest
  have books := (booked latestBefore_minute reach).next latestBefore_minute polled
  obtain ⟨_, found⟩ := (firedFor_polls latestBefore_minute books atCheck' le_rfl goesOn).mp fired
  rw [firings, List.mem_singleton] at found
  cases found

end CronLoop

end OpenAvc.Triggers
