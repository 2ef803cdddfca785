import Mathlib.Algebra.Order.Ring.Rat
import OpenAvc.Data.LastChange
import OpenAvc.Listen.SafetyNet

/-! When the safety net goes back, told from what the server did, and that a power cut in the
middle of it is made good by the next start. -/

namespace OpenAvc.Listen

def Event.act : Event → Option Act
  | .did act => some act
  | .cut act _ => some act
  | .stop => none

/-- The event lived to make its `n`-th write. -/
def Event.makes (n : Nat) : Event → Bool
  | .did _ => true
  | .cut _ k => n ≤ k
  | .stop => false

/-- An event, and the server it came to. -/
structure Entry where
  server : Server
  event : Event

/-- The process that serves the event, where there is an act and it lives to make its `n`-th write. -/
def Entry.served (e : Entry) (n : Nat) : Option (Act × Process) :=
  if e.event.makes n then e.event.act.bind fun act => (e.server.serving act).map (act, ·) else none

/-- What the server did since it had no marker. -/
inductive Run (saved : Stored) : List Entry → Server → Prop
  | nil : Run saved [] { disk := { saved } }
  | snoc {trace s event s'} : Run saved trace s → step s event = some s' → Run saved (trace ++ [⟨s, event⟩]) s'

/-- The marker that a change leaves, where it cuts off the browser making it. -/
def Entry.arming (e : Entry) : Option Marker :=
  (e.served 1).bind fun
    | (.change choice name keeps now, p) =>
      if choice = p.choice ∨ keeps then none
      else some { previous := describe p.choice p.adapterName, choice := describe choice name, armedAt := now }
    | _ => none

/-- A start that came to listen on the choice, which the environment does not hold. -/
def Entry.opens (e : Entry) (choice : Choice) : Option ℚ :=
  (e.served 1).bind fun
    | (.start env _ now, _) => if env = none ∧ Choice.fromConfig e.server.disk.saved = choice then some now else none
    | _ => none

/-- An event that the net waits through before the new choice runs: no change, no start. -/
def Entry.waits (e : Entry) : Prop :=
  ∀ act p, e.served 1 = some (act, p) → (∃ now, act = .tick now) ∨ act = .load

/-- One that it watches through after: no change, no Programmer load, no start on another
choice, and no tick that lives to put the marker away when the time is up. -/
def Entry.watches (e : Entry) (choice : Choice) (until_ : ℚ) : Prop :=
  ∀ act p, e.served 1 = some (act, p) →
    (∃ now, act = .tick now ∧ (e.event.makes 3 = true → now < until_)) ∨ (e.opens choice).isSome

namespace Entry

/-- What becomes of the marker. -/
def next (marker : Option Marker) (e : Entry) : Option Marker :=
  match e.served 1 with
  | none => marker
  | some (.start env name now, _) =>
    marker.bind fun m =>
      if (booted e.server.disk env name).heldByEnv ∨ (booted e.server.disk env name).choice ≠ m.choice.choice then none
      else some { m with listeningSince := some (m.listeningSince.getD now) }
  | some (.change .., _) => e.arming
  | some (.load, p) =>
    marker.bind fun m => if m.listeningSince ≠ none ∧ p.choice = m.choice.choice then none else some m
  | some (.tick now, _) =>
    marker.bind fun m =>
      if e.event.makes 3 ∧ m.listeningSince.any (· + m.deadline ≤ now) then none else some m

end Entry

theorem Server.serving_start {s : Server} {env : Option Choice} {name : Text} {now : ℚ} {p : Process}
    (serving : s.serving (.start env name now) = some p) : p = booted s.disk env name := by
  by_cases free : s.process.isNone <;> simp [Server.serving, free] at serving
  exact serving.symm

theorem arming_eq_some {e : Entry} {m : Marker} (armed : e.arming = some m) :
    (∃ choice name keeps now p, e.served 1 = some (.change choice name keeps now, p) ∧ m.choice.choice = choice ∧
      m.previous.choice = p.choice ∧ choice ≠ p.choice ∧ keeps = false) ∧
    m.deadline = deadlineSeconds ∧ m.listeningSince = none := by
  obtain ⟨⟨act, p⟩, served, shape⟩ := Option.bind_eq_some_iff.mp armed
  cases act with
  | change choice name keeps now =>
    simp only at shape
    split at shape
    · cases shape
    · have cutsOff := not_or.mp ‹_›
      cases shape
      exact ⟨⟨choice, name, keeps, now, p, served, rfl, rfl, cutsOff.1, by simpa using cutsOff.2⟩, rfl, rfl⟩
  | start env name now => cases shape
  | load => cases shape
  | tick now => cases shape

/-- The first `k` writes of an act do to the marker what the event does. -/
theorem marker_writes {s : Server} {act : Act} {p : Process} (serving : s.serving act = some p) {e : Event}
    (does : e.act = some act) {k : Nat} (makes : ∀ n ≤ 3, e.makes n = decide (n ≤ k)) :
    (((writes s.disk p act).take k).foldl Disk.apply s.disk).marker = Entry.next s.disk.marker ⟨s, e⟩ := by
  cases k with
  | zero =>
    have none_made : e.makes 1 = false := makes 1 (by omega)
    simp [Entry.next, Entry.served, none_made]
  | succ k =>
    have one : e.makes 1 = true := by rw [makes 1 (by omega)]; simp
    have served : Entry.served ⟨s, e⟩ 1 = some (act, p) := by simp [Entry.served, one, does, serving]
    unfold Entry.next
    rw [served]
    cases act with
    | start env name now =>
      obtain rfl := Server.serving_start serving
      cases marked : s.disk.marker with
      | none => simp [writes, noteListening, marked]
      | some m =>
        by_cases gone : (booted s.disk env name).heldByEnv ∨ (booted s.disk env name).choice ≠ m.choice.choice
        · simp [writes, noteListening, marked, gone, Disk.apply]
        · cases opened : m.listeningSince with
          | none => simp [writes, noteListening, marked, gone, opened, Disk.apply]
          | some t =>
            have same : { m with listeningSince := some t } = m := by rw [← opened]
            simp only [writes, noteListening, marked, if_neg gone, opened, Option.bind_some, Option.getD_some, same]
            simp [marked]
    | change choice name keeps now =>
      have arms : Entry.arming ⟨s, e⟩ =
          if choice = p.choice ∨ keeps then none
          else some { previous := describe p.choice p.adapterName, choice := describe choice name, armedAt := now } := by
        rw [Entry.arming, served]
        rfl
      rw [arms]
      by_cases clear : choice = p.choice ∨ keeps
      · cases k <;> simp [writes, armOrDisarm, clear, Disk.apply]
      · cases k <;> simp [writes, armOrDisarm, clear, Disk.apply]
    | load =>
      have rest : ∀ d : Disk, ∀ n, ((((s.disk.notice.map fun _ => Write.take).toList).take n).foldl Disk.apply d).marker = d.marker := by
        intro d n
        cases s.disk.notice <;> cases n <;> simp [Disk.apply]
      cases marked : s.disk.marker with
      | none => simpa [writes, confirms, marked] using rest s.disk (k + 1)
      | some m =>
        by_cases keeps : m.listeningSince ≠ none ∧ p.choice = m.choice.choice
        · have cleared := (rest (s.disk.apply .unmark) k).trans (rfl : _ = none)
          simpa [writes, confirms, marked, Option.filter, keeps] using cleared
        · have left := rest s.disk (k + 1)
          simp only [writes, confirms, marked, Option.filter, keeps, Option.bind_some, if_false]
          simpa [marked] using left
    | tick now =>
      have three : e.makes 3 = decide (3 ≤ k + 1) := makes 3 le_rfl
      cases marked : s.disk.marker with
      | none => simp [writes, due, marked]
      | some m =>
        by_cases late : m.listeningSince.any (· + m.deadline ≤ now)
        · have overdue : due s.disk now = some m := by simp [due, marked, Option.filter, late]
          rw [writes, overdue]
          rcases k with _ | _ | k
          · simp [revert, Disk.apply, marked, three]
          · simp [revert, Disk.apply, marked, three]
          · simp [revert, Disk.apply, three, late]
        · have early : due s.disk now = none := by simp [due, marked, Option.filter, late]
          rw [writes, early]
          simp [marked, late]

theorem marker_step {s s' : Server} {e : Event} (did : step s e = some s') :
    s'.disk.marker = Entry.next s.disk.marker ⟨s, e⟩ := by
  cases e with
  | did act =>
    obtain ⟨p, serving, rfl⟩ := Option.map_eq_some_iff.mp did
    have all : (writes s.disk p act).take ((writes s.disk p act).length + 3) = writes s.disk p act :=
      List.take_of_length_le (by omega)
    have written := marker_writes serving (e := .did act) rfl (k := (writes s.disk p act).length + 3) fun n bound =>
      (decide_eq_true (by omega)).symm
    rwa [all] at written
  | cut act k =>
    obtain ⟨p, serving, rfl⟩ := Option.map_eq_some_iff.mp did
    exact marker_writes serving (e := .cut act k) rfl fun n _ => rfl
  | stop =>
    cases did
    rfl

namespace Entry

variable {e : Entry} {m : Marker} {t : ℚ}

theorem served_eq_some {n : Nat} {act : Act} {p : Process} (served : e.served n = some (act, p)) :
    e.server.serving act = some p ∧ e.event.makes n = true := by
  unfold Entry.served at served
  split at served
  · obtain ⟨act', -, shape⟩ := Option.bind_eq_some_iff.mp served
    obtain ⟨p', serving, same⟩ := Option.map_eq_some_iff.mp shape
    cases same
    exact ⟨serving, ‹_›⟩
  · cases served

theorem served_act {n : Nat} {act : Act} {p : Process} (served : e.served n = some (act, p)) : e.event.act = some act := by
  unfold Entry.served at served
  split at served
  · obtain ⟨act', acts, shape⟩ := Option.bind_eq_some_iff.mp served
    obtain ⟨p', serving, same⟩ := Option.map_eq_some_iff.mp shape
    cases same
    exact acts
  · cases served

theorem next_start {env : Option Choice} {name : Text} {now : ℚ} {p : Process} (served : e.served 1 = some (.start env name now, p))
    (marker : Option Marker) :
    e.opens = (fun choice => if env = none ∧ Choice.fromConfig e.server.disk.saved = choice then some now else none) ∧
      next marker e = marker.bind fun m =>
        (e.opens m.choice.choice).map fun now => { m with listeningSince := some (m.listeningSince.getD now) } := by
  have opened : e.opens =
      fun choice => if env = none ∧ Choice.fromConfig e.server.disk.saved = choice then some now else none := by
    funext choice
    simp [opens, served]
  refine ⟨opened, ?_⟩
  rw [opened]
  simp only [next, served]
  congr 1
  funext m
  cases env with
  | none => by_cases same : Choice.fromConfig e.server.disk.saved = m.choice.choice <;> simp [booted, same]
  | some held => simp [booted]

theorem opens_eq_some {choice : Choice} (opened : e.opens choice = some t) :
    ∃ env name p, e.served 1 = some (.start env name t, p) := by
  obtain ⟨⟨act, p⟩, served, shape⟩ := Option.bind_eq_some_iff.mp opened
  cases act with
  | start env name now =>
    simp only at shape
    split at shape
    · cases shape
      exact ⟨env, name, p, served⟩
    · cases shape
  | change choice name keeps now => cases shape
  | load => cases shape
  | tick now => cases shape

theorem next_of_watches (listening : m.listeningSince = some t) (watched : e.watches m.choice.choice (t + m.deadline)) :
    next (some m) e = some m := by
  cases served : e.served 1 with
  | none => simp [next, served]
  | some ap =>
    obtain ⟨act, p⟩ := ap
    rcases watched act p served with ⟨now, rfl, early⟩ | opened
    · by_cases whole : e.event.makes 3
      · have waits := early whole
        simp [next, served, whole, listening, not_le.mpr waits]
      · simp [next, served, whole]
    · obtain ⟨now, opened⟩ := Option.isSome_iff_exists.mp opened
      obtain ⟨env, name, q, started⟩ := opens_eq_some opened
      rw [(next_start started _).2, Option.bind_some, opened, Option.map_some, listening, Option.getD_some, ← listening]

theorem watches_of_next (listening : m.listeningSince = some t)
    (running : ∀ p, e.server.process = some p → p.choice = m.choice.choice) (kept : next (some m) e = some m) :
    e.watches m.choice.choice (t + m.deadline) := by
  intro act p served
  cases act with
  | start env name now =>
    rw [(next_start served _).2, Option.bind_some] at kept
    obtain ⟨now', opened, -⟩ := Option.map_eq_some_iff.mp kept
    exact Or.inr (by simp [opened])
  | change choice name keeps now =>
    have armed : e.arming = some m := by simpa [next, served] using kept
    exact absurd ((arming_eq_some armed).2.2.symm.trans listening) (by simp)
  | load =>
    have up : e.server.process = some p := by
      obtain ⟨serving, here⟩ := served_eq_some served
      exact serving
    simp [next, served, listening, running p up] at kept
  | tick now =>
    refine Or.inl ⟨now, rfl, fun whole => ?_⟩
    by_contra late
    simp [next, served, whole, listening, not_lt.mp late] at kept

/-- The clock is started by a start on the new choice alone. -/
theorem opened_of_next {before : Option Marker} (listening : m.listeningSince = some t) (fresh : before ≠ some m)
    (made : next before e = some m) :
    ∃ armed, before = some armed ∧ armed.listeningSince = none ∧ e.opens armed.choice.choice = some t ∧
      m = { armed with listeningSince := some t } := by
  cases served : e.served 1 with
  | none => exact absurd (by simpa [next, served] using made) fresh
  | some ap =>
    obtain ⟨act, p⟩ := ap
    cases act with
    | start env name now =>
      rw [(next_start served _).2] at made
      obtain ⟨armed, rfl, started⟩ := Option.bind_eq_some_iff.mp made
      obtain ⟨now', opened, rfl⟩ := Option.map_eq_some_iff.mp started
      cases since : armed.listeningSince with
      | none =>
        obtain rfl : now' = t := by simpa [since] using listening
        exact ⟨armed, rfl, since, opened, by simp⟩
      | some t' =>
        have same : { armed with listeningSince := some (armed.listeningSince.getD now') } = armed := by
          rw [since, Option.getD_some, ← since]
        exact absurd (congrArg some same.symm) fresh
    | change choice name keeps now =>
      have armed : e.arming = some m := by simpa [next, served] using made
      exact absurd ((arming_eq_some armed).2.2.symm.trans listening) (by simp)
    | load =>
      simp only [next, served] at made
      obtain ⟨m', rfl, kept⟩ := Option.bind_eq_some_iff.mp made
      split at kept
      · cases kept
      · exact absurd kept fresh
    | tick now =>
      simp only [next, served] at made
      obtain ⟨m', rfl, kept⟩ := Option.bind_eq_some_iff.mp made
      split at kept
      · cases kept
      · exact absurd kept fresh

theorem next_of_waits (fresh : m.listeningSince = none) (waited : e.waits) : next (some m) e = some m := by
  cases served : e.served 1 with
  | none => simp [next, served]
  | some ap =>
    obtain ⟨act, p⟩ := ap
    rcases waited act p served with ⟨now, rfl⟩ | rfl
    · simp [next, served, fresh]
    · simp [next, served, fresh]

theorem drops_of_waits (waited : e.waits) (marker : Option Marker) : next marker e = marker ∨ next marker e = none := by
  cases served : e.served 1 with
  | none => exact Or.inl (by simp [next, served])
  | some ap =>
    obtain ⟨act, p⟩ := ap
    cases marker with
    | none => rcases waited act p served with ⟨now, rfl⟩ | rfl <;> simp [next, served]
    | some m =>
      rcases waited act p served with ⟨now, rfl⟩ | rfl
      · simp only [next, served, Option.bind_some]
        split <;> simp
      · simp only [next, served, Option.bind_some]
        split <;> simp

theorem next_of_arming (armed : e.arming = some m) (marker : Option Marker) : next marker e = some m := by
  obtain ⟨⟨choice, name, keeps, now, p, served, -⟩, -⟩ := arming_eq_some armed
  simp [next, served, armed]

end Entry

namespace Run

variable {saved : Stored} {trace : List Entry} {s : Server}

theorem marker_eq (run : Run saved trace s) : s.disk.marker = trace.foldl Entry.next none := by
  induction run with
  | nil => rfl
  | snoc _ did ih => rw [List.foldl_concat, ← ih, marker_step did]

/-- What an entry of a run came to is what the entries before it led to. -/
theorem at_entry (run : Run saved trace s) {before after : List Entry} {e : Entry} (here : trace = before ++ e :: after) :
    Run saved before e.server := by
  induction run generalizing after with
  | nil => simp at here
  | @snoc trace s event s' earlier did ih =>
    rcases List.eq_nil_or_concat after with rfl | ⟨rest, last, rfl⟩
    · obtain ⟨rfl, rfl⟩ : trace = before ∧ (⟨s, event⟩ : Entry) = e := by simpa using here
      exact earlier
    · have shorter : trace = before ++ e :: rest := by
        have whole : trace ++ [⟨s, event⟩] = (before ++ e :: rest) ++ [last] := by simpa using here
        exact (List.append_inj' whole rfl).1
      exact ih shorter

/-- While the clock runs, what runs is the new choice. -/
theorem listens (run : Run saved trace s) {m : Marker} (marked : s.disk.marker = some m) (opened : m.listeningSince ≠ none)
    {p : Process} (up : s.process = some p) : p.choice = m.choice.choice := by
  induction run generalizing m p with
  | nil => cases marked
  | @snoc trace s event s' earlier did ih =>
    rw [marker_step did] at marked
    cases event with
    | stop =>
      cases did
      cases up
    | cut act k =>
      obtain ⟨q, -, rfl⟩ := Option.map_eq_some_iff.mp did
      cases up
    | did act =>
      obtain ⟨q, serving, rfl⟩ := Option.map_eq_some_iff.mp did
      obtain rfl : q = p := Option.some.inj up
      have served : Entry.served ⟨s, .did act⟩ 1 = some (act, q) := by simp [Entry.served, Event.makes, Event.act, serving]
      simp only [Entry.next, served] at marked
      cases act with
      | start env name now =>
        have here := Server.serving_start serving
        obtain ⟨m', before, kept⟩ := Option.bind_eq_some_iff.mp marked
        split at kept
        · cases kept
        · have same : (booted s.disk env name).choice = m'.choice.choice := by
            by_contra other
            exact absurd (Or.inr other) ‹¬_›
          cases kept
          exact here ▸ same
      | change choice name keeps now =>
        obtain ⟨-, -, armed⟩ := arming_eq_some marked
        exact absurd armed opened
      | load =>
        obtain ⟨m', before, kept⟩ := Option.bind_eq_some_iff.mp marked
        split at kept
        · cases kept
        · cases kept
          exact ih before opened serving
      | tick now =>
        obtain ⟨m', before, kept⟩ := Option.bind_eq_some_iff.mp marked
        split at kept
        · cases kept
        · cases kept
          exact ih before opened serving

/-- The marker waits for its first start: a change left it, and nothing but ticks, loads and
the end of processes came after. -/
theorem armed_iff (run : Run saved trace s) {m : Marker} (fresh : m.listeningSince = none) :
    s.disk.marker = some m ↔
      ∃ before arming mid, trace = before ++ arming :: mid ∧ arming.arming = some m ∧ ∀ e ∈ mid, e.waits := by
  rw [run.marker_eq]
  constructor
  · intro marked
    rcases LastChange.last_not Entry.waits trace with all | ⟨before, e, mid, rfl, acted, waited⟩
    · have left := LastChange.foldl_some_of_drops (fun e member => Entry.drops_of_waits (all e member)) marked
      cases left
    · rw [List.foldl_append, List.foldl_cons] at marked
      have made := LastChange.foldl_some_of_drops (fun e member => Entry.drops_of_waits (waited e member)) marked
      refine ⟨before, e, mid, rfl, ?_, waited⟩
      cases served : e.served 1 with
      | none => exact absurd (fun act p here => by simp [served] at here) acted
      | some ap =>
        obtain ⟨act, p⟩ := ap
        cases act with
        | start env name now =>
          rw [(Entry.next_start served _).2] at made
          obtain ⟨m', -, started⟩ := Option.bind_eq_some_iff.mp made
          obtain ⟨now', -, shape⟩ := Option.map_eq_some_iff.mp started
          rw [← shape] at fresh
          cases fresh
        | change choice name keeps now => simpa [Entry.next, served] using made
        | load => exact absurd (fun act p here => by simp_all) acted
        | tick now => exact absurd (fun act p here => by simp_all) acted
  · rintro ⟨before, arming, mid, rfl, armed, waited⟩
    rw [List.foldl_append, List.foldl_cons, Entry.next_of_arming armed]
    exact LastChange.foldl_kept fun e member => Entry.next_of_waits fresh (waited e member)

theorem due_eq_some {d : Disk} {now : ℚ} {m : Marker} :
    due d now = some m ↔ d.marker = some m ∧ ∃ t, m.listeningSince = some t ∧ t + m.deadline ≤ now := by
  simp only [due, Option.filter_eq_some_iff, decide_eq_true_eq, Option.any_eq_true]

/-- The entries that a due net comes from. -/
theorem cut_off_of_due (run : Run saved trace s) {now : ℚ} {m : Marker} (time : due s.disk now = some m) :
    ∃ before arming mid opening after armed t,
      trace = before ++ arming :: (mid ++ opening :: after) ∧ arming.arming = some armed ∧ (∀ e ∈ mid, e.waits) ∧
      opening.opens armed.choice.choice = some t ∧
      (∀ e ∈ after, e.watches armed.choice.choice (t + deadlineSeconds)) ∧
      t + deadlineSeconds ≤ now ∧ m = { armed with listeningSince := some t } := by
  obtain ⟨marked, t, listening, late⟩ := due_eq_some.mp time
  rw [run.marker_eq] at marked
  obtain ⟨earlier, opening, after, rfl, fresh, made, kept⟩ := (LastChange.foldl_eq_iff (by simp)).mp marked
  have reached := run.at_entry rfl
  rw [← reached.marker_eq] at fresh made
  obtain ⟨armed, waiting, unopened, opened, rfl⟩ := Entry.opened_of_next listening fresh made
  obtain ⟨before, arming, mid, rfl, arms, waited⟩ := (reached.armed_iff unopened).mp waiting
  have limit := (arming_eq_some arms).2.1
  refine ⟨before, arming, mid, opening, after, armed, t, by simp, arms, waited, opened, ?_, limit ▸ late, rfl⟩
  intro e member
  obtain ⟨first, rest, rfl⟩ := List.append_of_mem member
  have come : Run saved ((before ++ arming :: mid) ++ opening :: first) e.server :=
    run.at_entry (show _ = _ ++ _ :: rest by simp)
  have still : e.server.disk.marker = some { armed with listeningSince := some t } := by
    rw [come.marker_eq, List.foldl_append, List.foldl_cons, ← reached.marker_eq, made]
    exact LastChange.foldl_kept fun e' earlier => kept e' (List.mem_append_left _ earlier)
  have watched := Entry.watches_of_next (m := { armed with listeningSince := some t }) rfl
    (fun p up => come.listens still (by simp) up) (kept e member)
  rwa [limit] at watched

/-- The net goes back when its time is up, and only then: a change cut off the browser making
it, the server came to listen on the new choice, and all through the deadline no Programmer
opened through it, no other change was made and no start was on another choice. -/
theorem due_iff (run : Run saved trace s) {now : ℚ} {m : Marker} :
    due s.disk now = some m ↔
      ∃ before arming mid opening after armed t,
        trace = before ++ arming :: (mid ++ opening :: after) ∧ arming.arming = some armed ∧ (∀ e ∈ mid, e.waits) ∧
        opening.opens armed.choice.choice = some t ∧
        (∀ e ∈ after, e.watches armed.choice.choice (t + deadlineSeconds)) ∧
        t + deadlineSeconds ≤ now ∧ m = { armed with listeningSince := some t } := by
  refine ⟨run.cut_off_of_due, ?_⟩
  rintro ⟨before, arming, mid, opening, after, armed, t, here, arms, waited, opened, watched, late, rfl⟩
  have fresh := (arming_eq_some arms).2
  have reached : Run saved (before ++ arming :: mid) opening.server := run.at_entry (show _ = _ ++ _ :: after by simp [here])
  have waiting := (reached.armed_iff fresh.2).mpr ⟨before, arming, mid, rfl, arms, waited⟩
  refine due_eq_some.mpr ⟨?_, t, rfl, by rw [fresh.1]; exact late⟩
  have split : trace = (before ++ arming :: mid) ++ opening :: after := by simp [here]
  rw [run.marker_eq, split, List.foldl_append, List.foldl_cons, ← reached.marker_eq, waiting]
  obtain ⟨env, name, p, served⟩ := Entry.opens_eq_some opened
  rw [(Entry.next_start served _).2, Option.bind_some, opened, Option.map_some, fresh.2, Option.getD_none]
  refine LastChange.foldl_kept fun e member => Entry.next_of_watches rfl ?_
  rw [fresh.1]
  exact watched e member

end Run

theorem saved_foldl {ws : List Write} (spared : ∀ stored, Write.save stored ∉ ws) (d : Disk) :
    (ws.foldl Disk.apply d).saved = d.saved := by
  induction ws generalizing d with
  | nil => rfl
  | cons w rest ih =>
    have later := ih (fun stored member => spared stored (List.mem_cons_of_mem w member)) (d.apply w)
    rw [List.foldl_cons, later]
    cases w with
    | save stored => exact absurd List.mem_cons_self (spared stored)
    | mark marker => rfl
    | unmark => rfl
    | leave message => rfl
    | take => rfl

/-- Only a change and a tick that goes back write the choice. -/
theorem spared_writes {s : Server} {act : Act} {p : Process} (unchanged : ∀ c n k t, act ≠ .change c n k t)
    (early : ∀ t, act = .tick t → due s.disk t = none) (stored : Stored) : Write.save stored ∉ writes s.disk p act := by
  cases act with
  | start env name now =>
    simp only [writes, noteListening]
    split
    · simp
    · split
      · simp
      · split <;> simp
  | change c n k t => exact absurd rfl (unchanged c n k t)
  | load => cases confirms s.disk p <;> cases s.disk.notice <;> simp [writes, *]
  | tick t => simp [writes, early t rfl]

/-- Where the net has written the previous choice back: the marker is gone, or the process died
before it went. -/
structure Settled (m : Marker) (s : Server) : Prop where
  saved : Choice.fromConfig s.disk.saved = m.previous.choice
  cleared : s.disk.marker = none ∨ s.process = none ∧ s.disk.marker = some m

theorem Settled.of_due {s s' : Server} {now : ℚ} {m : Marker} (time : due s.disk now = some m) {e : Event}
    (tick : e.act = some (.tick now)) (wrote : e.makes 1 = true) (did : step s e = some s') : Settled m s' := by
  have marked : s.disk.marker = some m := (Option.filter_eq_some_iff.mp time).1
  have reads := Choice.fromConfig_toConfig m.previous.choice
  cases e with
  | stop => cases tick
  | did act =>
    cases tick
    obtain ⟨p, -, rfl⟩ := Option.map_eq_some_iff.mp did
    simp only [writes, time, Option.map_some, Option.getD_some]
    exact ⟨reads, Or.inl rfl⟩
  | cut act k =>
    cases tick
    obtain ⟨p, -, rfl⟩ := Option.map_eq_some_iff.mp did
    simp only [writes, time, Option.map_some, Option.getD_some]
    rcases k with _ | _ | _ | k
    · cases wrote
    · exact ⟨reads, Or.inr ⟨rfl, marked⟩⟩
    · exact ⟨reads, Or.inr ⟨rfl, marked⟩⟩
    · exact ⟨by simpa [revert, Disk.apply] using reads, Or.inl (by simp [revert, Disk.apply])⟩

theorem Settled.early {m : Marker} {s : Server} (settled : Settled m s) {act : Act} {p : Process}
    (serving : s.serving act = some p) (t : ℚ) (tick : act = .tick t) : due s.disk t = none := by
  subst tick
  rcases settled.cleared with gone | ⟨dead, -⟩
  · simp [due, gone]
  · rw [Server.serving, dead] at serving
    cases serving

theorem step_act {s s' : Server} {e : Event} {act : Act} (acts : e.act = some act) (did : step s e = some s') :
    ∃ p k, s.serving act = some p ∧ s'.disk = ((writes s.disk p act).take k).foldl Disk.apply s.disk ∧
      (s'.process = none ∨ e.makes 1 = true ∧ s'.process = some p) := by
  cases e with
  | stop => cases acts
  | did act =>
    cases acts
    obtain ⟨p, serving, rfl⟩ := Option.map_eq_some_iff.mp did
    exact ⟨p, (writes s.disk p act).length, serving, by rw [List.take_length], Or.inr ⟨rfl, rfl⟩⟩
  | cut act k =>
    cases acts
    obtain ⟨p, serving, rfl⟩ := Option.map_eq_some_iff.mp did
    exact ⟨p, k, serving, rfl, Or.inl rfl⟩

theorem Settled.step {m : Marker} {s s' : Server} (settled : Settled m s) (other : m.choice.choice ≠ m.previous.choice)
    {e : Event} (did : step s e = some s') (unchanged : ∀ c n k t, e.act ≠ some (.change c n k t)) : Settled m s' := by
  have marked := marker_step did
  cases acts : e.act with
  | none =>
    cases e with
    | stop =>
      cases did
      exact ⟨settled.saved, settled.cleared.imp id fun dead => ⟨rfl, dead.2⟩⟩
    | did act => cases acts
    | cut act k => cases acts
  | some act =>
    obtain ⟨p, k, serving, disk, died⟩ := step_act acts did
    have spared := spared_writes (p := p) (fun c n k t same => unchanged c n k t (by rw [acts, same])) (settled.early serving)
    have same : s'.disk.saved = s.disk.saved := by
      rw [disk]
      exact saved_foldl (fun stored member => spared stored (List.mem_of_mem_take member)) _
    refine ⟨same ▸ settled.saved, ?_⟩
    rcases settled.cleared with gone | ⟨dead, left⟩
    · refine Or.inl ?_
      rw [marked, gone]
      cases served : Entry.served ⟨s, e⟩ 1 with
      | none => simp [Entry.next, served]
      | some ap =>
        obtain ⟨act', q⟩ := ap
        cases act' with
        | change c n k t => exact absurd (Entry.served_act served) (unchanged c n k t)
        | start env name now => simp [Entry.next, served]
        | load => simp [Entry.next, served]
        | tick now => simp [Entry.next, served]
    · cases act with
      | start env name now =>
        by_cases lived : e.makes 1
        · refine Or.inl ?_
          have served : Entry.served ⟨s, e⟩ 1 = some (.start env name now, p) := by simp [Entry.served, lived, acts, serving]
          obtain ⟨opened, next⟩ := Entry.next_start served (some m)
          rw [marked, left, next, Option.bind_some, opened]
          have apart : Choice.fromConfig s.disk.saved ≠ m.choice.choice := settled.saved ▸ other.symm
          simp [apart]
        · refine Or.inr ⟨died.resolve_right fun more => lived more.1, ?_⟩
          rw [marked, left, Entry.next]
          simp [Entry.served, lived]
      | change c n k t => exact absurd acts (unchanged c n k t)
      | load => simp [Server.serving, dead] at serving
      | tick now => simp [Server.serving, dead] at serving

namespace Run

variable {saved : Stored} {trace : List Entry} {s : Server}

/-- An armed net is for a change to some other choice. -/
theorem other_choice (run : Run saved trace s) {now : ℚ} {m : Marker} (time : due s.disk now = some m) :
    m.choice.choice ≠ m.previous.choice := by
  obtain ⟨-, arming, -, -, -, armed, t, -, arms, -, -, -, -, rfl⟩ := run.cut_off_of_due time
  obtain ⟨⟨choice, name, keeps, now, p, -, same, prior, other, -⟩, -⟩ := arming_eq_some arms
  exact same ▸ prior ▸ other

theorem concat {e : Entry} (run : Run saved (trace ++ [e]) s) : Run saved trace e.server ∧ step e.server e.event = some s := by
  generalize whole : trace ++ [e] = entries at run
  cases run with
  | nil => simp at whole
  | @snoc trace' s' event s earlier did =>
    obtain ⟨rfl, rfl⟩ : trace = trace' ∧ e = ⟨s', event⟩ := by simpa using whole
    exact ⟨earlier, did⟩

theorem stays_settled {before rest : List Entry} {e : Entry} (run : Run saved (before ++ e :: rest) s) {now : ℚ} {m : Marker}
    (tick : e.event.act = some (.tick now)) (time : due e.server.disk now = some m) (wrote : e.event.makes 1 = true)
    (unchanged : ∀ x ∈ rest, ∀ c n k t, x.event.act ≠ some (.change c n k t)) : Settled m s := by
  have reached := run.at_entry rfl
  induction rest using List.reverseRecOn generalizing s with
  | nil => exact .of_due time tick wrote run.concat.2
  | append_singleton rest last ih =>
    have split : before ++ e :: (rest ++ [last]) = (before ++ e :: rest) ++ [last] := by simp
    rw [split] at run
    have earlier := ih run.concat.1 (fun x member => unchanged x (List.mem_append_left _ member))
    exact earlier.step (reached.other_choice time) run.concat.2 (unchanged last (by simp))

/-- Once the net has written the previous choice back, nothing but a change takes the server
off it: a power cut before the marker is gone does not bring the new choice back, nor send the
server back again. -/
theorem went_back {before rest : List Entry} {e : Entry} (run : Run saved (before ++ e :: rest) s) {now : ℚ} {m : Marker}
    (tick : e.event.act = some (.tick now)) (time : due e.server.disk now = some m) (wrote : e.event.makes 1 = true)
    (unchanged : ∀ x ∈ rest, ∀ c n k t, x.event.act ≠ some (.change c n k t)) :
    Choice.fromConfig s.disk.saved = m.previous.choice ∧
      ∀ x ∈ rest, (∀ name t p, x.event.act = some (.start none name t) →
          x.server.serving (.start none name t) = some p → p.choice = m.previous.choice) ∧
        ∀ t p, x.event.act = some (.tick t) → x.server.serving (.tick t) = some p → due x.server.disk t = none := by
  refine ⟨(run.stays_settled tick time wrote unchanged).saved, fun x member => ?_⟩
  obtain ⟨first, later, rfl⟩ := List.append_of_mem member
  have reached : Run saved (before ++ e :: first) x.server := run.at_entry (show _ = _ ++ _ :: later by simp)
  have settled := reached.stays_settled tick time wrote fun y here => unchanged y (List.mem_append_left _ here)
  refine ⟨fun name t p _ serving => ?_, fun t p _ serving => settled.early serving t rfl⟩
  rw [Server.serving_start serving]
  exact settled.saved

end Run

/-- The server as the events leave it, with what each of them came to. -/
def play (trace : List Entry) (s : Server) : List Event → Option (List Entry × Server)
  | [] => some (trace, s)
  | event :: later => (step s event).bind fun s' => play (trace ++ [⟨s, event⟩]) s' later

theorem Run.play {saved : Stored} {trace trace' : List Entry} {s s' : Server} {events : List Event} (run : Run saved trace s)
    (played : Listen.play trace s events = some (trace', s')) :
    Run saved trace' s' ∧ ∃ rest, trace' = trace ++ rest ∧ rest.map Entry.event = events := by
  induction events generalizing trace s with
  | nil =>
    cases played
    exact ⟨run, [], by simp, rfl⟩
  | cons event later ih =>
    obtain ⟨next, did, replayed⟩ := Option.bind_eq_some_iff.mp played
    obtain ⟨run', rest, rfl, events⟩ := ih (run.snoc did) replayed
    exact ⟨run', ⟨s, event⟩ :: rest, by simp, by simp [events]⟩

theorem noAdapter_filled : ∀ v ∈ [({} : Identity).name, ({} : Identity).mac, ({} : Identity).address], v ≠ some [] := by
  decide

theorem noAdapter_alone {mode : Mode} : mode ≠ .adapter → ({} : Identity) = {} :=
  fun _ => rfl

def noAdapter (mode : Mode) : Choice where
  mode := mode
  filled := noAdapter_filled
  alone := noAdapter_alone

/-- A browser on the network closes the network to itself, and nobody comes to the computer. -/
def cutOff : List Event :=
  [.did (.start none [] 0), .did (.change (noAdapter .thisComputer) [] false 10), .stop, .did (.start none [] 20)]

def anyNetwork : Server where
  disk := { saved := (noAdapter .any).toConfig }

theorem Run.due_iff_cutOff :
    ∃ (trace : List Entry) (s : Server) (m : Marker), Listen.play [] anyNetwork cutOff = some (trace, s) ∧ due s.disk 620 = some m ∧
      ∃ before arming mid opening after armed t,
        trace = before ++ arming :: (mid ++ opening :: after) ∧ arming.arming = some armed ∧ (∀ e ∈ mid, e.waits) ∧
        opening.opens armed.choice.choice = some t ∧
        (∀ e ∈ after, e.watches armed.choice.choice (t + deadlineSeconds)) ∧
        t + deadlineSeconds ≤ 620 ∧ m = { armed with listeningSince := some t } := by
  have late : ((Listen.play [] anyNetwork cutOff).bind fun r => due r.2.disk 620).isSome = true := by decide +kernel
  obtain ⟨m, time⟩ := Option.isSome_iff_exists.mp late
  obtain ⟨⟨trace, s⟩, played, time⟩ := Option.bind_eq_some_iff.mp time
  exact ⟨trace, s, m, played, time, ((Run.nil : Run anyNetwork.disk.saved [] anyNetwork).play played).1.due_iff.mp time⟩

/-- The power goes when the choice is back on the disk and the marker still there; the server
starts again, and the net ticks once more. -/
theorem Run.went_back_cutOff :
    ∃ (e : Entry) (rest : List Entry) (s : Server) (m : Marker), e.event = .cut (.tick 620) 1 ∧
      rest.map Entry.event = [.did (.start none [] 700), .did (.tick 2000)] ∧
      Choice.fromConfig s.disk.saved = m.previous.choice ∧
      ∀ x ∈ rest, (∀ name t p, x.event.act = some (.start none name t) →
          x.server.serving (.start none name t) = some p → p.choice = m.previous.choice) ∧
        ∀ t p, x.event.act = some (.tick t) → x.server.serving (.tick t) = some p → due x.server.disk t = none := by
  have goes : ((Listen.play [] anyNetwork cutOff).bind fun r => (due r.2.disk 620).bind fun _ =>
      (step r.2 (.cut (.tick 620) 1)).bind fun s =>
        Listen.play (r.1 ++ [⟨r.2, .cut (.tick 620) 1⟩]) s [.did (.start none [] 700), .did (.tick 2000)]).isSome = true := by
    decide +kernel
  obtain ⟨⟨trace, s⟩, goes⟩ := Option.isSome_iff_exists.mp goes
  obtain ⟨⟨before, s₀⟩, played, goes⟩ := Option.bind_eq_some_iff.mp goes
  obtain ⟨m, time, goes⟩ := Option.bind_eq_some_iff.mp goes
  obtain ⟨s₁, died, replayed⟩ := Option.bind_eq_some_iff.mp goes
  have cut := ((Run.nil : Run anyNetwork.disk.saved [] anyNetwork).play played).1.snoc died
  obtain ⟨run, rest, rfl, events⟩ := cut.play replayed
  have unchanged : ∀ x ∈ rest, ∀ c n k t, x.event.act ≠ some (.change c n k t) := by
    intro x member
    have event : x.event ∈ [Event.did (.start none [] 700), .did (.tick 2000)] := events ▸ List.mem_map_of_mem member
    rcases (by simpa using event : x.event = _ ∨ x.event = _) with start | tick
    · simp [start, Event.act]
    · simp [tick, Event.act]
  rw [List.append_assoc, List.singleton_append] at run
  exact ⟨⟨s₀, .cut (.tick 620) 1⟩, rest, s, m, rfl, events, run.went_back rfl time rfl unchanged⟩

end OpenAvc.Listen
