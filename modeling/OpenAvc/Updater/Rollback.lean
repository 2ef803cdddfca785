import OpenAvc.Updater.Startups

namespace OpenAvc.Updater

open Run

variable {P : Python} {s s' : System}

theorem silent_iff {file : Option Bytes} : silent P file = true ↔ marker P file = .ok .null := by
  unfold silent EStateM.reply
  rw [readPendingMarker_eq]
  cases marker P file with
  | error e => simp [lift]
  | ok v => cases v <;> simp [lift]

theorem Marker.writable {m : Marker} (few : m.attempts < 10 ^ Json.Scan.intLimit) :
    Json.writable P.room (.obj m.fields) = true := by
  have int := int_writable (n := m.attempts) few
  have room := P.room_pos
  cases backup : m.backup <;> simp [fields, backup, Json.writable, Json.writableFields, few, room]

theorem confirmStartup_file {m : Marker} (few : m.attempts < 10 ^ Json.Scan.intLimit) :
    (confirmStartup P).after m.file = none := by
  have first : readPendingMarker P m.file = .ok (.obj m.readBack.fields) m.file := by
    rw [readPendingMarker_eq, Marker.marker_file few]
    rfl
  apply EStateM.after_of_ok (a := ())
  unfold confirmStartup
  rw [EStateM.bind_of_ok first]
  rfl

theorem confirmStartup_silent {file : Option Bytes} (reads : marker P file = .ok .null) :
    (confirmStartup P).after file = file := by
  have first : readPendingMarker P file = .ok .null file := by
    rw [readPendingMarker_eq, reads]
    rfl
  apply EStateM.after_of_ok (a := ())
  unfold confirmStartup
  rw [EStateM.bind_of_ok first]
  rfl

/-- What the marker file holds: no marker, or one that counts the startups
since it was written. -/
inductive Filed (P : Python) (s : System) : Prop
  | silent (reads : marker P s.file = .ok .null) (torn : ∀ l, s.update = some l → l.any Startup.torn = true)
  | marked {m : Marker} {l : List Startup} (file : s.file = m.file) (update : s.update = some l)
      (whole : l.any Startup.torn = false) (attempts : m.attempts = l.countP (Startup.counted m.boot))
      (few : m.attempts < 10 ^ Json.Scan.intLimit) (boot : m.boot ∈ s.boot :: s.boots)
      (boots : ∀ u ∈ l, u.boot ∈ s.boot :: s.boots) (elsewhere : m.boot ≠ s.boot → s.counts l = 0)

/-- What the check says in each case. -/
theorem check_silent (reads : marker P s.file = .ok .null) : s.check P = .ok false s.file :=
  checkRollbackNeeded_of_no_marker reads

theorem attempts_counts {m : Marker} {l : List Startup} (attempts : m.attempts = l.countP (Startup.counted m.boot))
    (elsewhere : m.boot ≠ s.boot → s.counts l = 0) : (m.next s.boot).attempts = s.counts l + 1 := by
  rw [Marker.attempts_next]
  by_cases same : s.boot = m.boot
  · rw [if_pos same, attempts, System.counts, same]
  · rw [if_neg same, elsewhere (Ne.symm same)]

theorem check_marked {m : Marker} {l : List Startup} (file : s.file = m.file)
    (attempts : m.attempts = l.countP (Startup.counted m.boot)) (few : m.attempts < 10 ^ Json.Scan.intLimit)
    (elsewhere : m.boot ≠ s.boot → s.counts l = 0) (room : s.counts l + 1 < 10 ^ Json.Scan.intLimit) :
    s.check P = .ok (decide (2 ≤ s.counts l + 1)) (m.next s.boot).file := by
  have next := attempts_counts attempts elsewhere
  rw [System.check, file, ← next]
  rw [← next] at room
  exact Marker.checkRollbackNeeded_file few s.boot room

theorem check_full {m : Marker} {l : List Startup} (file : s.file = m.file)
    (attempts : m.attempts = l.countP (Startup.counted m.boot)) (few : m.attempts < 10 ^ Json.Scan.intLimit)
    (elsewhere : m.boot ≠ s.boot → s.counts l = 0) (full : ¬s.counts l + 1 < 10 ^ Json.Scan.intLimit) :
    ∃ e, s.check P = .error e s.file := by
  have next := attempts_counts attempts elsewhere
  rw [System.check, file]
  rw [← next] at full
  exact Marker.checkRollbackNeeded_full few s.boot full

/-- A startup that leaves the file alone and does not count itself. -/
theorem Filed.uncounted (filed : Filed P s) (updated : Bool) {outcome : Outcome}
    (plain : outcome = .early ∨ outcome = .raised) : Filed P (s.log updated outcome) := by
  cases filed with
  | silent reads torn =>
    refine .silent reads fun l waits => ?_
    obtain ⟨l, before, rfl⟩ := Option.map_eq_some_iff.mp waits
    rw [List.any_cons, torn l before, Bool.or_true]
  | @marked m l file update whole attempts few boot boots elsewhere =>
    have notTorn : Startup.torn ⟨s.boot, updated, outcome⟩ = false := by
      rcases plain with rfl | rfl <;> rfl
    have notCounted : ∀ b, Startup.counted b ⟨s.boot, updated, outcome⟩ = false := by
      intro b
      rcases plain with rfl | rfl <;> simp [Startup.counted]
    have counts : ∀ b, (⟨s.boot, updated, outcome⟩ :: l).countP (Startup.counted b) = l.countP (Startup.counted b) :=
      fun b => List.countP_cons_of_neg (by simp [notCounted b])
    refine .marked file (congrArg (Option.map _) update) ?_ (attempts.trans (counts _).symm) few boot ?_ ?_
    · rw [List.any_cons, notTorn, whole]
      rfl
    · intro u member
      rcases List.mem_cons.mp member with rfl | old
      · exact List.mem_cons_self
      · exact boots u old
    · intro other
      exact (counts _).trans (elsewhere other)

/-- A startup that has counted itself. -/
theorem Filed.counted {m : Marker} {l : List Startup} (update : s.update = some l) (whole : l.any Startup.torn = false)
    (attempts : m.attempts = l.countP (Startup.counted m.boot)) (boots : ∀ u ∈ l, u.boot ∈ s.boot :: s.boots)
    (elsewhere : m.boot ≠ s.boot → s.counts l = 0) (room : s.counts l + 1 < 10 ^ Json.Scan.intLimit) (updated : Bool)
    {outcome : Outcome} (reached : outcome = .died ∨ outcome = .cut) :
    Filed P ({ s with file := (m.next s.boot).file }.log updated outcome) := by
  have next := attempts_counts attempts elsewhere
  have boot := m.boot_next s.boot
  have counted : Startup.counted s.boot ⟨s.boot, updated, outcome⟩ = true := by
    rcases reached with rfl | rfl <;> simp [Startup.counted]
  have notTorn : Startup.torn ⟨s.boot, updated, outcome⟩ = false := by
    rcases reached with rfl | rfl <;> rfl
  refine .marked rfl (congrArg (Option.map _) update) ?_ ?_ (next ▸ room) ?_ ?_ fun other => absurd boot other
  · rw [List.any_cons, notTorn, whole]
    rfl
  · rw [next, boot, List.countP_cons_of_pos counted]
    rfl
  · rw [boot]
    exact List.mem_cons_self
  · intro u member
    rcases List.mem_cons.mp member with rfl | old
    · exact List.mem_cons_self
    · exact boots u old

theorem Filed.torn_log {left : Option Bytes} (reads : marker P left = .ok .null)
    (torn : ∀ l, s.update = some l → l.any Startup.torn = true) (updated : Bool) (outcome : Outcome) :
    Filed P ({ s with file := left }.log updated outcome) := by
  refine .silent reads fun l waits => ?_
  obtain ⟨l, before, rfl⟩ := Option.map_eq_some_iff.mp waits
  rw [List.any_cons, torn l before, Bool.or_true]

/-- A startup whose check finds no marker. -/
theorem Filed.startup_silent (reads : marker P s.file = .ok .null)
    (torn : ∀ l, s.update = some l → l.any Startup.torn = true) {updated : Bool} {ending : Ending}
    (steps : s.startup P updated ending = some s') : Filed P s' := by
  have check := check_silent reads
  cases ending with
  | early =>
    cases steps
    exact torn_log reads torn updated .early
  | torn left =>
    simp [System.startup, check, silent_iff.mpr reads] at steps
  | died =>
    simp only [System.startup, check, Option.some.injEq] at steps
    exact steps ▸ torn_log reads torn updated .died
  | cut =>
    simp only [System.startup, check, Option.some.injEq] at steps
    exact steps ▸ torn_log reads torn updated .cut
  | rolledBack =>
    simp [System.startup, check] at steps
  | started =>
    simp only [System.startup, check, Option.some.injEq] at steps
    subst steps
    refine .silent ?_ nofun
    rw [confirmStartup_silent reads]
    exact reads

theorem Filed.startup (filed : Filed P s) {updated : Bool} {ending : Ending}
    (steps : s.startup P updated ending = some s') : Filed P s' := by
  cases filed with
  | silent reads torn => exact startup_silent reads torn steps
  | @marked m l file update whole attempts few boot boots elsewhere =>
    have filed : Filed P s := .marked file update whole attempts few boot boots elsewhere
    cases ending with
    | early =>
      cases steps
      exact filed.uncounted updated (Or.inl rfl)
    | torn left =>
      simp only [System.startup] at steps
      split at steps
      · split at steps
        · rename_i unread
          cases steps
          refine .silent (silent_iff.mp unread.2) fun l' waits => ?_
          rw [System.log, update] at waits
          cases waits
          rfl
        · cases steps
      · cases steps
    | _ =>
      by_cases room : s.counts l + 1 < 10 ^ Json.Scan.intLimit
      · have check := check_marked (P := P) file attempts few elsewhere room
        have next := attempts_counts attempts elsewhere
        have few' : (m.next s.boot).attempts < 10 ^ Json.Scan.intLimit := next ▸ room
        have grown : ∀ {o : Outcome}, o = .died ∨ o = .cut →
            Filed P ({ s with file := (m.next s.boot).file }.log updated o) :=
          Filed.counted update whole attempts boots elsewhere room updated
        simp only [System.startup, check, Option.some.injEq, Option.ite_none_right_eq_some] at steps
        first
          | exact steps ▸ grown (Or.inl rfl)
          | exact steps ▸ grown (Or.inr rfl)
          | exact steps.2 ▸ .silent rfl nofun
          | exact steps ▸ .silent (confirmStartup_file few' ▸ rfl) nofun
      · obtain ⟨e, check⟩ := check_full (P := P) file attempts few elsewhere room
        simp only [System.startup, check, Option.some.injEq] at steps
        exact steps ▸ filed.uncounted updated (Or.inr rfl)

theorem Filed.next (filed : Filed P s) {label : Label} (steps : s.next P label = some s') : Filed P s' := by
  cases label with
  | write fromVersion toVersion backup =>
    cases steps
    have few : 0 < 10 ^ Json.Scan.intLimit := Nat.pow_pos (by decide)
    have written : (writePendingMarker P (some s.boot.id) fromVersion toVersion backup).after s.file =
        (Marker.file ⟨fromVersion, toVersion, 0, s.boot, backup⟩) :=
      EStateM.after_of_ok (writeMarker_ok (Marker.writable (m := ⟨fromVersion, toVersion, 0, s.boot, backup⟩) few) s.file)
    exact .marked written rfl rfl rfl few List.mem_cons_self nofun fun other => absurd rfl other
  | writeTorn left =>
    simp only [System.next] at steps
    split at steps
    · rename_i unread
      cases steps
      exact .silent (silent_iff.mp unread) nofun
    · cases steps
  | clear =>
    cases steps
    exact .silent rfl nofun
  | reboot id =>
    simp only [System.next] at steps
    split at steps
    · cases steps
    · rename_i fresh
      cases steps
      cases filed with
      | silent reads torn => exact .silent reads torn
      | @marked m l file update whole attempts few boot boots elsewhere =>
        have new : id ∉ s.boot :: s.boots := by simpa using fresh
        refine .marked file update whole attempts few (List.mem_cons_of_mem _ boot)
          (fun u member => List.mem_cons_of_mem _ (boots u member)) fun _ => ?_
        rw [System.counts, List.countP_eq_zero]
        intro u member counted
        simp only [Startup.counted, decide_eq_true_eq] at counted
        exact new (counted.1 ▸ boots u member)
  | startup updated ending => exact filed.startup steps

theorem filed_of_reach (reach : Reach (machine P) always s) : Filed P s := by
  refine reach.invariant (fun s start => ?_) fun s label s' _ filed _ steps => filed.next steps
  refine .silent ?_ fun l waits => ?_
  · rw [start.1]; rfl
  · rw [start.2] at waits; cases waits

theorem tells_of_waiting {l : List Startup} (update : s.update = some l) :
    s.Tells ↔ if l.any Startup.torn then s.failures l < 2
      else s.counts l + 1 < 10 ^ Json.Scan.intLimit ∧ (2 ≤ s.failures l ↔ 1 ≤ s.counts l) := by
  unfold System.Tells
  constructor
  · exact fun tells => tells l update
  · intro tells l' waits
    rw [update] at waits
    cases waits
    exact tells

theorem due_of_waiting {l : List Startup} (update : s.update = some l) : s.due = decide (2 ≤ s.failures l) := by
  rw [System.due, update, Option.any_some]

/-- A startup asks for a rollback, or does not, as the failures of the update
demand it exactly when the marker tells them; and it returns exactly where the
marker file is quiet. -/
theorem rollback_on_two_failures :
    (∀ s, Reach (machine P) always s → ((checkRollbackNeeded P (some s.boot.id)).reply s.file = .ok s.due ↔ s.Tells)) ∧
      ∀ boot file, (∃ r, (checkRollbackNeeded P (some boot)).reply file = .ok r) ↔ Quiet P (some boot) file := by
  refine ⟨fun s reach => ?_, fun boot file => ?_⟩
  · cases filed_of_reach reach with
    | silent reads torn =>
      have answer : (checkRollbackNeeded P (some s.boot.id)).reply s.file = .ok false := by
        rw [EStateM.reply, checkRollbackNeeded_of_no_marker reads]
      rw [answer]
      cases update : s.update with
      | none =>
        have nothing : s.due = false := by rw [System.due, update, Option.any_none]
        rw [nothing]
        refine ⟨fun _ l waits => ?_, fun _ => rfl⟩
        rw [update] at waits
        cases waits
      | some l =>
        rw [tells_of_waiting update, due_of_waiting update, if_pos (torn l update), Except.ok.injEq, eq_comm,
          decide_eq_false_iff_not, Nat.not_le]
    | @marked m l file update whole attempts few boot boots elsewhere =>
      rw [tells_of_waiting update, due_of_waiting update, whole, if_neg Bool.false_ne_true]
      by_cases room : s.counts l + 1 < 10 ^ Json.Scan.intLimit
      · have check := check_marked (P := P) file attempts few elsewhere room
        have answer : (checkRollbackNeeded P (some s.boot.id)).reply s.file = .ok (decide (2 ≤ s.counts l + 1)) := by
          rw [EStateM.reply, ← System.check, check]
        have shift : 2 ≤ s.counts l + 1 ↔ 1 ≤ s.counts l := ⟨Nat.le_of_succ_le_succ, Nat.succ_le_succ⟩
        rw [answer, Except.ok.injEq, decide_eq_decide, shift]
        exact ⟨fun same => ⟨room, same.symm⟩, fun tells => tells.2.symm⟩
      · obtain ⟨e, check⟩ := check_full (P := P) file attempts few elsewhere room
        have answer : (checkRollbackNeeded P (some s.boot.id)).reply s.file = .error e := by
          rw [EStateM.reply, ← System.check, check]
        rw [answer]
        exact ⟨nofun, fun tells => absurd tells.1 room⟩
  · rw [← check_returns]
    unfold EStateM.reply
    cases checkRollbackNeeded P (some boot) file <;> simp

section

/-- A host in its first boot, and an update it applies there. -/
def plainPython : Python := ⟨500, by decide, .float, fun d => Or.inl ⟨d, rfl⟩⟩

def firstBoot : BootId := ⟨text "b0", by decide⟩

def appliedMarker : Marker := ⟨text "0.31.0", text "0.32.0", 0, firstBoot, none⟩

/-- The host after the startups of the update so far. -/
def applied (m : Marker) (startups : List Startup) : System := ⟨firstBoot, [], m.file, some startups⟩

theorem few (n : Nat) (small : n ≤ Json.Scan.intLimit) : n < 10 ^ Json.Scan.intLimit :=
  lt_of_le_of_lt small (Nat.lt_pow_self (by decide))

theorem applied_reached : Reach (machine plainPython) always (applied appliedMarker []) := by
  have start : Reach (machine plainPython) always ⟨firstBoot, [], none, none⟩ := .init ⟨rfl, rfl⟩
  refine start.step (l := .write (text "0.31.0") (text "0.32.0") none) trivial ?_
  have written := writeMarker_ok (P := plainPython) (Marker.writable (m := appliedMarker) (few 0 (by decide))) none
  have file : (writePendingMarker plainPython (some firstBoot.id) (text "0.31.0") (text "0.32.0") none).after none =
      appliedMarker.file := EStateM.after_of_ok written
  show some _ = _
  rw [file]
  rfl

/-- The first startup after an update is told that no rollback is due. -/
theorem rollback_on_two_failures_applied :
    (checkRollbackNeeded plainPython (some firstBoot.id)).reply (applied appliedMarker []).file = .ok false := by
  refine (rollback_on_two_failures.1 (applied appliedMarker []) applied_reached).mpr ?_
  rw [tells_of_waiting rfl, if_neg (by decide)]
  have uncounted : (applied appliedMarker []).counts [] = 0 := rfl
  rw [uncounted]
  exact ⟨few 1 (by decide), by decide⟩

/-- The second one is rolled back after the first alone has failed, and a marker
file that holds an empty list makes the check raise. -/
theorem rollback_on_one_failure :
    (∃ s, Reach (machine plainPython) always s ∧ s.due = false ∧
      (checkRollbackNeeded plainPython (some s.boot.id)).reply s.file = .ok true) ∧
    (checkRollbackNeeded plainPython (some firstBoot.id)).reply (some (encodeUtf8 (text "[]"))) = .error .attribute := by
  constructor
  · have one := few 1 (by decide)
    have check := Marker.checkRollbackNeeded_file (P := plainPython) (m := appliedMarker) (few 0 (by decide)) firstBoot one
    have again := Marker.checkRollbackNeeded_file (P := plainPython) (m := appliedMarker.next firstBoot) one firstBoot
      (few 2 (by decide))
    have answer : (checkRollbackNeeded plainPython (some firstBoot.id)).reply (appliedMarker.next firstBoot).file =
        .ok true := by
      rw [EStateM.reply, again]
      rfl
    refine ⟨applied (appliedMarker.next firstBoot) [⟨firstBoot, true, .died⟩], ?_, by decide, ?_⟩
    · refine applied_reached.step (l := .startup true .died) trivial ?_
      have here : (applied appliedMarker []).check plainPython = _ := check
      simp only [machine, System.next, System.startup, here]
      rfl
    · exact answer
  · have decoded : decodeUtf8 (encodeUtf8 (text "[]")) = some (text "[]") :=
      decodeUtf8_encodeUtf8 (by decide) (by decide)
    have reads : marker plainPython (some (encodeUtf8 (text "[]"))) = .ok (.arr []) := by
      simp only [marker, decoded]
      rfl
    rw [EStateM.reply, checkRollbackNeeded_of_other reads (by rintro ⟨⟩) rfl]

end

end OpenAvc.Updater
