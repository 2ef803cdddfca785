import OpenAvc.Updater.Attempts
import OpenAvc.Run.Machine

namespace OpenAvc.Updater

/-- What the kernel publishes as the identity of a boot. -/
structure BootId where
  id : Text
  plain : id.all Json.Scan.scalar = true
  deriving DecidableEq

/-- A marker as `write_pending_marker` and `record_startup_attempt` leave it
where the boot can be identified. -/
structure Marker where
  fromVersion : Text
  toVersion : Text
  attempts : Nat
  boot : BootId
  backup : Option Text

namespace Marker

def fields (m : Marker) : List (Text × Json) :=
  [(text "from_version", .str m.fromVersion), (text "to_version", .str m.toVersion), (text "attempts", .int m.attempts),
    (text "boot", .str m.boot.id)] ++ m.backup.elim [] fun path => [(text "backup", .str path)]

/-- The file that holds the marker. -/
def file (m : Marker) : Option Bytes :=
  some (encodeUtf8 (Json.dumps {} (.obj m.fields)))

/-- The marker as it is read back. -/
def readBack (m : Marker) : Marker :=
  { m with
    fromVersion := Json.Scan.rejoin m.fromVersion
    toVersion := Json.Scan.rejoin m.toVersion
    backup := m.backup.map Json.Scan.rejoin }

variable {P : Python} {m : Marker}

theorem rereadFields (m : Marker) : Json.rereadFields m.fields = m.readBack.fields := by
  have key : ∀ t : Text, t.all Json.Scan.scalar = true → Json.Scan.rejoin t = t := fun _ => Json.Scan.rejoin_scalar
  have boot := key m.boot.id m.boot.plain
  cases backup : m.backup <;>
    simp [fields, readBack, backup, Json.rereadFields, Json.reread, boot, key (text "from_version") (by decide),
      key (text "to_version") (by decide), key (text "attempts") (by decide), key (text "boot") (by decide),
      key (text "backup") (by decide)]

theorem readable (m : Marker) (few : m.attempts < 10 ^ Json.Scan.intLimit) :
    Json.Readable P.room (.obj m.fields) := by
  refine ⟨P.room_pos, ?_⟩
  cases backup : m.backup <;> simp [fields, backup, Json.ReadableFields, Json.Readable, few]

theorem unambiguous (m : Marker) : Json.Unambiguous (.obj m.fields) := by
  have distinct : (m.readBack.fields.map Prod.fst).Nodup := by
    have names : [text "from_version", text "to_version", text "attempts", text "boot", text "backup"].Nodup := by decide
    cases backup : m.backup <;> simp only [fields, readBack, backup]
    · exact names.sublist (List.sublist_append_left [_, _, _, _] [_])
    · exact names
  refine ⟨by rw [rereadFields]; exact distinct, ?_⟩
  cases backup : m.backup <;> simp [fields, backup, Json.UnambiguousFields, Json.Unambiguous]

/-- A marker is read as it was written. -/
theorem marker_file (few : m.attempts < 10 ^ Json.Scan.intLimit) : marker P m.file = .ok (.obj m.readBack.fields) := by
  have readable := m.readable (P := P) few
  have ascii := Json.ascii_dumps (L := {}) rfl rfl readable
  have decoded : decodeUtf8 (encodeUtf8 (Json.dumps {} (.obj m.fields))) = some (Json.dumps {} (.obj m.fields)) := by
    rw [List.all_eq_true] at ascii
    refine decodeUtf8_encodeUtf8 (fun c member => ?_) fun return' => ?_
    · have here := ascii c member
      simp only [Json.ascii, decide_eq_true_eq] at here
      exact Or.inl (by omega)
    · have here := ascii 13 return'
      cases here
  have reads : loads P (Json.dumps {} (.obj m.fields)) = .ok (some (.obj m.readBack.fields)) := by
    unfold loads
    rw [Json.loads_dumps rfl rfl readable m.unambiguous, Json.reread, rereadFields]
  simp only [marker, file, decoded, reads]
  rfl

/-- What one more startup in the boot `b` makes of the marker. -/
def next (m : Marker) (b : BootId) : Marker :=
  if b = m.boot then { m.readBack with attempts := m.attempts + 1 } else { m.readBack with attempts := 1, boot := b }

theorem attempts_next (m : Marker) (b : BootId) : (m.next b).attempts = if b = m.boot then m.attempts + 1 else 1 := by
  unfold next
  split <;> rfl

theorem boot_next (m : Marker) (b : BootId) : (m.next b).boot = b := by
  unfold next
  split
  · rename_i same
    exact same.symm
  · rfl

theorem sameBoot_iff {b : BootId} : sameBoot (some b.id) (m.readBack.fields.lookup (text "boot")) = decide (b = m.boot) := by
  have found : m.readBack.fields.lookup (text "boot") = some (.str m.boot.id) := rfl
  rw [found, sameBoot, decide_eq_decide]
  constructor
  · intro same
    cases b
    cases boot : m.boot
    simp_all
  · rintro rfl
    rfl

theorem fields_next_same {b : BootId} (same : b = m.boot) :
    Dict.set m.readBack.fields (text "attempts") (.int (m.attempts + 1)) = (m.next b).fields := by
  rw [next, if_pos same]
  rfl

theorem fields_next_other {b : BootId} (other : b ≠ m.boot) :
    Dict.set (Dict.set m.readBack.fields (text "attempts") (.int 1)) (text "boot") (.str b.id) = (m.next b).fields := by
  rw [next, if_neg other]
  rfl

theorem atLeastTwo_int (n : Nat) : atLeastTwo (.int n) = decide (2 ≤ n) := by
  rw [atLeastTwo, decide_eq_decide]
  omega

/-- A startup counts itself in the marker and asks for a rollback where it
counted two, unless the counter is at its end. -/
theorem checkRollbackNeeded_file (few : m.attempts < 10 ^ Json.Scan.intLimit) (b : BootId)
    (room : (m.next b).attempts < 10 ^ Json.Scan.intLimit) :
    checkRollbackNeeded P (some b.id) m.file = .ok (decide (2 ≤ (m.next b).attempts)) (m.next b).file := by
  have reads := marker_file (P := P) few
  have fits := marker_writable reads
  rw [attempts_next] at room ⊢
  rw [checkRollbackNeeded_of_marker reads nofun]
  have records : recordStartupAttempt P (some b.id) m.file =
      .ok (.int ((if b = m.boot then m.attempts + 1 else 1 : Nat))) (m.next b).file := by
    rw [recordStartupAttempt_obj reads, sameBoot_iff]
    by_cases same : b = m.boot
    · rw [if_pos same] at room
      have short : ∀ within, Json.writable within (.int (m.attempts + 1)) = true := int_writable room
      have written := writeMarker_ok (set_writable (text "attempts") fits short) m.file
      rw [if_pos (by exact decide_eq_true same), if_pos same]
      have sum : plusOne P ((m.readBack.fields.lookup (text "attempts")).getD (.int 0)) = .ok (.int (m.attempts + 1)) := rfl
      rw [sum, EStateM.bind_of_ok (lift_ok _), EStateM.bind_of_ok written, fields_next_same same]
      rfl
    · have boots : ∀ within, Json.writable within (.str b.id) = true := fun _ => rfl
      have first := set_writable (text "attempts") fits (int_writable one_small)
      have written := writeMarker_ok (set_writable (text "boot") first boots) m.file
      rw [if_neg (by simpa using same), if_neg same]
      simp only [Option.elim_some]
      rw [EStateM.bind_of_ok written, fields_next_other same]
      rfl
  rw [EStateM.bind_of_ok records, atLeastTwo_int]
  rfl

theorem checkRollbackNeeded_full (few : m.attempts < 10 ^ Json.Scan.intLimit) (b : BootId)
    (full : ¬(m.next b).attempts < 10 ^ Json.Scan.intLimit) :
    ∃ e, checkRollbackNeeded P (some b.id) m.file = .error e m.file := by
  have reads := marker_file (P := P) few
  rw [attempts_next] at full
  have same : b = m.boot := by
    by_contra other
    rw [if_neg other] at full
    exact full one_small
  rcases recordStartupAttempt_cases (some b.id) reads with ⟨sound, _⟩ | ⟨_, e, raises⟩
  · rw [if_pos same] at full
    have counts : (m.attempts : Int) + 1 < 10 ^ Json.Scan.intLimit := sound (by rw [sameBoot_iff, decide_eq_true same])
    have cast : ((10 ^ Json.Scan.intLimit : Nat) : Int) = 10 ^ Json.Scan.intLimit := by push_cast; rfl
    rw [← cast] at counts
    exact absurd (by omega) full
  · refine ⟨e, ?_⟩
    rw [checkRollbackNeeded_of_marker reads nofun, EStateM.bind_of_error raises]

end Marker

/-- How a startup went that left the update waiting: the process died before
it looked at the marker, while it rewrote it, because the check raised, or
after the check; or the engine started and the process died before the marker
was removed. -/
inductive Outcome
  | early
  | torn
  | raised
  | died
  | cut
  deriving DecidableEq

structure Startup where
  boot : BootId
  updated : Bool
  outcome : Outcome

namespace Startup

/-- A startup of the updated version that ended without the engine starting. -/
def failed (b : BootId) (u : Startup) : Bool :=
  u.boot = b ∧ u.updated ∧ u.outcome ≠ .cut

/-- A startup that counted itself in the marker. -/
def counted (b : BootId) (u : Startup) : Bool :=
  u.boot = b ∧ (u.outcome = .died ∨ u.outcome = .cut)

def torn (u : Startup) : Bool :=
  u.outcome = .torn

end Startup

/-- The host. `boots` are the boots before this one. `update` is set from the
time a marker is written until the update is confirmed or given up, to the
startups since then. -/
structure System where
  boot : BootId
  boots : List BootId
  file : Option Bytes
  update : Option (List Startup)

/-- How a startup ends. The bytes are what a power cut leaves of the marker
while it is rewritten. -/
inductive Ending
  | early
  | torn (left : Bytes)
  | died
  | rolledBack
  | cut
  | started

/-- What happens to the host: an update is applied, which writes the marker or
is cut off while it does; the marker is removed with an apply that failed or a
manual rollback; the machine starts anew; the server starts. -/
inductive Label
  | write (fromVersion toVersion : Text) (backup : Option Text)
  | writeTorn (left : Bytes)
  | clear
  | reboot (id : BootId)
  | startup (updated : Bool) (ending : Ending)

/-- The file reads as no marker. -/
def silent (P : Python) (file : Option Bytes) : Bool :=
  match (readPendingMarker P).reply file with
  | .ok .null => true
  | _ => false

namespace System

variable (P : Python)

def log (s : System) (updated : Bool) (outcome : Outcome) : System :=
  { s with update := s.update.map (⟨s.boot, updated, outcome⟩ :: ·) }

def check (s : System) : EStateM.Result Raise (Option Bytes) Bool :=
  checkRollbackNeeded P (some s.boot.id) s.file

def startup (s : System) (updated : Bool) : Ending → Option System
  | .early => some (s.log updated .early)
  | .torn left =>
    match s.check P with
    | .ok _ _ => if ¬silent P s.file ∧ silent P (some left) then some ({ s with file := some left }.log updated .torn) else none
    | .error _ _ => none
  | ending =>
    match s.check P, ending with
    | .error _ file, _ => some ({ s with file := file }.log updated .raised)
    | .ok _ file, .cut => some ({ s with file := file }.log updated .cut)
    | .ok verdict file, .rolledBack =>
      if verdict then some { s with file := clearPendingMarker.after file, update := none } else none
    | .ok _ file, .started => some { s with file := (confirmStartup P).after file, update := none }
    | .ok _ file, _ => some ({ s with file := file }.log updated .died)

def next (s : System) : Label → Option System
  | .write fromVersion toVersion backup =>
    some { s with
      file := (writePendingMarker P (some s.boot.id) fromVersion toVersion backup).after s.file
      update := some [] }
  | .writeTorn left => if silent P (some left) then some { s with file := some left, update := none } else none
  | .clear => some { s with file := clearPendingMarker.after s.file, update := none }
  | .reboot id => if id = s.boot ∨ id ∈ s.boots then none else some { s with boot := id, boots := s.boot :: s.boots }
  | .startup updated ending => s.startup P updated ending

/-- Startups of the updated version in this boot that ended without the engine
starting. -/
def failures (s : System) (l : List Startup) : Nat := l.countP (Startup.failed s.boot)

def counts (s : System) (l : List Startup) : Nat := l.countP (Startup.counted s.boot)

/-- A rollback is due: an update waits, and two startups of it have failed in
this boot. -/
def due (s : System) : Bool :=
  s.update.any fun l => 2 ≤ s.failures l

/-- The marker tells whether a rollback is due: it was cut off and no rollback
is due, or it counts a startup exactly when two have failed. -/
def Tells (s : System) : Prop :=
  ∀ l, s.update = some l →
    if l.any Startup.torn then s.failures l < 2
    else s.counts l + 1 < 10 ^ Json.Scan.intLimit ∧ (2 ≤ s.failures l ↔ 1 ≤ s.counts l)

end System

/-- A host that has no marker yet. -/
def machine (P : Python) : Run.Machine System Label where
  init s := s.file = none ∧ s.update = none
  next := System.next P

end OpenAvc.Updater
