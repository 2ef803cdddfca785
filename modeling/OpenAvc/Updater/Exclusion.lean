import OpenAvc.Updater.Manager

namespace OpenAvc.Updater.Manager

open Run

variable {H : Host} {m m' : Manager} {l : Label}

/-- An instruction for the next start is on disk. -/
def standing (m : Manager) : Bool :=
  m.applyInstruction.isSome ∨ m.rollbackMarker.isSome

/-- An operation that will drop the staged update: a rollback, or one that
applies it. -/
def Operation.drops (o : Operation) : Bool :=
  o.kind = .rollback ∨ o.taken.isSome

/-- No instruction stands, and no rollback is under way. -/
def quiet (m : Manager) : Bool :=
  ¬m.standing ∧ m.operations.all fun u => u.2.kind ≠ .rollback

def Label.stages : Label → Bool
  | .stageUpdate _ _ => true
  | _ => false

/-- Calls that are taken come one at a time: none while an instruction stands
or a rollback is under way, and no update is staged while a staged one is
applied or a rollback is under way. -/
def Apart (H : Host) (m : Manager) (l : Label) : Prop :=
  ((m.admits H l).isSome → m.quiet = true) ∧
    (l.stages → m.operations.all (fun u => ¬Operation.drops u.2) = true)

instance (H : Host) (m : Manager) (l : Label) : Decidable (Apart H m l) :=
  inferInstanceAs (Decidable (_ ∧ _))

/-- A step from `m` to `m'` excludes other operations: none starts while an
instruction stands, which stays with its marker as it is; at most one
instruction is on disk; and the staged update that goes is the one that the
operation has taken. -/
structure Exclusive (m : Manager) (l : Label) (m' : Manager) : Prop where
  noStart : m.standing → m'.started = m.started
  kept : m.standing → m'.applyInstruction = m.applyInstruction ∧ m'.rollbackMarker = m.rollbackMarker ∧ m'.marker = m.marker
  single : ¬(m'.applyInstruction.isSome ∧ m'.rollbackMarker.isSome)
  own : ∀ r, m.staged = some r → m'.staged = none →
    ∃ i arrival f o, l = .resume i arrival f ∧ m.operations.lookup i = some o ∧ o.taken = some r

/-- Between steps: at most one operation is under way and none once an
instruction stands; an apply keeps `_update_in_progress`; and what a rollback or
a staged apply has taken is what is staged. -/
structure Orderly (m : Manager) : Prop where
  alone : ∀ u ∈ m.operations, m.operations = [u]
  after : m.standing → m.operations = []
  single : ¬(m.applyInstruction.isSome ∧ m.rollbackMarker.isSome)
  held : ∀ u ∈ m.operations, u.2.kind ≠ .rollback → m.inProgress = true
  taken : ∀ u ∈ m.operations, Operation.drops u.2 → u.2.taken = m.staged

/-- What one stretch of the only operation under way leads to: it waits again,
or it has ended. -/
inductive Stretch (m : Manager) (i : Nat) (o : Operation) (m' : Manager) : Prop
  | waits (stage : Stage) (marker : Option Nat) (same : m' = { m with operations := [(i, { o with stage })], marker })
  | ended (none : m'.operations = []) (started : m'.started = m.started)
      (single : ¬(m'.applyInstruction.isSome ∧ m'.rollbackMarker.isSome))
      (staged : m'.staged = m.staged ∨ Operation.drops o = true ∧ m'.staged = .none)

variable {i : Nat} {o : Operation} {f : Files}

theorem goOn_only (only : m.operations = [(i, o)]) (stage : Stage) :
    m.goOn i o stage = { m with operations := [(i, { o with stage })] } := by
  simp [goOn, only]

theorem leave_only (only : m.operations = [(i, o)]) : m.leave i = { m with operations := [] } := by
  simp [leave, only]

theorem Stretch.cleanup {k : Manager} (only : k.operations = [(i, o)]) (started : k.started = m.started)
    (staged : k.staged = m.staged) (noRollback : k.rollbackMarker = none) : Stretch m i o (k.cleanupFailedApply i f) := by
  refine .ended ?_ started ?_ (Or.inl staged)
  · simp [cleanupFailedApply, clearPendingMarker, leave, only]
  · rintro ⟨_, rolls⟩
    have same : (k.cleanupFailedApply i f).rollbackMarker = k.rollbackMarker := rfl
    rw [same, noRollback] at rolls
    cases rolls

theorem Stretch.finish {k : Manager} (only : k.operations = [(i, o)]) (started : k.started = m.started)
    (staged : k.staged = m.staged) (noRollback : k.rollbackMarker = none) : Stretch m i o (k.finish i o f) := by
  unfold Manager.finish
  split
  · rename_i taken
    refine .ended ?_ started ?_ ?_
    · simp [clearStagedUpdate, leave, only]
    · rintro ⟨_, rolls⟩
      simp [clearStagedUpdate, leave, noRollback] at rolls
    · by_cases removed : f.stagedRemoved = true
      · exact Or.inr ⟨by simp [Operation.drops, taken], by simp [clearStagedUpdate, removed]⟩
      · exact Or.inl (by simpa [clearStagedUpdate, leave, removed] using staged)
  · refine .ended ?_ started ?_ (Or.inl staged)
    · simp [leave, only]
    · rintro ⟨_, rolls⟩
      simp [leave, noRollback] at rolls

theorem Stretch.applied (only : m.operations = [(i, o)]) (noRollback : m.rollbackMarker = none) :
    Stretch m i o (m.apply H i o f) := by
  unfold Manager.apply
  split
  · exact .cleanup only rfl rfl noRollback
  · exact .cleanup only rfl rfl noRollback
  · dsimp only
    split
    · exact .waits .installing (some i) (by rw [goOn_only (by exact only)])
    · split
      · unfold applyLinux
        split
        · exact .finish only rfl rfl noRollback
        · exact .cleanup only rfl rfl noRollback
        · exact .cleanup only rfl rfl noRollback
      · exact .finish only rfl rfl noRollback

/-- What a rollback leaves alone. -/
theorem performRollback_fields (m : Manager) (i : Nat) (f : Files) :
    (m.performRollback H i f).operations = (m.leave i).operations ∧ (m.performRollback H i f).started = m.started ∧
      (m.performRollback H i f).applyInstruction = m.applyInstruction ∧
      (m.performRollback H i f).staged = (m.clearStagedUpdate f).staged := by
  unfold performRollback
  dsimp only
  repeat' split
  all_goals exact ⟨rfl, rfl, rfl, rfl⟩

theorem Stretch.rolledBack (only : m.operations = [(i, o)]) (noApply : m.applyInstruction = none)
    (kind : o.kind = .rollback) : Stretch m i o (m.performRollback H i f) := by
  obtain ⟨operations, started, instruction, staged⟩ := performRollback_fields (H := H) m i f
  refine .ended ?_ started ?_ ?_
  · rw [operations, leave_only only]
  · rintro ⟨applies, _⟩
    rw [instruction, noApply] at applies
    cases applies
  · by_cases removed : f.stagedRemoved = true
    · exact Or.inr ⟨by simp [Operation.drops, kind], by rw [staged, clearStagedUpdate, if_pos removed]⟩
    · exact Or.inl (by rw [staged, clearStagedUpdate, if_neg removed])

theorem Stretch.on (only : m.operations = [(i, o)]) (stage : Stage) : Stretch m i o (m.goOn i o stage) :=
  .waits stage m.marker (goOn_only only stage)

theorem Stretch.left (only : m.operations = [(i, o)]) (noRollback : m.rollbackMarker = none) : Stretch m i o (m.leave i) := by
  rw [leave_only only]
  refine .ended rfl rfl ?_ (Or.inl rfl)
  rintro ⟨_, rolls⟩
  rw [noRollback] at rolls
  cases rolls

theorem Stretch.resumed (only : m.operations = [(i, o)]) (quiet : ¬m.standing) (arrival : Arrival) :
    Stretch m i o (m.resume H i o arrival f) := by
  obtain ⟨noApply, noRollback⟩ : m.applyInstruction = none ∧ m.rollbackMarker = none := by simpa [standing] using quiet
  unfold Manager.resume
  split
  case h_1 => exact .waits o.stage m.marker (by rw [← only])
  case h_2 => exact .left only noRollback
  case h_3 => exact .on only _
  case h_4 => exact .rolledBack only noApply (by assumption)
  all_goals first
    | exact .cleanup only rfl rfl noRollback
    | exact .on only _
    | exact .applied only noRollback
    | exact .finish only rfl rfl noRollback
    | split
  · exact .on only _
  · exact .applied only noRollback

/-- What a step does: a call is taken or changes nothing, an update is staged,
an operation goes on, or the exit comes. -/
theorem next_cases (steps : m.next H l = some m') :
    (∃ o, m.admits H l = some o ∧ m' = m.start o) ∨ m' = m ∨
      (∃ record write, l = .stageUpdate record write ∧ m' = m.stageUpdate H record write) ∨
      (∃ i arrival f o, l = .resume i arrival f ∧ m.operations.lookup i = some o ∧ m' = m.resume H i o arrival f) ∨
      l = .restart ∧ m' = { m with exits := m.exits - 1, running := ¬canSelfUpdate H.deployment } := by
  unfold Manager.next at steps
  split at steps
  · cases steps
  · cases l with
    | stageUpdate record write =>
      cases steps
      exact Or.inr (Or.inr (Or.inl ⟨record, write, rfl, rfl⟩))
    | resume i arrival f =>
      obtain ⟨o, found, rfl⟩ := Option.map_eq_some_iff.mp steps
      exact Or.inr (Or.inr (Or.inr (Or.inl ⟨i, arrival, f, o, rfl, found, rfl⟩)))
    | restart =>
      dsimp only at steps
      split at steps
      · cases steps
      · cases steps
        exact Or.inr (Or.inr (Or.inr (Or.inr ⟨rfl, rfl⟩)))
    | _ =>
      cases steps
      split
      · rename_i o admitted
        exact Or.inl ⟨o, admitted, rfl⟩
      · exact Or.inr (Or.inl rfl)

theorem stageUpdate_fields (m : Manager) (record : Staged) (write : Write) :
    (m.stageUpdate H record write).operations = m.operations ∧
      (m.stageUpdate H record write).applyInstruction = m.applyInstruction ∧
      (m.stageUpdate H record write).rollbackMarker = m.rollbackMarker ∧
      (m.stageUpdate H record write).inProgress = m.inProgress ∧
      (m.stageUpdate H record write).marker = m.marker ∧ (m.stageUpdate H record write).started = m.started := by
  unfold stageUpdate
  repeat' split
  all_goals exact ⟨rfl, rfl, rfl, rfl, rfl, rfl⟩

/-- An operation that goes on is the only one, and no instruction stands. -/
theorem Orderly.underWay (orderly : Orderly m) (found : m.operations.lookup i = some o) :
    m.operations = [(i, o)] ∧ ¬m.standing := by
  have only := orderly.alone (i, o) (List.mem_of_lookup_eq_some found)
  refine ⟨only, fun stands => ?_⟩
  rw [orderly.after stands] at only
  cases only

/-- Nothing is under way when a call is taken. -/
theorem Orderly.idle (orderly : Orderly m) (apart : Apart H m l) {o : Operation} (admitted : m.admits H l = some o) :
    m.operations = [] ∧ ¬m.standing := by
  have quiet := apart.1 (by rw [admitted]; rfl)
  simp only [Manager.quiet, decide_eq_true_eq] at quiet
  refine ⟨?_, by simpa using quiet.1⟩
  by_contra busy
  obtain ⟨u, us, whole⟩ := List.exists_cons_of_ne_nil busy
  have member : u ∈ m.operations := whole ▸ List.mem_cons_self
  have kind := List.all_eq_true.mp quiet.2 u member
  have flag := orderly.held u member (by simpa using kind)
  cases l with
  | applyUpdate release => simp [admits, applyUpdate, flag] at admitted
  | applyCloudUpdate url checksum => simp [admits, applyCloudUpdate, flag] at admitted
  | rollback canRollback => simp [admits, rollback, flag] at admitted
  | _ => cases admitted

theorem taken_of_admitted {o : Operation} (admitted : m.admits H l = some o) (drops : Operation.drops o = true) :
    o.taken = m.staged := by
  cases l with
  | applyUpdate release =>
    simp only [admits, applyUpdate] at admitted
    repeat' split at admitted
    all_goals try simp only [reduceCtorEq] at admitted
    all_goals obtain rfl := Option.some.inj admitted
    · rfl
    · simp [Operation.drops] at drops
  | applyCloudUpdate url checksum =>
    simp only [admits, applyCloudUpdate] at admitted
    split at admitted
    · cases admitted
    · cases admitted
      simp [Operation.drops] at drops
  | rollback canRollback =>
    simp only [admits, rollback] at admitted
    split at admitted
    · cases admitted
    · cases admitted
      rfl
  | _ => cases admitted

theorem Orderly.next (orderly : Orderly m) (apart : Apart H m l) (steps : m.next H l = some m') : Orderly m' := by
  rcases next_cases steps with ⟨o, admitted, rfl⟩ | rfl | ⟨record, write, rfl, rfl⟩ | ⟨i, arrival, f, o, rfl, found, rfl⟩ | ⟨_, rfl⟩
  · obtain ⟨idle, notStanding⟩ := orderly.idle apart admitted
    have only : (m.start o).operations = [(m.started, o)] := by rw [start, idle]
    refine ⟨?_, fun stands => absurd stands notStanding, orderly.single, ?_, ?_⟩
    · intro u member
      rw [only] at member ⊢
      rw [List.mem_singleton.mp member]
    · intro u member kind
      rw [only] at member
      obtain rfl := List.mem_singleton.mp member
      simp [start, kind]
    · intro u member drops
      rw [only] at member
      obtain rfl := List.mem_singleton.mp member
      exact (taken_of_admitted admitted drops : o.taken = m.staged)
  · exact orderly
  · have noDrop := apart.2 rfl
    obtain ⟨operations, applies, rolls, flag, _⟩ := stageUpdate_fields (H := H) m record write
    have standing : (m.stageUpdate H record write).standing = m.standing := by rw [Manager.standing, applies, rolls]; rfl
    refine ⟨?_, ?_, ?_, ?_, ?_⟩
    · rw [operations]
      exact orderly.alone
    · rw [standing, operations]
      exact orderly.after
    · rw [applies, rolls]
      exact orderly.single
    · rw [operations, flag]
      exact orderly.held
    · rw [operations]
      intro u member drops
      have keeps := List.all_eq_true.mp noDrop u member
      simp [drops] at keeps
  · obtain ⟨only, notStanding⟩ := orderly.underWay found
    cases Stretch.resumed (H := H) (f := f) only notStanding arrival with
    | waits stage marker same =>
      rw [same]
      refine ⟨?_, fun stands => absurd stands notStanding, orderly.single, ?_, ?_⟩
      · intro u member
        rw [List.mem_singleton.mp member]
      · intro u member kind
        obtain rfl := List.mem_singleton.mp member
        exact orderly.held (i, o) (by rw [only]; exact List.mem_cons_self) kind
      · intro u member drops
        obtain rfl := List.mem_singleton.mp member
        exact orderly.taken (i, o) (by rw [only]; exact List.mem_cons_self) drops
    | ended none started single staged =>
      refine ⟨?_, fun _ => none, single, ?_, ?_⟩ <;> (rw [none]; exact nofun)
  · exact ⟨orderly.alone, orderly.after, orderly.single, orderly.held, orderly.taken⟩

theorem orderly_of_reach (reach : Reach (machine H) (Apart H) m) : Orderly m := by
  refine reach.invariant (fun m start => ?_) fun m l m' _ orderly apart steps => orderly.next apart steps
  obtain ⟨staged, stamps, _, rfl⟩ := start
  exact ⟨nofun, nofun, nofun, nofun, nofun⟩

/-- Every step of a run whose calls come one at a time excludes other operations. -/
theorem updates_exclusive (reach : Reach (machine H) (Apart H) m) (apart : Apart H m l)
    (steps : (machine H).next m l = some m') : Exclusive m l m' := by
  have orderly := orderly_of_reach reach
  have after := orderly.next apart steps
  rcases next_cases steps with ⟨o, admitted, rfl⟩ | rfl | ⟨record, write, rfl, rfl⟩ | ⟨i, arrival, f, o, rfl, found, rfl⟩ | ⟨_, rfl⟩
  · obtain ⟨_, notStanding⟩ := orderly.idle apart admitted
    refine ⟨fun stands => absurd stands notStanding, fun stands => absurd stands notStanding, after.single, ?_⟩
    intro r before gone
    exact absurd (before.symm.trans gone) nofun
  · exact ⟨fun _ => rfl, fun _ => ⟨rfl, rfl, rfl⟩, after.single, fun r before gone => absurd (before.symm.trans gone) nofun⟩
  · obtain ⟨_, applies, rolls, _, marker, started⟩ := stageUpdate_fields (H := H) m record write
    refine ⟨fun _ => started, fun _ => ⟨applies, rolls, marker⟩, after.single, ?_⟩
    intro r before gone
    unfold stageUpdate at gone
    repeat' split at gone
    all_goals first | exact absurd (before.symm.trans gone) nofun | cases gone
  · obtain ⟨only, notStanding⟩ := orderly.underWay found
    refine ⟨fun stands => absurd stands notStanding, fun stands => absurd stands notStanding, after.single, ?_⟩
    intro r before gone
    refine ⟨i, arrival, f, o, rfl, found, ?_⟩
    cases Stretch.resumed (H := H) (f := f) only notStanding arrival with
    | waits stage marker same =>
      rw [same] at gone
      exact absurd (before.symm.trans gone) nofun
    | ended none started single staged =>
      rcases staged with same | ⟨drops, _⟩
      · exact absurd (before.symm.trans (same.symm.trans gone)) nofun
      · have held := orderly.taken (i, o) (by rw [only]; exact List.mem_cons_self) drops
        exact held.trans before
  · exact ⟨fun _ => rfl, fun _ => ⟨rfl, rfl, rfl⟩, after.single, fun r before gone => absurd (before.symm.trans gone) nofun⟩

section

def linux : Host := ⟨.linuxPackage, false, false⟩

def Label.goesOn (i : Nat) : Label := .resume i .returns {}

theorem fresh_init : (machine linux).init {} := ⟨none, 0, nofun, rfl⟩

def early : StagedFile := ⟨0, some ⟨text "0.41.0", text "https://a", some (text "00")⟩⟩

theorem early_init : (machine linux).init { staged := some early, stamps := 1 } := by
  refine ⟨some early, 1, fun r present => ?_, rfl⟩
  cases present
  decide

/-- A state that these labels lead to. -/
theorem reached (ok : Manager → Label → Prop) [∀ m l, Decidable (ok m l)] (start : (machine linux).init m) (ls : List Label)
    (p : Manager → Bool) (run : ((machine linux).run ok m ls).any p = true) : ∃ m', Reach (machine linux) ok m' ∧ p m' = true := by
  cases ends : (machine linux).run ok m ls with
  | none => rw [ends] at run; cases run
  | some m' =>
    rw [ends] at run
    exact ⟨m', (Reach.init start).run ends, run⟩

/-- An update of a release, up to where its instruction is written. -/
theorem updates_exclusive_release :
    Exclusive { inProgress := true, operations := [(0, ⟨.release, none, .downloading⟩)], started := 1 } (.goesOn 0)
      { started := 1, marker := some 0, applyInstruction := some 0, exits := 1 } := by
  obtain ⟨m, reach, same⟩ := reached (Apart linux) fresh_init
    [.applyUpdate (some (text "0.41.0")), .goesOn 0, .goesOn 0]
    (· = { inProgress := true, operations := [(0, ⟨.release, none, .downloading⟩)], started := 1 }) (by decide)
  rw [of_decide_eq_true same] at reach
  exact updates_exclusive reach (by decide) (by decide)

/-- Without that, an update begins while a rollback makes its backup, and both
instructions are written; an update that begins before the exit removes what
the one before it has written; and an update that is staged while another one
is applied is cleared with it. -/
theorem updates_overlap :
    (∃ m, Reach (machine linux) always m ∧ (m.applyInstruction = some 1 ∧ m.rollbackMarker = some 0)) ∧
    (∃ m, Reach (machine linux) always m ∧ (m.applyInstruction = some 0 ∧ m.marker = some 0 ∧ m.started = 2 ∧
      ((machine linux).next m (.resume 1 .raises {})).any fun m' => m'.applyInstruction.isNone ∧ m'.marker.isNone)) ∧
    ∃ m, Reach (machine linux) always m ∧ (m.staged.map (·.stamp) = some 1 ∧
      (m.operations.lookup 0).map (·.taken.map (·.stamp)) = some (some 0) ∧
      ((machine linux).next m (.goesOn 0)).any fun m' => m'.staged.isNone) := by
  refine ⟨?_, ?_, ?_⟩
  · obtain ⟨m, reach, here⟩ := reached always fresh_init [.rollback true, .applyUpdate (some (text "0.41.0")), .goesOn 1,
      .goesOn 1, .goesOn 1, .goesOn 0, .goesOn 0] (fun m => m.applyInstruction = some 1 ∧ m.rollbackMarker = some 0)
      (by decide)
    exact ⟨m, reach, of_decide_eq_true here⟩
  · obtain ⟨m, reach, here⟩ := reached always fresh_init [.applyUpdate (some (text "0.41.0")), .goesOn 0, .goesOn 0, .goesOn 0,
      .applyUpdate (some (text "0.41.0"))] (fun m => m.applyInstruction = some 0 ∧ m.marker = some 0 ∧ m.started = 2 ∧
      ((machine linux).next m (.resume 1 .raises {})).any fun m' => m'.applyInstruction.isNone ∧ m'.marker.isNone)
      (by decide)
    exact ⟨m, reach, of_decide_eq_true here⟩
  · obtain ⟨m, reach, here⟩ := reached always early_init [.applyUpdate none, .goesOn 0, .goesOn 0, .goesOn 0, .goesOn 0,
      .stageUpdate ⟨text "0.42.0", text "https://b", none⟩ .written] (fun m => m.staged.map (·.stamp) = some 1 ∧
      (m.operations.lookup 0).map (·.taken.map (·.stamp)) = some (some 0) ∧
      ((machine linux).next m (.goesOn 0)).any fun m' => m'.staged.isNone) (by decide)
    exact ⟨m, reach, of_decide_eq_true here⟩

end

end OpenAvc.Updater.Manager
