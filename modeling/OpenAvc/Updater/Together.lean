import OpenAvc.Run.Machine
import OpenAvc.Updater.Attempts
import OpenAvc.Updater.AutoRollback
import OpenAvc.Updater.Restored
import OpenAvc.Updater.Rollback

namespace OpenAvc.Updater.Automatic

open Storage Logins EStateM Run

variable {P : Python} {render : Json → Option Bytes} {f : Outcomes} {s s' : DataFolder}

/-- The projects, the external project folder and the Project Library are as they were. -/
def SameData (s s' : DataFolder) : Prop :=
  s'.disk.projects = s.disk.projects ∧ s'.disk.externalProject = s.disk.externalProject ∧ s'.library = s.library

/-- A rollback of the code to a version that is there was initiated. -/
def Initiated : Platform → DataFolder → DataFolder → Prop
  | .windows, s, s' => ∃ i ∈ s.cache.getD [], isInstaller i = true ∧ s'.scheduled = some i
  | .linux, s, s' => s.previous = true ∧ s'.applyRollback = true

/-- Either the code goes back too, or the process goes on with the data as it was. -/
def Together (platform : Platform) (s : DataFolder) (r : Except Failure Bool) (s' : DataFolder) : Prop :=
  r = .ok true ∧ Initiated platform s s' ∨ r ≠ .ok true ∧ SameData s s'

/-- No saved login is written back into a project. -/
def NothingToPutBack (P : Python) (render : Json → Option Bytes) (f : Outcomes) (s : DataFolder) : Prop :=
  ∀ views, s.logins = some views →
    (∀ p ∈ libraryCopies s.library, ∀ bytes,
      putBackAt P render s.library p (f.libraryRead p) (views [none, (p.head?.map text)]) = .writes bytes → f.libraryWrite p = true) ∧
    ∀ t p bytes, (s.running = .projects p ∧ s.disk.projects = some t ∨
      ∃ name, s.running = .external name ∧ p = [name] ∧ s.disk.externalProject = some t) →
        putBackAt P render t p f.runningRead (views [none]) = .writes bytes → f.runningWrite = true

/-- The rollback of the code that is asked for comes about. -/
def CodeGoesBack (P : Python) (f : Outcomes) (s : DataFolder) (platform : Platform) : Prop :=
  f.clear = false ∧ ∃ marker versions, (readMarker P f.rollbackRead).reply s = .ok marker ∧
    rollbackVersions marker = .ok versions ∧
    match platform with
    | .windows => f.scheduling = .done ∧ ∃ v w i, versions = (.str v, .str w) ∧ pickInstaller s.cache v w = .ok (some i)
    | .linux => s.previous = true ∧ f.rollbackWrite = none

/-- Nothing of the data is put back: no backup is found, and no login. -/
def DataStays (P : Python) (render : Json → Option Bytes) (f : Outcomes) (s : DataFolder) (platform : Platform) : Prop :=
  match (readMarker P f.restoreRead).reply s with
  | .error _ => True
  | .ok marker =>
    match backupToRestore s.archives marker with
    | .error _ => True
    | .ok (some _) => False
    | .ok none => NothingToPutBack P render f s ∧
        (platform = .linux → s.previous = true ∨ f.rollbackWrite ≠ none ∨ f.clear = true ∧ s.marker ≠ none)

/-- What happens to a data folder over time: startups, the confirmation of one,
a new update, and whatever else leaves the marker alone. -/
inductive Event
  | startup (platform : Platform) (boot : Option Text) (f : Outcomes)
  | confirmed
  | updating (marker : Option Bytes)
  | changes (s : DataFolder)

def life (P : Python) (render : Json → Option Bytes) : Machine DataFolder Event where
  init s := s.restores = 0
  next s
    | .startup platform boot f =>
      match automaticRollback P render f platform boot s with
      | .ok _ s' => some s'
      | .error .killed _ => none
      | .error _ s' => some s'
    | .confirmed => some { s with marker := none }
    | .updating marker => some { s with marker, restores := 0 }
    | .changes t => some { t with marker := s.marker, restores := s.restores }

/-- Where a startup asks for a rollback, the code can go back or the data stays. -/
def Ready (P : Python) (render : Json → Option Bytes) (s : DataFolder) : Event → Prop
  | .startup platform boot f => (rollbackNeeded P f boot).reply s = .ok true →
    CodeGoesBack P f ((rollbackNeeded P f boot).after s) platform ∨
      DataStays P render f ((rollbackNeeded P f boot).after s) platform
  | _ => True

/-- All but the marker. -/
def OnlyMarker (s s' : DataFolder) : Prop := s' = { s with marker := s'.marker }

theorem onMarker_ends {α : Type} (x : Op α) (s : DataFolder) : (onMarker x).Ends s fun r s' =>
    OnlyMarker s s' ∧ r ≠ .error .killed := by
  unfold Ends onMarker
  cases x s.marker with
  | ok a marker => exact ⟨rfl, nofun⟩
  | error e marker => exact ⟨rfl, nofun⟩

theorem onMarker_of_ok {α : Type} {x : Op α} {a : α} {m : Option Bytes} (ran : x s.marker = .ok a m) :
    onMarker x s = .ok a { s with marker := m } := by
  simp only [onMarker, ran]

theorem onMarker_of_error {α : Type} {x : Op α} {e : Raise} {m : Option Bytes} (ran : x s.marker = .error e m) :
    onMarker x s = .error (.python e) { s with marker := m } := by
  simp only [onMarker, ran]

/-- Reading the marker changes nothing. -/
theorem readMarker_cases (fails : Bool) (s : DataFolder) :
    (∃ v, readMarker P fails s = .ok v s) ∨ ∃ e, readMarker P fails s = .error (.python e) s := by
  unfold readMarker
  cases fails with
  | true => exact Or.inl ⟨.null, rfl⟩
  | false =>
    have first : readPendingMarker P s.marker = lift (marker P s.marker) s.marker := readPendingMarker_eq
    cases reads : marker P s.marker with
    | ok v =>
      rw [reads, lift_ok] at first
      exact Or.inl ⟨v, onMarker_of_ok first⟩
    | error e =>
      rw [reads, lift_error] at first
      exact Or.inr ⟨e, onMarker_of_error first⟩

theorem readMarker_of_none (fails : Bool) (absent : s.marker = none) : readMarker P fails s = .ok .null s := by
  unfold readMarker
  cases fails with
  | true => rfl
  | false =>
    have first : readPendingMarker P s.marker = .ok .null s.marker := by
      rw [absent]
      rfl
    exact onMarker_of_ok first

theorem rollbackNeeded_of_none (boot : Option Text) (absent : s.marker = none) :
    rollbackNeeded P f boot s = .ok false s := by
  unfold rollbackNeeded
  rw [bind_of_ok (readMarker_of_none f.checkRead absent)]
  rfl

/-- Recording an attempt touches the marker and no more. -/
theorem recorded_ends (boot : Option Text) (s : DataFolder) : ((do
    let attempts ← onMarker (recordStartupAttempt P boot)
    match f.recordWrite with
    | none => return atLeastTwo attempts
    | some left =>
      modify fun s => { s with marker := left }
      throw .os) : Launch Bool).Ends s fun r s' => OnlyMarker s s' ∧ r ≠ .error .killed := by
  rw [ends_bind]
  refine (onMarker_ends _ s).mono fun r s' kept => ?_
  obtain ⟨only, alive⟩ := kept
  cases r with
  | error e =>
    refine ⟨only, fun same => alive ?_⟩
    cases same
    rfl
  | ok attempts =>
    dsimp only
    cases f.recordWrite with
    | none => exact ⟨only, by rintro ⟨⟩⟩
    | some left =>
      refine ⟨?_, by rintro ⟨⟩⟩
      unfold OnlyMarker at only ⊢
      rw [only]

/-- The check for a rollback changes no more than the marker. -/
theorem rollbackNeeded_ends (boot : Option Text) (s : DataFolder) : (rollbackNeeded P f boot).Ends s fun r s' =>
    OnlyMarker s s' ∧ r ≠ .error .killed := by
  unfold rollbackNeeded
  rcases readMarker_cases f.checkRead s with ⟨v, reads⟩ | ⟨e, raises⟩
  · rw [ends_bind_of_ok reads]
    split
    · exact ⟨rfl, by rintro ⟨⟩⟩
    · cases f.recordRead with
      | true => exact ⟨rfl, by rintro ⟨⟩⟩
      | false => exact recorded_ends boot s
  · rw [ends_bind_of_error raises]
    exact ⟨rfl, by rintro ⟨⟩⟩

theorem restoreData_of_ok {a : Archive} {b : Bool} {disk : Disk}
    (ran : restoreUserData f.restore a.members (outside s.running) s.disk = .ok b disk) :
    restoreData f a s = .ok () { s with disk, restores := s.restores + 1 } := by
  simp only [restoreData, ran]

/-- How the restore of the data ends. -/
theorem restorePreUpdateData_ends (s : DataFolder) : (restorePreUpdateData P f).Ends s fun r s' =>
    r = .error .killed ∨
    (∃ e, r = .error (.python e) ∧ s' = s) ∨
    r = .ok () ∧ ((s' = s ∧ ∃ m, (readMarker P f.restoreRead).reply s = .ok m ∧ backupToRestore s.archives m = .ok none) ∨
      (∃ m a, (readMarker P f.restoreRead).reply s = .ok m ∧ backupToRestore s.archives m = .ok (some a)) ∧
        s' = { s with disk := s'.disk, restores := s.restores + 1 }) := by
  unfold restorePreUpdateData
  rcases readMarker_cases f.restoreRead s with ⟨m, reads⟩ | ⟨e, raises⟩
  · have read : (readMarker P f.restoreRead).reply s = .ok m := by rw [reply, reads]
    rw [ends_bind_of_ok reads, ends_bind, ends_get]
    dsimp only
    cases found : backupToRestore s.archives m with
    | error e => exact Or.inr (Or.inl ⟨e, rfl, rfl⟩)
    | ok backup =>
      cases backup with
      | none => exact Or.inr (Or.inr ⟨rfl, Or.inl ⟨rfl, m, read, found⟩⟩)
      | some a =>
        unfold Ends restoreData
        dsimp only
        cases restoreUserData f.restore a.members (outside s.running) s.disk with
        | ok _ disk => exact Or.inr (Or.inr ⟨rfl, Or.inr ⟨⟨m, a, read, found⟩, rfl⟩⟩)
        | error stop disk =>
          cases stop with
          | os => exact Or.inr (Or.inr ⟨rfl, Or.inr ⟨⟨m, a, read, found⟩, rfl⟩⟩)
          | killed => exact Or.inl rfl
  · rw [ends_bind_of_error raises]
    exact Or.inr (Or.inl ⟨e, rfl, rfl⟩)

/-- What the putting back of logins leaves alone. -/
theorem putBackForRollback_frame (P : Python) (render : Json → Option Bytes) (f : Outcomes) (s : DataFolder) : (putBackForRollback P render f s).marker = s.marker ∧
    (putBackForRollback P render f s).cache = s.cache ∧ (putBackForRollback P render f s).previous = s.previous ∧
    (putBackForRollback P render f s).restores = s.restores := by
  unfold putBackForRollback
  split
  · exact ⟨rfl, rfl, rfl, rfl⟩
  · split <;> exact ⟨rfl, rfl, rfl, rfl⟩

theorem putBackLibrary_stays {views : List (Option Text) → View} {copies : List Path} {library : FileTree}
    (nothing : ∀ p ∈ copies, ∀ bytes,
      putBackAt P render library p (f.libraryRead p) (views [none, (p.head?.map text)]) = .writes bytes → f.libraryWrite p = true) :
    putBackLibrary P render f views copies library = library := by
  induction copies with
  | nil => rfl
  | cons p copies ih =>
    have rest := ih fun q member => nothing q (List.mem_cons_of_mem _ member)
    unfold putBackLibrary
    split
    · rename_i bytes writes
      rw [if_pos (nothing p List.mem_cons_self bytes writes), rest]
    · rfl
    · exact rest

theorem writeBack_stays {t : Option FileTree} {p : Path} {view : View} (nothing : ∀ t', t = some t' → ∀ bytes,
    putBackAt P render t' p f.runningRead view = .writes bytes → f.runningWrite = true) : writeBack P render f t p view = t := by
  unfold writeBack
  cases t with
  | none => rfl
  | some t =>
    rw [Option.map_some]
    split
    · rename_i bytes writes
      rw [if_pos (nothing t rfl bytes writes)]
    · rfl

theorem putBackForRollback_stays (nothing : NothingToPutBack P render f s) :
    SameData s (putBackForRollback P render f s) := by
  unfold putBackForRollback
  cases logins : s.logins with
  | none => exact ⟨rfl, rfl, rfl⟩
  | some views =>
    obtain ⟨copies, here⟩ := nothing views logins
    have library := putBackLibrary_stays copies
    cases running : s.running with
    | projects p =>
      refine ⟨?_, rfl, library⟩
      exact writeBack_stays fun t held bytes writes => here t p bytes (Or.inl ⟨running, held⟩) writes
    | external name =>
      refine ⟨rfl, ?_, library⟩
      exact writeBack_stays fun t held bytes writes => here t [name] bytes (Or.inr ⟨name, running, rfl, held⟩) writes
    | elsewhere => exact ⟨rfl, rfl, library⟩

theorem clearMarker_ends (s : DataFolder) : (clearMarker f).Ends s fun r s' =>
    r = .ok () ∧ s' = { s with marker := none } ∧ ¬(f.clear = true ∧ s.marker ≠ none) ∨ r = .error .os ∧ s' = s ∧ f.clear = true := by
  unfold clearMarker
  rw [ends_bind, ends_get]
  dsimp only
  rw [ends_ite]
  constructor
  · intro stuck
    exact Or.inr ⟨rfl, rfl, stuck.1⟩
  · intro free
    refine Or.inl ⟨rfl, rfl, fun both => free ⟨both.1, ?_⟩⟩
    exact Option.isSome_iff_ne_none.mpr both.2

theorem mem_of_installerOf {target : Nat × Nat × Nat × Text} {l : List Text} {i : Text}
    (picks : installerOf target l = .ok (some i)) : i ∈ l := by
  induction l with
  | nil => cases picks
  | cons j l ih =>
    unfold installerOf at picks
    cases version : installerVersion j with
    | error e => rw [version] at picks; cases picks
    | ok v =>
      rw [version] at picks
      simp only [bind, Except.bind] at picks
      split at picks
      · cases picks
        exact List.mem_cons_self
      · exact List.mem_cons_of_mem _ (ih picks)

theorem mem_of_installerOtherThan {left : Nat × Nat × Nat × Text} {l : List Text} {i : Text}
    (picks : installerOtherThan left l = .ok (some i)) : i ∈ l := by
  induction l generalizing i with
  | nil => cases picks
  | cons j l ih =>
    unfold installerOtherThan at picks
    cases version : installerVersion j with
    | error e => rw [version] at picks; cases picks
    | ok v =>
      cases later : installerOtherThan left l with
      | error e => rw [version, later] at picks; cases picks
      | ok rest =>
        rw [version, later] at picks
        have here : rest.or (if v ≠ left then some j else none) = some i := Except.ok.inj picks
        rcases Option.or_eq_some_iff.mp here with same | ⟨_, same⟩
        · exact List.mem_cons_of_mem _ (ih (later.trans (congrArg _ same)))
        · split at same
          · cases same
            exact List.mem_cons_self
          · cases same

/-- The installer that is taken is one of the cached ones. -/
theorem mem_of_pickInstaller {cache : Option (List Text)} {v w i : Text} (picks : pickInstaller cache v w = .ok (some i)) :
    i ∈ cache.getD [] ∧ isInstaller i = true := by
  unfold pickInstaller at picks
  dsimp only at picks
  split at picks
  · cases picks
  · cases target : parseSemver v with
    | error e => rw [target] at picks; cases picks
    | ok target' =>
      cases left : parseSemver w with
      | error e => rw [target, left] at picks; cases picks
      | ok left' =>
        rw [target, left] at picks
        cases first : installerOf target' ((cache.getD []).filter isInstaller) with
        | error e => simp only [bind, Except.bind, first] at picks; cases picks
        | ok found =>
          simp only [bind, Except.bind, first] at picks
          cases found with
          | some j =>
            cases picks
            exact List.mem_filter.mp (mem_of_installerOf first)
          | none => exact List.mem_filter.mp (mem_of_installerOtherThan picks)

/-- What the rollback of the code leaves alone, and what it has done when it succeeds. -/
def CodeRolledBack (f : Outcomes) (platform : Platform) (s : DataFolder) (r : Except Failure Bool) (s' : DataFolder) : Prop :=
  SameData s s' ∧ s'.restores = s.restores ∧ r ≠ .error .killed ∧ (r = .ok true → s'.marker = none ∧
    match platform with
    | .windows => ∃ i ∈ s.cache.getD [], isInstaller i = true ∧ s'.scheduled = some i
    | .linux => s'.applyRollback = true ∧ f.rollbackWrite = none ∧ ¬(f.clear = true ∧ s.marker ≠ none))

theorem rollbackWindows_ends (v w : Json) (s : DataFolder) : (rollbackWindows f v w).Ends s fun r s' =>
    CodeRolledBack f .windows s r s' ∧ (f.clear = false → f.scheduling = .done →
      (∃ t u i, (v, w) = (.str t, .str u) ∧ pickInstaller s.cache t u = .ok (some i)) → r = .ok true) := by
  unfold rollbackWindows
  split
  · rename_i t u
    rw [ends_bind, ends_get]
    dsimp only
    cases picks : pickInstaller s.cache t u with
    | error e =>
      refine ⟨⟨⟨rfl, rfl, rfl⟩, rfl, nofun, nofun⟩, ?_⟩
      rintro _ _ ⟨_, _, _, ⟨⟩, found⟩
      rw [found] at picks
      cases picks
    | ok found =>
      cases found with
      | none =>
        refine ⟨⟨⟨rfl, rfl, rfl⟩, rfl, nofun, nofun⟩, ?_⟩
        rintro _ _ ⟨_, _, _, ⟨⟩, found⟩
        rw [found] at picks
        cases picks
      | some i =>
        obtain ⟨cached, named⟩ := mem_of_pickInstaller picks
        dsimp only
        rw [ends_bind]
        refine (clearMarker_ends s).mono fun r s₁ cleared => ?_
        rcases cleared with ⟨rfl, rfl, _⟩ | ⟨rfl, rfl, stuck⟩
        · dsimp only
          cases scheduling : f.scheduling with
          | done => exact ⟨⟨⟨rfl, rfl, rfl⟩, rfl, nofun, fun _ => ⟨rfl, i, cached, named, rfl⟩⟩, fun _ _ _ => rfl⟩
          | refused => exact ⟨⟨⟨rfl, rfl, rfl⟩, rfl, nofun, nofun⟩, nofun⟩
          | raises created =>
            cases created with
            | true => exact ⟨⟨⟨rfl, rfl, rfl⟩, rfl, nofun, nofun⟩, nofun⟩
            | false => exact ⟨⟨⟨rfl, rfl, rfl⟩, rfl, nofun, nofun⟩, nofun⟩
        · exact ⟨⟨⟨rfl, rfl, rfl⟩, rfl, nofun, nofun⟩, fun free => by rw [free] at stuck; cases stuck⟩
  · rename_i other
    rw [ends_bind, ends_get]
    dsimp only
    rw [ends_ite]
    have never : (∃ t u i, (v, w) = (Json.str t, Json.str u) ∧ pickInstaller s.cache t u = .ok (some i)) → False := by
      rintro ⟨t, u, _, same, _⟩
      cases same
      exact other t u rfl rfl
    exact ⟨fun _ => ⟨⟨⟨rfl, rfl, rfl⟩, rfl, nofun, nofun⟩, fun _ _ found => (never found).elim⟩,
      fun _ => ⟨⟨⟨rfl, rfl, rfl⟩, rfl, nofun, nofun⟩, fun _ _ found => (never found).elim⟩⟩

theorem rollbackLinux_ends (s : DataFolder) : (rollbackLinux f).Ends s fun r s' =>
    CodeRolledBack f .linux s r s' ∧ (f.clear = false → f.rollbackWrite = none → r = .ok true) := by
  unfold rollbackLinux
  cases write : f.rollbackWrite with
  | none =>
    dsimp only
    rw [ends_bind, ends_modify, ends_bind]
    refine (clearMarker_ends _).mono fun r s₁ cleared => ?_
    rcases cleared with ⟨rfl, rfl, free⟩ | ⟨rfl, rfl, stuck⟩
    · exact ⟨⟨⟨rfl, rfl, rfl⟩, rfl, nofun, fun _ => ⟨rfl, rfl, write, free⟩⟩, fun _ _ => rfl⟩
    · exact ⟨⟨⟨rfl, rfl, rfl⟩, rfl, nofun, nofun⟩, fun free => by rw [free] at stuck; cases stuck⟩
  | some unlinkFails =>
    cases unlinkFails with
    | true => exact ⟨⟨⟨rfl, rfl, rfl⟩, rfl, nofun, nofun⟩, nofun⟩
    | false => exact ⟨⟨⟨rfl, rfl, rfl⟩, rfl, nofun, nofun⟩, nofun⟩

theorem performRollback_ends (platform : Platform) (s : DataFolder) : (performRollback P f platform).Ends s fun r s' =>
    CodeRolledBack f platform s r s' ∧ (CodeGoesBack P f s platform → r = .ok true) := by
  unfold performRollback
  rcases readMarker_cases f.rollbackRead s with ⟨m, reads⟩ | ⟨e, raises⟩
  · have read : (readMarker P f.rollbackRead).reply s = .ok m := by rw [reply, reads]
    rw [ends_bind_of_ok reads]
    cases versions : rollbackVersions m with
    | error e =>
      refine ⟨⟨⟨rfl, rfl, rfl⟩, rfl, (by rintro ⟨⟩), (by rintro ⟨⟩)⟩, ?_⟩
      rintro ⟨_, m', found, read', versions', _⟩
      cases read.symm.trans read'
      rw [versions'] at versions
      cases versions
    | ok pair =>
      obtain ⟨v, w⟩ := pair
      have same : ∀ m' versions', (readMarker P f.rollbackRead).reply s = .ok m' →
          rollbackVersions m' = .ok versions' → versions' = (v, w) := by
        intro m' versions' read' found
        cases read.symm.trans read'
        exact Except.ok.inj (found.symm.trans versions)
      cases platform with
      | windows =>
        refine (rollbackWindows_ends v w s).mono fun r s' ends => ?_
        obtain ⟨rolled, goes⟩ := ends
        refine ⟨rolled, ?_⟩
        rintro ⟨clear, m', found, read', versions', scheduling, t, u, i, pair, picks⟩
        exact goes clear scheduling ⟨t, u, i, (same m' found read' versions').symm.trans pair, picks⟩
      | linux =>
        refine (rollbackLinux_ends s).mono fun r s' ends => ?_
        obtain ⟨rolled, goes⟩ := ends
        refine ⟨rolled, ?_⟩
        rintro ⟨clear, _, _, _, _, _, write⟩
        exact goes clear write
  · have read : (readMarker P f.rollbackRead).reply s = .error (.python e) := by rw [reply, raises]
    rw [ends_bind_of_error raises]
    refine ⟨⟨⟨rfl, rfl, rfl⟩, rfl, (by rintro ⟨⟩), (by rintro ⟨⟩)⟩, ?_⟩
    rintro ⟨_, m', _, read', _⟩
    rw [read] at read'
    cases read'

/-- What the marker, the cache and the previous version decide. -/
theorem CodeGoesBack.congr {platform : Platform} (goes : CodeGoesBack P f s platform) (marker : s'.marker = s.marker)
    (cache : s'.cache = s.cache) (previous : s'.previous = s.previous) : CodeGoesBack P f s' platform := by
  obtain ⟨clear, m, versions, read, found, goes⟩ := goes
  refine ⟨clear, m, versions, ?_, found, ?_⟩
  · have same : (readMarker P f.rollbackRead).reply s' = (readMarker P f.rollbackRead).reply s := by
      unfold readMarker reply
      cases f.rollbackRead with
      | true => rfl
      | false =>
        simp only [Bool.false_eq_true, if_false, onMarker, marker]
        cases readPendingMarker P s.marker <;> rfl
    exact same.trans read
  · cases platform with
    | windows => exact cache ▸ goes
    | linux => exact previous ▸ goes

/-- What a startup makes of the count of restores. -/
def Counted (s s' : DataFolder) : Prop :=
  s'.restores = s.restores ∨ s.marker ≠ none ∧ s'.restores = s.restores + 1 ∧ s'.marker = none

theorem SameData.trans {s'' : DataFolder} (first : SameData s s') (second : SameData s' s'') : SameData s s'' :=
  ⟨second.1.trans first.1, second.2.1.trans first.2.1, second.2.2.trans first.2.2⟩

theorem OnlyMarker.sameData (only : OnlyMarker s s') : SameData s s' := by
  rw [only]
  exact ⟨rfl, rfl, rfl⟩

theorem CodeGoesBack.previous (goes : CodeGoesBack P f s .linux) : s.previous = true := by
  obtain ⟨_, _, _, _, _, previous, _⟩ := goes
  exact previous

/-- A rollback that succeeds was initiated, where the previous version is there. -/
theorem CodeRolledBack.initiated {platform : Platform} {t : DataFolder} (rolled : CodeRolledBack f platform s (.ok true) s')
    (cache : s.cache = t.cache) (previous : platform = .linux → t.previous = true) : Initiated platform t s' := by
  obtain ⟨_, _, _, done⟩ := rolled
  cases platform with
  | windows =>
    obtain ⟨_, i, cached, named, scheduled⟩ := done rfl
    exact ⟨i, cache ▸ cached, named, scheduled⟩
  | linux => exact ⟨previous rfl, (done rfl).2.1⟩

/-- What follows once no backup was found, or the backup was restored. -/
theorem rest_ends {platform : Platform} {s₁ s₂ : DataFolder} (marker : s₂.marker = s₁.marker) (cache : s₂.cache = s₁.cache)
    (previous : s₂.previous = s₁.previous)
    (ready : CodeGoesBack P f s₁ platform ∨ SameData s₁ s₂ ∧ NothingToPutBack P render f s₂ ∧
      (platform = .linux → s₁.previous = true ∨ f.rollbackWrite ≠ none ∨ f.clear = true ∧ s₁.marker ≠ none)) :
    (do modify (putBackForRollback P render f); performRollback P f platform : Launch Bool).Ends s₂ fun r s' =>
      Together platform s₁ r s' ∧ s'.restores = s₂.restores ∧ (CodeGoesBack P f s₁ platform → s'.marker = none) := by
  obtain ⟨marker', cache', previous', restores⟩ := putBackForRollback_frame P render f s₂
  rw [ends_bind, ends_modify]
  refine (performRollback_ends platform _).mono fun r s' ⟨rolled, goes⟩ => ?_
  have goesBack : CodeGoesBack P f s₁ platform → r = .ok true := fun back =>
    goes (back.congr (marker'.trans marker) (cache'.trans cache) (previous'.trans previous))
  refine ⟨?_, rolled.2.1.trans restores, fun back => (rolled.2.2.2 (goesBack back)).1⟩
  by_cases succeeds : r = .ok true
  · subst succeeds
    refine Or.inl ⟨rfl, rolled.initiated (cache'.trans cache) fun linux => ?_⟩
    subst linux
    rcases ready with back | ⟨_, _, here⟩
    · exact back.previous
    · obtain ⟨_, _, written, free⟩ := rolled.2.2.2 rfl
      rcases here rfl with there | failed | stuck
      · exact there
      · exact absurd written failed
      · exact absurd (by rw [marker', marker]; exact stuck) free
  · rcases ready with back | ⟨same, nothing, _⟩
    · exact absurd (goesBack back) succeeds
    · exact Or.inr ⟨succeeds, (same.trans (putBackForRollback_stays nothing)).trans rolled.1⟩

/-- One startup that is ready keeps code and data together. -/
theorem automaticRollback_ends {platform : Platform} {boot : Option Text}
    (ready : Ready P render s (.startup platform boot f)) :
    (automaticRollback P render f platform boot).Ends s fun r s' =>
      r = .error .killed ∨ Together platform s r s' ∧ Counted s s' := by
  have check := rollbackNeeded_ends (P := P) (f := f) boot s
  unfold automaticRollback
  cases ran : rollbackNeeded P f boot s with
  | error e s₁ =>
    rw [ends_bind_of_error ran]
    rw [ends_of_error ran] at check
    exact Or.inr ⟨Or.inr ⟨by rintro ⟨⟩, check.1.sameData⟩, Or.inl (by rw [check.1])⟩
  | ok needed s₁ =>
    rw [ends_bind_of_ok ran]
    rw [ends_of_ok ran] at check
    cases needed with
    | false => exact Or.inr ⟨Or.inr ⟨by rintro ⟨⟩, check.1.sameData⟩, Or.inl (by rw [check.1])⟩
    | true =>
      have present : s.marker ≠ none := by
        intro absent
        have quiet := rollbackNeeded_of_none (P := P) (f := f) boot absent
        rw [ran] at quiet
        cases quiet
      have ready := ready (by rw [reply, ran])
      rw [after_of_ok ran] at ready
      have only : s₁ = { s with marker := s₁.marker } := check.1
      have toStart : ∀ r s', Together platform s₁ r s' → Together platform s r s' := by
        rintro r s' (⟨succeeds, initiated⟩ | ⟨fails, same⟩)
        · refine Or.inl ⟨succeeds, ?_⟩
          rw [only] at initiated
          cases platform <;> exact initiated
        · exact Or.inr ⟨fails, check.1.sameData.trans same⟩
      have count : s₁.restores = s.restores := by rw [only]
      simp only [if_true]
      rw [ends_bind]
      refine (restorePreUpdateData_ends s₁).mono fun r s₂ ends => ?_
      rcases ends with rfl | ⟨e, rfl, rfl⟩ | ⟨rfl, ⟨rfl, m, read, none⟩ | ⟨⟨m, a, read, found⟩, restored⟩⟩
      · exact Or.inl rfl
      · exact Or.inr ⟨Or.inr ⟨by rintro ⟨⟩, check.1.sameData⟩, Or.inl count⟩
      · have either : CodeGoesBack P f s₂ platform ∨ SameData s₂ s₂ ∧ NothingToPutBack P render f s₂ ∧
            (platform = .linux → s₂.previous = true ∨ f.rollbackWrite ≠ Option.none ∨ f.clear = true ∧ s₂.marker ≠ Option.none) := by
          refine ready.imp_right fun stays => ?_
          unfold DataStays at stays
          rw [read] at stays
          dsimp only at stays
          rw [none] at stays
          exact ⟨⟨rfl, rfl, rfl⟩, stays⟩
        refine (rest_ends rfl rfl rfl either).mono fun r s' ends => ?_
        obtain ⟨together, restores, _⟩ := ends
        refine Or.inr ⟨toStart r s' together, ?_⟩
        exact Or.inl (restores.trans count)
      · have back : CodeGoesBack P f s₁ platform := by
          refine ready.resolve_right fun stays => ?_
          unfold DataStays at stays
          rw [read] at stays
          dsimp only at stays
          rw [found] at stays
          exact stays
        have frame : s₂.marker = s₁.marker ∧ s₂.cache = s₁.cache ∧ s₂.previous = s₁.previous ∧ s₂.restores = s₁.restores + 1 := by
          rw [restored]
          exact ⟨rfl, rfl, rfl, rfl⟩
        obtain ⟨marker, cache, previous, restores⟩ := frame
        refine (rest_ends marker cache previous (Or.inl back)).mono fun r s' ends => ?_
        obtain ⟨together, same, gone⟩ := ends
        exact Or.inr ⟨toStart r s' together, Or.inr ⟨present, by rw [same, restores, count], gone back⟩⟩

/-- Until it is cleared, a marker has had its data restored no more than once. -/
def OnceRestored (s : DataFolder) : Prop := s.restores = 0 ∨ s.restores = 1 ∧ s.marker = none

theorem OnceRestored.startup (once : OnceRestored s) (counted : Counted s s')
    (kept : s.marker = none → s'.marker = none) : OnceRestored s' := by
  rcases counted with same | ⟨present, more, gone⟩
  · rcases once with zero | ⟨one, absent⟩
    · exact Or.inl (same.trans zero)
    · exact Or.inr ⟨same.trans one, kept absent⟩
  · rcases once with zero | ⟨_, absent⟩
    · exact Or.inr ⟨by rw [more, zero], gone⟩
    · exact absurd absent present

theorem automaticRollback_of_none (render : Json → Option Bytes) (platform : Platform) (boot : Option Text) (absent : s.marker = none) :
    automaticRollback P render f platform boot s = .ok false s := by
  unfold automaticRollback
  rw [bind_of_ok (rollbackNeeded_of_none boot absent)]
  rfl

theorem OnceRestored.keep {e : Event} (once : OnceRestored s) (ready : Ready P render s e)
    (moves : (life P render).next s e = some s') : OnceRestored s' := by
  cases e with
  | startup platform boot f =>
    have ends := automaticRollback_ends ready
    have absent := automaticRollback_of_none (P := P) (f := f) (s := s) render platform boot
    simp only [life] at moves
    cases ran : automaticRollback P render f platform boot s with
    | ok r t =>
      rw [ran] at moves
      cases moves
      rw [ends_of_ok ran] at ends
      refine once.startup (ends.resolve_left nofun).2 fun none => ?_
      cases (absent none).symm.trans ran
      exact none
    | error failure t =>
      rw [ran] at moves
      rw [ends_of_error ran] at ends
      have kept : s.marker = none → t.marker = none := by
        intro none
        cases (absent none).symm.trans ran
      cases failure with
      | killed => cases moves
      | os =>
        cases moves
        exact once.startup (ends.resolve_left nofun).2 kept
      | python e =>
        cases moves
        exact once.startup (ends.resolve_left nofun).2 kept
  | confirmed =>
    cases moves
    exact once.imp_right fun ⟨one, _⟩ => ⟨one, rfl⟩
  | updating marker =>
    cases moves
    exact Or.inl rfl
  | changes t =>
    cases moves
    exact once

/-- In every run in which a startup that asks for a rollback can take the code
back, or has no data to put back, code and data go back together, and the data
of one update is restored no more than once. -/
theorem code_and_data_together {s : DataFolder} (reach : Reach (life P render) (Ready P render) s) :
    s.restores ≤ 1 ∧ ∀ platform boot f, Ready P render s (.startup platform boot f) →
      (automaticRollback P render f platform boot).reply s ≠ .error .killed →
        Together platform s ((automaticRollback P render f platform boot).reply s)
          ((automaticRollback P render f platform boot).after s) := by
  have once : OnceRestored s := by
    refine reach.invariant (I := OnceRestored) (fun s start => Or.inl start) ?_
    exact fun _ _ _ _ once ready moves => once.keep ready moves
  constructor
  · rcases once with zero | ⟨one, _⟩ <;> omega
  · intro platform boot f ready alive
    exact ((ends_iff.mp (automaticRollback_ends ready)).resolve_left alive).1

section

/-- An update whose first startup has failed, with the backup taken before it. -/
def crashed (previous : Bool) : DataFolder where
  marker := (appliedMarker.next firstBoot).file
  disk := ⟨some updatedRoom, none, none, none⟩
  library := []
  running := .elsewhere
  logins := none
  archives := [⟨[], text "pre-update-v0.31.0-x.zip", 0, createBackup ⟨some room, [], none⟩⟩]
  cache := none
  previous := previous

def secondMarker : Marker := (appliedMarker.next firstBoot).next firstBoot

theorem readMarker_file {m : Marker} (few : m.attempts < 10 ^ Json.Scan.intLimit) (here : s.marker = m.file) :
    readMarker P false s = .ok (.obj m.readBack.fields) s := by
  have reads : readPendingMarker P s.marker = .ok (.obj m.readBack.fields) s.marker := by
    rw [readPendingMarker_eq, here, Marker.marker_file few]
    rfl
  exact onMarker_of_ok reads

theorem crashed_needs (previous : Bool) : rollbackNeeded plainPython {} (some firstBoot.id) (crashed previous) =
    .ok true { crashed previous with marker := secondMarker.file } := by
  have one := few 1 (by decide)
  have check := Marker.checkRollbackNeeded_file (P := plainPython) (m := appliedMarker.next firstBoot) one firstBoot
    (few 2 (by decide))
  rw [checkRollbackNeeded_of_marker (Marker.marker_file one) nofun] at check
  obtain ⟨attempts, file, records, answers⟩ := bind_eq_ok.mp check
  obtain ⟨two, rfl⟩ := pure_eq_ok.mp answers
  have here : readMarker plainPython false (crashed previous) = .ok _ (crashed previous) := readMarker_file one rfl
  have counted := onMarker_of_ok (s := crashed previous) records
  unfold rollbackNeeded
  rw [bind_of_ok here]
  refine (bind_of_ok counted _).trans ?_
  exact congrArg (fun b => Result.ok b _) two

/-- The folder when its data has been restored. -/
def crashedRestored (previous : Bool) : DataFolder :=
  { crashed previous with
    marker := secondMarker.file
    disk := (restoreUserData {} (createBackup ⟨some room, [], none⟩) false).after ⟨some updatedRoom, none, none, none⟩
    restores := 1 }

set_option maxRecDepth 4000 in
theorem crashed_restores (previous : Bool) :
    restorePreUpdateData plainPython {} { crashed previous with marker := secondMarker.file } = .ok () (crashedRestored previous) := by
  have reads : readMarker plainPython false { crashed previous with marker := secondMarker.file } =
      .ok _ { crashed previous with marker := secondMarker.file } := readMarker_file (m := secondMarker) (few 2 (by decide)) rfl
  have found : backupToRestore (crashed previous).archives (.obj secondMarker.readBack.fields) =
      .ok (some ⟨[], text "pre-update-v0.31.0-x.zip", 0, createBackup ⟨some room, [], none⟩⟩) := rfl
  have restores : restoreUserData {} (createBackup ⟨some room, [], none⟩) false ⟨some updatedRoom, none, none, none⟩ =
      .ok true (crashedRestored previous).disk := by rfl
  unfold restorePreUpdateData
  rw [bind_of_ok reads, get_bind]
  dsimp only
  rw [found]
  exact restoreData_of_ok restores

theorem crashed_runs (previous : Bool) :
    automaticRollback plainPython (fun _ => none) {} .linux (some firstBoot.id) (crashed previous) =
      .ok true { crashedRestored previous with marker := none, applyRollback := true } := by
  have reads : readMarker plainPython false (crashedRestored previous) = .ok _ (crashedRestored previous) :=
    readMarker_file (m := secondMarker) (few 2 (by decide)) rfl
  unfold automaticRollback
  rw [bind_of_ok (crashed_needs previous), if_pos rfl, bind_of_ok (crashed_restores previous)]
  show performRollback plainPython {} .linux (crashedRestored previous) = _
  unfold performRollback
  rw [bind_of_ok reads]
  rfl

/-- With a previous version to go back to, the second failed startup takes code
and data back. -/
theorem code_and_data_together_crashed : Together .linux (crashed true)
    ((automaticRollback plainPython (fun _ => none) {} .linux (some firstBoot.id)).reply (crashed true))
    ((automaticRollback plainPython (fun _ => none) {} .linux (some firstBoot.id)).after (crashed true)) := by
  have start : Reach (life plainPython fun _ => none) (Ready plainPython fun _ => none) (crashed true) := .init rfl
  refine (code_and_data_together start).2 .linux (some firstBoot.id) {} (fun _ => Or.inl ?_) ?_
  · have reads : (readMarker plainPython false).reply
        { crashed true with marker := secondMarker.file } = .ok (.obj secondMarker.readBack.fields) := by
      rw [reply, readMarker_file (m := secondMarker) (few 2 (by decide)) rfl]
    rw [after_of_ok (crashed_needs true)]
    exact ⟨rfl, _, (.str (text "0.31.0"), .str (text "0.32.0")), reads, rfl, rfl, rfl⟩
  · rw [reply, crashed_runs]
    rintro ⟨⟩

/-- Without one it takes the data back alone, and ends the process. -/
theorem data_alone_went_back :
    ¬Together .linux (crashed false)
      ((automaticRollback plainPython (fun _ => none) {} .linux (some firstBoot.id)).reply (crashed false))
      ((automaticRollback plainPython (fun _ => none) {} .linux (some firstBoot.id)).after (crashed false)) ∧
    ((automaticRollback plainPython (fun _ => none) {} .linux (some firstBoot.id)).after (crashed false)).disk.projects ≠
      (crashed false).disk.projects := by
  have runs := crashed_runs false
  constructor
  · rw [reply, after, runs]
    rintro (⟨_, there, _⟩ | ⟨fails, _⟩)
    · cases there
    · exact fails rfl
  · rw [after, runs]
    decide

end

end OpenAvc.Updater.Automatic
