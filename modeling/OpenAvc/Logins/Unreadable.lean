import OpenAvc.Logins.Project
import OpenAvc.Logins.Written

namespace OpenAvc.Logins

open EStateM (Ends reply after)

section

variable (P : Python) (F : Fernet)

/-- A call on the store, or of `move_logins`. -/
inductive Call
  | secret (owner : Owner) (field : Text) (library : Option Text)
  | pluginItems (pluginId : Text) (library : Option Text)
  | libraries
  | verify
  | save (deviceId driver : Text) (fields : List (Text × Text)) (library : Option Text)
  | store (found : List FoundLogin) (library : Option Text) (typed : Bool)
  | adoptLibrary (library : Text) (present : Owner → Bool)
  | fileLibrary (library : Text) (present : Owner → Bool)
  | copyLibrary (source target : Text)
  | dropLibrary (library : Text)
  | sweep (present : Owner → Bool) (now : DateTime)
  | backupCopy (present : Owner → Bool)
  | restoreCopy (t : Text) (present : Owner → Bool)
  | moveLogins (R : Registry) (skip : Text → Bool) (typed : Bool) (library : Option Text) (project : Json)

/-- What calls return. -/
inductive Answer
  | done
  | value (v : Option Text)
  | items (found : List (Text × List (Text × Text)))
  | ids (found : List Text)
  | filed (n : Nat)
  | project (p : Json)

def Call.run : Call → Op Answer
  | .secret owner field library => .value <$> Logins.secret P F owner field library
  | .pluginItems pluginId library => .items <$> Logins.pluginItems P F pluginId library
  | .libraries => .ids <$> Logins.libraries P F
  | .verify => do Logins.verify P F; return .done
  | .save deviceId driver fields library => do Logins.save P F deviceId driver fields library; return .done
  | .store found library typed => do Logins.store P F found library typed; return .done
  | .adoptLibrary library present => do Logins.adoptLibrary P F library present; return .done
  | .fileLibrary library present => do Logins.fileLibrary P F library present; return .done
  | .copyLibrary source target => do Logins.copyLibrary P F source target; return .done
  | .dropLibrary library => do Logins.dropLibrary P F library; return .done
  | .sweep present now => do Logins.sweep P F present now; return .done
  | .backupCopy present => .value <$> Logins.backupCopy P F present
  | .restoreCopy t present => .filed <$> Logins.restoreCopy P F t present
  | .moveLogins R skip typed library project => .project <$> Logins.moveLogins P F R skip typed library project

/-- A call that found nothing and wrote nothing: a lookup has no value to
give, a write that was asked for raises, and a project keeps its logins. -/
def Call.Refused : Call → Except Exc Answer → Prop
  | .store found _ _, r => found ≠ [] → ∃ e, r = .error e
  | .save _ _ _ _, r => ∃ e, r = .error e
  | .moveLogins _ _ _ _ project, .ok (.project p) => p = project
  | _, .ok (.value v) => v = none
  | _, .ok (.items found) => found = []
  | _, .ok (.ids found) => found = []
  | _, .ok (.filed n) => n = 0
  | _, _ => True

/-- A store that has read nothing yet, in front of a data folder where every
file operation is done. -/
def start (d : Disk) : System := { disk := d }

/-- A sequence of calls; an exception ends its call and no other. -/
def calls (cs : List Call) (s : System) : System :=
  cs.foldl (fun s c => (c.run P F).after s) s

/-- The first load returns exactly the entries that the file holds. -/
def LoadsAll (d : Disk) : Prop :=
  ∃ entries, FileHolds P F d entries ∧
    load P F (start d) = .ok () { disk := d, store := { entries, loaded := true } }

/-- Whatever calls are made, each is refused and leaves the files as they are. -/
def LeavesAlone (d : Disk) : Prop :=
  ∀ cs : List Call, ∀ c : Call,
    c.Refused ((c.run P F).reply (calls P F cs (start d))) ∧ (calls P F (cs ++ [c]) (start d)).disk.file = d.file

variable {P F} {s : System} {d : Disk}

/-- A store that has nothing to give, in front of files that it does not write. -/
structure Shut (F : Fernet) (d : Disk) (s : System) : Prop where
  disk : s.disk = d
  quiet : s.faults = []
  loaded : s.store.loaded = true
  empty : s.store.entries = []
  refuses : s.store.unreadable.isSome ∨ KeyDamaged F d

/-- A file whose first load shuts the store. -/
structure Shuts (P : Python) (F : Fernet) (d : Disk) : Prop where
  present : d.file.isSome
  fails : (∃ reason, d.contents P F = .error (.unreadable reason)) ∨
    KeyDamaged F d ∧ ∃ e, d.contents P F = .error e

/-- Shut, or about to be with the first load. -/
def Closed (F : Fernet) (d : Disk) (s : System) : Prop :=
  Shut F d s ∨ s = start d

theorem Shuts.load_start (shuts : Shuts P F d) : (load P F).Ends (start d) fun _ s => Shut F d s := by
  unfold Ends
  rw [load_of_unloaded rfl]
  have quiet : ({ start d with store := { loaded := true } } : System).faults = [] := rfl
  have found := opened_of_quiet (P := P) (F := F) quiet shuts.present
  rcases shuts.fails with ⟨reason, fails⟩ | ⟨damaged, e, fails⟩
  · simp only [start, fails] at found
    rw [start, EStateM.bind_of_ok found]
    exact ⟨rfl, rfl, rfl, rfl, Or.inl rfl⟩
  · simp only [start, fails] at found
    cases e with
    | unreadable reason =>
      rw [start, EStateM.bind_of_ok found]
      exact ⟨rfl, rfl, rfl, rfl, Or.inl rfl⟩
    | _ =>
      rw [start, EStateM.bind_of_error found]
      exact ⟨rfl, rfl, rfl, rfl, Or.inr damaged⟩

theorem Closed.load (shuts : Shuts P F d) (closed : Closed F d s) : (load P F).Ends s fun _ s' => Shut F d s' := by
  rcases closed with shut | rfl
  · unfold Ends
    rw [load_of_loaded shut.loaded]
    exact shut
  · exact shuts.load_start

/-- A call that loads the store first goes on from a shut one, if it goes on. -/
theorem Closed.load_bind {α : Type} {rest : Unit → Op α} {Q : Except Exc α → System → Prop} (shuts : Shuts P F d)
    (closed : Closed F d s) (raises : ∀ e s', Shut F d s' → Q (.error e) s')
    (goesOn : ∀ s', Shut F d s' → (rest ()).Ends s' Q) : (Logins.load P F >>= rest).Ends s Q := by
  rw [EStateM.ends_bind]
  refine (closed.load shuts).mono fun r s' shut => ?_
  cases r with
  | ok _ => exact goesOn s' shut
  | error e => exact raises e s' shut

theorem Shut.loginKey (shut : Shut F d s) (damaged : KeyDamaged F d) :
    loginKey F s = .error (.unreadable .keyDamaged) s := by
  obtain ⟨key, there, refused⟩ := damaged
  unfold Logins.loginKey
  refine (EStateM.bind_of_ok (read_of_quiet shut.quiet _) _).trans ?_
  refine (EStateM.bind_of_ok (read_of_quiet shut.quiet _) _).trans ?_
  rw [shut.disk, there]
  refine (EStateM.bind_of_ok (read_of_quiet shut.quiet _) _).trans ?_
  rw [shut.disk, there]
  simp only [Option.getD_some, refused, Bool.false_eq_true, if_false]
  rfl

theorem Shut.commit (shut : Shut F d s) (entries : Entries) : ∃ e, commit P F entries s = .error e s := by
  unfold Logins.commit
  rw [EStateM.get_bind]
  cases reason : s.store.unreadable with
  | some r => exact ⟨.unreadable r, rfl⟩
  | none =>
    have damaged : KeyDamaged F d := by
      have := shut.refuses
      rw [reason] at this
      exact this.resolve_left (by simp)
    exact ⟨_, EStateM.bind_of_error (shut.loginKey damaged) _⟩

/-- One login filed in no entries is a change. -/
theorem fileLogin_changes (library : Option Text) (typed : Bool) {found : List FoundLogin} (named : found ≠ []) :
    (found.foldl (fileLogin library typed) ([], false)).2 = true := by
  have stays : ∀ (found : List FoundLogin) (acc : Entries × Bool), acc.2 = true →
      (found.foldl (fileLogin library typed) acc).2 = true := by
    intro found
    induction found with
    | nil => exact fun _ changed => changed
    | cons login found ih =>
      intro acc changed
      refine ih _ ?_
      unfold fileLogin
      dsimp only
      split
      · rfl
      · split
        · rfl
        · exact changed
  cases found with
  | nil => exact absurd rfl named
  | cons login found => exact stays found _ rfl

theorem Shut.closed (shut : Shut F d s) : Closed F d s := Or.inl shut

theorem Closed.quiet (closed : Closed F d s) : s.faults = [] := by
  rcases closed with shut | rfl
  · exact shut.quiet
  · rfl

theorem Closed.store (shuts : Shuts P F d) (closed : Closed F d s) (found : List FoundLogin)
    (library : Option Text) (typed : Bool) :
    (store P F found library typed).Ends s fun r s' => Closed F d s' ∧ (found ≠ [] → ∃ e, r = .error e) := by
  unfold Logins.store
  by_cases unusable : (found.any fun login => login.fields.any fun u => !usable u.2) = true
  · rw [if_pos unusable]
    exact ⟨closed, fun _ => ⟨_, rfl⟩⟩
  · rw [if_neg unusable]
    refine closed.load_bind shuts (fun e s' shut => ⟨shut.closed, fun _ => ⟨e, rfl⟩⟩) fun s' shut => ?_
    simp only [EStateM.ends_bind, EStateM.ends_get, shut.empty]
    cases found with
    | nil => exact ⟨shut.closed, fun named => absurd rfl named⟩
    | cons login found =>
      rw [if_pos (fileLogin_changes library typed (List.cons_ne_nil login found))]
      obtain ⟨e, raises⟩ := shut.commit (P := P) ((login :: found).foldl (fileLogin library typed) ([], false)).1
      unfold Ends
      rw [raises]
      exact ⟨shut.closed, fun _ => ⟨e, rfl⟩⟩

theorem Closed.secret (shuts : Shuts P F d) (closed : Closed F d s) (owner : Owner) (field : Text)
    (library : Option Text) :
    (secret P F owner field library).Ends s fun r s' => Closed F d s' ∧ ∀ v, r = .ok v → v = none := by
  unfold Logins.secret
  refine closed.load_bind shuts (fun e s' shut => ⟨shut.closed, nofun⟩) fun s' shut => ?_
  simp [shut.empty, Store.secret, shut.closed, Except.map]

theorem Closed.pluginItems (shuts : Shuts P F d) (closed : Closed F d s) (pluginId : Text)
    (library : Option Text) :
    (pluginItems P F pluginId library).Ends s fun r s' => Closed F d s' ∧ ∀ l, r = .ok l → l = [] := by
  unfold Logins.pluginItems
  refine closed.load_bind shuts (fun e s' shut => ⟨shut.closed, nofun⟩) fun s' shut => ?_
  simp [shut.empty, Store.pluginItems, shut.closed, Except.map]

theorem Closed.libraries (shuts : Shuts P F d) (closed : Closed F d s) :
    (libraries P F).Ends s fun r s' => Closed F d s' ∧ ∀ l, r = .ok l → l = [] := by
  unfold Logins.libraries
  refine closed.load_bind shuts (fun e s' shut => ⟨shut.closed, nofun⟩) fun s' shut => ?_
  simp only [EStateM.ends_bind, EStateM.ends_get, shut.empty]
  exact ⟨shut.closed, fun _ r => by cases r; rfl⟩

theorem opened_stays (quiet : s.faults = []) : (opened P F).Ends s fun _ s' => s' = s := by
  unfold Ends
  cases there : s.disk.file with
  | none => rw [opened_of_no_file quiet there]
  | some bytes =>
    rw [opened_of_quiet quiet (by rw [there]; rfl)]
    rcases s.disk.contents P F with e | entries
    · cases e <;> rfl
    · rfl

theorem verify_stays (quiet : s.faults = []) : (verify P F).Ends s fun _ s' => s' = s := by
  unfold verify
  rw [EStateM.ends_bind]
  refine (opened_stays quiet).mono fun r s' same => ?_
  subst same
  rcases r with e | ⟨entries, _ | reason⟩
  · rfl
  · simp [raise]
    split <;> simp
  · simp [raise]

theorem Closed.verify (closed : Closed F d s) : (verify P F).Ends s fun _ s' => Closed F d s' :=
  (verify_stays closed.quiet).mono fun _ _ same => same ▸ closed

/-- Nothing is copied from or into no entries. -/
theorem Shut.commitCopies (shut : Shut F d s) (target : Text) (copies : Key × Entry → Option (Key × Entry)) :
    commitCopies P F target copies s = .ok () s := by
  unfold Logins.commitCopies
  rw [EStateM.get_bind, shut.empty]
  rfl

theorem Closed.fileLibrary (shuts : Shuts P F d) (closed : Closed F d s) (library : Text) (present : Owner → Bool) :
    (fileLibrary P F library present).Ends s fun _ s' => Closed F d s' := by
  unfold Logins.fileLibrary
  refine closed.load_bind shuts (fun _ _ shut => shut.closed) fun _ shut => ?_
  unfold Ends
  rw [shut.commitCopies]
  exact shut.closed

theorem Closed.copyLibrary (shuts : Shuts P F d) (closed : Closed F d s) (source target : Text) :
    (copyLibrary P F source target).Ends s fun _ s' => Closed F d s' := by
  unfold Logins.copyLibrary
  refine closed.load_bind shuts (fun _ _ shut => shut.closed) fun _ shut => ?_
  unfold Ends
  rw [shut.commitCopies]
  exact shut.closed

theorem Closed.dropLibrary (shuts : Shuts P F d) (closed : Closed F d s) (library : Text) :
    (dropLibrary P F library).Ends s fun _ s' => Closed F d s' := by
  unfold Logins.dropLibrary
  refine closed.load_bind shuts (fun _ _ shut => shut.closed) fun s' shut => ?_
  simp only [EStateM.ends_bind, EStateM.ends_get]
  split
  · exact shut.closed
  · unfold Ends
    rw [shut.commitCopies]
    exact shut.closed

theorem Closed.adoptLibrary (shuts : Shuts P F d) (closed : Closed F d s) (library : Text) (present : Owner → Bool) :
    (adoptLibrary P F library present).Ends s fun _ s' => Closed F d s' := by
  unfold Logins.adoptLibrary
  refine closed.load_bind shuts (fun _ _ shut => shut.closed) fun s' shut => ?_
  simp only [EStateM.ends_bind, EStateM.ends_get, shut.empty]
  exact shut.closed

theorem Closed.sweep (shuts : Shuts P F d) (closed : Closed F d s) (present : Owner → Bool) (now : DateTime) :
    (sweep P F present now).Ends s fun _ s' => Closed F d s' := by
  unfold Logins.sweep
  refine closed.load_bind shuts (fun _ _ shut => shut.closed) fun _ shut => ?_
  simp [shut.empty, shut.closed]

theorem Closed.backupCopy (shuts : Shuts P F d) (closed : Closed F d s) (present : Owner → Bool) :
    (backupCopy P F present).Ends s fun r s' => Closed F d s' ∧ ∀ v, r = .ok v → v = none := by
  unfold Logins.backupCopy
  refine closed.load_bind shuts (fun e s' shut => ⟨shut.closed, nofun⟩) fun s' shut => ?_
  simp only [EStateM.ends_bind, EStateM.ends_get]
  split
  · simp [shut.closed]
  · rw [EStateM.ends_bind, ends_read shut.quiet]
    dsimp only
    split
    · simp [shut.closed]
    · simp [shut.empty, shut.closed]

theorem KeyDamaged.openText (damaged : KeyDamaged F d) (t : Text) : ∃ e, d.openText P F t = .error e := by
  obtain ⟨key, there, refused⟩ := damaged
  unfold Disk.openText
  cases envelopeOf P t with
  | error e => exact ⟨e, rfl⟩
  | ok envelope =>
    refine ⟨.unreadable .doesNotOpen, ?_⟩
    simp only [there, payloadOf, refused, Bool.false_eq_true, if_false]
    rfl

theorem Closed.restoreCopy (shuts : Shuts P F d) (closed : Closed F d s) (t : Text) (present : Owner → Bool) :
    (restoreCopy P F t present).Ends s fun r s' => Closed F d s' ∧ ∀ n, r = .ok n → n = 0 := by
  refine ends_orElse ?_
  refine closed.load_bind shuts (fun e s' shut => ⟨fun _ => ⟨shut.closed, fun n r => by cases r; rfl⟩, fun _ => ⟨shut.closed, nofun⟩⟩) fun s' shut => ?_
  rw [EStateM.ends_bind, EStateM.ends_get]
  by_cases reason : s'.store.unreadable.isSome = true
  · simp [reason, shut.closed]
  · obtain ⟨e, raises⟩ := KeyDamaged.openText (P := P) (shut.refuses.resolve_left reason) t
    dsimp only
    rw [if_neg reason, EStateM.ends_bind]
    unfold Ends
    rw [openText_of_quiet shut.quiet, shut.disk, raises]
    exact ⟨fun _ => ⟨shut.closed, fun n r => by cases r; rfl⟩, fun _ => ⟨shut.closed, nofun⟩⟩

theorem Closed.stored (shuts : Shuts P F d) (closed : Closed F d s) {found : List FoundLogin} (named : found ≠ [])
    (typed : Bool) (library : Option Text) :
    (stored P F found typed library).Ends s fun r s' => Closed F d s' ∧ ∀ b, r = .ok b → b = false := by
  refine ends_orElse ?_
  rw [EStateM.ends_bind]
  refine (closed.store shuts found library typed).mono fun r s' ⟨closed', raises⟩ => ?_
  obtain ⟨e, rfl⟩ := raises named
  exact ⟨fun _ => ⟨closed', fun b r => by cases r; rfl⟩, fun _ => ⟨closed', nofun⟩⟩

theorem Closed.moveLogins (shuts : Shuts P F d) (closed : Closed F d s) (R : Registry) (skip : Text → Bool)
    (typed : Bool) (library : Option Text) (project : Json) :
    (moveLogins P F R skip typed library project).Ends s fun r s' =>
      Closed F d s' ∧ ∀ p, r = .ok p → p = project := by
  unfold Logins.moveLogins
  rw [EStateM.ends_bind]
  cases findLogins R skip project with
  | error e => exact ⟨closed, by rintro _ ⟨⟩⟩
  | ok found =>
    simp only [Op.ofExcept, EStateM.ends_pure]
    split
    · exact ⟨closed, fun p r => by cases r; rfl⟩
    · rename_i named
      rw [EStateM.ends_bind]
      refine (closed.stored shuts (fun none => named (by rw [none]; rfl)) typed library).mono fun r s' ends => ?_
      obtain ⟨closed', fails⟩ := ends
      cases r with
      | error e => exact ⟨closed', by rintro _ ⟨⟩⟩
      | ok b =>
        cases fails b rfl
        exact ⟨closed', fun p r => by cases r; rfl⟩

/-- A call that gives what is found, where there is nothing to find. -/
theorem answers {α : Type} {op : Op α} {answer : α → Answer} {nothing : α} {c : Call}
    (ends : op.Ends s fun r s' => Closed F d s' ∧ ∀ a, r = .ok a → a = nothing)
    (refused : c.Refused (.ok (answer nothing))) (raises : ∀ e, c.Refused (.error e)) :
    (answer <$> op).Ends s fun r s' => Closed F d s' ∧ c.Refused r := by
  rw [EStateM.ends_map]
  refine ends.mono fun r s' ⟨closed, found⟩ => ⟨closed, ?_⟩
  cases r with
  | error e => exact raises e
  | ok a => exact found a rfl ▸ refused

/-- A call that has nothing to give. -/
theorem finishes {op : Op Unit} {c : Call} (ends : op.Ends s fun _ s' => Closed F d s') (free : c.Refused (.ok .done))
    (raises : ∀ e, c.Refused (.error e)) :
    (op >>= fun _ => pure Answer.done : Op Answer).Ends s fun r s' => Closed F d s' ∧ c.Refused r := by
  rw [EStateM.ends_bind]
  refine ends.mono fun r s' closed => ?_
  cases r with
  | error e => exact ⟨closed, raises e⟩
  | ok _ => exact ⟨closed, free⟩

/-- Every call leaves a shut store shut, and is refused. -/
theorem Closed.call (shuts : Shuts P F d) (closed : Closed F d s) (c : Call) :
    (c.run P F).Ends s fun r s' => Closed F d s' ∧ c.Refused r := by
  cases c with
  | secret owner field library => exact answers (closed.secret shuts owner field library) rfl fun _ => trivial
  | pluginItems pluginId library => exact answers (closed.pluginItems shuts pluginId library) rfl fun _ => trivial
  | libraries => exact answers (closed.libraries shuts) rfl fun _ => trivial
  | backupCopy present => exact answers (closed.backupCopy shuts present) rfl fun _ => trivial
  | restoreCopy t present => exact answers (closed.restoreCopy shuts t present) rfl fun _ => trivial
  | moveLogins R skip typed library project =>
    exact answers (closed.moveLogins shuts R skip typed library project) rfl fun _ => trivial
  | save deviceId driver fields library =>
    rw [Call.run, EStateM.ends_bind]
    refine (closed.store shuts _ library true).mono fun r s' ⟨closed', raises⟩ => ?_
    obtain ⟨e, rfl⟩ := raises (List.cons_ne_nil _ _)
    exact ⟨closed', e, rfl⟩
  | store found library typed =>
    rw [Call.run, EStateM.ends_bind]
    refine (closed.store shuts found library typed).mono fun r s' ⟨closed', raises⟩ => ?_
    cases r with
    | error e => exact ⟨closed', fun _ => ⟨e, rfl⟩⟩
    | ok _ => exact ⟨closed', fun named => absurd (raises named) nofun⟩
  | verify => exact finishes closed.verify trivial fun _ => trivial
  | adoptLibrary library present =>
    exact finishes (closed.adoptLibrary shuts library present) trivial fun _ => trivial
  | fileLibrary library present =>
    exact finishes (closed.fileLibrary shuts library present) trivial fun _ => trivial
  | copyLibrary source target => exact finishes (closed.copyLibrary shuts source target) trivial fun _ => trivial
  | dropLibrary library => exact finishes (closed.dropLibrary shuts library) trivial fun _ => trivial
  | sweep present now => exact finishes (closed.sweep shuts present now) trivial fun _ => trivial

theorem Closed.disk (closed : Closed F d s) : s.disk = d := by
  rcases closed with shut | rfl
  · exact shut.disk
  · rfl

theorem Closed.calls (shuts : Shuts P F d) (closed : Closed F d s) (cs : List Call) :
    Closed F d (calls P F cs s) := by
  induction cs generalizing s with
  | nil => exact closed
  | cons c cs ih => exact ih (EStateM.ends_iff.mp (closed.call shuts c)).1

/-- Files that shut the store are left alone, whatever is called. -/
theorem Shuts.leavesAlone (shuts : Shuts P F d) : LeavesAlone P F d := by
  intro cs c
  have unopened : Closed F d (start d) := Or.inr rfl
  have refused := EStateM.ends_iff.mp ((unopened.calls shuts cs).call shuts c)
  exact ⟨refused.2, by rw [(unopened.calls shuts (cs ++ [c])).disk]⟩

/-- The state an exception leaves that `_load` does not catch: the store
counts as loaded, holds nothing and refuses nothing. -/
def escaped (d : Disk) : System := { disk := d, store := { loaded := true } }

theorem Escapes.load_start (escapes : Escapes P F d) : ∃ e, load P F (start d) = .error e (escaped d) := by
  obtain ⟨present, e, fails, other⟩ := escapes.contents
  refine ⟨e, ?_⟩
  rw [load_of_unloaded rfl]
  have found := opened_of_quiet (P := P) (F := F) (s := escaped d) rfl present
  simp only [escaped, fails] at found
  refine EStateM.bind_of_error (found.trans ?_) _
  cases e with
  | unreadable reason => exact absurd rfl (other reason)
  | _ => rfl

theorem loadsAll_of_contents {entries : Entries} (file : d.file.isSome) (reads : d.contents P F = .ok entries) :
    LoadsAll P F d := by
  obtain ⟨bytes, there⟩ := Option.isSome_iff_exists.mp file
  refine ⟨entries, .of_contents there reads, ?_⟩
  rw [load_of_unloaded rfl]
  have found := opened_of_quiet (P := P) (F := F) (s := escaped d) rfl file
  simp only [escaped, reads] at found
  exact EStateM.bind_of_ok found _

theorem loadsAll_of_no_file (missing : d.file = none) : LoadsAll P F d := by
  refine ⟨[], .absent missing rfl, ?_⟩
  rw [load_of_unloaded rfl]
  exact EStateM.bind_of_ok (opened_of_no_file (P := P) (F := F) (s := escaped d) rfl missing) _

/-- Behind an escaped load a login is filed as if there were no file. -/
theorem escaped_save (healthy : ¬KeyDamaged F d) (deviceId driver : Text) :
    ∃ s, save P F deviceId driver [(text "password", text "secret")] none (escaped d) = .ok () s := by
  have fits : (!usable (text "secret")) = false := by decide
  unfold save Logins.store
  simp only [List.any_cons, List.any_nil, fits, Bool.or_false, Bool.false_eq_true, if_false]
  rw [EStateM.bind_of_ok (load_of_loaded rfl), EStateM.get_bind]
  exact commit_writes rfl rfl healthy _

/-- A file that an escaped load leaves behind is written over by the next save. -/
theorem Escapes.not_kept (escapes : Escapes P F d) (healthy : ¬KeyDamaged F d) :
    ¬(LoadsAll P F d ∨ LeavesAlone P F d) := by
  obtain ⟨e, raises⟩ := escapes.load_start
  rintro (⟨entries, _, loads⟩ | alone)
  · rw [raises] at loads
    cases loads
  · obtain ⟨s, saves⟩ := escaped_save (P := P) healthy (text "device") (text "driver")
    let write : Call := .save (text "device") (text "driver") [(text "password", text "secret")] none
    have refused := (alone [.dropLibrary []] write).1
    have first : calls P F [.dropLibrary []] (start d) = escaped d := by
      simp only [calls, List.foldl_cons, List.foldl_nil, Call.run, after]
      unfold dropLibrary
      rw [EStateM.bind_of_error (EStateM.bind_of_error raises _)]
    rw [first] at refused
    obtain ⟨e', fails⟩ := refused
    rw [Call.run, reply, EStateM.bind_of_ok saves] at fails
    cases fails

/-- The first load gives all the file holds, or everything after it is
refused and the file stays as it is, exactly when reading the file does not
escape or the key file is damaged too. -/
theorem unreadable_file_kept (P : Python) (F : Fernet) (d : Disk) :
    LoadsAll P F d ∨ LeavesAlone P F d ↔ ¬Escapes P F d ∨ KeyDamaged F d := by
  constructor
  · intro kept
    by_contra neither
    rw [not_or, not_not] at neither
    exact neither.1.not_kept neither.2 kept
  · intro condition
    by_cases missing : d.file = none
    · exact Or.inl (loadsAll_of_no_file missing)
    · obtain ⟨bytes, file⟩ := Option.ne_none_iff_exists'.mp missing
      have present : d.file.isSome := by rw [file]; rfl
      cases reads : d.contents P F with
      | ok entries => exact Or.inl (loadsAll_of_contents present reads)
      | error e =>
        refine Or.inr (Shuts.leavesAlone ⟨present, ?_⟩)
        rcases condition with legible | damaged
        · rcases contents_of_not_escapes file legible with ⟨entries, all⟩ | unreadable
          · rw [reads] at all
            cases all
          · exact Or.inl unreadable
        · exact Or.inr ⟨damaged, e, reads⟩

/-- A file of one byte that no UTF-8 text begins with, and no key: the next
save makes a key and writes a new file. -/
theorem unreadable_file_not_kept :
    ¬(LoadsAll Python.plain Fernet.plain { file := some [0xff] } ∨
      LeavesAlone Python.plain Fernet.plain { file := some [0xff] }) := by
  refine Escapes.not_kept (.encoding rfl (by decide)) ?_
  rintro ⟨key, there, _⟩
  cases there

end

end OpenAvc.Logins
