import OpenAvc.Library.Swapped

namespace OpenAvc.Library

open Storage
open OpenAvc.Logins (Disk Entries Exc Fernet Python Registry System)
open OpenAvc.Updater (Cut)

/-- A call of the library, with what its file operations come to. -/
inductive Call
  | replace (r : Running) (f : Replacing)
  | save (r : Running) (looks : Option Stop) (f : Writing)
  | list (loads : Option (List Logins.Outcome))

/-- The copies of one id between calls: what is on disk, the last tree that was
saved there complete, and, after a `replace_in_library` that raised, the data folder
as it was before. -/
structure History where
  copies : Copies
  complete : FileTree
  raised : Option Disk := none

/-- How a call ends, and what it leaves. A process that died starts again with
nothing loaded. -/
def leaves {α : Type} (op : Op α) (s : Copies) : Option Halt × Copies :=
  match op s with
  | .ok _ s' => (none, s')
  | .error .dies s' => (some .dies, { s' with system := { s'.system with store := {} } })
  | .error (.raises e) s' => (some (.raises e), s')

section

variable (P : Python) (F : Fernet) (R : Registry) (id : String)

/-- The last complete tree after a copy of `r` was to be written: the tree under the
id where it is whole. -/
def completed (r : Running) (created : Text) (faults : List Logins.Outcome) (h : History) (project : Option FileTree) : FileTree :=
  match r.dumped (text id) created with
  | .error _ => h.complete
  | .ok data => match fileLibraryLogins P F R (text id) data { h.copies.system with faults }, project with
    | .ok data' _, some t => if r.whole data' t then t else h.complete
    | _, _ => h.complete

/-- The last complete tree after a replace -/
def replaced (r : Running) (f : Replacing) (h : History) (project : Option FileTree) : FileTree :=
  match carriedOver P (h.copies.folder .project) r.now f.reads h.copies with
  | .ok created _ => completed P F R id r created f.logins h project
  | .error .. => h.complete

def History.next (h : History) : Call → Option History
  | .replace r f =>
    let left := leaves (replaceInLibrary P F R (text id) r f) h.copies
    some {
      copies := left.2
      complete := replaced P F R id r f h (left.2.folder .project)
      raised := match left.1 with
        | some (.raises _) => some h.copies.system.disk
        | _ => none }
  | .save r looks f =>
    let left := leaves (saveToLibrary P F R (text id) r looks f) h.copies
    some {
      copies := left.2
      complete := completed P F R id r r.now f.logins h (left.2.folder .project) }
  | .list loads => some { copies := (leaves (listProjects P F id loads) h.copies).2, complete := h.complete }

/-- The calls of one library id, from a saved project. -/
def library : Run.Machine History Call where
  init h := h.copies.folder .project = some h.complete ∧ hasAvc (some h.complete) = true ∧ h.raised = none
  next := History.next P F R id

/-- The logins filed under an id in the login file. -/
def filedLogins (sid : Text) (d : Disk) : Entries :=
  (match d.contents P F with
  | .ok entries => entries
  | .error _ => []).filter fun u => u.1.1 = some sid

/-- A complete tree is on disk, and a replace that raised left the logins filed under
the id as they were. -/
structure Kept (h : History) : Prop where
  tree : h.copies.folder .project = some h.complete ∨ h.copies.folder .previous = some h.complete
  logins : ∀ d, h.raised = some d → filedLogins P F (text id) h.copies.system.disk = filedLogins P F (text id) d

/-- What a replace needs that comes as far as to delete the side folders. -/
structure Safe (h : History) (r : Running) (f : Replacing) : Prop where
  whole : h.copies.folder .project = some h.complete
  undone : f.into = some .os → f.back ≠ some .os
  filed : ∀ created s, carriedOver P (h.copies.folder .project) r.now f.reads h.copies = .ok created s →
    (∀ data, r.dumped (text id) created = .ok data →
      Settled P F R (text id) data { h.copies.system with faults := f.logins }) ∨ Smooth R (text id) r created f

/-- A replace starts from a complete tree, the rename that undoes it does not fail, and
nothing fails once it has changed the logins. -/
def Careful (h : History) : Call → Prop
  | .replace r f => f.looks = none → hasAvc (h.copies.folder .project) = true → f.reads ≠ some .killed → Safe P F R id h r f
  | _ => True

end

variable {P : Python} {F : Fernet} {R : Registry} {id : String} {s : Copies} {h h' : History}
  {r : Running} {f : Replacing} {created : Text} {faults : List Logins.Outcome} {project : Option FileTree}

theorem leaves_ends {α : Type} {op : Op α} {Q : Except Halt α → Copies → Prop} (ends : op.Ends s Q) :
    ∃ result s', Q result s' ∧ (leaves op s).2.folder = s'.folder ∧ (leaves op s).2.system.disk = s'.system.disk ∧
      ∀ e, (leaves op s).1 = some (.raises e) → result = .error (.raises e) := by
  unfold EStateM.Ends at ends
  unfold leaves
  cases ran : op s with
  | ok a s' =>
    rw [ran] at ends
    exact ⟨_, _, ends, rfl, rfl, fun _ other => by cases other⟩
  | error halt s' =>
    rw [ran] at ends
    cases halt with
    | dies => exact ⟨_, _, ends, rfl, rfl, fun _ other => by cases other⟩
    | raises e => exact ⟨_, _, ends, rfl, rfl, fun _ same => by cases same; rfl⟩

/-! The last complete tree. -/

theorem completed_cases (P : Python) (F : Fernet) (R : Registry) (id : String) (r : Running) (created : Text)
    (faults : List Logins.Outcome) (h : History) (project : Option FileTree) : completed P F R id r created faults h project = h.complete ∨
    project = some (completed P F R id r created faults h project) ∧
      hasAvc (some (completed P F R id r created faults h project)) = true := by
  unfold completed
  split
  · exact Or.inl rfl
  · split
    · rename_i data' system t _
      by_cases whole : r.whole data' t = true
      · rw [if_pos whole]
        refine Or.inr ⟨rfl, ?_⟩
        unfold Running.whole at whole
        rw [Bool.and_eq_true, decide_eq_true_eq] at whole
        unfold hasAvc
        rw [Option.getD_some, FileTree.file?_eq_some.mp whole.1]
        rfl
      · rw [if_neg whole]
        exact Or.inl rfl
    · exact Or.inl rfl

/-- A tree that is written is the last complete one. -/
theorem completed_whole {data data' : Json} {system : System} {t : FileTree} (dumped : r.dumped (text id) created = .ok data)
    (files : fileLibraryLogins P F R (text id) data { h.copies.system with faults } = .ok data' system)
    (whole : r.whole data' t = true) : completed P F R id r created faults h (some t) = t := by
  unfold completed
  rw [dumped]
  dsimp only
  rw [files]
  dsimp only
  rw [if_pos whole]

/-! The calls. -/

/-- A replace that finds nothing, or is stopped before it deletes anything. -/
theorem replaceInLibrary_idle {sid : Text} (stops : ¬(f.looks = none ∧ hasAvc (s.folder .project) = true ∧
    f.reads ≠ some .killed)) : (replaceInLibrary P F R sid r f).Ends s fun _ s' => s' = s := by
  unfold replaceInLibrary
  rw [EStateM.ends_bind, ends_proceed]
  cases looks : f.looks with
  | some stop => rfl
  | none =>
    show EStateM.Ends _ _ _
    rw [EStateM.ends_bind, EStateM.ends_get]
    show EStateM.Ends (ite _ _ _) _ _
    rw [EStateM.ends_ite]
    refine ⟨fun _ => rfl, fun found => ?_⟩
    have there : hasAvc (s.folder .project) = true := by simpa using found
    have killed : f.reads = some .killed := by
      by_contra survives
      exact stops ⟨looks, there, survives⟩
    have dies : carriedOver P (s.folder .project) r.now f.reads s = .error .dies s := by
      unfold carriedOver
      rw [killed]
      rfl
    rw [EStateM.ends_bind_of_error dies]

theorem saveToLibrary_ends (P : Python) (F : Fernet) (R : Registry) (sid : Text) (r : Running) (looks : Option Stop)
    (w : Writing) (s : Copies) : (saveToLibrary P F R sid r looks w).Ends s fun _ s' => (hasAvc (s.folder .project) = true → s'.folder = s.folder) ∧
      ∀ q, q ≠ .project → s'.folder q = s.folder q := by
  unfold saveToLibrary
  rw [EStateM.ends_bind, ends_proceed]
  cases looks with
  | some stop => exact ⟨fun _ => rfl, fun _ _ => rfl⟩
  | none =>
    show EStateM.Ends _ _ _
    rw [EStateM.ends_bind, EStateM.ends_get]
    show EStateM.Ends (ite _ _ _) _ _
    rw [EStateM.ends_ite]
    refine ⟨fun _ => ⟨fun _ => rfl, fun _ _ => rfl⟩, fun absent => ?_⟩
    refine (writeProjectTree_ends P F R sid .project r r.now w s).mono fun result s' written => ⟨fun there => absurd there absent, written.1⟩

theorem listProjects_ends (P : Python) (F : Fernet) (id : String) (loads : Option (List Logins.Outcome)) (s : Copies) :
    (listProjects P F id loads).Ends s fun _ s' => s'.folder = s.folder := by
  unfold listProjects
  cases loads with
  | none => rfl
  | some faults =>
    show EStateM.Ends _ _ _
    rw [EStateM.ends_bind]
    cases ran : Logins.load P F { s.system with faults } with
    | ok a system =>
      rw [EStateM.ends_of_ok (onLogins_ok ran)]
      rfl
    | error e system =>
      obtain ⟨halt, stops, _⟩ := onLogins_error ran
      rw [EStateM.ends_of_error stops]

/-- What every call keeps. -/
structure Guarded (P : Python) (F : Fernet) (id : String) (h : History) : Prop extends Kept P F id h where
  avc : hasAvc (some h.complete) = true

/-- After a call that may have written a tree, the last complete one is still there. -/
theorem complete_kept (P : Python) (F : Fernet) (R : Registry) (id : String) (r : Running) (created : Text)
    (faults : List Logins.Outcome) {s' : Copies} (avc : hasAvc (some h.complete) = true)
    (kept : s'.folder .project = some h.complete ∨ s'.folder .previous = some h.complete) :
    (s'.folder .project = some (completed P F R id r created faults h (s'.folder .project)) ∨
      s'.folder .previous = some (completed P F R id r created faults h (s'.folder .project))) ∧
      hasAvc (some (completed P F R id r created faults h (s'.folder .project))) = true := by
  rcases completed_cases P F R id r created faults h (s'.folder .project) with same | ⟨new, there⟩
  · rw [same]
    exact ⟨kept, avc⟩
  · exact ⟨Or.inl new, there⟩

theorem replaced_kept {s' : Copies} (avc : hasAvc (some h.complete) = true)
    (kept : (s'.folder .project = some h.complete ∨ s'.folder .previous = some h.complete) ∨
      Built P F R (text id) r f h.copies s') :
    (s'.folder .project = some (replaced P F R id r f h (s'.folder .project)) ∨
      s'.folder .previous = some (replaced P F R id r f h (s'.folder .project))) ∧
      hasAvc (some (replaced P F R id r f h (s'.folder .project))) = true := by
  unfold replaced
  rcases kept with kept | ⟨created, carries, data, data', system, t, dumped, files, here, whole⟩
  · split
    · exact complete_kept P F R id r _ _ avc kept
    · exact ⟨kept, avc⟩
  · rw [carries]
    dsimp only
    have new := completed_whole (h := h) dumped files whole
    rcases completed_cases P F R id r created f.logins h (s'.folder .project) with same | ⟨new', there⟩
    · rw [here] at same ⊢
      rw [new] at same ⊢
      exact ⟨Or.inl rfl, same ▸ avc⟩
    · exact ⟨Or.inl new', there⟩

theorem Guarded.replace (guarded : Guarded P F id h) (careful : Careful P F R id h (.replace r f))
    (step : h.next P F R id (.replace r f) = some h') : Guarded P F id h' := by
  obtain ⟨⟨tree, logins⟩, avc⟩ := guarded
  obtain rfl := Option.some.inj step
  have ends : (replaceInLibrary P F R (text id) r f).Ends h.copies fun result s' =>
      ((s'.folder .project = some h.complete ∨ s'.folder .previous = some h.complete) ∨
        Built P F R (text id) r f h.copies s') ∧
      ∀ e, result = .error (.raises e) → s'.system.disk = h.copies.system.disk := by
    by_cases comes : f.looks = none ∧ hasAvc (h.copies.folder .project) = true ∧ f.reads ≠ some .killed
    · obtain ⟨whole, undone, filed⟩ := careful comes.1 comes.2.1 comes.2.2
      refine (replaceInLibrary_ends whole undone filed).mono fun result s' ends => ⟨?_, ends.2⟩
      rcases ends.1 with old | aside | built
      · exact Or.inl (Or.inl old)
      · exact Or.inl (Or.inr aside)
      · exact Or.inr built
    · refine (replaceInLibrary_idle comes).mono fun result s' same => ?_
      subst same
      exact ⟨Or.inl tree, fun _ _ => rfl⟩
  obtain ⟨result, s', ⟨kept, same⟩, folders, disk, raises⟩ := leaves_ends ends
  obtain ⟨there, avc'⟩ := replaced_kept avc kept
  rw [← folders] at there avc'
  refine ⟨⟨there, fun d raised => ?_⟩, avc'⟩
  dsimp only at raised
  split at raised
  · rename_i e halt
    cases raised
    show filedLogins P F (text id) (leaves _ _).2.system.disk = _
    rw [disk, same e (raises e halt)]
  · cases raised

/-- What a call that is no replace leaves under the id. -/
theorem Guarded.quiet (guarded : Guarded P F id h) {s' : Copies} (folders : s'.folder = h.copies.folder) :
    Guarded P F id { copies := s', complete := h.complete } :=
  ⟨⟨by rw [folders]; exact guarded.tree, fun _ other => by cases other⟩, guarded.avc⟩

theorem Guarded.save (guarded : Guarded P F id h) {looks : Option Stop} {w : Writing}
    (step : h.next P F R id (.save r looks w) = some h') : Guarded P F id h' := by
  obtain ⟨⟨tree, logins⟩, avc⟩ := guarded
  obtain rfl := Option.some.inj step
  obtain ⟨result, s', ⟨found, others⟩, folders, -, -⟩ := leaves_ends
    (saveToLibrary_ends P F R (text id) r looks w h.copies)
  have kept : s'.folder .project = some h.complete ∨ s'.folder .previous = some h.complete := by
    by_cases there : hasAvc (h.copies.folder .project) = true
    · rw [found there]
      exact tree
    · rcases tree with here | aside
      · rw [here] at there
        exact absurd avc there
      · exact Or.inr ((others .previous (by decide)).trans aside)
  obtain ⟨there, avc'⟩ := complete_kept P F R id r r.now w.logins avc kept
  rw [← folders] at there avc'
  exact ⟨⟨there, fun _ other => by cases other⟩, avc'⟩

theorem Guarded.next (guarded : Guarded P F id h) {call : Call} (careful : Careful P F R id h call)
    (step : h.next P F R id call = some h') : Guarded P F id h' := by
  cases call with
  | replace r f => exact guarded.replace careful step
  | save r looks w => exact guarded.save step
  | list loads =>
    obtain rfl := Option.some.inj step
    obtain ⟨result, s', same, folders, -, -⟩ := leaves_ends (listProjects_ends P F id loads h.copies)
    exact guarded.quiet (folders.trans same)

/-- In every run of careful calls, with any of them ended anywhere, the last complete tree
of an id is under it or beside it, and a replace that raised left its logins. -/
theorem replacing_keeps (P : Python) (F : Fernet) (R : Registry) (id : String) (h : History)
    (reach : Run.Reach (library P F R id) (Careful P F R id) h) : Kept P F id h := by
  have guarded : Guarded P F id h := by
    refine reach.invariant (fun h start => ?_) fun h call h' _ guarded careful step => guarded.next careful step
    obtain ⟨here, avc, raised⟩ := start
    exact ⟨⟨Or.inl here, fun d other => by rw [raised] at other; cases other⟩, avc⟩
  exact guarded.toKept

/-! A saved room, and a running project to be written over it. -/

/-- Nothing installed that declares a login. -/
def noSecrets : Registry where
  secretSettings _ := []
  declaredFor _ := {}

def bareRoom : Running where
  data := .obj [(text "project", .obj [])]
  scripts := none
  assets := none
  ui := none
  themes := none
  name := text "Room"
  description := []
  now := text "now"
  modified := text "now"
  sound := by decide

/-- A saved copy, with the file the bytes of which are `b`. -/
def savedCopy (b : Bytes) : History where
  copies := { folder := fun place => if place = .project then some [(avcPath, .file b)] else none, system := { disk := {} } }
  complete := [(avcPath, .file b)]

/-- A login file that cannot be looked at, and no date in the saved copy. -/
def unreadable : Replacing where
  logins := [.fails .os]
  reads := some .os

/-- The process dies between the two renames, and a save then puts the tree in place. -/
theorem died_between_renames : ∃ h, Kept Python.plain Fernet.plain "room" h ∧
    h.copies.folder .previous = some [(avcPath, .file [1])] ∧ h.copies.folder .project = some h.complete ∧
    h.complete ≠ [(avcPath, .file [1])] := by
  have start : Run.Reach (library Python.plain Fernet.plain noSecrets "room")
      (Careful Python.plain Fernet.plain noSecrets "room") (savedCopy [1]) := .init ⟨rfl, rfl, rfl⟩
  have careful : Careful Python.plain Fernet.plain noSecrets "room" (savedCopy [1])
      (.replace bareRoom { unreadable with into := some .killed }) := by
    intro _ _ _
    refine ⟨rfl, fun other => (by cases other), fun created s carries => Or.inl fun data dumped => ⟨?_, ?_⟩⟩
    · intro found finds
      cases dumped
      cases finds
      rfl
    · intro present system' _ loads
      cases loads
  have reach : Run.Reach (library Python.plain Fernet.plain noSecrets "room") _ _ :=
    .step (l := .save bareRoom none { logins := [.fails .os] }) (.step start careful rfl) (by exact trivial) rfl
  refine ⟨_, replacing_keeps Python.plain Fernet.plain noSecrets "room" _ reach, ?_⟩
  decide +kernel

/-- The second rename fails and the one that is to undo it too: the clean-up deletes the saved copy. -/
theorem copy_lost : ¬∀ h, Run.Reach (library Python.plain Fernet.plain noSecrets "room") Run.always h →
    Kept Python.plain Fernet.plain "room" h := by
  intro all
  have reach : Run.Reach (library Python.plain Fernet.plain noSecrets "room") Run.always _ :=
    .step (.init (s := savedCopy [1]) ⟨rfl, rfl, rfl⟩)
      (l := .replace bareRoom { unreadable with into := some .os, back := some .os }) trivial rfl
  exact absurd (all _ reach).tree (by decide +kernel)

end OpenAvc.Library
