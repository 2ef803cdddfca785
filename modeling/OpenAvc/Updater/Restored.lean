import OpenAvc.Updater.Swap

namespace OpenAvc.Updater

open Storage

variable {f : Fates} {d : Disk}

theorem named_of_last {q : Path} (last : q.getLast? = some "backups") : q ≠ [] := by
  rintro rfl
  cases last

/-- The files of an archive that a restore writes. -/
def accepted (T₀ : FileTree) : List (Path × Bytes) := (archived T₀).filter fun u => acceptable u.1

theorem lookup_archived {T₀ : FileTree} (sound : T₀.Sound) (p : Path) :
    (archived T₀).lookup p = if inUserBackups p then none else T₀.file? p := by
  unfold archived
  have flip := List.lookup_filter_keys (fun p => decide ¬inUserBackups p = true) p T₀.files
  rw [flip]
  have files : T₀.files.lookup p = T₀.file? p := by
    cases held : T₀.file? p with
    | some b => exact List.lookup_of_mem sound.files_apart.distinct (sound.mem_files.mpr held)
    | none =>
      refine List.lookup_eq_none_of_forall fun u member same => ?_
      have found := sound.mem_files.mp (show (u.1, u.2) ∈ T₀.files from member)
      rw [same, held] at found
      cases found
  by_cases inside : inUserBackups p = true <;> simp [inside, files]

theorem lookup_accepted {T₀ : FileTree} (sound : T₀.Sound) (p : Path) :
    (accepted T₀).lookup p = if acceptable p ∧ ¬inUserBackups p then T₀.file? p else none := by
  unfold accepted
  rw [List.lookup_filter_keys acceptable, lookup_archived sound]
  by_cases fits : acceptable p = true <;> by_cases inside : inUserBackups p = true <;> simp [fits, inside]

theorem accepted_apart {T₀ : FileTree} (sound : T₀.Sound) : Apart (accepted T₀) :=
  (sound.files_apart.filter _).filter _

/-- The path of a file in a project's own `backups` folder. -/
def inOwnBackups : Path → Bool
  | _ :: "backups" :: _ :: _ => true
  | _ => false

/-- A live tree as restores of the archive of `T₀` leave it, with the user backups of `T₁`. -/
structure Kept (T₀ T₁ L : FileTree) : Prop where
  own : ∀ p b, inOwnBackups p = true → T₁.file? p = some b → L.file? p = some b
  deep : ∀ p, inUserBackups p = true → inOwnBackups p = false → L.file? p = T₀.file? p
  parents : ∀ p, L.lookup p ≠ none → ∀ q, q <+: p → q ≠ p → q.getLast? = some "backups" → L.lookup q = some .folder
  clear : ∀ q, L.lookup q = some .folder → q.getLast? = some "backups" → ∀ r, r <+: q → (archived T₀).lookup r = none

variable {T₀ T₁ L S : FileTree}

/-- A path below a folder named `backups`. -/
theorem inUserBackups_of_starts {p q : Path} (inside : q <+: p) (apart : q ≠ p) (last : q.getLast? = some "backups") :
    inUserBackups p = true := by
  have member : "backups" ∈ q := List.mem_of_getLast? last
  have up := mem_above_iff.mp (mem_above_of_starts inside apart)
  exact decide_eq_true (up.subset member)

theorem exists_backups {p : Path} (inside : inUserBackups p = true) :
    ∃ q, q <+: p ∧ q ≠ p ∧ q.getLast? = some "backups" := by
  obtain ⟨before, rest, split⟩ := List.append_of_mem (of_decide_eq_true inside)
  have named : p ≠ [] := by
    rintro rfl
    cases before <;> cases split
  refine ⟨before ++ ["backups"], ?_, ?_, by simp⟩
  · refine List.IsPrefix.trans ?_ (List.dropLast_prefix p)
    exact ⟨rest, by simp [split]⟩
  · intro same
    have short := congrArg List.length split
    rw [List.length_dropLast, ← same] at short
    simp at short

theorem mem_accepted {u : Path × Bytes} (member : u ∈ accepted T₀) :
    inUserBackups u.1 = false ∧ ∃ b, (archived T₀).lookup u.1 = some b := by
  have before := List.mem_of_mem_filter member
  refine ⟨by simpa using (List.mem_filter.mp before).2, List.exists_lookup_of_mem (List.mem_map_of_mem before)⟩

/-- The archived tree leaves room for the user backups. -/
theorem Kept.free (kept : Kept T₀ T₁ L) (part : PartOf (accepted T₀) S) {q : Path} (member : q ∈ backupsDirs L) : Free S q := by
  obtain ⟨folder, last⟩ := mem_backupsDirs.mp member
  have clear : ∀ u ∈ accepted T₀, ¬u.1 <+: q := by
    intro u member inside
    obtain ⟨_, b, found⟩ := mem_accepted member
    rw [kept.clear q folder last _ inside] at found
    cases found
  constructor
  · intro p inside
    cases found : S.lookup p with
    | none => rfl
    | some e =>
      cases e with
      | folder =>
        obtain ⟨_, u, listed, up⟩ := part.folder p found
        have below : q ∈ above u.1 := mem_above_iff.mpr (inside.trans (mem_above_iff.mp up))
        have apart : q ≠ u.1 := by
          rintro rfl
          exact clear u listed List.prefix_rfl
        have deep := inUserBackups_of_starts (prefix_of_above below) apart last
        rw [(mem_accepted listed).1] at deep
        cases deep
      | file b =>
        obtain ⟨u, listed, rfl⟩ := part.file p b found
        have apart : q ≠ u.1 := by
          rintro rfl
          exact clear u listed List.prefix_rfl
        have deep := inUserBackups_of_starts inside apart last
        rw [(mem_accepted listed).1] at deep
        cases deep
  · intro r up
    cases found : S.file? r with
    | none => rfl
    | some b =>
      obtain ⟨u, listed, rfl⟩ := part.file r b (FileTree.file?_eq_some.mp found)
      exact absurd (prefix_of_above up) (clear u listed)

theorem Kept.under (kept : Kept T₀ T₁ L) {p : Path} (held : L.lookup p ≠ none) (inside : inUserBackups p = true) :
    Under (backupsDirs L) p := by
  obtain ⟨q, above, apart, last⟩ := exists_backups inside
  exact ⟨q, mem_backupsDirs.mpr ⟨kept.parents p held q above apart last, last⟩, above⟩

/-- A folder above a user-backup folder that is made for it is in no such folder. -/
theorem Kept.not_above (kept : Kept T₀ T₁ L) {p q : Path} (member : q ∈ backupsDirs L) (up : p ∈ above q)
    (away : ¬Under (backupsDirs L) p) {q' : Path} (inside : q' <+: p) (last : q'.getLast? = some "backups") : False := by
  obtain ⟨folder, named⟩ := mem_backupsDirs.mp member
  have shorter := above_length (named_of_last named) up
  have apart : q' ≠ q := by
    rintro rfl
    exact absurd inside.length_le (by omega)
  have held := kept.parents q (by rw [folder]; nofun) q' (inside.trans (prefix_of_above up)) apart last
  exact away ⟨q', mem_backupsDirs.mpr ⟨held, last⟩, inside⟩

theorem not_backups_of_part (part : PartOf (accepted T₀) S) {p : Path} (held : S.lookup p ≠ none) {q : Path}
    (inside : q <+: p) (last : q.getLast? = some "backups") : q = p ∧ S.lookup p ≠ some .folder := by
  cases found : S.lookup p with
  | none => exact absurd found held
  | some e =>
    cases e with
    | folder =>
      obtain ⟨_, u, listed, up⟩ := part.folder p found
      have below : q ∈ above u.1 := mem_above_iff.mpr (inside.trans (mem_above_iff.mp up))
      have named : u.1 ≠ [] := by
        intro empty
        rw [empty] at below
        exact absurd (List.prefix_nil.mp (prefix_of_above below)) (named_of_last last)
      have apart : q ≠ u.1 := by
        intro same
        have shorter := above_length named below
        rw [same] at shorter
        exact absurd shorter (lt_irrefl _)
      have deep := inUserBackups_of_starts (prefix_of_above below) apart last
      rw [(mem_accepted listed).1] at deep
      cases deep
    | file b =>
      obtain ⟨u, listed, rfl⟩ := part.file p b found
      refine ⟨?_, nofun⟩
      by_contra apart
      have deep := inUserBackups_of_starts inside apart last
      rw [(mem_accepted listed).1] at deep
      cases deep

variable {live aside : FileTree}

theorem Carrying.file? (so : Carrying S L (backupsDirs L) live aside) (sound : T₀.Sound)
    (part : PartOf (accepted T₀) S) (whole : ∀ u ∈ accepted T₀, S.lookup u.1 = some (.file u.2)) {p : Path}
    (away : ¬Under (backupsDirs L) p) :
    live.file? p = if acceptable p ∧ ¬inUserBackups p then T₀.file? p else none := by
  rw [← lookup_accepted sound, ← part.file?_eq (accepted_apart sound) whole]
  rcases so.rest p away with same | ⟨absent, folder, _⟩
  · exact FileTree.file?_of_lookup_eq same
  · rw [FileTree.file?_of_folder folder, FileTree.file?_of_lookup_none absent]

theorem inUserBackups_of_own {p : Path} (own : inOwnBackups p = true) : inUserBackups p = true := by
  unfold inOwnBackups at own
  split at own
  · simp [inUserBackups, List.dropLast]
  · cases own

/-- The restored tree is again one that restores leave. -/
theorem Kept.carried (kept : Kept T₀ T₁ L) (sound : T₀.Sound) (part : PartOf (accepted T₀) S)
    (whole : ∀ u ∈ accepted T₀, S.lookup u.1 = some (.file u.2)) (so : Carrying S L (backupsDirs L) live aside) :
    Kept T₀ T₁ live := by
  have here : ∀ q, L.lookup q = some .folder → q.getLast? = some "backups" → live.lookup q = some .folder :=
    fun q folder last => (so.carried q ⟨q, mem_backupsDirs.mpr ⟨folder, last⟩, List.prefix_rfl⟩).trans folder
  constructor
  · intro p b own before
    have held := kept.own p b own before
    have some : L.lookup p ≠ none := by rw [FileTree.file?_eq_some.mp held]; nofun
    rw [← held]
    exact FileTree.file?_of_lookup_eq (so.carried p (kept.under some (inUserBackups_of_own own)))
  · intro p inside foreign
    rw [← kept.deep p inside foreign]
    by_cases under : Under (backupsDirs L) p
    · exact FileTree.file?_of_lookup_eq (so.carried p under)
    · have absent : L.lookup p = none := by
        by_contra held
        exact under (kept.under held inside)
      rw [so.file? sound part whole under, FileTree.file?_of_lookup_none absent, if_neg (by simp [inside])]
  · intro p held q inside apart last
    by_cases under : Under (backupsDirs L) p
    · rw [so.carried p under] at held
      exact here q (kept.parents p held q inside apart last) last
    · rcases so.rest p under with same | ⟨_, _, q', member, up⟩
      · rw [same] at held
        exact absurd (not_backups_of_part part held inside last).1 apart
      · exact (kept.not_above member up under inside last).elim
  · intro q folder last
    by_cases under : Under (backupsDirs L) q
    · rw [so.carried q under] at folder
      exact kept.clear q folder last
    · rcases so.rest q under with same | ⟨_, _, q', member, up⟩
      · rw [same] at folder
        exact absurd folder (not_backups_of_part part (by rw [folder]; nofun) List.prefix_rfl last).2
      · exact (kept.not_above member up under List.prefix_rfl last).elim

/-- The files of the restored tree outside the projects' own `backups` folders. -/
theorem Kept.restored (kept : Kept T₀ T₁ L) (sound : T₀.Sound) (part : PartOf (accepted T₀) S)
    (whole : ∀ u ∈ accepted T₀, S.lookup u.1 = some (.file u.2)) (so : Carrying S L (backupsDirs L) live aside)
    {p : Path} (foreign : inOwnBackups p = false) :
    live.file? p = if inUserBackups p ∨ acceptable p then T₀.file? p else none := by
  by_cases inside : inUserBackups p = true
  · rw [(kept.carried sound part whole so).deep p inside foreign, if_pos (Or.inl inside)]
  · by_cases under : Under (backupsDirs L) p
    · obtain ⟨q, member, above⟩ := under
      obtain ⟨folder, last⟩ := mem_backupsDirs.mp member
      have same : q = p := by
        by_contra apart
        exact inside (inUserBackups_of_starts above apart last)
      subst same
      have gone := kept.clear q folder last q List.prefix_rfl
      rw [lookup_archived sound, if_neg inside] at gone
      rw [gone, ite_self]
      exact FileTree.file?_of_folder ((so.carried q ⟨q, member, List.prefix_rfl⟩).trans folder)
    · rw [so.file? sound part whole under]
      simp [inside]

/-- The state of the folders between two restores of the archive of `T₀`. -/
structure Held (T₀ T₁ : FileTree) (d : Disk) : Prop where
  staged : Staged.Part (accepted T₀) d
  start : d.projects = none → d.aside = none
  kept : Kept T₀ T₁ (d.projects.getD [])

/-- Once the live tree is set aside the call is not stopped: the archived tree
takes its place or the old one is put back, and the user backups are carried over. -/
structure Fates.Whole (f : Fates) : Prop where
  place : f.place ≠ some .killed
  putBack : f.putBack = none
  carries : f.Carries

/-- The live tree is the archived one. -/
def Restored (T₀ : FileTree) (d : Disk) : Prop := ∃ live, d.projects = some live ∧
  ∀ p, inOwnBackups p = false → live.file? p = if inUserBackups p ∨ acceptable p then T₀.file? p else none

theorem Undone.held {d' : Disk} (held : Held T₀ T₁ d) (undone : Undone (accepted T₀) d d') : Held T₀ T₁ d' := by
  obtain ⟨staged, _, projects, gone⟩ := undone
  exact ⟨staged, fun none => gone (projects ▸ none), projects ▸ held.kept⟩

theorem carryOver_ends {d' : Disk} (carries : f.Carries) (kept : Kept T₀ T₁ (d.projects.getD []))
    (swapped : Swapped (accepted T₀) d d') (sound : T₀.Sound) : (carryOver f).Ends d' fun r d'' => r = .ok () ∧
      d''.staging = none ∧ d''.externalProject = d.externalProject ∧ Kept T₀ T₁ (d''.projects.getD []) ∧ Restored T₀ d'' := by
  obtain ⟨_, S, rfl, part, whole⟩ := swapped
  unfold carryOver
  rw [EStateM.ends_bind, EStateM.ends_get]
  dsimp only
  cases live : d.projects with
  | none =>
    rw [live] at kept
    have so : Carrying S [] (backupsDirs []) S [] := Carrying.start S []
    exact ⟨rfl, rfl, rfl, kept.carried sound part whole so, S, rfl, fun p => kept.restored sound part whole so⟩
  | some L =>
    rw [live] at kept
    have named : ∀ q ∈ backupsDirs L, q ≠ [] := fun q member => named_of_last (mem_backupsDirs.mp member).2
    have folder : ∀ q ∈ backupsDirs L, L.lookup q = some .folder := fun q member => (mem_backupsDirs.mp member).1
    have moves := carryFolders_end (f := f) carries [] (backupsDirs_level L) named
      (fun q member => kept.free part member) folder (d := { d with projects := some S, aside := some L, staging := none })
      rfl rfl (Carrying.start S L)
    refine moves.mono ?_
    rintro r d'' ⟨rfl, live', aside', rfl, so⟩
    exact ⟨rfl, rfl, rfl, kept.carried sound part whole so, live', rfl, fun p => kept.restored sound part whole so⟩

/-- How one restore of `projects/` ends. -/
theorem restoreProjectsTree_ends (whole : f.Whole) (held : Held T₀ T₁ d) (sound : T₀.Sound) :
    (restoreProjectsTree f (archived T₀)).Ends d fun r d' => Held T₀ T₁ d' ∧
      (r = .ok true ∧ accepted T₀ ≠ [] ∧ Restored T₀ d' ∨
        r ≠ .ok true ∧ d'.projects = d.projects ∧ (f = {} → accepted T₀ = [])) := by
  unfold restoreProjectsTree
  rw [EStateM.ends_bind]
  refine (removeStaging_ends held.staged).mono fun r d₁ ends => ?_
  obtain ⟨staged, only, killed⟩ := ends
  have same : d₁.projects = d.projects := by rw [only]
  have held₁ : Held T₀ T₁ d₁ := by
    refine ⟨staged, ?_, same ▸ held.kept⟩
    rw [only]
    exact held.start
  cases r with
  | error e =>
    refine ⟨held₁, Or.inr ⟨by rintro ⟨⟩, same, ?_⟩⟩
    rintro rfl
    exact absurd rfl (killed e rfl).2
  | ok _ =>
    dsimp only
    rw [EStateM.ends_bind, ends_attempt]
    refine (swap_ends staged (accepted_apart sound) rfl).mono fun r d₂ ends => ?_
    cases r with
    | ok _ =>
      simp only [if_true, EStateM.ends_bind]
      refine (carryOver_ends whole.carries held₁.kept ends sound).mono ?_
      rintro r d₃ ⟨rfl, staging, _, kept, restored⟩
      have live : d₃.projects ≠ none := by
        obtain ⟨live, here, _⟩ := restored
        rw [here]
        rintro ⟨⟩
      have empty : Staged.Part (accepted T₀) d₃ := ⟨by rw [staging]; rintro _ ⟨⟩, fun _ => staging⟩
      exact ⟨⟨empty, fun none => absurd none live, kept⟩, Or.inl ⟨rfl, ends.1, restored⟩⟩
    | error e =>
      obtain ⟨stopped, empty⟩ := ends
      cases e with
      | os =>
        simp only [Bool.false_eq_true, if_false, EStateM.ends_bind]
        refine (undo_ends whole.putBack held₁.start (stopped.imp_right And.left)).mono fun r d₃ ends => ?_
        have undone := ends.1
        have after := Undone.held held₁ undone
        cases r with
        | ok _ => exact ⟨after, Or.inr ⟨by rintro ⟨⟩, undone.2.2.1.trans same, empty⟩⟩
        | error e => exact ⟨after, Or.inr ⟨by rintro ⟨⟩, undone.2.2.1.trans same, empty⟩⟩
      | killed =>
        rcases stopped with ⟨part, external, projects, gone⟩ | ⟨_, displaced⟩
        · have undone : Undone (accepted T₀) d₁ d₂ := ⟨part, external, projects, fun none => gone (held₁.start none)⟩
          exact ⟨Undone.held held₁ undone, Or.inr ⟨by rintro ⟨⟩, projects.trans same, empty⟩⟩
        · exact absurd (displaced rfl) whole.place

/-- The external project folder is all that its restore changes. -/
def OnlyExternal (d d' : Disk) : Prop := d' = { d with externalProject := d'.externalProject }

theorem OnlyExternal.trans {d' d'' : Disk} (first : OnlyExternal d d') (second : OnlyExternal d' d'') : OnlyExternal d d'' := by
  unfold OnlyExternal at first second ⊢
  rw [first] at second
  exact second

theorem restoreExternalFile_ends (d : Disk) (u : Path × Bytes) : (restoreExternalFile f u).Ends d fun r d' =>
    OnlyExternal d d' ∧ (f = {} → ∃ written, r = .ok written) := by
  unfold restoreExternalFile
  rw [EStateM.ends_bind, EStateM.ends_get]
  dsimp only
  rw [EStateM.ends_bind, EStateM.ends_set]
  dsimp only
  split
  · exact ⟨rfl, fun _ => ⟨true, rfl⟩⟩
  · rename_i killed
    refine ⟨rfl, ?_⟩
    rintro rfl
    rcases perform_fated killed with os | ⟨n, fated⟩
    · cases os
    · cases fated
  · rw [EStateM.ends_ite]
    refine ⟨fun _ => ?_, fun _ => ⟨rfl, fun _ => ⟨false, rfl⟩⟩⟩
    simp only [EStateM.ends_bind, ends_proceed, EStateM.ends_modify, EStateM.ends_pure]
    refine ⟨fun _ => ⟨rfl, fun _ => ⟨false, rfl⟩⟩, fun e fated => ⟨rfl, ?_⟩⟩
    rintro rfl
    cases fated

theorem restoreEach_ends (d : Disk) (members : List (Path × Bytes)) :
    (restoreEach f members).Ends d fun r d' => OnlyExternal d d' ∧ (f = {} → ∃ written, r = .ok written) := by
  induction members generalizing d with
  | nil => exact ⟨rfl, fun _ => ⟨false, rfl⟩⟩
  | cons u members ih =>
    unfold restoreEach
    rw [EStateM.ends_bind]
    refine (restoreExternalFile_ends d u).mono fun r d₁ ⟨first, written⟩ => ?_
    cases r with
    | error e =>
      refine ⟨first, fun undisturbed => ?_⟩
      obtain ⟨_, same⟩ := written undisturbed
      cases same
    | ok a =>
      dsimp only
      rw [EStateM.ends_bind]
      refine (ih d₁).mono fun r d₂ ⟨second, rest⟩ => ?_
      cases r with
      | error e =>
        refine ⟨first.trans second, fun undisturbed => ?_⟩
        obtain ⟨_, same⟩ := rest undisturbed
        cases same
      | ok b => exact ⟨first.trans second, fun _ => ⟨_, rfl⟩⟩

theorem replaced_ends (d : Disk) (members : List (Path × Bytes)) :
    (whenSome members (restoreExternalFiles f members)).Ends d fun r d' =>
      OnlyExternal d d' ∧ (f = {} → ∃ written, r = .ok written) := by
  unfold whenSome
  rw [EStateM.ends_ite]
  exact ⟨fun _ => ⟨rfl, fun _ => ⟨false, rfl⟩⟩, fun _ => restoreEach_ends d _⟩

theorem below_append (tree : String) (l l' : List (Path × Bytes)) : below tree (l ++ l') = below tree l ++ below tree l' :=
  List.filterMap_append

theorem below_placed {tree : String} {files : List (Path × Bytes)} (named : ∀ u ∈ files, u.1 ≠ []) :
    below tree (createBackup.placed tree files) = files := by
  unfold below createBackup.placed
  rw [List.filterMap_map]
  conv_rhs => rw [← List.filterMap_some (l := files)]
  refine List.filterMap_congr fun u member => ?_
  simp [named u member]

/-- Members of another tree are none of this one. -/
theorem below_eq_nil {tree : String} {members : List (Path × Bytes)} (foreign : ∀ u ∈ members, u.1.head? ≠ some tree) :
    below tree members = [] := by
  unfold below
  rw [List.filterMap_eq_nil_iff]
  intro u member
  have other := foreign u member
  obtain ⟨p, bytes⟩ := u
  cases p with
  | nil => rfl
  | cons name p =>
    have apart : name ≠ tree := fun same => other (congrArg some same)
    simp [apart]

theorem below_projects {data : UserData} (sound : (data.projects.getD []).Sound) :
    below "projects" (createBackup data) = archived (data.projects.getD []) := by
  have files : (data.projects.map archived).getD [] = archived (data.projects.getD []) := by
    cases data.projects <;> rfl
  have named : ∀ u ∈ archived (data.projects.getD []), u.1 ≠ [] := fun u member =>
    sound.files_apart.named u (List.mem_of_mem_filter member)
  unfold createBackup
  rw [below_append, below_append, below_append, files, below_placed named]
  rw [below_eq_nil, below_eq_nil, below_eq_nil, List.append_nil, List.append_nil, List.append_nil]
  · intro u member
    obtain ⟨v, _, rfl⟩ := List.mem_map.mp member
    simp
  · intro u member
    obtain ⟨name, listed, found⟩ := List.mem_filterMap.mp member
    obtain ⟨bytes, _, rfl⟩ := Option.map_eq_some_iff.mp found
    simp only [List.mem_cons, List.not_mem_nil, or_false] at listed
    rcases listed with rfl | rfl | rfl | rfl <;> simp
  · intro u member
    obtain ⟨tree, listed, found⟩ := List.mem_flatMap.mp member
    obtain ⟨head, _⟩ : u.1.head? = some tree ∧ u.1.tail ≠ [] := by simpa using (List.mem_filter.mp found).2
    simp only [List.mem_cons, List.not_mem_nil, or_false] at listed
    rw [head]
    rcases listed with rfl | rfl | rfl <;> simp

/-- A restore of `projects/`, where the archive holds something of it. -/
theorem restored_ends (whole : f.Whole) (held : Held T₀ T₁ d) (sound : T₀.Sound) :
    (whenSome (archived T₀) (restoreProjectsTree f (archived T₀))).Ends d fun r d' => Held T₀ T₁ d' ∧
      (r = .ok true ∧ accepted T₀ ≠ [] ∧ Restored T₀ d' ∨
        r ≠ .ok true ∧ d'.projects = d.projects ∧ (f = {} → accepted T₀ = [])) := by
  unfold whenSome
  rw [EStateM.ends_ite]
  refine ⟨fun none => ⟨held, Or.inr ⟨nofun, rfl, fun _ => ?_⟩⟩, fun _ => restoreProjectsTree_ends whole held sound⟩
  unfold accepted
  rw [none]
  rfl

theorem Held.onlyExternal {d' : Disk} (held : Held T₀ T₁ d) (only : OnlyExternal d d') : Held T₀ T₁ d' := by
  have projects : d'.projects = d.projects := by rw [only]
  refine ⟨⟨?_, ?_⟩, ?_, projects ▸ held.kept⟩
  · rw [only]
    exact held.staged.part
  · rw [only]
    exact held.staged.empty
  · rw [only]
    exact held.start

/-- How one call of `restore_user_data` ends. -/
theorem restoreUserData_ends {data : UserData} (outside : Bool) (same : data.projects.getD [] = T₀) (whole : f.Whole)
    (held : Held T₀ T₁ d) (sound : T₀.Sound) : (restoreUserData f (createBackup data) outside).Ends d fun r d' =>
      Held T₀ T₁ d' ∧ (d'.projects = d.projects ∨ r ≠ .ok false ∧ accepted T₀ ≠ [] ∧ Restored T₀ d') ∧
        (f = {} → accepted T₀ ≠ [] → r = .ok true ∧ Restored T₀ d') := by
  subst same
  unfold restoreUserData
  rw [EStateM.ends_ite]
  refine ⟨fun shut => ⟨held, Or.inl rfl, ?_⟩, fun _ => ?_⟩
  · rintro rfl
    exact absurd rfl shut
  dsimp only
  rw [below_projects sound, EStateM.ends_bind]
  refine (restored_ends whole held sound).mono fun r d₁ ⟨held₁, outcome⟩ => ?_
  cases r with
  | error e =>
    rcases outcome with ⟨same, _⟩ | ⟨_, projects, empty⟩
    · cases same
    · exact ⟨held₁, Or.inl projects, fun undisturbed some => absurd (empty undisturbed) some⟩
  | ok restored =>
    dsimp only
    rw [EStateM.ends_bind]
    refine (replaced_ends d₁ _).mono fun r d₂ ⟨only, written⟩ => ?_
    have projects : d₂.projects = d₁.projects := by rw [only]
    have held₂ := held₁.onlyExternal only
    have again : Restored (data.projects.getD []) d₁ → Restored (data.projects.getD []) d₂ := fun ⟨live, here, files⟩ =>
      ⟨live, projects.trans here, files⟩
    cases r with
    | error e =>
      refine ⟨held₂, ?_, fun undisturbed => ?_⟩
      · rcases outcome with ⟨_, some, restored⟩ | ⟨_, unchanged, _⟩
        · exact Or.inr ⟨nofun, some, again restored⟩
        · exact Or.inl (projects.trans unchanged)
      · obtain ⟨_, same⟩ := written undisturbed
        cases same
    | ok replaced =>
      rcases outcome with ⟨same, some, tree⟩ | ⟨_, unchanged, empty⟩
      · cases same
        exact ⟨held₂, Or.inr ⟨nofun, some, again tree⟩, fun _ _ => ⟨rfl, again tree⟩⟩
      · exact ⟨held₂, Or.inl (projects.trans unchanged), fun undisturbed some => absurd (empty undisturbed) some⟩

/-- The folders after the calls `fs`, one after the other. -/
def afterCalls (archive : List (Path × Bytes)) (outside : Bool) (fs : List Fates) (d : Disk) : Disk :=
  fs.foldl (fun d f => (restoreUserData f archive outside).after d) d

/-- What lets a restore of the archive of `T₀` tell the user backups of the later
tree `T₁`: outside the projects' own `backups` folders nothing differs below a
folder of that name, and no archived file is where such a folder is, or above it. -/
structure Telling (T₀ T₁ : FileTree) : Prop where
  agree : ∀ p, inUserBackups p = true → inOwnBackups p = false → T₁.file? p = T₀.file? p
  clear : ∀ q, T₁.lookup q = some .folder → q.getLast? = some "backups" → ∀ r, r <+: q → (archived T₀).lookup r = none

theorem telling_iff {T₀ T₁ : FileTree} : Telling T₀ T₁ ↔
    (∀ p ∈ T₁.map Prod.fst ++ T₀.map Prod.fst, inUserBackups p = true → inOwnBackups p = false → T₁.file? p = T₀.file? p) ∧
      ∀ q ∈ T₁.map Prod.fst, T₁.lookup q = some .folder → q.getLast? = some "backups" →
        ∀ r ∈ q.inits, (archived T₀).lookup r = none := by
  constructor
  · intro telling
    exact ⟨fun p _ => telling.agree p, fun q _ folder last r above => telling.clear q folder last r ((List.mem_inits r q).mp above)⟩
  · rintro ⟨agree, clear⟩
    have listed : ∀ (t : FileTree) p, p ∉ t.map Prod.fst → t.file? p = none := by
      intro t p absent
      refine FileTree.file?_of_lookup_none (List.lookup_eq_none_of_forall fun u member same => ?_)
      exact absent (List.mem_map.mpr ⟨u, member, same⟩)
    constructor
    · intro p inside foreign
      by_cases member : p ∈ T₁.map Prod.fst ++ T₀.map Prod.fst
      · exact agree p member inside foreign
      · obtain ⟨first, second⟩ := not_or.mp (mt List.mem_append.mpr member)
        rw [listed T₁ p first, listed T₀ p second]
    · exact fun q folder last r above =>
        clear q (List.mem_keys_of_lookup folder) folder last r ((List.mem_inits r q).mpr above)

instance (T₀ T₁ : FileTree) : Decidable (Telling T₀ T₁) := decidable_of_iff _ telling_iff.symm

theorem Held.start_of {data : UserData} (later : (d.projects.getD []).Sound) (telling : Telling (data.projects.getD []) (d.projects.getD []))
    (fresh : d.staging = none) (start : d.projects = none → d.aside = none) : Held (data.projects.getD []) (d.projects.getD []) d where
  staged := ⟨fresh ▸ nofun, fun _ => fresh⟩
  start := start
  kept := by
    refine ⟨fun p b _ held => held, telling.agree, fun p held q above apart last => ?_, telling.clear⟩
    obtain ⟨e, found⟩ := Option.ne_none_iff_exists'.mp held
    exact later.parents _ (later.mem_iff.mpr found) q (named_of_last last) above apart

theorem Held.calls {data : UserData} {outside : Bool} (sound : (data.projects.getD []).Sound)
    (held : Held (data.projects.getD []) T₁ d) {fs : List Fates} (whole : ∀ f ∈ fs, f.Whole) :
    Held (data.projects.getD []) T₁ (afterCalls (createBackup data) outside fs d) := by
  induction fs generalizing d with
  | nil => exact held
  | cons f fs ih =>
    have one := EStateM.ends_iff.mp (restoreUserData_ends outside rfl (whole f List.mem_cons_self) held sound)
    exact ih one.1 fun f' member => whole f' (List.mem_cons_of_mem _ member)

theorem unchanged_of_empty {data : UserData} {outside : Bool} (sound : (data.projects.getD []).Sound)
    (held : Held (data.projects.getD []) T₁ d) {fs : List Fates} (whole : ∀ f ∈ fs, f.Whole)
    (empty : accepted (data.projects.getD []) = []) :
    (afterCalls (createBackup data) outside fs d).projects = d.projects := by
  induction fs generalizing d with
  | nil => rfl
  | cons f fs ih =>
    have one := EStateM.ends_iff.mp (restoreUserData_ends outside rfl (whole f List.mem_cons_self) held sound)
    have same : ((restoreUserData f (createBackup data) outside).after d).projects = d.projects :=
      one.2.1.resolve_right fun restored => restored.2.1 empty
    exact (ih one.1 fun f' member => whole f' (List.mem_cons_of_mem _ member)).trans same

/-- A project as it was backed up. -/
def room : FileTree :=
  [(["room"], .folder), (["room", "project.avc"], .file [1]), (["room", "scripts"], .folder),
    (["room", "scripts", "a:b.py"], .file [2]), (["room", "backups"], .folder), (["room", "backups", "x.zip"], .file [3])]

/-- The same project after an update, with one more backup. -/
def updatedRoom : FileTree :=
  [(["room"], .folder), (["room", "project.avc"], .file [9]), (["room", "backups"], .folder),
    (["room", "backups", "x.zip"], .file [3]), (["room", "backups", "y.zip"], .file [4])]

end OpenAvc.Updater
