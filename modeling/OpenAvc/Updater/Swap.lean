import OpenAvc.Updater.Backup

namespace OpenAvc.Updater

open Storage

variable {f : Fates} {d : Disk} {A members : List (Path × Bytes)}

@[simp] theorem ends_proceed {stop : Option Stop} {Q : Except Stop Unit → Disk → Prop} :
    (proceed stop).Ends d Q ↔ (stop = none → Q (.ok ()) d) ∧ ∀ e, stop = some e → Q (.error e) d := by
  cases stop with
  | none => exact ⟨fun ends => ⟨fun _ => ends, nofun⟩, fun ends => ends.1 rfl⟩
  | some e => exact ⟨fun ends => ⟨nofun, fun _ same => by cases same; exact ends⟩, fun ends => ends.2 e rfl⟩

/-- A staging folder holds nothing but files of the archive, whole or in part. -/
structure Staged.Part (A : List (Path × Bytes)) (d : Disk) : Prop where
  part : ∀ t, d.staging = some t → PartOf A t
  empty : A = [] → d.staging = none

/-- A call that stopped has left the live tree where it was. -/
def InPlace (A : List (Path × Bytes)) (d d' : Disk) : Prop :=
  Staged.Part A d' ∧ d'.externalProject = d.externalProject ∧ d'.projects = d.projects ∧ (d.aside = none → d'.aside = none)

/-- A call that stopped has left the live tree aside. -/
def Displaced (A : List (Path × Bytes)) (d d' : Disk) : Prop :=
  Staged.Part A d' ∧ d'.externalProject = d.externalProject ∧ d'.projects = none ∧ d'.aside = d.projects

/-- A swap that came to its end. -/
def Swapped (A : List (Path × Bytes)) (d d' : Disk) : Prop :=
  A ≠ [] ∧ ∃ S, d' = { d with projects := some S, aside := d.projects, staging := none } ∧ PartOf A S ∧
    ∀ u ∈ A, S.lookup u.1 = some (.file u.2)

theorem clearAside_ends (d : Disk) : (clearAside f.clear).Ends d fun r d' =>
    d'.projects = d.projects ∧ d'.staging = d.staging ∧ d'.externalProject = d.externalProject ∧
      (d.aside = none → d'.aside = none) ∧ (r = .ok () → d'.aside = none) ∧ (r ≠ .ok () → f ≠ {}) := by
  unfold clearAside
  cases aside : d.aside with
  | none => simp [EStateM.ends_ite, aside]
  | some t =>
    cases fated : f.clear with
    | none => simp [EStateM.ends_ite, aside]
    | some cut =>
      have disturbed : f ≠ {} := by
        rintro rfl
        cases fated
      simp [EStateM.ends_ite, aside, disturbed]

theorem extractMembers_ends (part : Staged.Part A d) (apart : Apart A)
    (accepted : A = members.filter fun u => acceptable u.1) :
    (extractMembers f members).Ends d fun r d' => Staged.Part A d' ∧ d' = { d with staging := d'.staging } ∧
      (r = .ok () → ∀ u ∈ A, (d'.staging.getD []).lookup u.1 = some (.file u.2)) ∧
      (r ≠ .ok () → f ≠ {}) := by
  have all : ∀ u ∈ A, u ∈ A := fun _ member => member
  have kept : Staged.Part A { d with staging := (unpack f.extract A d.staging).1 } := by
    refine ⟨PartOf.unpack part.part all, ?_⟩
    rintro rfl
    exact part.empty rfl
  unfold extractMembers
  rw [← accepted]
  simp only [EStateM.ends_bind, EStateM.ends_get, EStateM.ends_set, ends_proceed]
  constructor
  · intro ended
    refine ⟨kept, trivial, fun _ u member => ?_, fun stopped => absurd rfl stopped⟩
    exact PartOf.unpacked part.part apart all (Prod.ext rfl ended) member (Or.inl member)
  · intro e stopped
    refine ⟨kept, trivial, (by rintro ⟨⟩), fun _ undisturbed => ?_⟩
    obtain ⟨u, _, n, fated⟩ := PartOf.unpack_stop part.part apart all (Prod.ext rfl stopped)
    rw [undisturbed] at fated
    cases fated

theorem setAside_ends (clear : d.aside = none) : (setAside f).Ends d fun r d' => match r with
    | .ok _ => d' = { d with projects := none, aside := d.projects }
    | .error _ => d' = d ∧ f ≠ {} := by
  unfold setAside
  rw [EStateM.ends_bind, EStateM.ends_get]
  dsimp only
  cases live : d.projects with
  | none =>
    obtain ⟨projects, aside, staging, external⟩ := d
    cases live
    cases clear
    rfl
  | some L =>
    simp only [Option.isSome_some, if_true, EStateM.ends_bind, ends_proceed, EStateM.ends_modify, live, implies_true,
      true_and]
    rintro e fated rfl
    cases fated

theorem putStaging_ends (d : Disk) : (putStaging f).Ends d fun r d' => match r with
    | .ok _ => ∃ S, d.staging = some S ∧ d' = { d with projects := some S, staging := none }
    | .error e => d' = d ∧ (e = .killed → f.place = some .killed) ∧ (f.place = none → d.staging = none) := by
  unfold putStaging
  simp only [EStateM.ends_bind, EStateM.ends_get, EStateM.ends_ite, ends_proceed, EStateM.ends_modify, EStateM.ends_throw]
  constructor
  · intro placed
    constructor
    · intro absent
      exact ⟨trivial, by rintro ⟨⟩, fun _ => Option.isNone_iff_eq_none.mp absent⟩
    · intro present
      obtain ⟨S, staged⟩ := Option.ne_none_iff_exists'.mp (mt Option.isNone_iff_eq_none.mpr present)
      exact ⟨S, staged, by rw [staged]⟩
  · intro e stopped
    exact ⟨trivial, fun killed => killed ▸ stopped, fun placed => by rw [placed] at stopped; cases stopped⟩

theorem swap_ends (part : Staged.Part A d) (apart : Apart A) (accepted : A = members.filter fun u => acceptable u.1) :
    (swap f members).Ends d fun r d' => match r with
      | .ok _ => Swapped A d d'
      | .error e => (InPlace A d d' ∨ Displaced A d d' ∧ (e = .killed → f.place = some .killed)) ∧ (f = {} → A = []) := by
  unfold swap
  simp only [EStateM.ends_bind]
  refine (extractMembers_ends part apart accepted).mono fun r d₁ ends => ?_
  obtain ⟨part₁, only, whole, disturbed⟩ := ends
  cases r with
  | error e =>
    rw [only]
    exact ⟨Or.inl ⟨⟨part₁.part, part₁.empty⟩, rfl, rfl, id⟩, fun undisturbed => absurd undisturbed (disturbed (by rintro ⟨⟩))⟩
  | ok _ =>
    refine (clearAside_ends d₁).mono fun r d₂ ends => ?_
    obtain ⟨projects, staging, external, gone, cleared, disturbed⟩ := ends
    rw [only] at projects external gone
    have part₂ : Staged.Part A d₂ := ⟨fun t staged => part₁.part t (staging ▸ staged), fun none => staging ▸ part₁.empty none⟩
    cases r with
    | error e =>
      exact ⟨Or.inl ⟨part₂, external, projects, gone⟩, fun undisturbed => absurd undisturbed (disturbed (by rintro ⟨⟩))⟩
    | ok _ =>
      refine (setAside_ends (cleared rfl)).mono fun r d₃ ends => ?_
      cases r with
      | error e =>
        obtain ⟨rfl, disturbed⟩ := ends
        exact ⟨Or.inl ⟨part₂, external, projects, gone⟩, fun undisturbed => absurd undisturbed disturbed⟩
      | ok _ =>
        subst ends
        refine (putStaging_ends _).mono fun r d₄ ends => ?_
        cases r with
        | ok _ =>
          obtain ⟨S, staged, rfl⟩ := ends
          refine ⟨fun none => ?_, S, by rw [projects, external], part₂.part S staged, fun u member => ?_⟩
          · have absent := part₂.empty none
            rw [staged] at absent
            cases absent
          have here := whole rfl u member
          rw [← staging, staged] at here
          exact here
        | error e =>
          obtain ⟨rfl, killed, absent⟩ := ends
          refine ⟨Or.inr ⟨⟨⟨part₂.part, part₂.empty⟩, external, rfl, projects⟩, killed⟩, ?_⟩
          rintro rfl
          refine List.eq_nil_iff_forall_not_mem.mpr fun u member => ?_
          have here := whole rfl u member
          rw [← staging, absent rfl] at here
          cases here

/-- Where a call has left the live tree as it was. -/
def Undone (A : List (Path × Bytes)) (d d' : Disk) : Prop :=
  Staged.Part A d' ∧ d'.externalProject = d.externalProject ∧ d'.projects = d.projects ∧
    (d.projects = none → d'.aside = none)

theorem removeStaging_ends {cut : Option Cut} (part : Staged.Part A d) : (removeStaging cut).Ends d fun r d' =>
    Staged.Part A d' ∧ d' = { d with staging := d'.staging } ∧ ∀ e, r = .error e → e = .killed ∧ cut ≠ none := by
  unfold removeStaging
  cases cut with
  | none => exact ⟨⟨by rintro _ ⟨⟩, fun _ => rfl⟩, rfl, by rintro _ ⟨⟩⟩
  | some cut =>
    have rest : Staged.Part A { d with staging := d.staging.map cut.of } := by
      refine ⟨fun t staged => ?_, fun none => by rw [part.empty none]; rfl⟩
      obtain ⟨S, held, rfl⟩ := Option.map_eq_some_iff.mp staged
      exact (part.part S held).filter fun p => p.inits.all cut.left
    simp only [EStateM.ends_bind, EStateM.ends_modify, EStateM.ends_ite, EStateM.ends_throw, EStateM.ends_pure]
    exact ⟨fun _ => ⟨rest, trivial, by simp⟩, fun _ => ⟨rest, trivial, by rintro _ ⟨⟩⟩⟩

theorem undo_ends {d' : Disk} (putBack : f.putBack = none) (start : d.projects = none → d.aside = none)
    (stopped : InPlace A d d' ∨ Displaced A d d') :
    (undo f).Ends d' fun r d'' => Undone A d d'' ∧ ∀ e, r = .error e → e = .killed := by
  have last : ∀ d₁, Undone A d d₁ → (removeStaging f.cleanup).Ends d₁ fun r d'' =>
      Undone A d d'' ∧ ∀ e, r = .error e → e = .killed := by
    intro d₁ ⟨part, external, projects, gone⟩
    refine (removeStaging_ends part).mono fun r d'' ⟨part', only, killed⟩ => ?_
    rw [only]
    exact ⟨⟨⟨part'.part, part'.empty⟩, external, projects, gone⟩, fun e stops => (killed e stops).1⟩
  unfold undo
  rw [EStateM.ends_bind, EStateM.ends_get]
  dsimp only
  rw [EStateM.ends_ite, putBack]
  constructor
  · rintro ⟨absent, present⟩
    refine last _ ?_
    rcases stopped with ⟨part, external, projects, gone⟩ | ⟨part, external, projects, aside⟩
    · have missing := gone (start (projects ▸ Option.isNone_iff_eq_none.mp absent))
      rw [missing] at present
      cases present
    · exact ⟨⟨part.part, part.empty⟩, external, aside, fun _ => rfl⟩
  · intro here
    refine last _ ?_
    rcases stopped with ⟨part, external, projects, gone⟩ | ⟨part, external, projects, aside⟩
    · exact ⟨part, external, projects, fun missing => gone (start missing)⟩
    · have missing : d.projects = none := by
        by_contra some
        exact here ⟨by rw [projects]; rfl, by rw [aside]; exact Option.isSome_iff_ne_none.mpr some⟩
      exact ⟨part, external, projects.trans missing.symm, fun _ => aside.trans missing⟩

/-- A path in one of the folders `qs`. -/
def Under (qs : List Path) (p : Path) : Prop := ∃ q ∈ qs, q <+: p

/-- The folders `past` of the tree `L` set aside have been moved to the tree
restored from `S`: what is live then, and what is still aside. -/
structure Carrying (S L : FileTree) (past : List Path) (live aside : FileTree) : Prop where
  carried : ∀ p, Under past p → live.lookup p = L.lookup p
  left : ∀ p, ¬Under past p → aside.lookup p = L.lookup p
  rest : ∀ p, ¬Under past p → live.lookup p = S.lookup p ∨
    S.lookup p = none ∧ live.lookup p = some .folder ∧ ∃ q ∈ past, p ∈ above q

/-- Nothing in `S` is in the way of the folder `q`. -/
structure Free (S : FileTree) (q : Path) : Prop where
  inside : ∀ p, q <+: p → S.lookup p = none
  above : ∀ r ∈ above q, S.file? r = none

theorem Carrying.start (S L : FileTree) : Carrying S L [] S L where
  carried := fun _ ⟨_, member, _⟩ => absurd member List.not_mem_nil
  left := fun _ _ => rfl
  rest := fun _ _ => Or.inl rfl

theorem under_append {past : List Path} {q p : Path} : Under (past ++ [q]) p ↔ Under past p ∨ q <+: p := by
  unfold Under
  simp [or_and_right, exists_or]

/-- A folder in one that has been moved has been moved with it. -/
theorem Carrying.skip {S L live aside : FileTree} {past : List Path} {q : Path} (so : Carrying S L past live aside)
    (moved : Under past q) : Carrying S L (past ++ [q]) live aside := by
  have same : ∀ p, Under (past ++ [q]) p ↔ Under past p := by
    intro p
    rw [under_append]
    constructor
    · rintro (before | ⟨rest, rfl⟩)
      · exact before
      · obtain ⟨q', member, inside⟩ := moved
        exact ⟨q', member, inside.trans (List.prefix_append _ _)⟩
    · exact Or.inl
  constructor
  · exact fun p under => so.carried p ((same p).mp under)
  · exact fun p outside => so.left p (mt (same p).mpr outside)
  · intro p outside
    rcases so.rest p (mt (same p).mpr outside) with before | ⟨absent, folder, q', member, up⟩
    · exact Or.inl before
    · exact Or.inr ⟨absent, folder, q', List.mem_append_left _ member, up⟩

theorem lookup_filter_under (t : FileTree) (q p : Path) :
    (t.filter fun u => q.isPrefixOf u.1).lookup p = if q <+: p then t.lookup p else none := by
  rw [List.lookup_filter_keys fun p => q.isPrefixOf p]
  simp only [List.isPrefixOf_iff_prefix]

theorem lookup_filter_not_under (t : FileTree) (q p : Path) :
    (t.filter fun u => ¬q.isPrefixOf u.1).lookup p = if q <+: p then none else t.lookup p := by
  have flip : (fun u : Path × Entry => decide ¬q.isPrefixOf u.1 = true) = fun u => decide ¬q <+: u.1 := by
    funext u
    simp only [List.isPrefixOf_iff_prefix]
  rw [flip, List.lookup_filter_keys fun p => decide ¬q <+: p]
  by_cases inside : q <+: p <;> simp [inside]

/-- A folder is moved, the ones on the way to it are made. -/
theorem Carrying.move {S L live live' aside : FileTree} {past : List Path} {q : Path} (so : Carrying S L past live aside)
    (named : q ≠ []) (level : ∀ q' ∈ past, q'.length ≤ q.length) (outside : ¬Under past q) (free : Free S q)
    (parents : ∀ p, live'.lookup p = (live.lookup p).or (if p ≠ [] ∧ p ∈ above q then some .folder else none)) :
    Carrying S L (past ++ [q]) (live' ++ aside.filter fun u => q.isPrefixOf u.1)
      (aside.filter fun u => ¬q.isPrefixOf u.1) := by
  have apart : ∀ p, q <+: p → ¬Under past p := by
    rintro p inside ⟨q', member, inside'⟩
    exact outside ⟨q', member, List.prefix_of_prefix_length_le inside' inside (level q' member)⟩
  have notUp : ∀ p, q <+: p → ∀ q', q'.length ≤ q.length → p ∉ above q' := by
    intro p inside q' short up
    have shorter := (mem_above_iff.mp up).length_le
    have longer := inside.length_le
    have long := List.length_pos_of_ne_nil named
    rw [List.length_dropLast] at shorter
    omega
  constructor
  · intro p under
    rw [List.lookup_append, lookup_filter_under, parents]
    rcases under_append.mp under with before | inside
    · have elsewhere : ¬q <+: p := fun inside => apart p inside before
      have notAbove : p ∉ above q := by
        intro up
        obtain ⟨q', member, inside⟩ := before
        exact outside ⟨q', member, inside.trans (prefix_of_above up)⟩
      simp [elsewhere, notAbove, so.carried p before]
    · have absent : live.lookup p = none := by
        rcases so.rest p (apart p inside) with same | ⟨_, _, q', member, up⟩
        · rw [same, free.inside p inside]
        · exact absurd up (notUp p inside q' (level q' member))
      simp [inside, absent, notUp p inside q le_rfl, so.left p (apart p inside)]
  · intro p away
    obtain ⟨away, elsewhere⟩ := not_or.mp (mt under_append.mpr away)
    rw [lookup_filter_not_under, if_neg elsewhere, so.left p away]
  · intro p away
    obtain ⟨away, elsewhere⟩ := not_or.mp (mt under_append.mpr away)
    rw [List.lookup_append, lookup_filter_under, if_neg elsewhere, Option.or_none, parents]
    rcases so.rest p away with same | ⟨absent, folder, q', member, up⟩
    · rw [same]
      cases held : S.lookup p with
      | some e => exact Or.inl rfl
      | none =>
        by_cases up : p ≠ [] ∧ p ∈ above q
        · exact Or.inr ⟨rfl, by simp [up], q, by simp, up.2⟩
        · exact Or.inl (by simp [up])
    · exact Or.inr ⟨absent, by simp [folder], q', List.mem_append_left _ member, up⟩

theorem mem_backupsDirs {t : FileTree} {q : Path} :
    q ∈ backupsDirs t ↔ t.lookup q = some .folder ∧ q.getLast? = some "backups" := by
  unfold backupsDirs
  rw [List.mem_insertionSort, List.mem_filter, decide_eq_true_iff]
  exact ⟨And.right, fun found => ⟨List.mem_keys_of_lookup found.1, found⟩⟩

theorem backupsDirs_level (t : FileTree) : (backupsDirs t).Pairwise fun p q => p.length ≤ q.length := by
  unfold backupsDirs
  exact List.pairwise_insertionSort _ _

/-- The calls in which the user backups are carried over without a failure. -/
def Fates.Carries (f : Fates) : Prop := (∀ q, f.makeParents q = none) ∧ ∀ q, f.carry q = .done

theorem attempt_of_ok {x : FileOp Unit} {d' : Disk} (ran : x d = .ok () d') : attempt x d = .ok true d' := by
  simp only [attempt, ran]

theorem ends_attempt {x : FileOp Unit} {Q : Except Stop Bool → Disk → Prop} :
    (attempt x).Ends d Q ↔ x.Ends d fun r d' => match r with
      | .ok _ => Q (.ok true) d'
      | .error .os => Q (.ok false) d'
      | .error .killed => Q (.error .killed) d' := by
  unfold EStateM.Ends attempt
  cases x d with
  | ok _ d' => exact Iff.rfl
  | error e d' => cases e <;> exact Iff.rfl

theorem attempt_moveFolder {q : Path} {live aside : FileTree} (carries : f.carry q = .done) (here : d.projects = some live)
    (there : d.aside = some aside) (held : (aside.filter fun u => q.isPrefixOf u.1) ≠ []) :
    (attempt (moveFolder f q)).Ends d fun r d' => r = .ok true ∧ d' = { d with
      projects := some (live ++ aside.filter fun u => q.isPrefixOf u.1)
      aside := some (aside.filter fun u => ¬q.isPrefixOf u.1) } := by
  have runs : moveFolder f q d = .ok () { d with
      projects := some (live ++ aside.filter fun u => q.isPrefixOf u.1)
      aside := some (aside.filter fun u => ¬q.isPrefixOf u.1) } := by
    unfold moveFolder
    rw [EStateM.get_bind]
    dsimp only
    rw [there, here, Option.getD_some, Option.getD_some, if_neg held, carries]
    rfl
  rw [EStateM.ends_of_ok (attempt_of_ok runs)]
  exact ⟨rfl, rfl⟩

theorem carryFolder_step {S L : FileTree} {past : List Path} {q : Path} (carries : f.Carries) (named : q ≠ [])
    {live aside : FileTree} (here : d.projects = some live) (there : d.aside = some aside)
    (so : Carrying S L past live aside) (level : ∀ q' ∈ past, q'.length ≤ q.length) (free : Free S q)
    (folder : L.lookup q = some .folder) : (carryFolder f q).Ends d fun r d' => r = .ok () ∧
      ∃ live' aside', d' = { d with projects := some live', aside := some aside' } ∧
        Carrying S L (past ++ [q]) live' aside' := by
  unfold carryFolder
  rw [EStateM.ends_bind, EStateM.ends_get]
  dsimp only
  rw [EStateM.ends_ite, here, Option.getD_some]
  by_cases moved : Under past q
  · have found : live.lookup q = some .folder := (so.carried q moved).trans folder
    refine ⟨fun absent => ?_, fun _ => ?_⟩
    · rw [found] at absent
      cases absent
    · refine ⟨rfl, live, aside, ?_, so.skip moved⟩
      rw [← here, ← there]
  · have absent : live.lookup q = none := by
      rcases so.rest q moved with same | ⟨_, _, q', member, up⟩
      · rw [same, free.inside q List.prefix_rfl]
      · have shorter := (mem_above_iff.mp up).length_le
        have long := List.length_pos_of_ne_nil named
        have short := level q' member
        rw [List.length_dropLast] at shorter
        omega
    have clear : ∀ r ∈ above q, r ≠ [] → ((some live).getD []).file? r = none := by
      intro r up _
      have away : ¬Under past r := by
        rintro ⟨q', member, inside⟩
        exact moved ⟨q', member, inside.trans (prefix_of_above up)⟩
      rcases so.rest r away with same | ⟨_, folder, _⟩
      · exact (FileTree.file?_of_lookup_eq same).trans (free.above r up)
      · exact FileTree.file?_of_folder folder
    obtain ⟨live', runs, parents⟩ := perform_parents clear
    refine ⟨fun _ => ?_, fun present => absurd (by rw [absent]; rfl) present⟩
    have held : aside.lookup q = some .folder := (so.left q moved).trans folder
    have nonempty : (aside.filter fun u => q.isPrefixOf u.1) ≠ [] := by
      intro none
      have found := lookup_filter_under aside q q
      rw [none, if_pos List.prefix_rfl, held] at found
      cases found
    rw [carries.1, runs]
    simp only [EStateM.ends_bind, EStateM.ends_set, ends_proceed]
    refine ⟨fun _ => ?_, by rintro _ ⟨⟩⟩
    have moves := attempt_moveFolder (d := { d with projects := some live' }) (carries.2 q) rfl there nonempty
    refine moves.mono fun r d' ends => ?_
    rw [ends.1, ends.2]
    exact ⟨rfl, _, _, rfl, so.move named level moved free parents⟩

/-- The folders of a walk are carried over one after the other. -/
theorem carryFolders_end {S L : FileTree} (carries : f.Carries) (past : List Path) {rest : List Path}
    (level : (past ++ rest).Pairwise fun p q => p.length ≤ q.length) (named : ∀ q ∈ rest, q ≠ [])
    (free : ∀ q ∈ rest, Free S q) (folder : ∀ q ∈ rest, L.lookup q = some .folder) {live aside : FileTree}
    (here : d.projects = some live) (there : d.aside = some aside) (so : Carrying S L past live aside) :
    (rest.forM (carryFolder f)).Ends d fun r d' => r = .ok () ∧
      ∃ live' aside', d' = { d with projects := some live', aside := some aside' } ∧
        Carrying S L (past ++ rest) live' aside' := by
  induction rest generalizing past d live aside with
  | nil =>
    rw [List.append_nil]
    exact ⟨rfl, live, aside, by rw [← here, ← there], so⟩
  | cons q rest ih =>
    have first := List.mem_cons_self (a := q) (l := rest)
    have before : ∀ q' ∈ past, q'.length ≤ q.length := fun q' member =>
      (List.pairwise_append.mp level).2.2 q' member q first
    show (carryFolder f q >>= fun _ => rest.forM (carryFolder f)).Ends d _
    rw [EStateM.ends_bind]
    refine (carryFolder_step carries (named q first) here there so before (free q first) (folder q first)).mono ?_
    rintro r d₁ ⟨rfl, live₁, aside₁, rfl, so₁⟩
    have again : past ++ q :: rest = past ++ [q] ++ rest := by simp
    rw [again] at level ⊢
    exact ih _ level (fun q' member => named q' (List.mem_cons_of_mem _ member))
      (fun q' member => free q' (List.mem_cons_of_mem _ member))
      (fun q' member => folder q' (List.mem_cons_of_mem _ member)) rfl rfl so₁

end OpenAvc.Updater
