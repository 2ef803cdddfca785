import OpenAvc.Files.Tree

namespace Storage

variable {t t' : FileTree} {p q : Path} {fate : Option (Nat × Stop)}

theorem mem_above_iff : q ∈ above p ↔ q <+: p.dropLast := by
  unfold above
  exact List.mem_inits q p.dropLast

theorem above_length (named : p ≠ []) (member : q ∈ above p) : q.length < p.length := by
  have short := (mem_above_iff.mp member).length_le
  have long := List.length_pos_of_ne_nil named
  rw [List.length_dropLast] at short
  omega

theorem prefix_of_above (member : q ∈ above p) : q <+: p :=
  (mem_above_iff.mp member).trans (List.dropLast_prefix p)

/-- A path above another is one of the folders on the way to it. -/
theorem mem_above_of_starts (inside : q <+: p) (apart : q ≠ p) : q ∈ above p := by
  obtain ⟨rest, rfl⟩ := inside
  have longer : rest ≠ [] := by
    rintro rfl
    exact apart (List.append_nil q).symm
  rw [mem_above_iff, List.dropLast_append_of_ne_nil longer]
  exact List.prefix_append _ _

theorem above_eq (p : Path) : ∃ rest, above p = [] :: rest := by
  unfold above
  cases p.dropLast with
  | nil => exact ⟨_, rfl⟩
  | cons name names => exact ⟨_, by simp [List.inits]; rfl⟩

theorem perform_made {step : Step} {steps : List Step} {s : Option FileTree} (made : step.apply s = some t)
    (going : ∀ stop, fate ≠ some (0, stop)) :
    perform (step :: steps) fate s = perform steps (fate.map fun f => (f.1 - 1, f.2)) (some t) := by
  rcases fate with _ | ⟨_ | n, stop⟩
  · simp only [perform, made]
  · exact absurd rfl (going stop)
  · simp only [perform, made]

theorem perform_failed {step : Step} {steps : List Step} {s : Option FileTree} (failed : step.apply s = none)
    (going : ∀ stop, fate ≠ some (0, stop)) : perform (step :: steps) fate s = (s, some .os) := by
  rcases fate with _ | ⟨_ | n, stop⟩
  · simp only [perform, failed]
  · exact absurd rfl (going stop)
  · simp only [perform, failed]

/-- What every step keeps, the steps keep, wherever they stop. -/
theorem perform_keeps {P : Option FileTree → Prop} {steps : List Step} {s : Option FileTree} (holds : P s)
    (keeps : ∀ step ∈ steps, ∀ s s', P s → step.apply s = some s' → P (some s')) :
    P (perform steps fate s).1 := by
  induction steps generalizing fate s with
  | nil => exact holds
  | cons step steps ih =>
    have later := fun step' member => keeps step' (List.mem_cons_of_mem step member)
    by_cases stops : ∃ stop, fate = some (0, stop)
    · obtain ⟨stop, rfl⟩ := stops
      exact holds
    · have going : ∀ stop, fate ≠ some (0, stop) := fun stop same => stops ⟨stop, same⟩
      cases made : step.apply s with
      | none =>
        rw [perform_failed made going]
        exact holds
      | some s' =>
        rw [perform_made made going]
        exact ih (keeps step List.mem_cons_self _ _ holds made) later

/-- Steps that come to an end do what they do when nothing fails. -/
theorem perform_ended {steps : List Step} {s s' : Option FileTree} (ended : perform steps fate s = (s', none)) :
    perform steps none s = (s', none) := by
  induction steps generalizing fate s with
  | nil => exact ended
  | cons step steps ih =>
    by_cases stops : ∃ stop, fate = some (0, stop)
    · obtain ⟨stop, rfl⟩ := stops
      cases ended
    · have going : ∀ stop, fate ≠ some (0, stop) := fun stop same => stops ⟨stop, same⟩
      cases made : step.apply s with
      | none =>
        rw [perform_failed made going] at ended
        cases ended
      | some s'' =>
        rw [perform_made made going] at ended
        rw [perform_made made (by rintro _ ⟨⟩)]
        exact ih ended

/-- With no failure of their own, steps stop only where their fate has it. -/
theorem perform_stop {steps : List Step} {s s' : Option FileTree} (runs : perform steps none s = (s', none))
    {r : Option FileTree} {stop : Stop} (stops : perform steps fate s = (r, some stop)) : ∃ n, fate = some (n, stop) := by
  induction steps generalizing fate s with
  | nil => cases stops
  | cons step steps ih =>
    match fate with
    | none => rw [runs] at stops; cases stops
    | some (0, stop') =>
      cases stops
      exact ⟨0, rfl⟩
    | some (n + 1, stop') =>
      cases made : step.apply s with
      | none =>
        simp only [perform, made] at runs
        cases runs
      | some s'' =>
        simp only [perform, made] at runs stops
        obtain ⟨m, same⟩ := ih runs stops
        cases same
        exact ⟨_, rfl⟩

/-- Where steps stop for no reason of their own, their fate has it. -/
theorem perform_fated {steps : List Step} {s : Option FileTree} {stop : Stop} (stops : (perform steps fate s).2 = some stop) :
    stop = .os ∨ ∃ n, fate = some (n, stop) := by
  induction steps generalizing fate s with
  | nil => cases stops
  | cons step steps ih =>
    match fate with
    | some (0, stop') =>
      cases stops
      exact Or.inr ⟨0, rfl⟩
    | none =>
      simp only [perform] at stops
      split at stops
      · exact ih stops
      · cases stops
        exact Or.inl rfl
    | some (n + 1, stop') =>
      simp only [perform] at stops
      split at stops
      · rcases ih stops with os | ⟨m, same⟩
        · exact Or.inl os
        · cases same
          exact Or.inr ⟨_, rfl⟩
      · cases stops
        exact Or.inl rfl

theorem perform_append {steps steps' : List Step} {s s' : Option FileTree} (first : perform steps none s = (s', none)) :
    perform (steps ++ steps') none s = perform steps' none s' := by
  induction steps generalizing s with
  | nil => cases first; rfl
  | cons step steps ih =>
    rw [List.cons_append]
    simp only [perform] at first ⊢
    cases made : step.apply s with
    | none => rw [made] at first; cases first
    | some s'' =>
      rw [made] at first
      exact ih first

/-- Folders are made where no file stands in the way. -/
theorem perform_mkdirs {ps : List Path} (clear : ∀ q ∈ ps, q ≠ [] → t.file? q = none) :
    ∃ t', perform (ps.map .mkdir) none (some t) = (some t', none) ∧
      ∀ q, t'.lookup q = (t.lookup q).or (if q ≠ [] ∧ q ∈ ps then some .folder else none) := by
  induction ps generalizing t with
  | nil => exact ⟨t, rfl, by simp⟩
  | cons p ps ih =>
    have step : ∃ t₁, (Step.mkdir p).apply (some t) = some t₁ ∧
        ∀ q, t₁.lookup q = (t.lookup q).or (if q ≠ [] ∧ q = p then some .folder else none) := by
      cases p with
      | nil => exact ⟨t, rfl, by simp⟩
      | cons name names =>
        simp only [Step.apply]
        cases found : t.lookup (name :: names) with
        | none =>
          refine ⟨_, rfl, fun q => ?_⟩
          rw [Dict.lookup_set]
          by_cases here : q = name :: names
          · simp [here, found]
          · simp [here]
        | some e =>
          cases e with
          | folder =>
            refine ⟨t, rfl, fun q => ?_⟩
            by_cases here : q = name :: names
            · simp [here, found]
            · simp [here]
          | file b =>
            have free := clear _ List.mem_cons_self (List.cons_ne_nil name names)
            rw [FileTree.file?_eq_some.mpr found] at free
            cases free
    obtain ⟨t₁, made, one⟩ := step
    have free : ∀ q ∈ ps, q ≠ [] → t₁.file? q = none := by
      intro q member named
      have before := clear q (List.mem_cons_of_mem _ member) named
      unfold FileTree.file? at before ⊢
      rw [one q]
      cases found : t.lookup q with
      | none =>
        split <;> simp_all
      | some e => rw [found] at before; exact before
    obtain ⟨t', rest, all⟩ := ih free
    refine ⟨t', ?_, fun q => ?_⟩
    · simp only [List.map_cons, perform, made, Option.map_none]
      exact rest
    · rw [all, one]
      cases t.lookup q with
      | some e => rfl
      | none =>
        by_cases named : q = []
        · simp [named]
        · by_cases here : q = p
          · subst here
            simp [named]
          · simp [here]

theorem perform_parents {s : Option FileTree} (clear : ∀ q ∈ above p, q ≠ [] → (s.getD []).file? q = none) :
    ∃ t', perform (parentSteps p) none s = (some t', none) ∧
      ∀ q, t'.lookup q = ((s.getD []).lookup q).or (if q ≠ [] ∧ q ∈ above p then some .folder else none) := by
  obtain ⟨rest, split⟩ := above_eq p
  obtain ⟨t', runs, all⟩ := perform_mkdirs clear
  refine ⟨t', ?_, all⟩
  unfold parentSteps
  rw [split] at runs ⊢
  exact runs

theorem perform_appends {b : Bytes} (bytes : Bytes) (here : t.lookup p = some (.file b)) :
    ∃ t', perform (bytes.map (.append p)) none (some t) = (some t', none) ∧
      ∀ q, t'.lookup q = if q = p then some (.file (b ++ bytes)) else t.lookup q := by
  induction bytes generalizing t b with
  | nil =>
    refine ⟨t, rfl, fun q => ?_⟩
    by_cases same : q = p
    · simp [same, here]
    · simp [same]
  | cons byte bytes ih =>
    obtain ⟨t', runs, all⟩ := ih (Dict.lookup_set_self t p (.file (b ++ [byte])))
    refine ⟨t', ?_, fun q => ?_⟩
    · simp only [List.map_cons, perform, Step.apply, here, Option.map_none]
      exact runs
    · rw [all, Dict.lookup_set]
      by_cases same : q = p <;> simp [same]

/-- A file is written where no file stands in the way, and no folder in its place. -/
theorem perform_write {s : Option FileTree} {bytes : Bytes} (named : p ≠ [])
    (clear : ∀ q ∈ above p, q ≠ [] → (s.getD []).file? q = none)
    (free : (s.getD []).lookup p ≠ some .folder) :
    ∃ t', perform (writeSteps p bytes) none s = (some t', none) ∧
      ∀ q, t'.lookup q = if q = p then some (.file bytes) else
        ((s.getD []).lookup q).or (if q ≠ [] ∧ q ∈ above p then some .folder else none) := by
  obtain ⟨t₁, parents, one⟩ := perform_parents clear
  have outside : p ∉ above p := fun member => absurd (above_length named member) (lt_irrefl _)
  have free' : t₁.lookup p ≠ some .folder := by
    rw [one p]
    simpa [outside] using free
  obtain ⟨t', appends, all⟩ := perform_appends bytes (Dict.lookup_set_self t₁ p (.file []))
  refine ⟨t', ?_, fun q => ?_⟩
  · unfold writeSteps
    rw [perform_append parents]
    simp only [perform, Step.apply, if_neg free', Option.map_none]
    exact appends
  · rw [all, Dict.lookup_set, one]
    by_cases same : q = p <;> simp [same]

/-- Files that are not above one another, each path once. -/
structure Apart (A : List (Path × Bytes)) : Prop where
  distinct : (A.map Prod.fst).Nodup
  named : ∀ u ∈ A, u.1 ≠ []
  level : ∀ u ∈ A, ∀ v ∈ A, v.1 <+: u.1 → v.1 = u.1

/-- Nothing but files of `A`, whole or in part, and folders on the way to them. -/
structure PartOf (A : List (Path × Bytes)) (t : FileTree) : Prop where
  folder : ∀ q, t.lookup q = some .folder → q ≠ [] ∧ ∃ u ∈ A, q ∈ above u.1
  file : ∀ q b, t.lookup q = some (.file b) → ∃ u ∈ A, u.1 = q

variable {A : List (Path × Bytes)} {s : Option FileTree}

theorem FileTree.files_sublist (t : FileTree) : (t.files.map Prod.fst).Sublist (t.map Prod.fst) := by
  induction t with
  | nil => exact .slnil
  | cons u t ih =>
    obtain ⟨p, e⟩ := u
    cases e with
    | folder => exact ih.cons p
    | file b => exact ih.cons_cons p

theorem FileTree.Sound.files_apart (sound : t.Sound) : Apart t.files := by
  have path : ∀ u ∈ t.files, (u.1, Entry.file u.2) ∈ t := fun u member =>
    sound.mem_iff.mpr (FileTree.file?_eq_some.mp (sound.mem_files.mp member))
  refine ⟨sound.distinct.sublist t.files_sublist, fun u member => sound.named _ (path u member),
    fun u member v member' inside => ?_⟩
  exact sound.not_above (sound.mem_files.mp member) (sound.mem_files.mp member')
    (sound.named _ (path v member')) inside

theorem Apart.filter (apart : Apart A) (keep : Path × Bytes → Bool) : Apart (A.filter keep) where
  distinct := apart.distinct.sublist (List.filter_sublist.map Prod.fst)
  named := fun u member => apart.named u (List.mem_of_mem_filter member)
  level := fun u member v member' => apart.level u (List.mem_of_mem_filter member) v (List.mem_of_mem_filter member')

theorem PartOf.nil : PartOf A [] where
  folder := fun _ found => by cases found
  file := fun _ _ found => by cases found

theorem PartOf.set_folder (part : PartOf A t) (named : q ≠ []) {u : Path × Bytes} (member : u ∈ A)
    (up : q ∈ above u.1) : PartOf A (Dict.set t q .folder) := by
  constructor
  · intro r found
    rw [Dict.lookup_set] at found
    split at found
    · rename_i same
      exact same ▸ ⟨named, u, member, up⟩
    · exact part.folder r found
  · intro r b found
    rw [Dict.lookup_set] at found
    split at found
    · cases found
    · exact part.file r b found

theorem PartOf.set_file (part : PartOf A t) {u : Path × Bytes} (member : u ∈ A) (b : Bytes) :
    PartOf A (Dict.set t u.1 (.file b)) := by
  constructor
  · intro r found
    rw [Dict.lookup_set] at found
    split at found
    · cases found
    · exact part.folder r found
  · intro r b' found
    rw [Dict.lookup_set] at found
    split at found
    · rename_i same
      exact ⟨u, member, same.symm⟩
    · exact part.file r b' found

/-- What is left of a folder is part of the same. -/
theorem PartOf.filter (part : PartOf A t) (keep : Path → Bool) : PartOf A (t.filter fun u => keep u.1) := by
  constructor
  · intro q found
    rw [List.lookup_filter_keys] at found
    split at found
    · exact part.folder q found
    · cases found
  · intro q b found
    rw [List.lookup_filter_keys] at found
    split at found
    · exact part.file q b found
    · cases found

/-- Every step of writing one of the files `A`. -/
theorem PartOf.step {u : Path × Bytes} (member : u ∈ A) : ∀ step ∈ writeSteps u.1 u.2, ∀ s s',
    (∀ t, s = some t → PartOf A t) → step.apply s = some s' → ∀ t, some s' = some t → PartOf A t := by
  intro step made s s' part does t same
  obtain rfl := Option.some.inj same
  rcases List.mem_append.mp made with parent | write
  · obtain ⟨q, up, rfl⟩ := List.mem_map.mp parent
    cases q with
    | nil =>
      cases s with
      | none => cases does; exact .nil
      | some t => cases does; exact part t rfl
    | cons name names =>
      cases s with
      | none => cases does
      | some t =>
        simp only [Step.apply] at does
        split at does
        · cases does; exact (part t rfl).set_folder (List.cons_ne_nil _ _) member up
        · cases does; exact part _ rfl
        · cases does
  · rcases List.mem_cons.mp write with rfl | append
    · cases s with
      | none => cases does
      | some t =>
        simp only [Step.apply] at does
        split at does
        · cases does
        · cases does; exact (part t rfl).set_file member []
    · obtain ⟨byte, _, rfl⟩ := List.mem_map.mp append
      cases s with
      | none => cases does
      | some t =>
        simp only [Step.apply] at does
        split at does
        · cases does; exact (part t rfl).set_file member _
        · cases does

/-- What writing one of the files `A` leaves, wherever it stops. -/
theorem PartOf.writing (fate : Option (Nat × Stop)) (part : ∀ t, s = some t → PartOf A t) {u : Path × Bytes} (member : u ∈ A) :
    ∀ t, (perform (writeSteps u.1 u.2) fate s).1 = some t → PartOf A t :=
  perform_keeps (P := fun s => ∀ t, s = some t → PartOf A t) part (PartOf.step member)

/-- Writing one of the files `A` finds nothing in its way. -/
theorem PartOf.write (part : ∀ t, s = some t → PartOf A t) (apart : Apart A) {u : Path × Bytes} (member : u ∈ A) :
    ∃ t', perform (writeSteps u.1 u.2) none s = (some t', none) ∧
      ∀ q, t'.lookup q = if q = u.1 then some (.file u.2) else
        ((s.getD []).lookup q).or (if q ≠ [] ∧ q ∈ above u.1 then some .folder else none) := by
  have whole : PartOf A (s.getD []) := by
    cases s with
    | none => exact .nil
    | some t => exact part t rfl
  refine perform_write (apart.named u member) (fun q up named => ?_) (fun found => ?_)
  · cases found : (s.getD []).file? q with
    | none => rfl
    | some b =>
      obtain ⟨v, member', rfl⟩ := whole.file q b (FileTree.file?_eq_some.mp found)
      have same := apart.level u member v member' (prefix_of_above up)
      have short := above_length (apart.named u member) up
      rw [same] at short
      exact absurd short (lt_irrefl _)
  · obtain ⟨named, v, member', up⟩ := whole.folder u.1 found
    have same := apart.level v member' u member (prefix_of_above up)
    have short := above_length (apart.named v member') up
    rw [same] at short
    exact absurd short (lt_irrefl _)

/-- What unpacking leaves, wherever it stops. -/
theorem PartOf.unpack {fate : Path → Option (Nat × Stop)} (part : ∀ t, s = some t → PartOf A t)
    {B : List (Path × Bytes)} (members : ∀ u ∈ B, u ∈ A) :
    ∀ t, (unpack fate B s).1 = some t → PartOf A t := by
  induction B generalizing s with
  | nil => exact part
  | cons u B ih =>
    have kept := PartOf.writing (fate u.1) part (members u List.mem_cons_self)
    unfold Storage.unpack
    split
    · rename_i s' ended
      rw [ended] at kept
      exact ih kept fun v member => members v (List.mem_cons_of_mem _ member)
    · exact kept

/-- Unpacking that comes to an end has written every file. -/
theorem PartOf.unpacked {fate : Path → Option (Nat × Stop)} (part : ∀ t, s = some t → PartOf A t) (apart : Apart A)
    {B : List (Path × Bytes)} (members : ∀ u ∈ B, u ∈ A) {s' : Option FileTree} (ended : Storage.unpack fate B s = (s', none))
    {u : Path × Bytes} (member : u ∈ A) (written : u ∈ B ∨ (s.getD []).lookup u.1 = some (.file u.2)) :
    (s'.getD []).lookup u.1 = some (.file u.2) := by
  induction B generalizing s with
  | nil =>
    cases ended
    exact written.resolve_left List.not_mem_nil
  | cons v B ih =>
    have first := members v List.mem_cons_self
    have later : ∀ w ∈ B, w ∈ A := fun w member => members w (List.mem_cons_of_mem _ member)
    obtain ⟨t', runs, all⟩ := PartOf.write part apart first
    unfold Storage.unpack at ended
    split at ended
    · rename_i s₁ one
      have same := (perform_ended one).symm.trans runs
      cases same
      have kept := PartOf.writing (fate v.1) part first
      rw [one] at kept
      refine ih kept later ended ?_
      by_cases path : u.1 = v.1
      · have same : u = v := by
          have found := List.lookup_of_mem apart.distinct member
          rw [path, List.lookup_of_mem apart.distinct first] at found
          exact Prod.ext path (Option.some.inj found).symm
        refine Or.inr ?_
        rw [Option.getD_some, all, if_pos path, same]
      · rcases written with now | before
        · exact Or.inl ((List.mem_cons.mp now).resolve_left fun same => path (congrArg Prod.fst same))
        · refine Or.inr ?_
          rw [Option.getD_some, all, if_neg path, before]
          rfl
    · rename_i notEnded
      exact absurd ended (notEnded s')

/-- Unpacking stops only where the fate of a file has it. -/
theorem PartOf.unpack_stop {fate : Path → Option (Nat × Stop)} (part : ∀ t, s = some t → PartOf A t) (apart : Apart A)
    {B : List (Path × Bytes)} (members : ∀ u ∈ B, u ∈ A) {s' : Option FileTree} {stop : Stop}
    (stops : Storage.unpack fate B s = (s', some stop)) : ∃ u ∈ B, ∃ n, fate u.1 = some (n, stop) := by
  induction B generalizing s with
  | nil => cases stops
  | cons v B ih =>
    have first := members v List.mem_cons_self
    have later : ∀ w ∈ B, w ∈ A := fun w member => members w (List.mem_cons_of_mem _ member)
    obtain ⟨t', runs, all⟩ := PartOf.write part apart first
    unfold Storage.unpack at stops
    split at stops
    · rename_i s₁ one
      have kept := PartOf.writing (fate v.1) part first
      rw [one] at kept
      obtain ⟨u, member, n, fated⟩ := ih kept later stops
      exact ⟨u, List.mem_cons_of_mem _ member, n, fated⟩
    · obtain ⟨n, fated⟩ := perform_stop runs stops
      exact ⟨v, List.mem_cons_self, n, fated⟩

/-- What is part of `A` and holds every file of it holds its files and no other. -/
theorem PartOf.file?_eq (part : PartOf A t) (apart : Apart A)
    (whole : ∀ u ∈ A, t.lookup u.1 = some (.file u.2)) (p : Path) : t.file? p = A.lookup p := by
  cases found : t.file? p with
  | some b =>
    obtain ⟨u, member, rfl⟩ := part.file p b (FileTree.file?_eq_some.mp found)
    rw [List.lookup_of_mem apart.distinct member, ← found, FileTree.file?_eq_some.mpr (whole u member)]
  | none =>
    cases listed : A.lookup p with
    | none => rfl
    | some b =>
      have here := whole _ (List.mem_of_lookup_eq_some listed)
      rw [FileTree.file?_eq_some.mpr here] at found
      cases found

end Storage
