import OpenAvc.Library.Copying

namespace OpenAvc.Library

open Storage
open OpenAvc.Logins (Exc Fernet Python Registry System)

variable {P : Python} {F : Fernet} {R : Registry} {sid : Text} {s : Copies} {place : Place}
  {Q : Except Halt Unit → Copies → Prop}

/-- What an operation with this fate ends with. -/
def ended (fate : Option Stop) : Except Halt Unit := fate.elim (.ok ()) fun stop => .error (.of stop)

theorem ends_proceed {fate : Option Stop} : (proceed fate).Ends s Q ↔ Q (ended fate) s := by
  cases fate <;> rfl

theorem ends_inFolder {act : Option FileTree → Option FileTree × Option Stop} : (inFolder place act).Ends s Q ↔
    Q (ended (act (s.folder place)).2) { s with folder := Function.update s.folder place (act (s.folder place)).1 } := by
  unfold inFolder
  simp only [EStateM.ends_bind, EStateM.ends_get, EStateM.ends_set, ends_proceed]

theorem onLogins_ok {α : Type} {faults : List Logins.Outcome} {op : Logins.Op α} {a : α} {system : System}
    (ran : op { s.system with faults } = .ok a system) : onLogins faults op s = .ok a { s with system } := by
  unfold onLogins
  rw [ran]

theorem onLogins_error {α : Type} {faults : List Logins.Outcome} {op : Logins.Op α} {e : Exc} {system : System}
    (ran : op { s.system with faults } = .error e system) :
    ∃ halt, onLogins faults op s = .error halt { s with system } ∧ (halt = .dies ∨ halt = .raises e ∧ e ≠ .interrupt) := by
  unfold onLogins
  rw [ran]
  cases e
  case interrupt => exact ⟨_, rfl, Or.inl rfl⟩
  all_goals exact ⟨_, rfl, Or.inr ⟨rfl, fun same => by cases same⟩⟩

theorem ends_undoing {op undo : Op Unit} : (undoing op undo).Ends s Q ↔ op.Ends s fun r s' => match r with
    | .error (.raises e) => (do undo; throw (.raises e) : Op Unit).Ends s' Q
    | .error .dies => Q (.error .dies) s'
    | .ok _ => Q (.ok ()) s' := by
  unfold undoing EStateM.Ends
  cases ran : op s with
  | ok => simp only [ran]
  | error e s' => cases e <;> simp only [ran]

theorem ends_finallyDo {op last : Op Unit} : (finallyDo op last).Ends s Q ↔ op.Ends s fun r s' => match r with
    | .error (.raises e) => (do last; throw (.raises e) : Op Unit).Ends s' Q
    | .error .dies => Q (.error .dies) s'
    | .ok _ => last.Ends s' Q := by
  unfold finallyDo EStateM.Ends
  cases ran : op s with
  | ok => simp only [ran]
  | error e s' => cases e <;> simp only [ran]

/-! `project.avc`. -/

theorem avcSteps_hold {tmp : String} {bytes : Bytes} {fate : Option (Nat × Stop)} {s s' : Option FileTree}
    (ended : perform (avcSteps tmp bytes) fate s = (s', none)) :
    ∃ t, s' = some t ∧ t.file? avcPath = some bytes := by
  obtain ⟨s₁, created, renamed⟩ := perform_append_ended (perform_ended ended)
  obtain ⟨t₁, rfl, there⟩ := created_holds created
  simp only [perform, Storage.Step.apply, there] at renamed
  split at renamed
  · rename_i t does
    split at does
    · cases does
    · cases does
      cases renamed
      refine ⟨_, rfl, ?_⟩
      rw [file?_set, if_pos rfl]
  · cases renamed

theorem avcSteps_run (tmp : String) (bytes : Bytes) : ∃ t, perform (avcSteps tmp bytes) none (some []) = (some t, none) ∧
    ∀ q, t.lookup q = if q = avcPath then some (Entry.file bytes) else none := by
  obtain ⟨t₁, appends, all⟩ := perform_appends bytes (Dict.lookup_set_self ([] : FileTree) [tmp] (Entry.file []))
  have created : perform (.create [tmp] :: bytes.map (.append [tmp])) none (some []) = (some t₁, none) := by
    have free : ([] : FileTree).lookup [tmp] ≠ some .folder := fun found => by cases found
    simp only [perform, Storage.Step.apply, if_neg free, Option.map_none]
    exact appends
  have alone : ∀ q, t₁.lookup q = if q = [tmp] then some (Entry.file bytes) else none := by
    intro q
    rw [all, Dict.lookup_set, List.nil_append]
    by_cases here : q = [tmp] <;> simp [here]
  have there : t₁.file? [tmp] = some bytes := FileTree.file?_eq_some.mpr (by rw [alone, if_pos rfl])
  have vacant : t₁.lookup avcPath ≠ some .folder := by
    rw [alone]
    split <;> simp
  refine ⟨Dict.set (t₁.filter (·.1 ≠ [tmp])) avcPath (.file bytes), ?_, fun q => ?_⟩
  · rw [avcSteps, perform_append created]
    simp only [perform, Storage.Step.apply, there, if_neg vacant]
  · rw [Dict.lookup_set]
    by_cases here : q = avcPath
    · rw [if_pos here, if_pos here]
    · have left := List.lookup_filter_keys (fun r : Path => decide (r ≠ [tmp])) q t₁
      rw [if_neg here, if_neg here, left, alone]
      by_cases temporary : q = [tmp] <;> simp [temporary]

variable {content : Text} {f : Writing}

/-- What only touches one folder. -/
def Within (place : Place) (s s' : Copies) : Prop :=
  (∀ q, q ≠ place → s'.folder q = s.folder q) ∧ s'.system = s.system

theorem Within.refl (place : Place) (s : Copies) : Within place s s := ⟨fun _ _ => rfl, rfl⟩

theorem Within.update {s' : Copies} (within : Within place s s') (tree : Option FileTree) :
    Within place s { s' with folder := Function.update s'.folder place tree } := by
  refine ⟨fun q other => ?_, within.2⟩
  exact (Function.update_of_ne other tree s'.folder).trans (within.1 q other)

theorem Within.inFolder {s' : Copies} (within : Within place s s') {act : Option FileTree → Option FileTree × Option Stop} :
    (inFolder place act).Ends s' fun _ s'' => Within place s s'' :=
  ends_inFolder.mpr (within.update _)

theorem unlinkTmp_ends {s' : Copies} (within : Within place s s') :
    (unlinkTmp place f).Ends s' fun _ s'' => Within place s s'' := by
  unfold unlinkTmp
  split
  · exact within.inFolder
  · exact within
  · exact within

theorem writeAvc_ends : (writeAvc place content f).Ends s fun r s' => Within place s s' ∧
    (r = .ok () → ∃ t, s'.folder place = some t ∧ t.file? avcPath = some (encodeUtf8 content)) := by
  have start := Within.refl place s
  -- whatever fails, the call raises once the temporary file is dealt with
  have raises : ∀ {s' : Copies} {e : Exc}, Within place s s' →
      (do unlinkTmp place f; throw (.raises e) : Op Unit).Ends s' fun r s'' => Within place s s'' ∧
        (r = .ok () → ∃ t, s''.folder place = some t ∧ t.file? avcPath = some (encodeUtf8 content)) := by
    intro s' e within
    rw [EStateM.ends_bind]
    refine (unlinkTmp_ends within).mono fun r s'' within => ?_
    cases r with
    | ok => exact ⟨within, fun same => by cases same⟩
    | error e => exact ⟨within, fun same => by cases same⟩
  unfold writeAvc
  rw [EStateM.ends_bind, EStateM.ends_get]
  show EStateM.Ends (ite _ _ _) _ _
  rw [EStateM.ends_ite]
  refine ⟨fun _ => ⟨start, fun same => by cases same⟩, fun _ => ?_⟩
  rw [ends_undoing]
  by_cases valid : encodable content = true
  · rw [if_pos valid, ends_inFolder]
    cases ran : perform (avcSteps f.tmp (encodeUtf8 content)) f.avc (s.folder place) with
    | mk tree stop =>
      cases stop with
      | none =>
        obtain ⟨t, rfl, holds⟩ := avcSteps_hold ran
        exact ⟨start.update (some t), fun _ => ⟨t, Function.update_self place (some t) s.folder, holds⟩⟩
      | some stop =>
        cases stop with
        | os => exact raises (start.update tree)
        | killed => exact ⟨start.update tree, fun same => by cases same⟩
  · rw [if_neg valid, EStateM.ends_bind, ends_inFolder]
    cases ran : perform [.create [f.tmp]] f.avc (s.folder place) with
    | mk tree stop =>
      cases stop with
      | none => exact raises (start.update tree)
      | some stop =>
        cases stop with
        | os => exact raises (start.update tree)
        | killed => exact ⟨start.update tree, fun same => by cases same⟩

/-! The tree. -/

variable {r : Running} {created : Text}

theorem avc_not_source (r : Running) : avcPath ∉ r.sources.map Prod.fst := by
  intro member
  obtain ⟨u, copied, same⟩ := List.mem_map.mp member
  obtain ⟨name, _, p, named, path⟩ := Running.mem_sources copied
  rw [same] at path
  exact named (List.cons.inj path).2.symm

/-- Once `project.avc` is there, what is copied leaves it and makes the tree whole. -/
theorem copies_whole {s s' : Option FileTree} {data : Json} {fate : Path → Option (Nat × Stop)}
    (there : (s.getD []).file? avcPath = some (encodeUtf8 (avcText data)))
    (ended : copyEach fate r.sources s = (s', none)) : ∃ t, s' = some t ∧ r.whole data t = true := by
  have some' : s.isSome := by
    cases s with
    | none => cases there
    | some t => rfl
  have there' := (copyEach_others (s := s) fate (avc_not_source r)).trans there
  have isSome' := copyEach_some fate r.sources some'
  rw [ended] at there' isSome'
  obtain ⟨t, rfl⟩ := Option.isSome_iff_exists.mp isSome'
  refine ⟨t, rfl, ?_⟩
  unfold Running.whole
  rw [Bool.and_eq_true, decide_eq_true_eq, List.all_eq_true]
  refine ⟨there', fun u member => ?_⟩
  rw [decide_eq_true_eq]
  exact copyEach_holds r.sources_incomparable.nodup ended member

theorem copySources_ends {data : Json} {t : FileTree} (here : s.folder place = some t)
    (there : t.file? avcPath = some (encodeUtf8 (avcText data))) :
    (copySources place r f).Ends s fun result s' => Within place s s' ∧
      (result = .ok () → ∃ t, s'.folder place = some t ∧ r.whole data t = true) := by
  -- the copying, from a tree that has `project.avc`
  have copies : ∀ {s₁ : Copies}, Within place s s₁ →
      ((s₁.folder place).getD []).file? avcPath = some (encodeUtf8 (avcText data)) →
      (inFolder place (copyEach f.copies r.sources)).Ends s₁ fun result s' => Within place s s' ∧
        (result = .ok () → ∃ t, s'.folder place = some t ∧ r.whole data t = true) := by
    intro s₁ within there
    rw [ends_inFolder]
    refine ⟨within.update _, fun returns => ?_⟩
    cases ran : copyEach f.copies r.sources (s₁.folder place) with
    | mk tree stop =>
      rw [ran] at returns
      cases stop with
      | some stop => cases returns
      | none =>
        obtain ⟨t, rfl, whole⟩ := copies_whole there ran
        exact ⟨t, Function.update_self place (some t) s₁.folder, whole⟩
  have start := Within.refl place s
  unfold copySources
  by_cases scripts : r.scripts.isSome = true
  · rw [if_pos scripts, EStateM.ends_bind, ends_inFolder]
    have kept : ((perform [.mkdir ["scripts"]] (f.scripts.map fun stop => (0, stop)) (s.folder place)).1.getD []).file?
        avcPath = some (encodeUtf8 (avcText data)) := by
      refine perform_keeps (P := fun s => (s.getD []).file? avcPath = some (encodeUtf8 (avcText data)))
        (by rw [here]; exact there) fun step member s t holds does => ?_
      rw [List.mem_singleton] at member
      subst member
      have other : avcPath ≠ [] := List.cons_ne_nil _ _
      exact ((Step.Writes.mkdir ["scripts"]).file? other does).trans holds
    cases ran : perform [.mkdir ["scripts"]] (f.scripts.map fun stop => (0, stop)) (s.folder place) with
    | mk tree stop =>
      rw [ran] at kept
      cases stop with
      | some stop => exact ⟨start.update _, fun same => by cases same⟩
      | none =>
        refine copies (start.update tree) ?_
        show ((Function.update s.folder place tree place).getD []).file? avcPath = _
        rw [Function.update_self]
        exact kept
  · rw [if_neg scripts]
    refine copies start ?_
    rw [here]
    exact there

/-- Writing a tree touches no other folder, and a tree that is written is whole. -/
theorem writeProjectTree_ends (P : Python) (F : Fernet) (R : Registry) (sid : Text) (place : Place) (r : Running)
    (created : Text) (f : Writing) (s : Copies) : (writeProjectTree P F R sid place r created f).Ends s fun result s' =>
    (∀ q, q ≠ place → s'.folder q = s.folder q) ∧
    (result = .ok () → ∃ data data' system t, r.dumped sid created = .ok data ∧
      fileLibraryLogins P F R sid data { s.system with faults := f.logins } = .ok data' system ∧
      s'.folder place = some t ∧ r.whole data' t = true) := by
  have start := Within.refl place s
  unfold writeProjectTree
  rw [EStateM.ends_bind, ends_inFolder]
  cases f.folder with
  | some stop => exact ⟨(start.update _).1, fun same => by cases same⟩
  | none =>
    have within := start.update (some ((s.folder place).getD []))
    show EStateM.Ends _ _ _
    generalize { s with folder := Function.update s.folder place (some ((s.folder place).getD [])) } = s₁ at within ⊢
    cases dumped : r.dumped sid created with
    | error e => exact ⟨within.1, fun same => by cases same⟩
    | ok data =>
      show EStateM.Ends _ _ _
      cases filed : fileLibraryLogins P F R sid data { s₁.system with faults := f.logins } with
      | error e system =>
        obtain ⟨halt, ran, _⟩ := onLogins_error filed
        rw [EStateM.ends_bind_of_error ran]
        exact ⟨within.1, fun same => by cases same⟩
      | ok data' system =>
        rw [EStateM.ends_bind_of_ok (onLogins_ok filed), EStateM.ends_bind]
        refine writeAvc_ends.mono fun result s₂ avc => ?_
        have others : ∀ q, q ≠ place → s₂.folder q = s.folder q :=
          fun q other => (avc.1.1 q other).trans (within.1 q other)
        cases result with
        | error e => exact ⟨others, fun same => by cases same⟩
        | ok =>
          obtain ⟨t, here, there⟩ := avc.2 rfl
          refine (copySources_ends here there).mono fun result s₃ copied => ?_
          refine ⟨fun q other => (copied.1.1 q other).trans (others q other), fun returns => ?_⟩
          obtain ⟨t', here', whole⟩ := copied.2 returns
          rw [within.2] at filed
          exact ⟨data, data', system, t', rfl, filed, here', whole⟩

end OpenAvc.Library
