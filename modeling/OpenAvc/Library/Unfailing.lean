import OpenAvc.Library.FiledLogins
import OpenAvc.Library.Written

namespace OpenAvc.Library

open Storage
open OpenAvc.Logins (Exc Fernet Python Registry System)

variable {P : Python} {F : Fernet} {R : Registry} {sid : Text} {s : Copies} {place : Place}
  {r : Running} {created content : Text} {f : Writing}

/-- Nothing from the filing of the logins on fails in the writing of a tree: no file
operation does, there is no folder among the scripts, and the project is one that
can be walked and encoded. -/
structure Unfailing (R : Registry) (sid : Text) (r : Running) (created : Text) (f : Writing) : Prop where
  avc : ∀ n, f.avc ≠ some (n, .os)
  scripts : f.scripts ≠ some .os
  copies : ∀ p n, f.copies p ≠ some (n, .os)
  files : ∀ u ∈ r.sources, u.2 ≠ .folder
  moves : ∀ data, r.dumped sid created = .ok data → ∃ found marked,
    Logins.findLogins R (fun _ => false) data = .ok found ∧ Logins.markedCopy data found = .ok marked ∧
      encodable (avcText data) = true ∧ encodable (avcText marked) = true

theorem ended_raises {stop : Option Stop} {e : Exc} (raises : ended stop = .error (.raises e)) : stop = some .os := by
  cases stop with
  | none => cases raises
  | some stop =>
    cases stop with
    | os => rfl
    | killed => cases raises

theorem writeAvc_returns (empty : s.folder place = some []) (valid : encodable content = true)
    (unfailing : ∀ n, f.avc ≠ some (n, .os)) : (writeAvc place content f).Ends s fun result s' =>
      (∀ e, result ≠ .error (.raises e)) ∧ (result = .ok () → ∃ t, s'.folder place = some t ∧
        ∀ q, t.lookup q = if q = avcPath then some (.file (encodeUtf8 content)) else none) := by
  unfold writeAvc
  rw [EStateM.ends_bind, EStateM.ends_get]
  show EStateM.Ends (ite _ _ _) _ _
  have absent : ¬((s.folder place).getD []).lookup [f.tmp] ≠ none := by
    rw [empty]
    exact fun found => found rfl
  rw [if_neg absent, ends_undoing, if_pos valid, ends_inFolder, empty]
  obtain ⟨t, runs, all⟩ := avcSteps_run f.tmp (encodeUtf8 content)
  cases ran : perform (avcSteps f.tmp (encodeUtf8 content)) f.avc (some []) with
  | mk tree stop =>
    cases stop with
    | none =>
      have same := (perform_ended ran).symm.trans runs
      cases same
      exact ⟨fun _ other => (by cases other), fun _ => ⟨t, Function.update_self place (some t) s.folder, all⟩⟩
    | some stop =>
      obtain ⟨n, fated⟩ := perform_stop runs ran
      cases stop with
      | os => exact absurd fated (unfailing n)
      | killed => exact ⟨fun _ other => (by cases other), fun other => by cases other⟩

/-- Nothing is in the way of what is copied beside `project.avc` and an empty folder. -/
theorem free_of_lookup {t : FileTree} (bytes : Bytes) (r : Running) (avc : ∀ q, t.lookup q =
    if q = avcPath then some (.file bytes) else if q = ["scripts"] then t.lookup ["scripts"] else none)
    (folder : t.file? ["scripts"] = none) : Free (r.sources.map Prod.fst) t := by
  intro p member
  obtain ⟨u, copied, rfl⟩ := List.mem_map.mp member
  obtain ⟨name, top, p, named, path⟩ := Running.mem_sources copied
  have other : name ≠ "project.avc" := by
    rintro rfl
    exact absurd top (by decide)
  rw [path]
  have notAvc : ∀ q rest, name :: q ++ rest ≠ avcPath := fun q rest same => other (List.cons.inj same).1
  refine ⟨List.cons_ne_nil _ _, fun q up here => ?_, ?_⟩
  · obtain ⟨rest, whole⟩ := prefix_of_above up
    cases q with
    | nil => exact absurd rfl here
    | cons x q =>
      have head : x = name := (List.cons.inj whole).1
      subst head
      by_cases scripts : x :: q = ["scripts"]
      · rw [scripts]
        exact folder
      · unfold FileTree.file?
        rw [avc, if_neg (by simpa using notAvc q []), if_neg scripts]
  · have long : name :: p ≠ ["scripts"] := fun same => named (List.cons.inj same).2
    rw [avc, if_neg (by simpa using notAvc p []), if_neg long]
    exact fun found => by cases found

theorem copySources_returns {t : FileTree} {bytes : Bytes} (here : s.folder place = some t)
    (avc : ∀ q, t.lookup q = if q = avcPath then some (.file bytes) else none)
    (unfailing : Unfailing R sid r created f) :
    (copySources place r f).Ends s fun result _ => ∀ e, result ≠ .error (.raises e) := by
  have copies : ∀ (s₁ : Copies) {t : FileTree}, s₁.folder place = some t → Free (r.sources.map Prod.fst) t →
      (inFolder place (copyEach f.copies r.sources)).Ends s₁ fun result _ => ∀ e, result ≠ .error (.raises e) := by
    intro s₁ t here free
    rw [ends_inFolder, here]
    intro e raises
    obtain ⟨p, n, fated⟩ := copyEach_stop r.sources_incomparable free unfailing.files (ended_raises raises)
    exact unfailing.copies p n fated
  have vacant : t.lookup ["scripts"] = none := by
    rw [avc, if_neg (by decide)]
  unfold copySources
  by_cases scripts : r.scripts.isSome = true
  · rw [if_pos scripts, EStateM.ends_bind, ends_inFolder, here]
    cases fated : f.scripts with
    | some stop =>
      cases stop with
      | os => exact absurd fated unfailing.scripts
      | killed => exact fun e other => by cases other
    | none =>
      have made : perform [.mkdir ["scripts"]] none (some t) = (some (Dict.set t ["scripts"] .folder), none) := by
        simp only [perform, Storage.Step.apply, vacant]
      have next := copies { s with folder := Function.update s.folder place (some (Dict.set t ["scripts"] .folder)) }
        (Function.update_self ..) (free_of_lookup bytes r (fun q => ?_) ?_)
      · simp only [Option.map_none, made]
        exact next
      · rw [Dict.lookup_set, Dict.lookup_set_self, avc]
        by_cases first : q = ["scripts"]
        · subst first
          rw [if_pos rfl, if_neg (by decide), if_pos rfl]
        · rw [if_neg first, if_neg first]
      · exact FileTree.file?_of_folder (Dict.lookup_set_self ..)
  · rw [if_neg scripts]
    refine copies s here (free_of_lookup bytes r (fun q => ?_) (FileTree.file?_of_lookup_none vacant))
    rw [avc, vacant]
    split <;> simp

/-- Into an empty place, a tree is only ever not written because of what comes
before its logins are filed. -/
theorem writeProjectTree_returns (empty : s.folder place = none) (unfailing : Unfailing R sid r created f) :
    (writeProjectTree P F R sid place r created f).Ends s fun result s' =>
      ∀ e, result = .error (.raises e) → s'.system = s.system := by
  unfold writeProjectTree
  rw [EStateM.ends_bind, ends_inFolder, empty]
  cases f.folder with
  | some stop => exact fun _ _ => rfl
  | none =>
    show EStateM.Ends _ { s with folder := Function.update s.folder place (some []) } _
    have made : Function.update s.folder place (some []) place = some [] := Function.update_self ..
    cases dumped : r.dumped sid created with
    | error e => exact fun _ _ => rfl
    | ok data =>
      obtain ⟨found, marked, finds, marks, plain, valid⟩ := unfailing.moves data dumped
      have returns := fileLibraryLogins_returns P F sid { s.system with faults := f.logins } finds marks
      show EStateM.Ends _ _ _
      cases filed : fileLibraryLogins P F R sid data { s.system with faults := f.logins } with
      | error e system =>
        rw [EStateM.ends_of_error filed] at returns
        have interrupt : e = .interrupt := by
          rcases returns with other | other | other <;> cases other
          rfl
        obtain ⟨halt, ran, rfl | ⟨_, other⟩⟩ := onLogins_error
          (s := { s with folder := Function.update s.folder place (some []) }) filed
        · rw [EStateM.ends_bind_of_error ran]
          exact fun _ other => by cases other
        · exact absurd interrupt other
      | ok data' system =>
        rw [EStateM.ends_of_ok filed] at returns
        have encodes : encodable (avcText data') = true := by
          rcases returns with same | same | other
          · cases same; exact plain
          · cases same; exact valid
          · cases other
        have ran := onLogins_ok (s := { s with folder := Function.update s.folder place (some []) }) filed
        rw [EStateM.ends_bind_of_ok ran, EStateM.ends_bind]
        refine (writeAvc_returns made encodes unfailing.avc).mono fun result s₂ avc => ?_
        cases result with
        | error halt =>
          intro e raises
          exact absurd raises (avc.1 e)
        | ok =>
          obtain ⟨t, here, all⟩ := avc.2 rfl
          refine (copySources_returns here all unfailing).mono fun result s₃ goes e raises => ?_
          exact absurd raises (goes e)

/-- Writing a tree whose logins are filed already leaves the files of the data folder. -/
theorem writeProjectTree_settled (place : Place) (settled : ∀ data, r.dumped sid created = .ok data →
      Settled P F R sid data { s.system with faults := f.logins }) :
    (writeProjectTree P F R sid place r created f).Ends s fun _ s' => s'.system.disk = s.system.disk := by
  have start := Within.refl place s
  unfold writeProjectTree
  rw [EStateM.ends_bind, ends_inFolder]
  cases f.folder with
  | some stop => rfl
  | none =>
    have within := start.update (some ((s.folder place).getD []))
    show EStateM.Ends _ _ _
    generalize { s with folder := Function.update s.folder place (some ((s.folder place).getD [])) } = s₁ at within ⊢
    cases dumped : r.dumped sid created with
    | error e => exact congrArg Logins.System.disk within.2
    | ok data =>
      have kept := (settled data dumped).disk
      rw [← within.2] at kept ⊢
      show EStateM.Ends _ _ _
      cases filed : fileLibraryLogins P F R sid data { s₁.system with faults := f.logins } with
      | error e system =>
        rw [EStateM.ends_of_error filed] at kept
        obtain ⟨halt, ran, _⟩ := onLogins_error filed
        rw [EStateM.ends_bind_of_error ran]
        exact kept
      | ok data' system =>
        rw [EStateM.ends_of_ok filed] at kept
        rw [EStateM.ends_bind_of_ok (onLogins_ok filed), EStateM.ends_bind]
        refine writeAvc_ends.mono fun result s₂ avc => ?_
        have disk : s₂.system.disk = s₁.system.disk := (congrArg Logins.System.disk avc.1.2).trans kept
        cases result with
        | error halt => exact disk
        | ok =>
          obtain ⟨t, here, there⟩ := avc.2 rfl
          refine (copySources_ends here there).mono fun result s₃ copied => ?_
          exact (congrArg Logins.System.disk copied.1.2).trans disk

end OpenAvc.Library
