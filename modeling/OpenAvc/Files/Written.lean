import OpenAvc.Files.Unpack

namespace Storage

variable {s s' : Option FileTree} {t : FileTree} {p q : Path} {bytes : Bytes} {fate : Option (Nat × Stop)}

/-- A step that makes a folder, or makes or extends a file. -/
inductive Step.Writes (p : Path) : Step → Prop
  | mkdir (q : Path) : Writes p (.mkdir q)
  | create : Writes p (.create p)
  | append (byte : UInt8) : Writes p (.append p byte)

theorem writes_of_mem {step : Step} (member : step ∈ writeSteps p bytes) : step.Writes p := by
  rcases List.mem_append.mp member with parent | write
  · obtain ⟨folder, _, rfl⟩ := List.mem_map.mp parent
    exact .mkdir folder
  · rcases List.mem_cons.mp write with rfl | append
    · exact .create
    · obtain ⟨byte, _, rfl⟩ := List.mem_map.mp append
      exact .append byte

theorem file?_set {e : Entry} (p q : Path) : FileTree.file? (Dict.set t p e) q =
    if q = p then (match e with | .file b => some b | .folder => none) else t.file? q := by
  unfold FileTree.file?
  rw [Dict.lookup_set]
  by_cases here : q = p
  · rw [if_pos here, if_pos here]
    cases e <;> rfl
  · rw [if_neg here, if_neg here]

/-- Writing one file leaves the others, and makes no other. -/
theorem Step.Writes.file? {step : Step} (writes : step.Writes p) (other : q ≠ p) (does : step.apply s = some t) :
    t.file? q = (s.getD []).file? q := by
  cases s with
  | none =>
    cases writes with
    | mkdir r =>
      cases r with
      | nil => cases does; rfl
      | cons name names => cases does
    | create => cases does
    | append byte => cases does
  | some t₀ =>
    rw [Option.getD_some]
    cases writes with
    | mkdir r =>
      cases r with
      | nil => cases does; rfl
      | cons name names =>
        simp only [Step.apply] at does
        split at does
        · rename_i absent
          cases does
          rw [file?_set]
          by_cases here : q = name :: names
          · rw [if_pos here, here, FileTree.file?_of_lookup_none absent]
          · rw [if_neg here]
        · cases does; rfl
        · cases does
    | create =>
      simp only [Step.apply] at does
      split at does
      · cases does
      · cases does
        rw [file?_set, if_neg other]
    | append byte =>
      simp only [Step.apply] at does
      split at does
      · cases does
        rw [file?_set, if_neg other]
      · cases does

theorem perform_some (steps : List Step) (fate : Option (Nat × Stop)) (there : s.isSome) : (perform steps fate s).1.isSome :=
  perform_keeps (P := fun s => s.isSome = true) there fun _ _ _ _ _ _ => rfl

theorem write_others (bytes : Bytes) (fate : Option (Nat × Stop)) (other : q ≠ p) :
    ((perform (writeSteps p bytes) fate s).1.getD []).file? q = (s.getD []).file? q := by
  refine perform_keeps (P := fun s' => (s'.getD []).file? q = (s.getD []).file? q) rfl fun step member s₁ t same does => ?_
  rw [Option.getD_some, (writes_of_mem member).file? other does]
  exact same

theorem perform_append_ended {steps steps' : List Step} (ended : perform (steps ++ steps') none s = (s', none)) :
    ∃ s₁, perform steps none s = (s₁, none) ∧ perform steps' none s₁ = (s', none) := by
  induction steps generalizing s with
  | nil => exact ⟨s, rfl, ended⟩
  | cons step steps ih =>
    simp only [List.cons_append, perform, Option.map_none] at ended ⊢
    cases made : step.apply s with
    | none => rw [made] at ended; cases ended
    | some t =>
      rw [made] at ended
      exact ih ended

/-- A file made and written to its end is there with all its bytes. -/
theorem created_holds (ended : perform (.create p :: bytes.map (.append p)) none s = (s', none)) :
    ∃ t, s' = some t ∧ t.file? p = some bytes := by
  simp only [perform, Option.map_none] at ended
  cases made : (Step.create p).apply s with
  | none => rw [made] at ended; cases ended
  | some t =>
    rw [made] at ended
    have fresh : t.lookup p = some (.file []) := by
      cases s with
      | none => cases made
      | some t₀ =>
        simp only [Step.apply] at made
        split at made
        · cases made
        · cases made
          exact Dict.lookup_set_self t₀ p (.file [])
    obtain ⟨t', appends, all⟩ := perform_appends bytes fresh
    have same := ended.symm.trans appends
    cases same
    refine ⟨t', rfl, FileTree.file?_eq_some.mpr ?_⟩
    rw [all, if_pos rfl, List.nil_append]

/-- What a file that is written makes of the files. -/
theorem write_file? (ended : perform (writeSteps p bytes) fate s = (s', none)) :
    ∃ t, s' = some t ∧ ∀ q, t.file? q = if q = p then some bytes else (s.getD []).file? q := by
  obtain ⟨s₁, _, written⟩ := perform_append_ended (perform_ended ended)
  obtain ⟨t, rfl, holds⟩ := created_holds written
  refine ⟨t, rfl, fun q => ?_⟩
  by_cases here : q = p
  · rw [if_pos here, here, holds]
  · have others := write_others (s := s) bytes fate here
    rw [ended] at others
    rw [if_neg here]
    exact others

end Storage
