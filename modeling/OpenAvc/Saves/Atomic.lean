import OpenAvc.Saves.Calls

/-! What a save and a load leave behind. -/

namespace OpenAvc.Saves

variable {f : Calls} {s : Files} {content : Option Bytes}

/-- The target holds the new content. -/
def Put (new : Option Bytes) (s : Files) : Prop :=
  ∃ bytes, new = some bytes ∧ s.target = some bytes

/-- The target holds its previous content or the new one. -/
def Atomic (new : Option Bytes) (s s' : Files) : Prop :=
  s'.target = s.target ∨ Put new s'

/-- The file that was written is put in place: the first `n` bytes of the content. -/
def Moved (f : Calls) (content : Option Bytes) (bytes : Bytes) (n : Nat) : Prop :=
  content = some bytes ∧ f.write = some n ∧ f.close = true ∧ f.replace = true

/-- A file that was written short is put in place. -/
def Short (f : Calls) (content : Option Bytes) : Prop :=
  ∃ bytes n, Moved f content bytes n ∧ n < bytes.length

theorem failIf_ends {works : Bool} {e : Exc} {Q : Except Exc Unit → Files → Prop} (bad : works = false → Q (.error e) s)
    (good : works = true → Q (.ok ()) s) : (failIf (!works) e).Ends s Q := by
  cases works with
  | false => exact bad rfl
  | true => exact good rfl

theorem moveIn_ends (f : Calls) (content : Option Bytes) : (moveIn f content).Ends s fun r s' => s'.dirty = s.dirty ∧
    match r with
    | .ok _ => ∃ bytes n, Moved f content bytes n ∧ s'.target = some (bytes.take n)
    | .error e => e ≠ .recursion ∧ s'.target = s.target ∧ ∀ bytes n, ¬Moved f content bytes n := by
  unfold moveIn
  rw [EStateM.ends_bind]
  cases content with
  | none => exact ⟨rfl, by decide, rfl, fun bytes n moved => nomatch moved.1⟩
  | some bytes =>
    cases write : f.write with
    | none =>
      unfold osWrite
      rw [write]
      exact ⟨rfl, by decide, rfl, fun _ n moved => nomatch write.symm.trans moved.2.1⟩
    | some n =>
      unfold osWrite
      rw [write]
      dsimp only
      rw [EStateM.ends_modify]
      dsimp only
      rw [EStateM.ends_bind]
      refine failIf_ends (fun fails => ?_) fun closes => ?_
      · refine ⟨rfl, by decide, rfl, fun _ _ moved => ?_⟩
        rw [moved.2.2.1] at fails
        cases fails
      · dsimp only
        rw [EStateM.ends_bind]
        refine failIf_ends (fun fails => ?_) fun replaces => ?_
        · refine ⟨rfl, by decide, rfl, fun _ _ moved => ?_⟩
          rw [moved.2.2.2] at fails
          cases fails
        · exact ⟨rfl, bytes, n, ⟨rfl, write, closes, replaces⟩, rfl⟩

/-- What `finally` does leaves the target, and what was raised is still raised. -/
theorem cleaning_ends {op : Op Unit} {Q : Except Exc Unit → Files → Prop}
    (ends : op.Ends s fun r s' => ∀ t : Files, t.target = s'.target → t.dirty = s'.dirty → Q r t) :
    (cleaning f op).Ends s Q := by
  unfold EStateM.Ends cleaning at *
  cases ran : op s with
  | ok a s' =>
    rw [ran] at ends
    dsimp only
    split
    · exact ends _ rfl rfl
    · exact ends _ rfl rfl
  | error e s' =>
    rw [ran] at ends
    dsimp only
    split
    · exact ends _ rfl rfl
    · exact ends _ rfl rfl

theorem makeTemp_ends (f : Calls) : (makeTemp f).Ends s fun r s' => s'.target = s.target ∧ s'.dirty = s.dirty ∧
    match r with
    | .ok _ => f.mkstemp = true
    | .error e => e ≠ .recursion ∧ f.mkstemp = false := by
  unfold makeTemp
  rw [EStateM.ends_bind]
  exact failIf_ends (fun fails => ⟨rfl, rfl, by decide, fails⟩) fun works => ⟨rfl, rfl, works⟩

/-- What a save keeps: the target is whole, and a save that returns has put the new content there. -/
def Whole (new : Option Bytes) (s : Files) (r : Except Exc Unit) (s' : Files) : Prop :=
  Atomic new s s' ∧ ((∃ e, r = .error e) ∨ Put new s')

/-- What was moved in is the new content just where it was not written short. -/
theorem whole_moved_iff {bytes : Bytes} {n : Nat} {s' : Files} (moved : Moved f content bytes n)
    (target : s'.target = some (bytes.take n)) : Whole content s (.ok ()) s' ↔ ¬Short f content := by
  have put_iff : Put content s' ↔ bytes.length ≤ n := by
    constructor
    · rintro ⟨new, same, whole⟩
      rw [moved.1] at same
      cases same
      rw [target, Option.some.injEq] at whole
      have length := congrArg List.length whole
      rw [List.length_take] at length
      omega
    · intro enough
      exact ⟨bytes, moved.1, by rw [target, List.take_of_length_le enough]⟩
  have short_iff : Short f content ↔ n < bytes.length := by
    constructor
    · rintro ⟨new, m, other, less⟩
      have same := moved.1.symm.trans other.1
      have count := moved.2.1.symm.trans other.2.1
      cases same
      cases count
      exact less
    · exact fun less => ⟨bytes, n, moved, less⟩
  rw [short_iff, Nat.not_lt, ← put_iff]
  constructor
  · rintro ⟨_, ⟨e, raised⟩ | put⟩
    · cases raised
    · exact put
  · exact fun put => ⟨Or.inr put, Or.inr put⟩

theorem whole_of_raised {e : Exc} {s' : Files} (same : s'.target = s.target) : Whole content s (.error e) s' :=
  ⟨Or.inl same, Or.inl ⟨e, rfl⟩⟩

/-- `_atomic_write_bytes` keeps the file whole unless `os.write` stops short. -/
theorem atomicWriteBytes_ends (f : Calls) (data : Bytes) : (atomicWriteBytes f data).Ends s fun r s' =>
    (Whole (some data) s r s' ↔ ¬(f.mkstemp = true ∧ Short f (some data))) := by
  unfold atomicWriteBytes
  rw [EStateM.ends_bind]
  refine (makeTemp_ends f).mono fun r₁ s₁ made => ?_
  obtain ⟨target₁, _, made⟩ := made
  cases r₁ with
  | error e =>
    refine ⟨fun _ both => ?_, fun _ => whole_of_raised target₁⟩
    rw [both.1] at made
    exact absurd made.2 (by decide)
  | ok u =>
    dsimp only at made ⊢
    refine cleaning_ends ((moveIn_ends f _).mono fun r₂ s₂ moved t target _ => ?_)
    obtain ⟨_, moved⟩ := moved
    cases r₂ with
    | error e =>
      refine ⟨fun _ both => ?_, fun _ => whole_of_raised (target.trans (moved.2.1.trans target₁))⟩
      obtain ⟨bytes, n, through, _⟩ := both.2
      exact moved.2.2 bytes n through
    | ok u =>
      obtain ⟨bytes, n, through, whole⟩ := moved
      rw [whole_moved_iff through (target.trans whole)]
      simp [made]

theorem copyAside_ends (f : Calls) : (copyAside f).Ends s fun r s' => s'.target = s.target ∧ s'.dirty = s.dirty ∧
    match r with
    | .ok _ => s.target.isSome → f.copy = true
    | .error _ => s.target.isSome ∧ f.copy = false := by
  unfold copyAside
  rw [EStateM.ends_bind, EStateM.ends_get]
  refine EStateM.ends_ite.mpr ⟨fun there => ?_, fun absent => ⟨rfl, rfl, fun there => absurd there absent⟩⟩
  rw [EStateM.ends_bind]
  exact failIf_ends (fun fails => ⟨rfl, rfl, there, fails⟩) fun works => ⟨rfl, rfl, fun _ => works⟩

/-- `save_project` does, under the same condition. -/
theorem saveProject_ends (f : Calls) (room : Nat) (project : Json) : (saveProject f room project).Ends s fun r s' =>
    (Whole (projectBytes room project) s r s' ↔
      ¬((s.target.isSome → f.copy = true) ∧ f.mkstemp = true ∧ Short f (projectBytes room project))) := by
  unfold saveProject
  rw [EStateM.ends_bind]
  refine failIf_ends (fun unwritable => ?_) fun _ => ?_
  · refine ⟨fun _ both => ?_, fun _ => whole_of_raised rfl⟩
    obtain ⟨_, _, bytes, n, moved, _⟩ := both
    have none : projectBytes room project = none := if_neg (by rw [unwritable]; decide)
    exact nomatch none.symm.trans moved.1
  dsimp only
  rw [EStateM.ends_bind]
  refine (copyAside_ends f).mono fun r₁ s₁ copied => ?_
  obtain ⟨target₁, _, copied⟩ := copied
  cases r₁ with
  | error e =>
    refine ⟨fun _ both => ?_, fun _ => whole_of_raised target₁⟩
    rw [both.1 copied.1] at copied
    exact absurd copied.2 (by decide)
  | ok u =>
    dsimp only at copied ⊢
    refine cleaning_ends ?_
    rw [EStateM.ends_bind]
    refine (makeTemp_ends f).mono fun r₂ s₂ made => ?_
    obtain ⟨target₂, _, made⟩ := made
    cases r₂ with
    | error e =>
      refine fun t target _ => ⟨fun _ both => ?_, fun _ => whole_of_raised (target.trans (target₂.trans target₁))⟩
      rw [both.2.1] at made
      exact absurd made.2 (by decide)
    | ok u =>
      dsimp only at made ⊢
      refine (moveIn_ends f _).mono fun r₃ s₃ moved t target _ => ?_
      obtain ⟨_, moved⟩ := moved
      cases r₃ with
      | error e =>
        refine ⟨fun _ both => ?_, fun _ => whole_of_raised (target.trans (moved.2.1.trans (target₂.trans target₁)))⟩
        obtain ⟨bytes, n, through, _⟩ := both.2.2
        exact moved.2.2 bytes n through
      | ok u =>
        obtain ⟨bytes, n, through, whole⟩ := moved
        rw [whole_moved_iff through (target.trans whole)]
        exact not_congr ⟨fun short => ⟨copied, made, short⟩, fun both => both.2.2⟩

/-! The persister, whose failures are logged. -/

/-- The temporary file is made, and what is written to it is moved in. -/
def Through (f : Calls) (content : Option Bytes) (bytes : Bytes) (n : Nat) : Prop :=
  f.mkdir = true ∧ f.mkstemp = true ∧ Moved f content bytes n

theorem logging_ends {op : Op Unit} {Q : Except Exc Unit → Files → Prop}
    (ends : op.Ends s fun r s' => match r with
      | .ok _ => Q (.ok ()) s'
      | .error e => e ≠ .recursion ∧ Q (.ok ()) s') : (logging op).Ends s Q := by
  unfold EStateM.Ends logging at *
  cases ran : op s with
  | ok a s' =>
    rw [ran] at ends
    exact ends
  | error e s' =>
    rw [ran] at ends
    cases e with
    | recursion => exact absurd rfl ends.1
    | os => exact ends.2
    | value => exact ends.2

/-- `_write` puts in place what was written and is clean then, or leaves everything as it is. -/
theorem writeState_ends (f : Calls) (data : Kept) : (writeState f data).Ends s fun r s' => r = .ok () ∧
    ((∃ bytes n, Through f (stateBytes data) bytes n ∧ s'.target = some (bytes.take n) ∧ s'.dirty = false) ∨
      (∀ bytes n, ¬Through f (stateBytes data) bytes n) ∧ s'.target = s.target ∧ s'.dirty = s.dirty) := by
  unfold writeState
  refine cleaning_ends (logging_ends ?_)
  rw [EStateM.ends_bind]
  refine failIf_ends (fun unwritable => ?_) fun _ => ?_
  · refine ⟨by decide, fun t target dirty => ⟨rfl, Or.inr ⟨fun bytes n through => ?_, target, dirty⟩⟩⟩
    have none : stateBytes data = none := if_neg (by rw [unwritable]; decide)
    exact nomatch none.symm.trans through.2.2.1
  dsimp only
  rw [EStateM.ends_bind]
  refine failIf_ends (fun fails => ?_) fun mkdir => ?_
  · refine ⟨by decide, fun t target dirty => ⟨rfl, Or.inr ⟨fun bytes n through => ?_, target, dirty⟩⟩⟩
    exact nomatch fails.symm.trans through.1
  dsimp only
  rw [EStateM.ends_bind]
  refine (makeTemp_ends f).mono fun r₁ s₁ made => ?_
  obtain ⟨target₁, dirty₁, made⟩ := made
  cases r₁ with
  | error e =>
    refine ⟨made.1, fun t target dirty => ⟨rfl, Or.inr ⟨fun bytes n through => ?_, target.trans target₁, dirty.trans dirty₁⟩⟩⟩
    exact nomatch made.2.symm.trans through.2.1
  | ok u =>
    dsimp only at made ⊢
    rw [EStateM.ends_bind]
    refine (moveIn_ends f _).mono fun r₂ s₂ moved => ?_
    obtain ⟨dirty₂, moved⟩ := moved
    cases r₂ with
    | error e =>
      refine ⟨moved.1, fun t target dirty => ⟨rfl, Or.inr ⟨fun bytes n through => moved.2.2 bytes n through.2.2, ?_, ?_⟩⟩⟩
      · exact target.trans (moved.2.1.trans target₁)
      · exact dirty.trans (dirty₂.trans dirty₁)
    | ok u =>
      obtain ⟨bytes, n, through, whole⟩ := moved
      exact fun t target dirty => ⟨rfl, Or.inl ⟨bytes, n, ⟨mkdir, made, through⟩, target.trans whole, dirty⟩⟩

/-- What a write of the persister keeps: the target is whole, and where the new content is not
there the persister is dirty. -/
def WholeOrDirty (new : Option Bytes) (s : Files) (r : Except Exc Unit) (s' : Files) : Prop :=
  Atomic new s s' ∧ ((∃ e, r = .error e) ∨ s'.dirty = true ∨ Put new s')

/-- `os.write` does not stop short, and what fails is dirty from before (or is there already). -/
def Steady (f : Calls) (new : Option Bytes) (s : Files) : Prop :=
  (∀ bytes n, Through f new bytes n → bytes.length ≤ n) ∧
    (s.dirty = true ∨ Put new s ∨ ∃ bytes n, Through f new bytes n)

theorem writeState_iff (f : Calls) (data : Kept) : (writeState f data).Ends s fun r s' =>
    (WholeOrDirty (stateBytes data) s r s' ↔ Steady f (stateBytes data) s) := by
  refine (writeState_ends f data).mono fun r s' ends => ?_
  obtain ⟨rfl, ⟨bytes, n, through, target, clean⟩ | ⟨stays, target, dirty⟩⟩ := ends
  · have whole := whole_moved_iff (s := s) through.2.2 target
    have short : Short f (stateBytes data) ↔ ¬∀ bytes n, Through f (stateBytes data) bytes n → bytes.length ≤ n := by
      constructor
      · rintro ⟨other, m, moved, less⟩ all
        have enough := all other m ⟨through.1, through.2.1, moved⟩
        omega
      · intro some
        by_contra none
        refine some fun other m moved => ?_
        by_contra less
        exact none ⟨other, m, moved.2.2, by omega⟩
    rw [short, not_not] at whole
    unfold WholeOrDirty Steady
    rw [clean]
    constructor
    · rintro ⟨atomic, ⟨e, raised⟩ | impossible | put⟩
      · cases raised
      · cases impossible
      · exact ⟨whole.mp ⟨atomic, Or.inr put⟩, Or.inr (Or.inr ⟨bytes, n, through⟩)⟩
    · rintro ⟨full, _⟩
      obtain ⟨atomic, told⟩ := whole.mpr full
      exact ⟨atomic, told.imp_right Or.inr⟩
  · have same : Put (stateBytes data) s' ↔ Put (stateBytes data) s := by
      unfold Put
      rw [target]
    unfold WholeOrDirty Steady
    rw [same, dirty]
    constructor
    · rintro ⟨_, ⟨e, raised⟩ | told⟩
      · cases raised
      · exact ⟨fun bytes n through => absurd through (stays bytes n), told.imp_right Or.inl⟩
    · rintro ⟨_, kept | put | ⟨bytes, n, through⟩⟩
      · exact ⟨Or.inl target, Or.inr (Or.inl kept)⟩
      · exact ⟨Or.inl target, Or.inr (Or.inr put)⟩
      · exact absurd through (stays bytes n)

/-! Loading. -/

/-- The bytes are no JSON text in UTF-8. -/
def Undecodable (room : Nat) (bytes : Bytes) : Prop :=
  ∀ t v, decodeUtf8 bytes = some t → jsonLoads room t ≠ .ok (some v)

/-- What a load keeps: it returns a dict of primitives, and an undecodable file is moved aside
where it can be. -/
def Loads (room : Nat) (replace : Bool) (bytes : Bytes) (r : Except Exc (List (Text × Json))) (s' : Files) : Prop :=
  ∃ d, r = .ok d ∧ (∀ u ∈ d, isFlatPrimitive u.2 = true) ∧
    (Undecodable room bytes → replace = true → s'.corrupt = some bytes ∧ s'.target = none)

/-- The bytes are UTF-8, and `json.loads` of the text returns, or raises `JSONDecodeError`. -/
def Scans (room : Nat) (bytes : Bytes) : Prop :=
  ∃ t v, decodeUtf8 bytes = some t ∧ jsonLoads room t = .ok v

theorem load_iff (room : Nat) (replace : Bool) (bytes : Bytes) : (load room true replace).Ends { s with target := some bytes }
    fun r s' => (Loads room replace bytes r s' ↔ Scans room bytes) := by
  unfold load
  rw [EStateM.ends_bind, EStateM.ends_get]
  dsimp only
  rw [if_pos rfl]
  cases decodes : decodeUtf8 bytes with
  | none =>
    refine ⟨?_, ?_⟩
    · rintro ⟨d, raised, _⟩
      cases raised
    · rintro ⟨t, v, found, _⟩
      cases decodes.symm.trans found
  | some t =>
    dsimp only
    have scans (v : Option Json) (loads : jsonLoads room t = .ok v) : Scans room bytes := ⟨t, v, decodes, loads⟩
    cases loads : jsonLoads room t with
    | error e =>
      refine ⟨?_, ?_⟩
      · rintro ⟨d, raised, _⟩
        cases raised
      · rintro ⟨t', v, found, returns⟩
        cases decodes.symm.trans found
        cases loads.symm.trans returns
    | ok v =>
      have setAside : (do quarantine replace; pure [] : Op (List (Text × Json))).Ends { s with target := some bytes }
          fun r s' => (Loads room replace bytes r s' ↔ Scans room bytes) := by
        rw [EStateM.ends_bind]
        unfold quarantine
        rw [EStateM.ends_modify]
        refine ⟨fun _ => scans v loads, fun _ => ⟨[], rfl, fun u member => absurd member List.not_mem_nil, fun _ works => ?_⟩⟩
        dsimp only
        rw [if_pos works]
        exact ⟨rfl, rfl⟩
      cases v with
      | none => exact setAside
      | some v =>
        cases v with
        | obj fields =>
          refine ⟨fun _ => scans _ loads, fun _ => ⟨_, rfl, fun u member => (List.mem_filter.mp member).2, fun undecodable => ?_⟩⟩
          exact absurd loads (undecodable t _ decodes)
        | _ => exact setAside

/-- A save is atomic, and tells of what it has not saved, unless `os.write` stops short (or a
persister that is not dirty fails); and a load is total on the files whose text can be scanned. -/
theorem saves_and_loads (f : Calls) (data : Bytes) (room : Nat) (project : Json) (state : Kept) (replace : Bool)
    (bytes : Bytes) (s : Files) :
    ((atomicWriteBytes f data).Ends s fun r s' =>
      (Whole (some data) s r s' ↔ ¬(f.mkstemp = true ∧ Short f (some data)))) ∧
    ((saveProject f room project).Ends s fun r s' =>
      (Whole (projectBytes room project) s r s' ↔
        ¬((s.target.isSome → f.copy = true) ∧ f.mkstemp = true ∧ Short f (projectBytes room project)))) ∧
    ((writeState f state).Ends s fun r s' =>
      (WholeOrDirty (stateBytes state) s r s' ↔ Steady f (stateBytes state) s)) ∧
    (load room true replace).Ends { s with target := some bytes } fun r s' =>
      (Loads room replace bytes r s' ↔ Scans room bytes) :=
  ⟨atomicWriteBytes_ends f data, saveProject_ends f room project, writeState_iff f state, load_iff room replace bytes⟩

/-- A disk that takes one byte leaves a file of one byte, without an error; a persister that is
not dirty forgets what it could not write; and a file that is not UTF-8 cannot be loaded. -/
theorem save_truncates :
    (¬(atomicWriteBytes { write := some 1 } [7, 8]).Ends { target := some [0] } fun r s' =>
      Whole (some [7, 8]) { target := some [0] } r s') ∧
    (¬(writeState { write := none } ⟨[], fun _ member => nomatch member⟩).Ends { target := none } fun r s' =>
      WholeOrDirty (stateBytes ⟨[], fun _ member => nomatch member⟩) { target := none } r s') ∧
    ¬(load 1000 true true).Ends { target := some [255] } fun r s' => Loads 1000 true [255] r s' := by
  refine ⟨?_, ?_, ?_⟩
  · rintro ⟨_, ⟨e, raised⟩ | ⟨bytes, same, target⟩⟩
    · cases raised
    · cases same
      exact absurd target (by decide)
  · intro kept
    have steady := EStateM.ends_iff.mp (@writeState_iff { target := none } { write := none } ⟨[], fun _ member => nomatch member⟩)
    rcases (steady.mp (EStateM.ends_iff.mp kept)).2 with dirty | ⟨bytes, _, there⟩ | ⟨bytes, n, through⟩
    · cases dirty
    · cases there
    · cases through.2.2.2.1
  · intro total
    have scans := EStateM.ends_iff.mp (@load_iff { target := none } 1000 true [255])
    obtain ⟨t, _, decodes, _⟩ := scans.mp (EStateM.ends_iff.mp total)
    have invalid : decodeUtf8 [255] = none := by decide +kernel
    cases invalid.symm.trans decodes

end OpenAvc.Saves
