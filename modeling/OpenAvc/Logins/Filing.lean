import OpenAvc.Logins.Project
import OpenAvc.Logins.Reading

namespace OpenAvc.Logins

open EStateM (bind_eq_ok pure_eq_ok)

variable {P : Python} {F : Fernet} {s s' : System}

/-! What a call has done when it returns, whatever its file operations met. -/

theorem fileOp_ok {α : Type} {act : Disk → α × Disk} {a : α} (ran : fileOp act s = .ok a s') :
    a = (act s.disk).1 ∧ s'.disk = (act s.disk).2 ∧ s'.store = s.store := by
  unfold fileOp at ran
  split at ran
  · cases ran
    exact ⟨rfl, rfl, rfl⟩
  · cases ran
    exact ⟨rfl, rfl, rfl⟩
  · cases ran
  · cases ran

theorem except_ok {α : Type} {op : Op α} {caught : Exc → Exc} {a : α} (ran : except op caught s = .ok a s') :
    op s = .ok a s' := by
  unfold except at ran
  split at ran
  · rename_i returned
    cases ran
    exact returned
  · cases ran

theorem ofExcept_ok {α : Type} {x : Except Exc α} {a : α} (ran : Op.ofExcept x s = .ok a s') : x = .ok a ∧ s' = s := by
  cases x with
  | ok b => cases ran; exact ⟨rfl, rfl⟩
  | error e => cases ran

theorem orElse_ok {α : Type} {op : Op α} {a b : α} (ran : orElse op a s = .ok b s') : op s = .ok b s' ∨ b = a := by
  unfold orElse at ran
  split at ran
  · rename_i returned
    cases ran
    exact Or.inl returned
  · split at ran
    · cases ran
      exact Or.inr rfl
    · cases ran

theorem openText_ok {t : Text} {entries : Entries} (ran : openText P F t s = .ok entries s') :
    s.disk.openText P F t = .ok entries ∧ s'.disk = s.disk ∧ s'.store = s.store := by
  unfold openText at ran
  obtain ⟨envelope, s₁, first, rest₁⟩ := bind_eq_ok.mp ran
  obtain ⟨envelopeText, same₁⟩ := ofExcept_ok first
  obtain ⟨there, s₂, second, rest₂⟩ := bind_eq_ok.mp rest₁
  obtain ⟨here, disk₂, store₂⟩ := fileOp_ok second
  rw [same₁] at here disk₂ store₂
  unfold Disk.openText
  cases key : s.disk.key with
  | none =>
    rw [here, key] at rest₂
    cases rest₂
  | some bytes =>
    rw [here, key] at rest₂
    simp only [Option.isSome_some, not_true, if_false] at rest₂
    obtain ⟨stripped, s₃, third, rest₃⟩ := bind_eq_ok.mp rest₂
    obtain ⟨strip, disk₃, store₃⟩ := fileOp_ok (except_ok third)
    obtain ⟨payload, s₄, fourth, rest₄⟩ := bind_eq_ok.mp rest₃
    obtain ⟨opens, same₄⟩ := ofExcept_ok fourth
    obtain ⟨reads, same₅⟩ := ofExcept_ok rest₄
    rw [strip, disk₂, key, Option.getD_some] at opens
    refine ⟨?_, by rw [same₅, same₄, disk₃, disk₂], by rw [same₅, same₄, store₃, store₂]⟩
    simp only [envelopeText, bind, Except.bind, opens, reads]

theorem read_ok {entries : Entries} (ran : read P F s = .ok entries s') :
    s.disk.contents P F = .ok entries ∧ s'.disk = s.disk ∧ s'.store = s.store := by
  unfold read at ran
  obtain ⟨bytes, s₁, first, rest⟩ := bind_eq_ok.mp ran
  obtain ⟨here, disk₁, store₁⟩ := fileOp_ok (except_ok first)
  unfold Disk.contents
  rw [here] at rest
  cases decoded : decodeUtf8 (s.disk.file.getD []) with
  | none =>
    rw [decoded] at rest
    cases rest
  | some t =>
    rw [decoded] at rest
    obtain ⟨opens, disk, store⟩ := openText_ok rest
    rw [disk₁] at opens disk
    exact ⟨opens, disk, by rw [store, store₁]⟩

/-- A call that only reads: however it ends, the files and the store are as before. -/
def Steady {α : Type} (op : Op α) : Prop :=
  ∀ s, op.Ends s fun _ s' => s'.disk = s.disk ∧ s'.store = s.store

theorem Steady.bind {α β : Type} {op : Op α} {rest : α → Op β} (first : Steady op) (second : ∀ a, Steady (rest a)) :
    Steady (op >>= rest) := by
  intro s
  rw [EStateM.ends_bind]
  refine (first s).mono fun r s₁ ⟨disk, store⟩ => ?_
  cases r with
  | error e => exact ⟨disk, store⟩
  | ok a =>
    refine (second a s₁).mono fun _ s₂ ⟨disk', store'⟩ => ?_
    exact ⟨disk'.trans disk, store'.trans store⟩

theorem Steady.look {α : Type} (f : Disk → α) : Steady (fileOp fun d => (f d, d)) := by
  intro s
  unfold EStateM.Ends fileOp
  split
  · rename_i ran
    split at ran <;> cases ran <;> exact ⟨rfl, rfl⟩
  · rename_i ran
    split at ran <;> cases ran <;> exact ⟨rfl, rfl⟩

theorem Steady.except {α : Type} {op : Op α} (steady : Steady op) (caught : Exc → Exc) :
    Steady (Logins.except op caught) := by
  intro s
  have kept := steady s
  unfold EStateM.Ends Logins.except at *
  cases ran : op s <;> rw [ran] at kept <;> simpa [ran] using kept

theorem Steady.ofExcept {α : Type} (x : Except Exc α) : Steady (Op.ofExcept x) := by
  intro s
  cases x <;> exact ⟨rfl, rfl⟩

theorem Steady.raise {α : Type} (e : Exc) : Steady (raise e : Op α) := fun _ => ⟨rfl, rfl⟩

/-- Opening an envelope with the key file looks at the files and no more. -/
theorem steady_unsealed (envelope : Json) : Steady (do
    let key ← Logins.except (fileOp fun d => (stripBytes (d.key.getD []), d)) fun
      | .os => .unreadable .doesNotOpen
      | e => e
    let payload ← Op.ofExcept (payloadOf P F envelope key)
    Op.ofExcept (entriesOf P payload)) :=
  ((Steady.look _).except _).bind fun _ => (Steady.ofExcept _).bind fun _ => Steady.ofExcept _

theorem steady_read : Steady (read P F) := by
  unfold read
  refine ((Steady.look _).except _).bind fun bytes => ?_
  split
  · unfold openText
    refine (Steady.ofExcept _).bind fun envelope => (Steady.look _).bind fun there => ?_
    dsimp only
    split
    · exact (Steady.raise _).bind fun _ => steady_unsealed envelope
    · exact steady_unsealed envelope
  · exact Steady.raise _

theorem steady_opened : Steady (opened P F) := by
  rw [opened_eq]
  refine (Steady.look _).bind fun there => ?_
  have reads : Steady fun s => answered (read P F s) := by
    intro s
    have kept := steady_read (P := P) (F := F) s
    unfold EStateM.Ends at *
    cases ran : read P F s with
    | ok entries s' =>
      rw [ran] at kept
      simpa only [ran, answered] using kept
    | error e s' =>
      rw [ran] at kept
      cases e <;> simpa only [ran, answered] using kept
  cases there with
  | true => exact reads
  | false => exact fun _ => ⟨rfl, rfl⟩

/-- Entries that were found are those that the file holds. -/
theorem opened_ok {entries : Entries} {unreadable : Option Reason}
    (ran : opened P F s = .ok (entries, unreadable) s') :
    (unreadable = none → FileHolds P F s.disk entries) ∧ s'.disk = s.disk ∧ s'.store = s.store := by
  rw [opened_eq] at ran
  obtain ⟨there, s₁, first, rest⟩ := bind_eq_ok.mp ran
  obtain ⟨here, disk₁, store₁⟩ := fileOp_ok first
  cases file : s.disk.file with
  | none =>
    rw [here, file] at rest
    cases rest
    exact ⟨fun _ => .absent file rfl, disk₁, store₁⟩
  | some bytes =>
    rw [here, file] at rest
    have reads : answered (read P F s₁) = .ok (entries, unreadable) s' := rest
    have steady := steady_read (P := P) (F := F) s₁
    unfold EStateM.Ends at steady
    unfold answered at reads
    split at reads
    · rename_i returned
      cases reads
      obtain ⟨contents, disk₂, store₂⟩ := read_ok returned
      rw [disk₁] at contents disk₂
      exact ⟨fun _ => .of_contents file contents, disk₂, store₂.trans store₁⟩
    · rename_i raised
      cases reads
      rw [raised] at steady
      exact ⟨by rintro ⟨⟩, steady.1.trans disk₁, steady.2.trans store₁⟩
    · cases reads

theorem verify_ok (ran : verify P F s = .ok () s') :
    s'.store = s.store ∧ ∃ entries, FileHolds P F s'.disk entries ∧ sameEntries entries s'.store.entries = true := by
  unfold verify at ran
  obtain ⟨⟨entries, unreadable⟩, s₁, first, rest⟩ := bind_eq_ok.mp ran
  obtain ⟨holds, disk₁, store₁⟩ := opened_ok first
  cases unreadable with
  | some reason => cases rest
  | none =>
    have here := holds rfl
    rw [← disk₁] at here
    simp only at rest
    rw [EStateM.get_bind] at rest
    by_cases same : sameEntries entries s₁.store.entries = true
    · rw [same] at rest
      cases rest
      exact ⟨store₁, entries, here, same⟩
    · rw [if_pos same] at rest
      cases rest

theorem load_ok (ran : load P F s = .ok () s') :
    s'.store.loaded = true ∧ (s.store.loaded = true → s' = s) := by
  cases loaded : s.store.loaded with
  | true =>
    rw [load_of_loaded loaded] at ran
    cases ran
    exact ⟨loaded, fun _ => rfl⟩
  | false =>
    rw [load_of_unloaded loaded] at ran
    obtain ⟨found, s₁, first, rest⟩ := bind_eq_ok.mp ran
    cases rest
    refine ⟨?_, nofun⟩
    show s₁.store.loaded = true
    rw [(opened_ok first).2.2]

/-- However a first load ends, there is no second one. -/
theorem load_ends (s : System) : (load P F).Ends s fun _ s' => s'.store.loaded = true := by
  unfold load
  rw [EStateM.ends_bind, EStateM.ends_get]
  dsimp only
  split
  · rename_i loaded
    exact loaded
  · rw [EStateM.ends_bind, updateStore, EStateM.ends_modify]
    dsimp only
    rw [EStateM.ends_bind]
    refine (steady_opened _).mono fun r s₁ kept => ?_
    cases r with
    | error e =>
      show s₁.store.loaded = true
      rw [kept.2]
    | ok found =>
      show s₁.store.loaded = true
      rw [kept.2]

theorem secret_ok {owner : Owner} {field : Text} {library : Option Text} {v : Option Text}
    (loaded : s.store.loaded = true) (ran : secret P F owner field library s = .ok v s') :
    v = s.store.secret owner field library ∧ s' = s := by
  unfold secret at ran
  rw [EStateM.bind_of_ok (load_of_loaded loaded), EStateM.get_bind] at ran
  cases ran
  exact ⟨rfl, rfl⟩

/-- A call that leaves the store alone, whatever it does to the files. -/
def StoreKept {α : Type} (op : Op α) : Prop :=
  ∀ s, op.Ends s fun _ s' => s'.store = s.store

theorem StoreKept.bind {α β : Type} {op : Op α} {rest : α → Op β} (first : StoreKept op)
    (second : ∀ a, StoreKept (rest a)) : StoreKept (op >>= rest) := by
  intro s
  rw [EStateM.ends_bind]
  refine (first s).mono fun r s₁ kept => ?_
  cases r with
  | error e => exact kept
  | ok a => exact (second a s₁).mono fun _ s₂ kept' => kept'.trans kept

theorem StoreKept.pure {α : Type} (a : α) : StoreKept (Pure.pure a : Op α) := fun _ => rfl

theorem StoreKept.raise {α : Type} (e : Exc) : StoreKept (raise e : Op α) := fun _ => rfl

theorem StoreKept.fileOp {α : Type} (act : Disk → α × Disk) : StoreKept (fileOp act) := by
  intro s
  unfold EStateM.Ends Logins.fileOp
  split
  · rename_i ran
    split at ran <;> cases ran <;> rfl
  · rename_i ran
    split at ran <;> cases ran <;> rfl

theorem StoreKept.count : StoreKept (modify fun s : System => { s with nonce := s.nonce + 1 }) := fun _ => rfl

theorem storeKept_loginKey : StoreKept (loginKey F) := by
  unfold loginKey
  refine (StoreKept.fileOp _).bind fun _ => (StoreKept.fileOp _).bind fun there => ?_
  have generated : StoreKept (do
      let key := F.generate (← get).nonce
      modify fun s => { s with nonce := s.nonce + 1 }
      fileOp fun d => ((), { d with key := some (key ++ [10]) })
      return key : Op Bytes) :=
    StoreKept.bind (fun _ => rfl) fun now =>
      StoreKept.count.bind fun _ => (StoreKept.fileOp _).bind fun _ => StoreKept.pure _
  split
  · refine (StoreKept.fileOp _).bind fun key => ?_
    split
    · exact StoreKept.pure _
    · exact StoreKept.raise _
  · exact generated

theorem storeKept_envelope (entries : Entries) (key : Bytes) : StoreKept (envelope P F entries key) := by
  unfold envelope
  split
  · exact StoreKept.bind (fun _ => rfl) fun now => StoreKept.count.bind fun _ => StoreKept.pure _
  · exact StoreKept.raise _

/-- A commit replaces the entries last of all: one that raises leaves them. -/
theorem commit_ends (entries : Entries) (s : System) : (commit P F entries).Ends s fun r s' =>
    s'.store.loaded = s.store.loaded ∧
      match r with
      | .ok _ => s'.store.entries = entries
      | .error _ => s'.store.entries = s.store.entries := by
  unfold commit
  rw [EStateM.ends_bind, EStateM.ends_get]
  dsimp only
  cases s.store.unreadable with
  | some reason => exact ⟨rfl, rfl⟩
  | none =>
    dsimp only
    rw [EStateM.ends_bind]
    refine (storeKept_loginKey s).mono fun r s₁ kept₁ => ?_
    cases r with
    | error e => exact ⟨by rw [kept₁], by rw [kept₁]⟩
    | ok key =>
      dsimp only
      rw [EStateM.ends_bind]
      refine (storeKept_envelope entries key s₁).mono fun r s₂ kept₂ => ?_
      have same₂ := kept₂.trans kept₁
      cases r with
      | error e => exact ⟨by rw [same₂], by rw [same₂]⟩
      | ok content =>
        dsimp only
        rw [EStateM.ends_bind]
        refine (StoreKept.fileOp _ s₂).mono fun r s₃ kept₃ => ?_
        have same₃ := kept₃.trans same₂
        cases r with
        | error e => exact ⟨by rw [same₃], by rw [same₃]⟩
        | ok _ =>
          refine ⟨?_, rfl⟩
          show s₃.store.loaded = s.store.loaded
          rw [same₃]

theorem commit_ok {entries : Entries} (ran : commit P F entries s = .ok () s') :
    s'.store.entries = entries ∧ s'.store.loaded = s.store.loaded := by
  have ends := commit_ends (P := P) (F := F) entries s
  unfold EStateM.Ends at ends
  rw [ran] at ends
  exact ⟨ends.2, ends.1⟩

/-- Filing that changes nothing leaves the entries. -/
theorem fileLogins_same (library : Option Text) (typed : Bool) (found : List FoundLogin) (acc : Entries × Bool)
    (same : (found.foldl (fileLogin library typed) acc).2 = false) :
    (found.foldl (fileLogin library typed) acc).1 = acc.1 ∧ acc.2 = false := by
  induction found generalizing acc with
  | nil => exact ⟨rfl, same⟩
  | cons login found ih =>
    obtain ⟨later, unchanged⟩ := ih _ same
    rw [List.foldl_cons, later]
    unfold fileLogin at unchanged ⊢
    dsimp only at unchanged ⊢
    split at unchanged
    · cases unchanged
    · split at unchanged
      · cases unchanged
      · rename_i current there equal
        rw [if_neg equal]
        exact ⟨rfl, unchanged⟩

/-- What the store holds after filing. -/
theorem store_ok {found : List FoundLogin} {library : Option Text} {typed : Bool}
    (ran : store P F found library typed s = .ok () s') :
    ∃ s₁, load P F s = .ok () s₁ ∧ s'.store.loaded = true ∧
      s'.store.entries = (found.foldl (fileLogin library typed) (s₁.store.entries, false)).1 := by
  unfold store at ran
  split at ran
  · cases ran
  · obtain ⟨_, s₁, first, rest⟩ := bind_eq_ok.mp ran
    refine ⟨s₁, first, ?_⟩
    rw [EStateM.get_bind] at rest
    split at rest
    · obtain ⟨entries, loaded⟩ := commit_ok rest
      exact ⟨loaded.trans (load_ok first).1, entries⟩
    · rename_i unchanged
      cases rest
      exact ⟨(load_ok first).1, (fileLogins_same _ _ _ _ (by simpa using unchanged)).1.symm⟩

/-- What a store holds that was loaded and has, or has not, had the logins filed. -/
def FiledOrNot (found : List FoundLogin) (library : Option Text) (typed : Bool) (before after : Entries) : Prop :=
  after = before ∨ after = (found.foldl (fileLogin library typed) (before, false)).1

/-- However filing ends: the call was refused, or the store has been loaded
and the logins are filed in it or they are not. -/
theorem store_ends (found : List FoundLogin) (library : Option Text) (typed : Bool) (s : System) :
    (store P F found library typed).Ends s fun _ s' => s' = s ∨ s'.store.loaded = true ∧
      FiledOrNot found library typed ((load P F).after s).store.entries s'.store.entries := by
  unfold store
  split
  · exact Or.inl rfl
  · have loads := load_ends (P := P) (F := F) s
    dsimp only
    rw [EStateM.ends_bind]
    cases ran : load P F s with
    | error e s₁ =>
      rw [EStateM.ends_of_error ran] at loads ⊢
      rw [EStateM.after_of_error ran]
      exact Or.inr ⟨loads, Or.inl rfl⟩
    | ok _ s₁ =>
      rw [EStateM.ends_of_ok ran] at loads ⊢
      rw [EStateM.after_of_ok ran]
      dsimp only
      rw [EStateM.ends_bind, EStateM.ends_get]
      refine EStateM.ends_ite.mpr ⟨fun _ => ?_, fun _ => Or.inr ⟨loads, Or.inl rfl⟩⟩
      refine (commit_ends _ s₁).mono fun r s' ⟨same, entries⟩ => Or.inr ⟨same.trans loads, ?_⟩
      cases r with
      | error e => exact Or.inl entries
      | ok _ => exact Or.inr entries

theorem forM_ok {α : Type} {f : α → Op Unit} {φ : α → Prop} {s₀ : System}
    (each : ∀ a s', f a s₀ = .ok () s' → s' = s₀ ∧ φ a) (l : List α) (ran : l.forM f s₀ = .ok () s') :
    s' = s₀ ∧ ∀ a ∈ l, φ a := by
  induction l with
  | nil =>
    cases ran
    exact ⟨rfl, fun _ h => absurd h List.not_mem_nil⟩
  | cons a l ih =>
    obtain ⟨_, s₁, first, rest⟩ := bind_eq_ok.mp ran
    obtain ⟨rfl, holds⟩ := each a s₁ first
    obtain ⟨same, all⟩ := ih rest
    exact ⟨same, List.forall_mem_cons.mpr ⟨holds, all⟩⟩

/-- Logins that count as stored are in the store, and in the file as it is. -/
theorem stored_ok {found : List FoundLogin} {typed : Bool} {library : Option Text}
    (ran : stored P F found typed library s = .ok true s') :
    (s'.store.loaded = true ∧ ∃ s₁, load P F s = .ok () s₁ ∧
      s'.store.entries = (found.foldl (fileLogin library typed) (s₁.store.entries, false)).1) ∧
    (∃ entries, FileHolds P F s'.disk entries ∧ sameEntries entries s'.store.entries = true) ∧
    ∀ login ∈ found, ∀ u ∈ login.fields, (s'.store.secret login.owner u.1 library).isSome = true := by
  rcases orElse_ok ran with ran | never
  · obtain ⟨_, s₁, first, rest₁⟩ := bind_eq_ok.mp ran
    obtain ⟨_, s₂, second, rest₂⟩ := bind_eq_ok.mp rest₁
    obtain ⟨_, s₃, third, rest₃⟩ := bind_eq_ok.mp rest₂
    cases rest₃
    obtain ⟨s₀, loads, loaded, entries⟩ := store_ok first
    obtain ⟨store₂, file⟩ := verify_ok second
    have loaded₂ : s₂.store.loaded = true := store₂ ▸ loaded
    obtain ⟨same, all⟩ := forM_ok
      (φ := fun login : FoundLogin => ∀ u ∈ login.fields, (s₂.store.secret login.owner u.1 library).isSome = true) (by
        intro login t each
        refine forM_ok (φ := fun u : Text × Text => (s₂.store.secret login.owner u.1 library).isSome = true) ?_
          login.fields each
        intro u t checks
        obtain ⟨v, s₄, looked, rest₄⟩ := bind_eq_ok.mp checks
        obtain ⟨rfl, rfl⟩ := secret_ok loaded₂ looked
        split at rest₄
        · cases rest₄
        · rename_i present
          cases rest₄
          exact ⟨rfl, by simpa [Option.isSome_iff_ne_none] using present⟩) found third
    subst same
    exact ⟨⟨loaded₂, s₀, loads, store₂ ▸ entries⟩, file, all⟩
  · cases never

theorem forM_returns {α : Type} {f : α → Op Unit} {l : List α} (each : ∀ a ∈ l, f a s = .ok () s) :
    l.forM f s = .ok () s := by
  induction l with
  | nil => rfl
  | cons a l ih =>
    obtain ⟨first, rest⟩ := List.forall_mem_cons.mp each
    show (f a >>= fun _ => l.forM f) s = _
    rw [EStateM.bind_of_ok first]
    exact ih rest

/-- Logins that are filed, read back the same and there count as stored. -/
theorem stored_returns {found : List FoundLogin} {typed : Bool} {library : Option Text}
    (files : store P F found library typed s = .ok () s') (verifies : verify P F s' = .ok () s')
    (loaded : s'.store.loaded = true)
    (there : ∀ login ∈ found, ∀ u ∈ login.fields, (s'.store.secret login.owner u.1 library).isSome = true) :
    stored P F found typed library s = .ok true s' := by
  have looks : (found.forM fun login => login.fields.forM fun u => do
      if (← secret P F login.owner u.1 library).isNone then
        raise (.unreadable (.notThere u.1 login.owner.name))) s' = .ok () s' := by
    refine forM_returns fun login member => forM_returns fun u field => ?_
    have looked : secret P F login.owner u.1 library s' = .ok (s'.store.secret login.owner u.1 library) s' := by
      unfold secret
      rw [EStateM.bind_of_ok (load_of_loaded loaded), EStateM.get_bind]
      rfl
    rw [EStateM.bind_of_ok looked, Option.isNone_eq_false_iff.mpr (there login member u field)]
    rfl
  unfold stored orElse
  rw [EStateM.bind_of_ok files, EStateM.bind_of_ok verifies, EStateM.bind_of_ok looks]
  rfl

/-- Looking logins up in a store that has been loaded changes nothing. -/
theorem forM_ends {α : Type} {f : α → Op Unit} {s : System} (each : ∀ a, (f a).Ends s fun _ s' => s' = s)
    (l : List α) : (l.forM f).Ends s fun _ s' => s' = s := by
  induction l with
  | nil => exact rfl
  | cons a l ih =>
    show (f a >>= fun _ => l.forM f).Ends s _
    rw [EStateM.ends_bind]
    refine (each a).mono fun r s₁ same => ?_
    subst same
    cases r with
    | error e => rfl
    | ok _ => exact ih

theorem storeKept_verify : StoreKept (verify P F) := by
  unfold verify
  refine StoreKept.bind (fun s => (steady_opened s).mono fun _ _ kept => kept.2) fun found => ?_
  obtain ⟨entries, unreadable⟩ := found
  cases unreadable with
  | some reason => exact StoreKept.raise _
  | none =>
    refine StoreKept.bind (fun _ => rfl) fun now => ?_
    split
    · exact StoreKept.raise _
    · exact StoreKept.pure _

/-- However `_stored` ends, the logins are filed or they are not. -/
theorem stored_ends (found : List FoundLogin) (library : Option Text) (typed : Bool) (s : System) :
    (stored P F found typed library).Ends s fun _ s' => s' = s ∨ s'.store.loaded = true ∧
      FiledOrNot found library typed ((load P F).after s).store.entries s'.store.entries := by
  refine ends_orElse ?_
  rw [EStateM.ends_bind]
  have stores := store_ends (P := P) (F := F) found library typed s
  cases ran : store P F found library typed s with
  | error e s₁ =>
    rw [EStateM.ends_of_error ran] at stores ⊢
    exact ⟨fun _ => stores, fun _ => stores⟩
  | ok _ s₁ =>
    obtain ⟨s₀, loads, loaded, entries⟩ := store_ok ran
    rw [EStateM.ends_of_ok ran, EStateM.after_of_ok loads]
    dsimp only
    have filed : ∀ {s' : System}, s'.store = s₁.store → s' = s ∨ s'.store.loaded = true ∧
        FiledOrNot found library typed s₀.store.entries s'.store.entries := fun same =>
      Or.inr ⟨same ▸ loaded, Or.inr (same ▸ entries)⟩
    rw [EStateM.ends_bind]
    refine (storeKept_verify s₁).mono fun r s₂ kept => ?_
    cases r with
    | error e => exact ⟨fun _ => filed kept, fun _ => filed kept⟩
    | ok _ =>
      dsimp only
      rw [EStateM.ends_bind]
      have unchanged : (found.forM fun login => login.fields.forM fun u => do
          if (← secret P F login.owner u.1 library).isNone then
            raise (.unreadable (.notThere u.1 login.owner.name))).Ends s₂ fun _ s' => s' = s₂ := by
        refine forM_ends (fun login => forM_ends (fun u => ?_) login.fields) found
        have loaded₂ : s₂.store.loaded = true := kept ▸ loaded
        unfold secret
        rw [EStateM.ends_bind, EStateM.ends_bind, EStateM.ends_of_ok (load_of_loaded loaded₂)]
        dsimp only
        rw [EStateM.ends_bind, EStateM.ends_get]
        dsimp only
        rw [EStateM.ends_pure]
        exact EStateM.ends_ite.mpr ⟨fun _ => rfl, fun _ => rfl⟩
      refine unchanged.mono fun r s₃ same => ?_
      subst same
      cases r with
      | error e => exact ⟨fun _ => filed kept, fun _ => filed kept⟩
      | ok _ => exact filed kept

/-! What is on file for an owner that nothing was filed for. -/

theorem lookup_mergeFields (typed : Bool) {fields : List (Text × Text)} (distinct : (fields.map Prod.fst).Nodup)
    (saved : List (Text × Text)) (n : Text) : (mergeFields typed saved fields).lookup n =
      if typed then (fields.lookup n).or (saved.lookup n) else (saved.lookup n).or (fields.lookup n) := by
  unfold mergeFields
  induction fields generalizing saved with
  | nil => cases typed <;> simp
  | cons u fields ih =>
    obtain ⟨k, v⟩ := u
    obtain ⟨apart, distinct⟩ := List.nodup_cons.mp distinct
    rw [List.foldl_cons, ih distinct]
    have absent : fields.lookup k = none := List.lookup_eq_none_of_forall fun w member same =>
      apart (List.mem_map.mpr ⟨w, member, same⟩)
    by_cases here : n = k
    · subst here
      cases typed with
      | true => simp [absent]
      | false => cases old : saved.lookup n <;> simp [old, absent]
    · have other : (n == k) = false := beq_eq_false_iff_ne.mpr here
      rw [List.lookup_cons, other]
      cases typed with
      | true => simp [here]
      | false => cases saved.lookup k <;> simp [here]

/-- The entry of a key has these fields. -/
def HasFields (entries : Entries) (key : Key) (fields : List (Text × Text)) : Prop :=
  ∃ e, entries.lookup key = some e ∧ ∀ n, e.fields.lookup n = fields.lookup n

/-- A key has no entry, or one without fields. -/
def HasNone (entries : Entries) (key : Key) : Prop :=
  ∀ e, entries.lookup key = some e → e.fields = []

theorem fileLogin_other (library : Option Text) (typed : Bool) {owner : Owner} {login : FoundLogin}
    (other : login.owner ≠ owner) (acc : Entries × Bool) :
    (fileLogin library typed acc login).1.lookup (library, owner) = acc.1.lookup (library, owner) := by
  have apart : (library, owner) ≠ (library, login.owner) := fun same => other (Prod.mk.inj same).2.symm
  unfold fileLogin
  dsimp only
  split
  · exact Dict.lookup_set_of_ne apart _ _
  · split
    · exact Dict.lookup_set_of_ne apart _ _
    · rfl

/-- A login filed over what its owner had. -/
theorem fileLogin_own (library : Option Text) (typed : Bool) (acc : Entries × Bool) (login : FoundLogin) :
    HasFields (fileLogin library typed acc login).1 (library, login.owner)
      (mergeFields typed (((acc.1.lookup (library, login.owner)).map Entry.fields).getD []) login.fields) := by
  unfold fileLogin
  dsimp only
  cases there : acc.1.lookup (library, login.owner) with
  | none => exact ⟨_, Dict.lookup_set_self _ _ _, fun _ => rfl⟩
  | some current =>
    dsimp only
    split
    · exact ⟨_, Dict.lookup_set_self _ _ _, fun _ => rfl⟩
    · rename_i unchanged
      rw [not_or, not_not] at unchanged
      exact ⟨current, there, fun n => (Dict.lookup_of_same unchanged.1 n).symm⟩

/-- The logins of an owner that had none are on file as they were found. -/
theorem fileLogins_fields {library : Option Text} {typed : Bool} {owner : Owner} {fields : List (Text × Text)}
    (distinct : (fields.map Prod.fst).Nodup) {found : List FoundLogin}
    (mine : ∀ login ∈ found, login.owner = owner → login.fields = fields) (acc : Entries × Bool) :
    (HasFields acc.1 (library, owner) fields →
      HasFields (found.foldl (fileLogin library typed) acc).1 (library, owner) fields) ∧
    (HasNone acc.1 (library, owner) → (∃ login ∈ found, login.owner = owner) →
      HasFields (found.foldl (fileLogin library typed) acc).1 (library, owner) fields) := by
  induction found generalizing acc with
  | nil => exact ⟨id, fun _ ⟨_, member, _⟩ => absurd member List.not_mem_nil⟩
  | cons login found ih =>
    rw [List.foldl_cons]
    obtain ⟨stays, files⟩ := ih (fun l h => mine l (List.mem_cons_of_mem _ h)) (fileLogin library typed acc login)
    by_cases here : login.owner = owner
    · have same := mine login List.mem_cons_self here
      obtain ⟨e, there, values⟩ := fileLogin_own library typed acc login
      rw [here] at there values
      have agreed : (∀ n, (((acc.1.lookup (library, owner)).map Entry.fields).getD []).lookup n = none ∨
          (((acc.1.lookup (library, owner)).map Entry.fields).getD []).lookup n = fields.lookup n) →
          HasFields (fileLogin library typed acc login).1 (library, owner) fields := by
        intro agrees
        refine ⟨e, there, fun n => ?_⟩
        rw [values, same, lookup_mergeFields typed distinct]
        rcases agrees n with none | equal
        · simp [none]
        · simp [equal]
      constructor
      · rintro ⟨old, before, agrees⟩
        refine stays (agreed fun n => Or.inr ?_)
        rw [before]
        exact agrees n
      · intro nothing _
        refine stays (agreed fun n => Or.inl ?_)
        cases before : acc.1.lookup (library, owner) with
        | none => rfl
        | some old => simp [nothing old before]
    · have untouched := fileLogin_other library typed here acc
      constructor
      · rintro ⟨e, there, agrees⟩
        exact stays ⟨e, untouched.trans there, agrees⟩
      · rintro nothing ⟨l, member, own⟩
        refine files (fun e there => nothing e (untouched.symm.trans there)) ⟨l, ?_, own⟩
        exact (List.mem_cons.mp member).resolve_left fun same => here (same ▸ own)

end OpenAvc.Logins
