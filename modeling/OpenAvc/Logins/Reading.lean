import OpenAvc.Logins.Store
import OpenAvc.Run.Outcome

namespace OpenAvc.Logins

open EStateM (Ends)

section

variable (P : Python) (F : Fernet)

/-- What a payload holds: the entry of a key is the last of its items that
reads as one. -/
def Holds (payload : Json) (entries : Entries) : Prop :=
  ∃ read : List (Option (Key × Entry)),
    (payloadItems payload).mapM (fun u => entryFrom P u.2 u.1) = .ok read ∧
      ∀ key, entries.lookup key = ((read.filterMap id).reverse).lookup key

/-- The entries that the login file holds, opened with the key file. No file holds none. -/
inductive FileHolds (d : Disk) (entries : Entries) : Prop
  | absent (missing : d.file = none) (none : entries = [])
  | opened {bytes key : Bytes} {t : Text} {envelope payload : Json} (file : d.file = some bytes)
      (decoded : decodeUtf8 bytes = some t) (envelopeText : envelopeOf P t = .ok envelope) (keyFile : d.key = some key)
      (opens : payloadOf P F envelope (stripBytes key) = .ok payload) (holds : Holds P payload entries)

/-- Reading the file ends in an exception that is not `LoginFileUnreadable`:
its bytes are no UTF-8, or the text, what is sealed in it or a date in there
nests too deep for the interpreter. -/
inductive Escapes (d : Disk) : Prop
  | encoding {bytes : Bytes} (file : d.file = some bytes) (noText : decodeUtf8 bytes = none)
  | nesting {bytes : Bytes} {t : Text} (file : d.file = some bytes) (decoded : decodeUtf8 bytes = some t)
      (deep : envelopeOf P t = .error .recursion)
  | sealed {bytes key : Bytes} {t : Text} {envelope : Json} (file : d.file = some bytes)
      (decoded : decodeUtf8 bytes = some t) (envelopeText : envelopeOf P t = .ok envelope) (keyFile : d.key = some key)
      (deep : payloadOf P F envelope (stripBytes key) = .error .recursion)
  | dates {bytes key : Bytes} {t : Text} {envelope payload : Json} (file : d.file = some bytes)
      (decoded : decodeUtf8 bytes = some t) (envelopeText : envelopeOf P t = .ok envelope) (keyFile : d.key = some key)
      (opens : payloadOf P F envelope (stripBytes key) = .ok payload) (deep : entriesOf P payload = .error .recursion)

/-- There is a key file, and what it holds is no key. -/
def KeyDamaged (d : Disk) : Prop :=
  ∃ key, d.key = some key ∧ F.accepts (stripBytes key) = false

/-! What reading comes to when every file operation is done. -/

/-- `_open` on these files. -/
def Disk.openText (d : Disk) (t : Text) : Except Exc Entries := do
  let envelope ← envelopeOf P t
  match d.key with
  | none => .error (.unreadable .keyMissing)
  | some key => entriesOf P (← payloadOf P F envelope (stripBytes key))

/-- `_read` on these files. -/
def Disk.contents (d : Disk) : Except Exc Entries :=
  match decodeUtf8 (d.file.getD []) with
  | some t => d.openText P F t
  | none => .error .value

variable {P F} {s : System} {d : Disk}

theorem read_of_quiet {α : Type} (quiet : s.faults = []) (f : Disk → α) :
    fileOp (fun d => (f d, d)) s = .ok (f s.disk) s := by
  obtain ⟨disk, store, faults, nonce⟩ := s
  cases quiet
  rfl

theorem except_of_quiet {α : Type} (quiet : s.faults = []) (f : Disk → α) (caught : Exc → Exc) :
    except (fileOp fun d => (f d, d)) caught s = .ok (f s.disk) s := by
  simp [except, read_of_quiet quiet]

theorem ofExcept_bind {α β : Type} (x : Except Exc α) (f : α → Except Exc β) :
    (Op.ofExcept x >>= fun a => Op.ofExcept (f a)) = Op.ofExcept (x >>= f) := by
  cases x <;> rfl

theorem openText_of_quiet (quiet : s.faults = []) (t : Text) :
    openText P F t s = Op.ofExcept (s.disk.openText P F t) s := by
  unfold openText Disk.openText
  cases envelopeOf P t with
  | error e => rfl
  | ok envelope =>
    refine (EStateM.bind_of_ok (a := envelope) rfl _).trans ?_
    refine (EStateM.bind_of_ok (read_of_quiet quiet _) _).trans ?_
    cases key : s.disk.key with
    | none => rfl
    | some bytes =>
      simp only [Option.isSome_some, not_true, if_false]
      refine (EStateM.bind_of_ok (except_of_quiet quiet _ _) _).trans ?_
      rw [key]
      exact congrFun (ofExcept_bind _ _) s

theorem read_eq_of_quiet (quiet : s.faults = []) : read P F s = Op.ofExcept (s.disk.contents P F) s := by
  unfold read Disk.contents
  refine (EStateM.bind_of_ok (except_of_quiet quiet _ _) _).trans ?_
  cases decodeUtf8 (s.disk.file.getD []) with
  | none => rfl
  | some t => exact openText_of_quiet quiet t

/-- What `_load` makes of what reading the file gave. -/
def answered : EStateM.Result Exc System Entries → EStateM.Result Exc System (Entries × Option Reason)
  | .ok entries s => .ok (entries, none) s
  | .error (.unreadable reason) s => .ok ([], some reason) s
  | .error e s => .error e s

theorem opened_eq : opened P F = (fileOp (fun d => (d.file.isSome, d)) >>= fun there =>
    if ¬there then pure ([], none) else fun s => answered (read P F s)) := by
  unfold opened
  refine congrArg _ (funext fun there => ?_)
  cases there <;> rfl

theorem opened_of_quiet (quiet : s.faults = []) (present : s.disk.file.isSome) :
    opened P F s = match s.disk.contents P F with
      | .ok entries => .ok (entries, none) s
      | .error (.unreadable reason) => .ok ([], some reason) s
      | .error e => .error e s := by
  rw [opened_eq]
  refine (EStateM.bind_of_ok (read_of_quiet quiet _) _).trans ?_
  rw [present]
  show answered (read P F s) = _
  rw [read_eq_of_quiet quiet]
  rcases s.disk.contents P F with e | entries
  · cases e <;> rfl
  · rfl

theorem opened_of_no_file (quiet : s.faults = []) (missing : s.disk.file = none) :
    opened P F s = .ok ([], none) s := by
  unfold opened
  refine (EStateM.bind_of_ok (read_of_quiet quiet _) _).trans ?_
  rw [missing]
  rfl

theorem load_of_loaded (loaded : s.store.loaded = true) : load P F s = .ok () s := by
  unfold load
  rw [EStateM.get_bind, loaded]
  rfl

/-- A first load keeps what `opened` finds, and nothing when that raises. -/
theorem load_of_unloaded (fresh : s.store.loaded = false) :
    load P F s = (opened P F >>= fun found => updateStore fun st => { st with entries := found.1, unreadable := found.2 })
      { s with store := { s.store with loaded := true } } := by
  unfold load
  rw [EStateM.get_bind, fresh]
  rfl

theorem ends_read {α : Type} {f : Disk → α} {Q : Except Exc α → System → Prop} (quiet : s.faults = []) :
    (fileOp fun d => (f d, d)).Ends s Q ↔ Q (.ok (f s.disk)) s := by
  unfold Ends
  rw [read_of_quiet quiet]

theorem ends_orElse {α : Type} {op : Op α} {a : α} {Q : Except Exc α → System → Prop}
    (ends : op.Ends s fun r s' => match r with
      | .ok b => Q (.ok b) s'
      | .error e => (e.isException = true → Q (.ok a) s') ∧ (e.isException = false → Q (.error e) s')) :
    (orElse op a).Ends s Q := by
  unfold Ends orElse at *
  cases ran : op s with
  | ok b s' => rwa [ran] at ends
  | error e s' =>
    rw [ran] at ends
    cases caught : e.isException
    · simpa [caught] using ends.2 caught
    · simpa [caught] using ends.1 caught

theorem Python.text_error {v : Json} {e : Exc} (fails : P.text v = .error e) : e = .recursion := by
  cases v with
  | str t => cases fails
  | _ =>
    simp only [Python.text] at fails
    cases found : P.str _ with
    | some t => rw [found] at fails; cases fails
    | none => rw [found] at fails; cases fails; rfl

theorem envelopeOf_error {t : Text} {e : Exc} (fails : envelopeOf P t = .error e) :
    e = .recursion ∨ ∃ reason, e = .unreadable reason := by
  unfold envelopeOf at fails
  split at fails
  · exact Or.inr ⟨_, (Except.error.inj fails).symm⟩
  · exact Or.inl (Except.error.inj fails).symm
  · split at fails
    · split at fails
      · exact Or.inr ⟨_, (Except.error.inj fails).symm⟩
      · dsimp only at fails
        split at fails
        · cases fails
        · exact Or.inr ⟨_, (Except.error.inj fails).symm⟩
    · exact Or.inr ⟨_, (Except.error.inj fails).symm⟩

theorem payloadOf_error {envelope : Json} {key : Bytes} {e : Exc} (fails : payloadOf P F envelope key = .error e) :
    e = .recursion ∨ ∃ reason, e = .unreadable reason := by
  unfold payloadOf at fails
  split at fails
  · cases sealed : P.text ((envelope.get? (text "sealed")).getD (.str [])) with
    | error x =>
      rw [sealed] at fails
      cases fails
      exact Or.inl (P.text_error sealed)
    | ok token =>
      rw [sealed] at fails
      simp only [bind, Except.bind] at fails
      split at fails
      · exact Or.inr ⟨_, (Except.error.inj fails).symm⟩
      · split at fails
        · exact Or.inr ⟨_, (Except.error.inj fails).symm⟩
        · split at fails
          · cases fails
          · exact Or.inr ⟨_, (Except.error.inj fails).symm⟩
          · exact Or.inl (Except.error.inj fails).symm
  · exact Or.inr ⟨_, (Except.error.inj fails).symm⟩

theorem entryFrom_error {item : Json} {kind : Kind} {e : Exc} (fails : entryFrom P item kind = .error e) :
    e = .recursion := by
  have dates : ∀ (v : Option Json) {β : Type} (f : Option DateTime → β),
      (entryFrom.removal P v).map f = .error e → e = .recursion := by
    intro v β f raised
    cases v with
    | none => cases raised
    | some v =>
      simp only [entryFrom.removal] at raised
      split at raised
      · cases shown : P.text v with
        | ok t => rw [shown] at raised; cases raised
        | error x =>
          rw [shown] at raised
          cases raised
          exact P.text_error shown
      · cases raised
  unfold entryFrom at fails
  split at fails
  · split at fails
    · exact dates _ _ fails
    · exact dates _ _ fails
    · cases fails
  · cases fails

/-- The entries read one after the other are those of the last items of their keys. -/
theorem entries_fold {items : List (Kind × Json)} {entries found : Entries}
    (reads : items.foldlM (fun entries u => do
      match ← entryFrom P u.2 u.1 with
      | some (key, entry) => return Dict.set entries key entry
      | none => return entries) entries = .ok found) :
    ∃ read : List (Option (Key × Entry)), items.mapM (fun u => entryFrom P u.2 u.1) = .ok read ∧
      ∀ key, found.lookup key = ((read.filterMap id).reverse.lookup key).or (entries.lookup key) := by
  induction items generalizing entries with
  | nil =>
    cases reads
    exact ⟨[], rfl, fun key => rfl⟩
  | cons u items ih =>
    rw [List.foldlM_cons] at reads
    cases entry : entryFrom P u.2 u.1 with
    | error e =>
      rw [entry] at reads
      cases reads
    | ok e =>
      rw [entry] at reads
      cases e with
      | none =>
        obtain ⟨read, all, holds⟩ := ih reads
        refine ⟨none :: read, ?_, fun key => ?_⟩
        · simp [List.mapM_cons, entry, all, bind, Except.bind, pure, Except.pure]
        · simpa using holds key
      | some e =>
        obtain ⟨read, all, holds⟩ := ih reads
        refine ⟨some e :: read, ?_, fun key => ?_⟩
        · simp [List.mapM_cons, entry, all, bind, Except.bind, pure, Except.pure]
        · obtain ⟨k, value⟩ := e
          rw [holds key, Dict.lookup_set]
          by_cases same : key = k
          · subst same
            simp [List.lookup_append]
          · have single : List.lookup key [(k, value)] = none := by
              rw [List.lookup_cons, beq_eq_false_iff_ne.mpr same]
              rfl
            simp [List.lookup_append, same, single]

theorem entriesOf_ok {payload : Json} {entries : Entries} (reads : entriesOf P payload = .ok entries) :
    Holds P payload entries := by
  obtain ⟨read, all, holds⟩ := entries_fold reads
  exact ⟨read, all, fun key => by rw [holds key]; simp⟩

theorem entriesOf_error {payload : Json} {e : Exc} (fails : entriesOf P payload = .error e) : e = .recursion := by
  unfold entriesOf at fails
  generalize ([] : Entries) = entries, payloadItems payload = items at fails
  induction items generalizing entries with
  | nil => cases fails
  | cons u items ih =>
    rw [List.foldlM_cons] at fails
    cases entry : entryFrom P u.2 u.1 with
    | error x =>
      rw [entry] at fails
      cases fails
      exact entryFrom_error entry
    | ok x =>
      rw [entry] at fails
      cases x with
      | none => exact ih _ fails
      | some x => exact ih _ fails

theorem FileHolds.of_contents {bytes : Bytes} {entries : Entries} (file : d.file = some bytes)
    (reads : d.contents P F = .ok entries) : FileHolds P F d entries := by
  unfold Disk.contents Disk.openText at reads
  rw [file] at reads
  cases decoded : decodeUtf8 bytes with
  | none =>
    simp only [Option.getD_some, decoded] at reads
    cases reads
  | some t =>
    simp only [Option.getD_some, decoded] at reads
    cases envelopeText : envelopeOf P t with
    | error e => rw [envelopeText] at reads; cases reads
    | ok envelope =>
      simp only [envelopeText, bind, Except.bind] at reads
      cases keyFile : d.key with
      | none => simp only [keyFile] at reads; cases reads
      | some key =>
        simp only [keyFile] at reads
        cases opens : payloadOf P F envelope (stripBytes key) with
        | error e => simp only [opens] at reads; cases reads
        | ok payload =>
          simp only [opens] at reads
          exact .opened file decoded envelopeText keyFile opens (entriesOf_ok reads)

/-- A file that can be read comes to its entries or to why it is not opened. -/
theorem contents_of_not_escapes {bytes : Bytes} (file : d.file = some bytes) (legible : ¬Escapes P F d) :
    (∃ entries, d.contents P F = .ok entries) ∨ ∃ reason, d.contents P F = .error (.unreadable reason) := by
  have orUnreadable : ∀ {e : Exc}, (e = .recursion ∨ ∃ reason, e = .unreadable reason) → e ≠ .recursion →
      ∃ reason, e = .unreadable reason := fun either different => either.resolve_left different
  cases decoded : decodeUtf8 bytes with
  | none => exact absurd (.encoding file decoded) legible
  | some t =>
    unfold Disk.contents Disk.openText
    simp only [file, Option.getD_some, decoded]
    cases envelopeText : envelopeOf P t with
    | error e =>
      obtain ⟨reason, rfl⟩ := orUnreadable (envelopeOf_error envelopeText) fun deep =>
        legible (.nesting file decoded (deep ▸ envelopeText))
      exact Or.inr ⟨reason, rfl⟩
    | ok envelope =>
      cases keyFile : d.key with
      | none => exact Or.inr ⟨.keyMissing, rfl⟩
      | some key =>
        cases opens : payloadOf P F envelope (stripBytes key) with
        | error e =>
          obtain ⟨reason, rfl⟩ := orUnreadable (payloadOf_error opens) fun deep =>
            legible (.sealed file decoded envelopeText keyFile (deep ▸ opens))
          exact Or.inr ⟨reason, by simp only [bind, Except.bind, opens]⟩
        | ok payload =>
          cases reads : entriesOf P payload with
          | error e =>
            have deep := entriesOf_error reads
            exact absurd (.dates file decoded envelopeText keyFile opens (deep ▸ reads)) legible
          | ok entries => exact Or.inl ⟨entries, by simp only [bind, Except.bind, opens, reads]⟩

theorem Escapes.contents (escapes : Escapes P F d) :
    d.file.isSome ∧ ∃ e, d.contents P F = .error e ∧ ∀ reason, e ≠ .unreadable reason := by
  cases escapes with
  | encoding file noText =>
    exact ⟨by rw [file]; rfl, .value, by simp [Disk.contents, file, noText], nofun⟩
  | nesting file decoded deep =>
    exact ⟨by rw [file]; rfl, .recursion, by simp [Disk.contents, Disk.openText, file, decoded, deep, bind, Except.bind], nofun⟩
  | sealed file decoded envelopeText keyFile deep =>
    exact ⟨by rw [file]; rfl, .recursion,
      by simp [Disk.contents, Disk.openText, file, decoded, envelopeText, keyFile, deep, bind, Except.bind], nofun⟩
  | dates file decoded envelopeText keyFile opens deep =>
    exact ⟨by rw [file]; rfl, .recursion,
      by simp [Disk.contents, Disk.openText, file, decoded, envelopeText, keyFile, opens, deep, bind, Except.bind], nofun⟩

end

end OpenAvc.Logins
