import OpenAvc.Data.JsonWhole
import OpenAvc.Logins.Reading

namespace OpenAvc.Logins

variable {P : Python} {F : Fernet} {s : System} {d : Disk}

/-! What a commit writes when every file operation is done. -/

theorem write_of_quiet (quiet : s.faults = []) (f : Disk → Disk) :
    fileOp (fun d => ((), f d)) s = .ok () { s with disk := f s.disk } := by
  obtain ⟨disk, store, faults, nonce⟩ := s
  cases quiet
  rfl

theorem loginKey_of_key {key : Bytes} (quiet : s.faults = []) (there : s.disk.key = some key)
    (valid : F.accepts (stripBytes key) = true) : loginKey F s = .ok (stripBytes key) s := by
  unfold loginKey
  rw [EStateM.bind_of_ok (read_of_quiet quiet _), EStateM.bind_of_ok (read_of_quiet quiet _), there]
  simp only [Option.isSome_some, if_true]
  rw [EStateM.bind_of_ok (read_of_quiet quiet _), there]
  simp only [Option.getD_some, valid, if_true]
  rfl

/-- A first key is kept in its file with a line end. -/
theorem loginKey_of_no_key (quiet : s.faults = []) (missing : s.disk.key = none) :
    loginKey F s = .ok (F.generate s.nonce)
      { s with nonce := s.nonce + 1, disk := { s.disk with key := some (F.generate s.nonce ++ [10]) } } := by
  unfold loginKey
  rw [EStateM.bind_of_ok (read_of_quiet quiet _), EStateM.bind_of_ok (read_of_quiet quiet _), missing]
  simp only [Option.isSome_none, Bool.false_eq_true, if_false]
  rw [EStateM.get_bind]
  refine (EStateM.bind_of_ok rfl _).trans (EStateM.bind_of_ok (write_of_quiet ?_ _) _)
  exact quiet

/-- What the login file that holds a token is written from. -/
def sealedIn (token : Text) : Json :=
  .obj [(text "format", .str format), (text "version", .int formatVersion), (text "sealed", .str token)]

def fileText (token : Text) : Text :=
  Json.dumps { indent := some 2 } (sealedIn token) ++ [10]

/-- The token of the entries, under a key. -/
def tokenFor (P : Python) (F : Fernet) (entries : Entries) (key : Bytes) (nonce : Nat) : Text :=
  F.encrypt key nonce (Json.dumps { sortKeys := true } (payloadFor P entries))

theorem commit_of_loginKey {key : Bytes} {s' : System} (refuses : s.store.unreadable = none)
    (made : loginKey F s = .ok key s') (valid : F.accepts key = true) (quiet : s'.faults = []) (entries : Entries) :
    commit P F entries s = .ok () { s' with
      nonce := s'.nonce + 1,
      disk := { s'.disk with file := some (encodeUtf8 (fileText (tokenFor P F entries key s'.nonce))) },
      store := { s'.store with entries } } := by
  unfold commit
  rw [EStateM.get_bind, refuses]
  simp only
  rw [EStateM.bind_of_ok made]
  unfold envelope
  rw [if_pos valid]
  refine (EStateM.bind_of_ok rfl _).trans (EStateM.bind_of_ok (write_of_quiet ?_ _) _)
  exact quiet

/-- A store that refuses nothing writes whatever it is given. -/
theorem commit_writes (quiet : s.faults = []) (refuses : s.store.unreadable = none) (healthy : ¬KeyDamaged F s.disk)
    (entries : Entries) : ∃ s', commit P F entries s = .ok () s' := by
  cases there : s.disk.key with
  | none => exact ⟨_, commit_of_loginKey refuses (loginKey_of_no_key quiet there) (F.accepts_generate _) quiet entries⟩
  | some key =>
    have valid : F.accepts (stripBytes key) = true := by
      by_contra refused
      exact healthy ⟨key, there, Bool.eq_false_iff.mpr refused⟩
    exact ⟨_, commit_of_loginKey refuses (loginKey_of_key quiet there valid) valid quiet entries⟩

/-! Reading it back. -/

/-- A sealed payload is in ASCII, on one line or on several. -/
theorem printed_payload {payload : Json} {room : Nat} (readable : Json.Readable room payload) :
    ∀ c ∈ Json.dumps { sortKeys := true } payload, c = 10 ∨ 32 ≤ c ∧ c ≤ 126 := by
  have written := Json.ascii_dumps (L := Json.Layout.unsorted { sortKeys := true }) rfl rfl readable.sorted
  rw [Json.dumps, ← Json.Layout.dump_sorted rfl] at written
  exact fun c member => of_decide_eq_true (List.all_eq_true.mp written c member)

theorem readable_sealedIn (token : Text) {room : Nat} (some : 0 < room) : Json.Readable room (sealedIn token) := by
  have number : formatVersion.natAbs < 10 ^ Json.Scan.intLimit :=
    (by decide : formatVersion.natAbs < 10 ^ 1).trans_le (Nat.pow_le_pow_right (by decide) (by decide))
  exact ⟨some, trivial, number, trivial, trivial⟩

theorem readBack_sealedIn {token : Text} (ascii : ∀ c ∈ token, c < 128) :
    Json.readBack { indent := some 2 } (sealedIn token) = sealedIn token := by
  have whole : Json.Whole token := by
    refine Json.rejoin_eq_iff.mp (Json.Scan.rejoin_scalar (List.all_eq_true.mpr fun c member => ?_))
    have small := ascii c member
    simp only [Json.Scan.scalar, decide_eq_true_eq]
    omega
  have names : [text "format", text "version", text "sealed"].Nodup := by decide
  have distinct : Json.Distinct (sealedIn token) := ⟨names, trivial, trivial, trivial, trivial⟩
  have wholes : ∀ t ∈ [text "format", format, text "version", text "sealed", token], Json.Whole t := by
    simp only [List.forall_mem_cons]
    exact ⟨by decide, by decide, by decide, by decide, whole, fun _ member => absurd member List.not_mem_nil⟩
  refine Json.readBack_of_texts _ distinct fun t member => ?_
  rw [Json.Scan.rejoinAs_of_ascii rfl]
  exact Json.rejoin_whole (wholes t member)

theorem envelopeOf_fileText {token : Text} (room : 0 < P.stack) (ascii : ∀ c ∈ token, c < 128) :
    envelopeOf P (fileText token) = .ok (sealedIn token) := by
  unfold envelopeOf fileText
  rw [Json.loads_dumps_newline rfl (readable_sealedIn token room), readBack_sealedIn ascii]
  rfl

/-- What a written file holds is its payload, as it is read back. -/
theorem Disk.contents_of_written {key : Bytes} {token : Text} {payload : Json}
    (file : d.file = some (encodeUtf8 (fileText token))) (there : d.key = some key)
    (valid : F.accepts (stripBytes key) = true) (ascii : ∀ c ∈ token, c < 128) (room : 0 < P.stack)
    (opens : F.decrypt (stripBytes key) token = some (Json.dumps { sortKeys := true } payload))
    (readable : Json.Readable P.stack payload) :
    d.contents P F = entriesOf P (Json.readBack {} (Json.sorted payload)) := by
  have printed : ∀ c ∈ fileText token, c = 10 ∨ 32 ≤ c ∧ c ≤ 126 := by
    have written := Json.ascii_dumps (L := { indent := some 2 }) rfl rfl (readable_sealedIn token room)
    intro c member
    rcases List.mem_append.mp member with before | last
    · exact of_decide_eq_true (List.all_eq_true.mp written c before)
    · exact Or.inl (List.mem_singleton.mp last)
  have decoded : decodeUtf8 (encodeUtf8 (fileText token)) = some (fileText token) := by
    refine decodeUtf8_encodeUtf8 (fun c member => Or.inl ?_) fun member => ?_
    · have shown := printed c member
      omega
    · have shown := printed 13 member
      omega
  have opened : payloadOf P F (sealedIn token) (stripBytes key) = .ok (Json.readBack {} (Json.sorted payload)) := by
    have noWide : (token.any fun c => decide (128 ≤ c)) = false :=
      List.any_eq_false.mpr fun c member => by simpa using ascii c member
    unfold payloadOf
    rw [if_pos valid]
    show (if (token.any fun c => decide (128 ≤ c)) = true then _ else _) = _
    rw [noWide, if_neg Bool.false_ne_true, opens]
    have parsed := Json.loads_dumps_sorted (L := { sortKeys := true }) rfl readable
    dsimp only
    rw [parsed]
    rfl
  unfold Disk.contents Disk.openText
  rw [file, Option.getD_some, decoded]
  simp only [envelopeOf_fileText room ascii, there]
  show (payloadOf P F _ (stripBytes key) >>= fun payload => entriesOf P payload) = _
  rw [opened]
  rfl

theorem verify_of_contents {entries : Entries} (quiet : s.faults = []) (present : s.disk.file.isSome)
    (contents : s.disk.contents P F = .ok entries) (same : sameEntries entries s.store.entries = true) :
    verify P F s = .ok () s := by
  have opens := opened_of_quiet (P := P) (F := F) quiet present
  rw [contents] at opens
  unfold verify
  rw [EStateM.bind_of_ok opens]
  simp only
  rw [EStateM.get_bind, same]
  rfl

/-! What filing comes to once the store is loaded. -/

theorem store_of_load (found : List FoundLogin) (library : Option Text) (typed : Bool) {s' : System}
    (valid : (found.any fun login => login.fields.any fun u => !usable u.2) = false) (loads : load P F s = .ok () s')
    (changes : (found.foldl (fileLogin library typed) (s'.store.entries, false)).2 = true) :
    store P F found library typed s = commit P F (found.foldl (fileLogin library typed) (s'.store.entries, false)).1 s' := by
  unfold store
  rw [valid]
  refine (EStateM.bind_of_ok loads _).trans ?_
  rw [EStateM.get_bind]
  simp only [changes, if_true]

end OpenAvc.Logins
