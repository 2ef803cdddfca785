import OpenAvc.Bundle.Payload
import OpenAvc.Data.Attempted

/-! What a sealed bundle opens to, and what any other bytes do. -/

namespace OpenAvc.Bundle

open Json (Layout Whole printable)
open Logins (FoundLogin DateTime)

/-- The characters of a token whose payload has `written` characters: a version, a time, an
initialisation vector, the payload in whole blocks of 16 bytes and a tag, in base64. -/
def tokenLength (written : Nat) : Nat :=
  4 * ((57 + 16 * (written / 16 + 1) + 2) / 3)

/-- The interpreter and the ciphers as they are documented: there is room for the four containers
of a payload, a date is written in ASCII, and a token of a key is opened with that key only. -/
structure Lawful (P : Interpreter) (C : Ciphers) : Prop where
  room : 4 ≤ P.stack
  nfc_nil : P.nfc [] = []
  isoformat : ∀ d, ∀ c ∈ P.isoformat d, printable c = true
  decrypt_encrypt : ∀ key nonce t, t.all Json.ascii = true → C.decrypt key (C.encrypt key nonce t) = some t
  decrypt_other : ∀ key key' nonce t, key ≠ key' → C.decrypt key' (C.encrypt key nonce t) = none
  token : ∀ key nonce t, ∀ c ∈ C.encrypt key nonce t, printable c = true
  length_token : ∀ key nonce t, t.all Json.ascii = true → (C.encrypt key nonce t).length = tokenLength t.length

/-- The bytes of a bundle: 208 around the date, the token and their names. -/
def bundleLength (sealedAt : Text) (written : Nat) : Nat :=
  208 + sealedAt.length + tokenLength written

variable {P : Interpreter} {C : Ciphers}

/-! ### The text of a bundle -/

theorem salt_newParams (salt : Fin 16 → UInt8) :
    (newParams salt).salt.length = 16 ∧ ∀ b ∈ (newParams salt).salt, b < 256 := by
  refine ⟨by simp [newParams], fun b member => ?_⟩
  obtain ⟨octet, _, rfl⟩ := List.mem_map.mp member
  exact octet.toNat_lt

theorem printable_base64 (l : List Nat) : ∀ c ∈ Base64.encode l, printable c = true := by
  intro c member
  have bounds := Base64.mem_encode member
  simp only [printable, decide_eq_true_eq]
  omega

theorem length_bundle {sealedAt token : Text} (stamp : ∀ c ∈ sealedAt, printable c = true)
    (plain : ∀ c ∈ token, printable c = true) (salt : Fin 16 → UInt8) :
    (Json.dumps { indent := some 2 } (bundleOf sealedAt (newParams salt) token)).length =
      207 + sealedAt.length + token.length := by
  have salted : (Base64.encode (newParams salt).salt).length = 24 := by
    rw [Base64.length_encode, (salt_newParams salt).1]
  let L : Layout := { indent := some 2 }
  have unsorted : L.sortKeys = false := rfl
  have blanks : (L.newline 0).length = 1 ∧ (L.newline (0 + 1)).length = 3 ∧ (L.newline (0 + 1 + 1)).length = 5 ∧
      (L.separator (0 + 1)).length = 4 ∧ (L.separator (0 + 1 + 1)).length = 6 ∧ L.colon.length = 2 := by decide
  have names : (L.quoted (text "format")).length = 8 ∧ (L.quoted format).length = 23 ∧ (L.quoted (text "version")).length = 9 ∧
      (L.quoted (text "sealed_at")).length = 11 ∧ (L.quoted (text "kdf")).length = 5 ∧ (L.quoted (text "name")).length = 6 ∧
      (L.quoted (text "scrypt")).length = 8 ∧ (L.quoted (text "n")).length = 3 ∧ (L.quoted (text "r")).length = 3 ∧
      (L.quoted (text "p")).length = 3 ∧ (L.quoted (text "salt")).length = 6 ∧ (L.quoted (text "sealed")).length = 8 := by
    decide
  have costs : (newParams salt).n = 2 ^ 15 ∧ (newParams salt).r = 8 ∧ (newParams salt).p = 1 := ⟨rfl, rfl, rfl⟩
  have numbers : (intText 1).length = 1 ∧ (intText ((2 ^ 15 : Nat) : Int)).length = 5 ∧
      (intText ((8 : Nat) : Int)).length = 1 ∧ (intText ((1 : Nat) : Int)).length = 1 := by decide
  change (Json.dumps L _).length = _
  unfold Json.dumps bundleOf KeyParams.asJson
  simp only [Layout.dump, Layout.dumpFields, Layout.inOrder, List.map_cons, List.map_nil, Layout.wrap,
    Layout.intercalate_cons, List.flatMap_cons, List.flatMap_nil, List.length_append, Json.length_quoted L stamp,
    Json.length_quoted L plain, Json.length_quoted L (printable_base64 _), List.isEmpty_cons, Bool.false_eq_true, if_false,
    salted, unsorted, blanks, names, costs, numbers, List.length_cons, List.length_nil]
  omega

theorem readable_bundle (sealedAt token : Text) (salt : Fin 16 → UInt8) {room : Nat} (enough : 2 ≤ room) :
    Json.Readable room (bundleOf sealedAt (newParams salt) token) := by
  have limit : Json.Scan.intLimit ≠ 0 := by decide
  have number (n : Nat) (small : n < 10 ^ 5) : (n : Int).natAbs < 10 ^ Json.Scan.intLimit :=
    small.trans_le (Nat.pow_le_pow_right (by decide) (by decide))
  have one : (1 : Int).natAbs < 10 ^ Json.Scan.intLimit := Nat.one_lt_pow limit (by decide)
  have costs : (newParams salt).n < 10 ^ 5 ∧ (newParams salt).r < 10 ^ 5 ∧ (newParams salt).p < 10 ^ 5 :=
    ⟨(by decide : 2 ^ 15 < 10 ^ 5), (by decide : 8 < 10 ^ 5), (by decide : 1 < 10 ^ 5)⟩
  have derivation : Json.Readable (room - 1) (newParams salt).asJson :=
    ⟨by omega, trivial, number _ costs.1, number _ costs.2.1, number _ costs.2.2, trivial, trivial⟩
  exact ⟨by omega, trivial, one, trivial, derivation, trivial, trivial⟩

theorem readBack_bundle {sealedAt token : Text} (stamp : ∀ c ∈ sealedAt, printable c = true)
    (plain : ∀ c ∈ token, printable c = true) (salt : Fin 16 → UInt8) :
    Json.readBack { indent := some 2 } (bundleOf sealedAt (newParams salt) token) = bundleOf sealedAt (newParams salt) token := by
  have names : [text "format", text "version", text "sealed_at", text "kdf", text "sealed"].Nodup ∧
      [text "name", text "n", text "r", text "p", text "salt"].Nodup := by decide
  have distinct : Json.Distinct (bundleOf sealedAt (newParams salt) token) :=
    ⟨names.1, trivial, trivial, trivial, ⟨names.2, trivial, trivial, trivial, trivial, trivial, trivial⟩, trivial, trivial⟩
  have written : Json.texts (bundleOf sealedAt (newParams salt) token) =
      [text "format", format, text "version", text "sealed_at", sealedAt, text "kdf", text "name", text "scrypt", text "n",
        text "r", text "p", text "salt", Base64.encode (newParams salt).salt, text "sealed", token] := rfl
  have whole : ∀ t ∈ Json.texts (bundleOf sealedAt (newParams salt) token), Whole t := by
    rw [written]
    simp only [List.forall_mem_cons]
    exact ⟨by decide, by decide, by decide, by decide, Json.whole_printable stamp, by decide, by decide, by decide,
      by decide, by decide, by decide, by decide, Json.whole_printable (printable_base64 _), by decide,
      Json.whole_printable plain, fun _ member => absurd member List.not_mem_nil⟩
  refine Json.readBack_of_texts _ distinct fun t member => ?_
  rw [Json.Scan.rejoinAs_of_ascii rfl]
  exact Json.rejoin_whole (whole t member)

/-- The header of a bundle that was written says what it is and how its key is derived. -/
theorem parseBundle_header (sealedAt token : Text) (salt : Fin 16 → UInt8) :
    parseBundle P (bundleOf sealedAt (newParams salt) token) =
      (match Base64.decode (Base64.encode (newParams salt).salt) with
        | none => .error notReadable
        | some octets =>
          match checkedParams (some (.int (newParams salt).n)) (some (.int (newParams salt).r))
              (some (.int (newParams salt).p)) octets with
          | none => .error (.bundleUnreadable "The sealed logins ask for a key this version will not derive.")
          | some params => .ok (⟨sealedAt, token⟩, params)) := by
  unfold parseBundle
  rfl

theorem parseBundle_bundleOf (sealedAt token : Text) (salt : Fin 16 → UInt8) :
    parseBundle P (bundleOf sealedAt (newParams salt) token) = .ok (⟨sealedAt, token⟩, newParams salt) := by
  obtain ⟨sixteen, octets⟩ := salt_newParams salt
  have given : checkedParams (some (.int (newParams salt).n)) (some (.int (newParams salt).r)) (some (.int (newParams salt).p))
      (newParams salt).salt = some (newParams salt) := by
    have costs : (newParams salt).n = 2 ^ 15 ∧ (newParams salt).r = 8 ∧ (newParams salt).p = 1 := ⟨rfl, rfl, rfl⟩
    unfold checkedParams
    rw [costs.1, costs.2.1, costs.2.2, sixteen]
    exact if_pos (by decide)
  have decoded := Base64.decode_encode _ octets
  rw [parseBundle_header, decoded]
  dsimp only
  rw [given]

/-! ### A bundle that was sealed -/

section Sealed

variable (lawful : Lawful P C) (found : List FoundLogin) (now : DateTime)
include lawful

theorem ascii_payloadText : (payloadText P now found).all Json.ascii = true := by
  have room : 4 ≤ P.stack := lawful.room
  have readable := (readable_payload (sealedAtOf P now) found room).sorted
  have written := Json.ascii_dumps (L := Layout.unsorted { sortKeys := true }) rfl rfl readable
  rwa [Json.dumps, ← Layout.dump_sorted rfl] at written

theorem parse_sealed (key : Key) (salt : Fin 16 → UInt8) (nonce : Nat) :
    parse P (sealWithKey P C found key (newParams salt) now nonce) =
      if maxBundleBytes < bundleLength (sealedAtOf P now) (payloadText P now found).length then
        .error (.bundleUnreadable "The sealed logins are larger than any export makes.")
      else .ok (⟨sealedAtOf P now, C.encrypt key nonce (payloadText P now found)⟩, newParams salt) := by
  have room : 2 ≤ P.stack := le_trans (by decide) lawful.room
  have stamp : ∀ c ∈ sealedAtOf P now, printable c = true := lawful.isoformat _
  have plain := lawful.token key nonce (payloadText P now found)
  have readable := readable_bundle (sealedAtOf P now) (C.encrypt key nonce (payloadText P now found)) salt room
  have small : ∀ c ∈ Json.dumps { indent := some 2 } (bundleOf (sealedAtOf P now) (newParams salt)
      (C.encrypt key nonce (payloadText P now found))) ++ [10], c < 128 := by
    intro c member
    have written := Json.ascii_dumps (L := { indent := some 2 }) rfl rfl readable
    rcases List.mem_append.mp member with before | last
    · have ascii := List.all_eq_true.mp written c before
      simp only [Json.ascii, decide_eq_true_eq] at ascii
      omega
    · rw [List.mem_singleton.mp last]
      decide
  have size : (sealWithKey P C found key (newParams salt) now nonce).length =
      bundleLength (sealedAtOf P now) (payloadText P now found).length := by
    unfold sealWithKey
    rw [length_encodeUtf8 small, List.length_append, length_bundle stamp plain,
      lawful.length_token key nonce _ (ascii_payloadText lawful found now)]
    unfold bundleLength
    simp only [List.length_singleton]
    omega
  have decoded : decodeStrict (sealWithKey P C found key (newParams salt) now nonce) = some (Json.dumps { indent := some 2 }
      (bundleOf (sealedAtOf P now) (newParams salt) (C.encrypt key nonce (payloadText P now found))) ++ [10]) :=
    decodeStrict_encodeUtf8 fun c member => Or.inl (lt_trans (small c member) (by decide))
  unfold parse
  rw [size]
  by_cases large : maxBundleBytes < bundleLength (sealedAtOf P now) (payloadText P now found).length
  · rw [if_pos large, if_pos large]
  · rw [if_neg large, if_neg large, decoded]
    dsimp only
    rw [Json.loads_dumps_newline rfl readable, readBack_bundle stamp plain]
    exact parseBundle_bundleOf _ _ salt

/-- What the payload is read as. -/
def payloadRead (P : Interpreter) (found : List FoundLogin) (now : DateTime) : Json :=
  Json.readBack (Layout.unsorted { sortKeys := true }) (Json.sorted (payloadOf (sealedAtOf P now) found))

/-- A bundle that is not too large opens with the passphrases that give its key. -/
theorem openBundle_sealed (small : bundleLength (sealedAtOf P now) (payloadText P now found).length ≤ maxBundleBytes)
    (key : Key) (salt : Fin 16 → UInt8) (nonce : Nat) {other : Text} (nonempty : other ≠ []) :
    openBundle P C (sealWithKey P C found key (newParams salt) now nonce) other =
      if deriveKey P C other (newParams salt) = .ok key then .ok (loginsFrom (payloadRead P found now))
      else .error .wrongPassphrase := by
  have plain := lawful.token key nonce (payloadText P now found)
  have ascii : (C.encrypt key nonce (payloadText P now found)).any (128 ≤ ·) = false := by
    refine List.any_eq_false.mpr fun c member => ?_
    have bounds := plain c member
    simp only [printable, decide_eq_true_eq] at bounds ⊢
    omega
  have opens : openBundle P C (sealWithKey P C found key (newParams salt) now nonce) other =
      (openPayload P C (C.encrypt key nonce (payloadText P now found)) (newParams salt) other >>= fun payload =>
        .ok (loginsFrom payload)) := by
    unfold openBundle
    rw [parse_sealed lawful, if_neg (Nat.not_lt.mpr small)]
    change (if other = [] then _ else _) = _
    rw [if_neg nonempty]
    rfl
  rw [opens]
  unfold openPayload
  cases derived : deriveKey P C other (newParams salt) with
  | error e =>
    rw [if_neg (by simp)]
    rfl
  | ok key' =>
    dsimp only
    rw [if_neg (by simp [ascii])]
    by_cases same : key' = key
    · subst same
      have room : 4 ≤ P.stack := lawful.room
      have readable := readable_payload (sealedAtOf P now) found room
      rw [if_pos rfl, lawful.decrypt_encrypt key' nonce _ (ascii_payloadText lawful found now)]
      dsimp only
      rw [payloadText, Json.loads_dumps_sorted rfl readable]
      rfl
    · have other' : ¬(Except.ok key' : Except Exc Key) = .ok key := fun equal => same (Except.ok.inj equal)
      rw [if_neg other', lawful.decrypt_other key key' nonce _ (Ne.symm same)]
      rfl

end Sealed

/-! ### Round trip -/

section RoundTrip

variable (P C) (found : List FoundLogin) (passphrase : Text) (now : DateTime) (salt : Fin 16 → UInt8) (nonce : Nat)

/-- The logins are sealed, they are opened as they were with the same passphrase up to its
normal form, and another one is refused. -/
def RoundTrips : Prop :=
  ∃ raw, sealWithPassphrase P C found passphrase now salt nonce = .ok raw ∧ ∀ other,
    (P.nfc other = P.nfc passphrase → ∃ opened, openBundle P C raw other = .ok opened ∧ SameSet opened found) ∧
    (P.nfc other ≠ P.nfc passphrase → openBundle P C raw other = .error .wrongPassphrase)

/-- What can be sealed: the passphrase has no surrogate, each login is written so that it is read
as it was, and the bundle is not larger than a reader takes. -/
structure Sealable : Prop where
  encodable : (P.nfc passphrase).all Utf8.scalar = true
  written : ∀ login ∈ found, Written login
  small : bundleLength (sealedAtOf P now) (payloadText P now found).length ≤ maxBundleBytes

/-- No other passphrase gives the key of this one. -/
def Unguessed : Prop :=
  ∀ bytes bytes', normalized P passphrase = .ok bytes →
    C.scrypt bytes' (newParams salt).salt (newParams salt).n (newParams salt).r (newParams salt).p =
      C.scrypt bytes (newParams salt).salt (newParams salt).n (newParams salt).r (newParams salt).p → bytes' = bytes

variable {P C found passphrase now salt nonce}

theorem normalized_eq_ok {t : Text} {bytes : List Nat} (ok : normalized P t = .ok bytes) :
    Utf8.encode (P.nfc t) = some bytes := by
  unfold normalized at ok
  cases encoded : Utf8.encode (P.nfc t) with
  | none =>
    rw [encoded] at ok
    cases ok
  | some given =>
    rw [encoded] at ok
    exact congrArg some (Except.ok.inj ok)

theorem normalized_congr {t t' : Text} (same : P.nfc t = P.nfc t') : normalized P t = normalized P t' := by
  rw [normalized, normalized, same]

/-- Two passphrases of the same bytes have one normal form. -/
theorem nfc_of_normalized {t t' : Text} {bytes : List Nat} (ok : normalized P t = .ok bytes)
    (ok' : normalized P t' = .ok bytes) : P.nfc t = P.nfc t' := by
  rw [← Utf8.decode_encode (normalized_eq_ok ok), ← Utf8.decode_encode (normalized_eq_ok ok')]

/-- The key of a passphrase is the key of those with its normal form. -/
theorem deriveKey_iff (unguessed : Unguessed P C passphrase salt) {bytes : List Nat} {other : Text}
    (ok : normalized P passphrase = .ok bytes) :
    deriveKey P C other (newParams salt) =
        .ok (C.scrypt bytes (newParams salt).salt (newParams salt).n (newParams salt).r (newParams salt).p) ↔
      P.nfc other = P.nfc passphrase := by
  unfold deriveKey
  rw [Except.bind_eq_ok]
  constructor
  · rintro ⟨bytes', ok', same⟩
    have equal := unguessed bytes bytes' ok (Except.ok.inj same)
    exact nfc_of_normalized (equal ▸ ok') ok
  · intro same
    exact ⟨bytes, (normalized_congr same).trans ok, rfl⟩

theorem roundTrips_iff (lawful : Lawful P C) (unguessed : Unguessed P C passphrase salt)
    (long : minPassphrase ≤ (P.nfc passphrase).length) (each : ∀ login ∈ found, Found login) :
    RoundTrips P C found passphrase now salt nonce ↔ Sealable P found passphrase now := by
  have nonempty : passphrase ≠ [] := by
    rintro rfl
    rw [lawful.nfc_nil] at long
    cases long
  have stamp : Whole (sealedAtOf P now) := Json.whole_printable (lawful.isoformat _)
  have checked : sealWithPassphrase P C found passphrase now salt nonce =
      (deriveKey P C passphrase (newParams salt) >>= fun key => .ok (sealWithKey P C found key (newParams salt) now nonce)) := by
    unfold sealWithPassphrase checkPassphrase
    rw [if_neg (Nat.not_lt.mpr long)]
    rfl
  constructor
  · rintro ⟨raw, sealing, opens⟩
    rw [checked] at sealing
    obtain ⟨key, derived, sealing⟩ := Except.bind_eq_ok.mp sealing
    cases sealing
    obtain ⟨bytes, ok, _⟩ := Except.bind_eq_ok.mp derived
    have encodable : (P.nfc passphrase).all Utf8.scalar = true := by
      have encoded := normalized_eq_ok ok
      unfold Utf8.encode at encoded
      by_contra surrogate
      rw [if_neg surrogate] at encoded
      cases encoded
    obtain ⟨opened, opening, same⟩ := (opens passphrase).1 rfl
    have small : bundleLength (sealedAtOf P now) (payloadText P now found).length ≤ maxBundleBytes := by
      by_contra large
      unfold openBundle at opening
      rw [parse_sealed lawful, if_pos (Nat.lt_of_not_le large)] at opening
      cases opening
    rw [openBundle_sealed lawful found now small key salt nonce nonempty, if_pos derived] at opening
    cases opening
    exact ⟨encodable, (sameSet_iff stamp each rfl).mp same, small⟩
  · intro sealable
    obtain ⟨bytes, ok⟩ : ∃ bytes, normalized P passphrase = .ok bytes := by
      unfold normalized Utf8.encode
      rw [if_pos sealable.encodable]
      exact ⟨_, rfl⟩
    have derives := @deriveKey_iff P C passphrase salt unguessed bytes
    refine ⟨_, checked.trans (Except.bind_eq_ok.mpr ⟨_, (derives ok).mpr rfl, rfl⟩), fun other => ⟨fun same => ?_, fun differ => ?_⟩⟩
    · have notBlank : other ≠ [] := by
        rintro rfl
        rw [← same, lawful.nfc_nil] at long
        cases long
      rw [openBundle_sealed lawful found now sealable.small _ salt nonce notBlank, if_pos ((derives ok).mpr same)]
      exact ⟨_, rfl, (sameSet_iff stamp each rfl).mpr sealable.written⟩
    · by_cases blank : other = []
      · subst blank
        unfold openBundle
        rw [parse_sealed lawful, if_neg (Nat.not_lt.mpr sealable.small)]
        rfl
      · rw [openBundle_sealed lawful found now sealable.small _ salt nonce blank, if_neg fun derived => differ ((derives ok).mp derived)]

end RoundTrip

/-! ### Any bytes -/

/-- A call returns, or raises `BundleUnreadable` or `WrongPassphrase`. -/
def Answers {α : Type} (r : Except Exc α) : Prop :=
  ∀ e, r = .error e → e = .wrongPassphrase ∨ ∃ message, e = .bundleUnreadable message

/-- A bundle whose header is read up to its salt. -/
def Headed (bundle : Json) (kdf : List (Text × Json)) : Prop :=
  bundle.get? (text "format") = some (.str format) ∧ readableVersion (bundle.get? (text "version")) = true ∧
    bundle.get? (text "kdf") = some (.obj kdf) ∧ (kdf.lookup (text "name")).bind Json.asStr = some (text "scrypt")

/-- The header nests no deeper than `json.loads` goes, and no deeper than `str` where it is the salt. -/
def ShallowHeader (P : Interpreter) (raw : Bytes) : Prop :=
  raw.length ≤ maxBundleBytes → ∀ t, decodeStrict raw = some t → Json.loads P.stack t ≠ .error .recursion ∧
    ∀ bundle kdf, Json.loads P.stack t = .ok bundle → Headed bundle kdf →
      strOf P ((kdf.lookup (text "salt")).getD (.str [])) ≠ .error .recursion

/-- What a passphrase decrypts nests no deeper than `json.loads` goes. -/
def ShallowPayload (P : Interpreter) (C : Ciphers) (raw : Bytes) (passphrase : Text) : Prop :=
  ∀ bundle params key t, parse P raw = .ok (bundle, params) → passphrase ≠ [] → (∀ c ∈ bundle.token, c < 128) →
    deriveKey P C passphrase params = .ok key → C.decrypt key bundle.token = some t →
      Json.loads P.stack t ≠ .error .recursion

theorem answers_unreadable {α : Type} (message : String) : Answers (.error (.bundleUnreadable message) : Except Exc α) :=
  fun _ raised => Or.inr ⟨message, (Except.error.inj raised).symm⟩

theorem answers_ok {α : Type} (a : α) : Answers (.ok a : Except Exc α) := fun _ raised => nomatch raised

theorem strOf_cases (v : Json) : strOf P v = .error .recursion ∨ ∃ t, strOf P v = .ok t := by
  unfold strOf
  cases v with
  | str t => exact Or.inr ⟨t, rfl⟩
  | null | bool | int | float | constant | arr | obj =>
    dsimp only
    cases P.str _ with
    | none => exact Or.inl rfl
    | some t => exact Or.inr ⟨t, rfl⟩

theorem Headed.unique {bundle : Json} {kdf kdf' : List (Text × Json)} (headed : Headed bundle kdf) (headed' : Headed bundle kdf') :
    kdf = kdf' := Json.obj.inj (Option.some.inj (headed.2.2.1.symm.trans headed'.2.2.1))

/-- What a bundle is read as, beyond its header. -/
theorem parseBundle_headed {bundle : Json} {kdf : List (Text × Json)} (headed : Headed bundle kdf) :
    strOf P ((kdf.lookup (text "salt")).getD (.str [])) = .error .recursion ∧ parseBundle P bundle = .error .recursion ∨
      strOf P ((kdf.lookup (text "salt")).getD (.str [])) ≠ .error .recursion ∧ Answers (parseBundle P bundle) := by
  obtain ⟨named, version, derivation, method⟩ := headed
  unfold parseBundle
  rw [named]
  dsimp only
  rw [if_neg (by simp), if_neg (by simp [version]), derivation]
  dsimp only
  rw [if_neg (by simp [method])]
  rcases @strOf_cases P ((kdf.lookup (text "salt")).getD (.str [])) with deep | ⟨t, written⟩
  · rw [deep]
    exact Or.inl ⟨rfl, rfl⟩
  · rw [written]
    refine Or.inr ⟨by rintro ⟨⟩, ?_⟩
    dsimp only [bind, Except.bind]
    split
    · exact answers_unreadable _
    · split
      · exact answers_unreadable _
      · split
        · exact answers_ok _
        · exact answers_unreadable _

theorem parseBundle_headless {bundle : Json} (headless : ∀ kdf, ¬Headed bundle kdf) : Answers (parseBundle P bundle) := by
  unfold parseBundle
  split
  · rename_i given named
    split_ifs with other newer
    · exact answers_unreadable _
    · exact answers_unreadable _
    · split
      · rename_i kdf derivation
        split_ifs with method
        · exact answers_unreadable _
        · have ours : given = format := by simpa using other
          exact absurd ⟨ours ▸ named, by simpa using newer, derivation, by simpa using method⟩ (headless kdf)
      · exact answers_unreadable _
  · exact answers_unreadable _

/-- A bundle is refused in one of its own ways where its header is shallow, and else runs out of stack. -/
theorem parse_cases (raw : Bytes) : (ShallowHeader P raw ∧ Answers (parse P raw)) ∨
    (¬ShallowHeader P raw ∧ parse P raw = .error .recursion) := by
  by_cases large : maxBundleBytes < raw.length
  · refine Or.inl ⟨fun small => absurd small (Nat.not_le.mpr large), ?_⟩
    rw [parse, if_pos large]
    exact answers_unreadable _
  · have small : raw.length ≤ maxBundleBytes := Nat.le_of_not_lt large
    cases decoded : decodeStrict raw with
    | none =>
      refine Or.inl ⟨fun _ t found => (by rw [decoded] at found; cases found), ?_⟩
      rw [parse, if_neg large, decoded]
      exact answers_unreadable _
    | some t =>
      have header : ShallowHeader P raw ↔ (Json.loads P.stack t ≠ .error .recursion ∧
          ∀ bundle kdf, Json.loads P.stack t = .ok bundle → Headed bundle kdf →
            strOf P ((kdf.lookup (text "salt")).getD (.str [])) ≠ .error .recursion) := by
        constructor
        · exact fun shallow => shallow small t decoded
        · intro shallow _ t' found
          cases decoded.symm.trans found
          exact shallow
      rw [header, parse, if_neg large, decoded]
      dsimp only
      cases loaded : Json.loads P.stack t with
      | error e =>
        cases e with
        | value => exact Or.inl ⟨⟨fun raised => (nomatch raised), fun _ _ found => (nomatch found)⟩, answers_unreadable _⟩
        | recursion => exact Or.inr ⟨fun shallow => shallow.1 rfl, rfl⟩
      | ok bundle =>
        by_cases headed : ∃ kdf, Headed bundle kdf
        · obtain ⟨kdf, headed⟩ := headed
          rcases @parseBundle_headed P bundle kdf headed with ⟨deep, raised⟩ | ⟨written, answers⟩
          · exact Or.inr ⟨fun shallow => shallow.2 bundle kdf rfl headed deep, raised⟩
          · refine Or.inl ⟨⟨fun raised => (nomatch raised), fun bundle' kdf' found headed' => ?_⟩, answers⟩
            cases found
            rw [← headed.unique headed']
            exact written
        · have headless := not_exists.mp headed
          refine Or.inl ⟨⟨fun raised => (nomatch raised), fun bundle' kdf' found headed' => ?_⟩, parseBundle_headless headless⟩
          cases found
          exact absurd headed' (headless kdf')

theorem openPayload_answers_iff (token : Text) (params : KeyParams) (passphrase : Text) :
    Answers (openPayload P C token params passphrase) ↔ ∀ key t, (∀ c ∈ token, c < 128) →
      deriveKey P C passphrase params = .ok key → C.decrypt key token = some t → Json.loads P.stack t ≠ .error .recursion := by
  have wrong : Answers (.error .wrongPassphrase : Except Exc Json) := fun _ raised => Or.inl (Except.error.inj raised).symm
  unfold openPayload
  cases derived : deriveKey P C passphrase params with
  | error e => exact ⟨fun _ _ _ _ found => (nomatch found), fun _ => wrong⟩
  | ok key =>
    dsimp only
    by_cases ascii : token.any (128 ≤ ·) = true
    · rw [if_pos ascii]
      refine ⟨fun _ _ _ small => ?_, fun _ => wrong⟩
      obtain ⟨c, member, large⟩ := List.any_eq_true.mp ascii
      exact absurd (small c member) (Nat.not_lt.mpr (of_decide_eq_true large))
    · rw [if_neg ascii]
      have small : ∀ c ∈ token, c < 128 := by
        intro c member
        by_contra large
        exact ascii (List.any_eq_true.mpr ⟨c, member, decide_eq_true (Nat.le_of_not_lt large)⟩)
      cases decrypted : C.decrypt key token with
      | none =>
        refine ⟨fun _ key' t _ same found => ?_, fun _ => wrong⟩
        cases same
        cases decrypted.symm.trans found
      | some t =>
        dsimp only
        have unfolds : (∀ key' t', (∀ c ∈ token, c < 128) → (Except.ok key : Except Exc Key) = .ok key' →
            C.decrypt key' token = some t' → Json.loads P.stack t' ≠ .error .recursion) ↔
              Json.loads P.stack t ≠ .error .recursion := by
          constructor
          · exact fun shallow => shallow key t small rfl decrypted
          · intro shallow key' t' _ same found
            cases same
            cases decrypted.symm.trans found
            exact shallow
        rw [unfolds]
        cases Json.loads P.stack t with
        | error e =>
          cases e with
          | value => exact ⟨fun _ raised => (nomatch raised), fun _ => wrong⟩
          | recursion =>
            refine ⟨fun answers => ?_, fun shallow => absurd rfl shallow⟩
            rcases answers _ rfl with impossible | ⟨_, impossible⟩ <;> cases impossible
        | ok payload => exact ⟨fun _ raised => (nomatch raised), fun _ => answers_ok _⟩

theorem not_answers_recursion {α : Type} : ¬Answers (.error .recursion : Except Exc α) := by
  intro answers
  rcases answers _ rfl with impossible | ⟨_, impossible⟩ <;> cases impossible

theorem answers_bind {α β : Type} {r : Except Exc α} (f : α → β) : Answers (r >>= fun a => .ok (f a)) ↔ Answers r := by
  cases r with
  | error e => exact ⟨fun answers => fun _ raised => answers _ (congrArg Except.error (Except.error.inj raised)),
      fun answers => fun _ raised => answers _ (congrArg Except.error (Except.error.inj raised))⟩
  | ok a => exact ⟨fun _ => answers_ok a, fun _ => answers_ok _⟩

/-- With a passphrase, what a bundle that was read opens to. -/
theorem opens_answers_iff {P : Interpreter} {C : Ciphers} {passphrase : Text} (bundle : Envelope) (params : KeyParams)
    (given : passphrase ≠ []) : Answers (do
      let (bundle, params) ← (Except.ok (bundle, params) : Except Exc (Envelope × KeyParams))
      if passphrase = [] then throw .wrongPassphrase
      let payload ← openPayload P C bundle.token params passphrase
      return loginsFrom payload) ↔ Answers (openPayload P C bundle.token params passphrase) := by
  change Answers (if passphrase = [] then _ else _) ↔ _
  rw [if_neg given]
  exact answers_bind loginsFrom

/-- When any bytes and any passphrase are answered. -/
theorem answers_iff (P : Interpreter) (C : Ciphers) (raw : Bytes) (passphrase : Text) :
    (Answers (openBundle P C raw passphrase) ∧ Answers (readInfo P raw)) ↔
      ShallowHeader P raw ∧ ShallowPayload P C raw passphrase := by
  unfold openBundle readInfo ShallowPayload
  rcases @parse_cases P raw with ⟨header, answers⟩ | ⟨deep, raised⟩
  · cases parsed : parse P raw with
    | error e =>
      rw [parsed] at answers
      exact ⟨fun _ => ⟨header, by rintro _ _ _ _ ⟨⟩⟩,
        fun _ => ⟨fun _ raised => answers _ (congrArg Except.error (Except.error.inj raised)),
          fun _ raised => answers _ (congrArg Except.error (Except.error.inj raised))⟩⟩
    | ok read =>
      obtain ⟨bundle, params⟩ := read
      have info : Answers (Except.ok (bundle, params) >>= fun b => (.ok b.1.sealedAt : Except Exc Text)) := answers_ok _
      by_cases blank : passphrase = []
      · refine ⟨fun _ => ⟨header, fun _ _ _ _ _ given => absurd blank given⟩, fun _ => ⟨?_, info⟩⟩
        change Answers (if passphrase = [] then _ else _)
        rw [if_pos blank]
        exact fun _ raised => Or.inl (Except.error.inj raised).symm
      · rw [opens_answers_iff bundle params blank, openPayload_answers_iff]
        constructor
        · rintro ⟨shallow, _⟩
          refine ⟨header, fun bundle' params' key t found _ => ?_⟩
          cases found
          exact shallow key t
        · rintro ⟨_, shallow⟩
          exact ⟨fun key t => shallow bundle params key t rfl blank, info⟩
  · rw [raised]
    exact ⟨fun both => absurd both.2 not_answers_recursion, fun both => absurd both.1 deep⟩

end OpenAvc.Bundle
