import OpenAvc.Cloud.Canonical

/-! Signing a message, sending it, and verifying what was received. -/

namespace OpenAvc.Cloud

open Json.Scan (scalar rejoin)

/-- The key and the token of a session, and whether it still holds. -/
structure Session where
  sessionToken : Text
  signingKey : Bytes
  valid : Bool

/-- What `_send_signed` and the sequencer put together. -/
structure Envelope where
  type : Text
  ts : Text
  payload : Value
  seq : Int

def Envelope.message (e : Envelope) : List (Key × Value) :=
  [(.str (text "type"), .str e.type), (.str (text "ts"), .str e.ts), (.str (text "payload"), e.payload),
    (.str (text "seq"), .int e.seq)]

/-- `hexdigest` -/
def hexdigest (digest : Bytes) : Text :=
  digest.flatMap fun b => [digit (b.toNat / 16), digit (b.toNat % 16)]
where
  digit (d : Nat) : Nat := if d < 10 then 48 + d else 87 + d

def withoutSig (message : List (Key × Value)) : List (Key × Value) :=
  message.filter fun u => u.1 ≠ .str (text "sig")

section

variable (hmac : Bytes → Bytes → Bytes) (room : Nat)

def computeHmac (key message : Bytes) : Text :=
  hexdigest (hmac key message)

/-- `sign_message` -/
def signMessage (key : Bytes) (message : List (Key × Value)) : Option Text :=
  (canonicalJson room (.dict message)).map (computeHmac hmac key)

/-- `verify_message_signature` -/
def verifyMessageSignature (key : Bytes) (message : List (Key × Value)) (signature : Text) : Option Bool :=
  (canonicalJson room (.dict (withoutSig message))).map fun bytes => computeHmac hmac key bytes = signature

/-- `sign_outgoing` -/
def signOutgoing (s : Session) (message : List (Key × Value)) : Option (List (Key × Value)) :=
  if s.valid then
    let message := Dict.set message (.str (text "session")) (.str s.sessionToken)
    (signMessage hmac room s.signingKey (withoutSig message)).map fun sig =>
      Dict.set message (.str (text "sig")) (.str sig)
  else none

/-- `parse_message` -/
def parseMessage (raw : Text) : Option (List (Key × Value)) :=
  match Json.loads room raw with
  | .ok (.obj fields) => if (fields.lookup (text "type")).isSome then some (Value.ofJsonFields fields) else none
  | _ => none

/-- The receiver of a text that holds the same key. -/
def receives (key : Bytes) (raw : Text) : Option Bool :=
  (parseMessage room raw).bind fun message =>
    match message.lookup (.str (text "sig")) with
    | some (.str signature) => verifyMessageSignature hmac room key message signature
    | _ => none

/-- The message is signed and sent, and the receiver takes it. -/
def accepted (s : Session) (e : Envelope) : Bool :=
  ((signOutgoing hmac room s e.message).bind fun message =>
    (jsonDumps room (.dict message)).bind fun raw => receives hmac room s.signingKey raw) = some true

end

/-- What is signed. -/
def Envelope.signed (e : Envelope) (s : Session) : Value :=
  .dict (Dict.set e.message (.str (text "session")) (.str s.sessionToken))

/-- A message whose keys and numbers can be written and which nests no deeper
than the interpreter has room for, without surrogates in what is signed of it,
and for whose keys `str` and JSON have names that make the same object. -/
structure Signable (room : Nat) (message : Value) : Prop where
  spellable : message.spellable room = true
  writable : message.onWire.writable room = true
  plain : (Json.texts message.normalizeKeys).all (·.all scalar) = true
  sameNames : message.normalizeKeys.sorted = message.asRead.sorted

/-- Texts, `int`s and finite `float`s have one name. -/
def Key.plain : Key → Bool
  | str _ | int _ | float _ => true
  | _ => false

/-- Such keys leave a message signable. -/
theorem Signable.of_plain {room : Nat} {message : Value} (spellable : message.spellable room = true)
    (writable : message.onWire.writable room = true) (keys : ∀ k ∈ message.keys, k.plain = true)
    (plain : ∀ t ∈ Json.texts message.onWire, t.all scalar = true) : Signable room message := by
  have alike : ∀ k ∈ message.keys, k.spelled = k.onWire := by
    intro k member
    have here := keys k member
    cases k <;> first | rfl | cases here
  have same := message.normalizeKeys_eq_asRead alike plain
  exact ⟨spellable, writable, List.all_eq_true.mpr same.2, by rw [same.1]⟩

/-! A signature is written as digits. -/

theorem hexdigest_inj {a b : Bytes} (same : hexdigest a = hexdigest b) : a = b := by
  have digit : ∀ m n, hexdigest.digit m = hexdigest.digit n → m = n := by
    intro m n
    unfold hexdigest.digit
    split <;> split <;> omega
  induction a generalizing b with
  | nil =>
    cases b with
    | nil => rfl
    | cons d b => cases same
  | cons c a ih =>
    cases b with
    | nil => cases same
    | cons d b =>
      simp only [hexdigest, List.flatMap_cons, List.cons_append, List.nil_append, List.cons.injEq] at same
      have high := digit _ _ same.1
      have low := digit _ _ same.2.1
      have equal : c.toNat = d.toNat := by omega
      rw [UInt8.toNat_inj.mp equal, ih same.2.2]

theorem hexdigest_scalar (digest : Bytes) : (hexdigest digest).all scalar = true := by
  have digit : ∀ d < 16, scalar (hexdigest.digit d) = true := by decide
  rw [hexdigest, List.all_flatMap, List.all_eq_true]
  intro b _
  have small := b.toNat_lt
  simp [digit (b.toNat / 16) (by omega), digit (b.toNat % 16) (by omega)]

/-! The message as it is received. -/

/-- Members with texts for keys. -/
def strKeys (fields : List (Text × Value)) : List (Key × Value) :=
  fields.map fun u => (.str u.1, u.2)

/-- The same members as JSON spells them. -/
def asReadFields (fields : List (Text × Value)) : List (Text × Json) :=
  fields.map fun u => (u.1, u.2.asRead)

/-- Members with texts for keys keep their names. -/
theorem spelledByFields_strKeys (fields : List (Text × Value)) (done : List (Text × Json))
    (kept : ∀ u ∈ fields, rejoin u.1 = u.1) (names : (done.map Prod.fst ++ fields.map Prod.fst).Nodup) :
    Value.spelledByFields Key.onWire rejoin done (strKeys fields) = done ++ asReadFields fields := by
  induction fields generalizing done with
  | nil => simp [strKeys, asReadFields, Value.spelledByFields]
  | cons u fields ih =>
    obtain ⟨k, v⟩ := u
    have absent : k ∉ done.map Prod.fst := by
      intro member
      exact (List.nodup_append.mp names).2.2 _ member _ List.mem_cons_self rfl
    have grown := Dict.set_of_not_mem absent v.asRead
    have same : rejoin k = k := kept _ List.mem_cons_self
    rw [strKeys, List.map_cons, Value.spelledByFields, Key.onWire, same, ← Value.asRead, grown, ← strKeys,
      ih _ (fun w later => kept w (List.mem_cons_of_mem _ later)) (by simpa using names)]
    simp [asReadFields]

/-- The names of a message's members. -/
def memberNames : List Text :=
  ["type", "ts", "payload", "seq", "session", "sig"].map text

theorem asRead_strKeys {fields : List (Text × Value)} (known : (fields.map Prod.fst).Sublist memberNames) :
    (Value.dict (strKeys fields)).asRead = .obj (asReadFields fields) := by
  have names : memberNames.Nodup := by decide
  have kept : ∀ k ∈ memberNames, rejoin k = k := by
    intro k member
    have plain : ∀ k ∈ memberNames, k.all scalar = true := by decide
    exact Json.Scan.rejoin_scalar (plain k member)
  refine congrArg Json.obj (spelledByFields_strKeys fields [] (fun u member => ?_) (names.sublist known))
  exact kept u.1 (known.subset (List.mem_map_of_mem member))

/-- The members that are signed. -/
def Envelope.members (e : Envelope) (s : Session) : List (Text × Value) :=
  [(text "type", .str e.type), (text "ts", .str e.ts), (text "payload", e.payload), (text "seq", .int e.seq),
    (text "session", .str s.sessionToken)]

/-- The members that are sent. -/
def Envelope.withSig (e : Envelope) (s : Session) (signature : Text) : List (Text × Value) :=
  e.members s ++ [(text "sig", .str signature)]

section

variable (hmac : Bytes → Bytes → Bytes) (room : Nat) (e : Envelope) (s : Session)

theorem signed_eq : e.signed s = .dict (strKeys (e.members s)) := rfl

theorem asRead_signed : (e.signed s).asRead = .obj (asReadFields (e.members s)) := by
  have known : ((e.members s).map Prod.fst).Sublist memberNames := List.sublist_append_left _ [text "sig"]
  rw [signed_eq, asRead_strKeys known]

theorem signOutgoing_eq : signOutgoing hmac room s e.message =
    if s.valid then (canonicalJson room (e.signed s)).map fun bytes =>
      strKeys (e.withSig s (computeHmac hmac s.signingKey bytes))
    else none := by
  have plain : withoutSig (strKeys (e.members s)) = strKeys (e.members s) := by
    simp only [withoutSig, strKeys, Envelope.members, List.map_cons, List.map_nil]
    rfl
  unfold signOutgoing signMessage
  split
  · show (Option.map _ (canonicalJson room (.dict (withoutSig (strKeys (e.members s)))))).map _ = _
    rw [plain, Option.map_map]
    rfl
  · rfl

variable {hmac room e s}

/-- A message can be written with its signature as it can without. -/
theorem writable_withSig (signature : Text) :
    ((Value.dict (strKeys (e.withSig s signature))).spellable room = true ↔ (e.signed s).spellable room = true) ∧
      ((Value.dict (strKeys (e.withSig s signature))).onWire.writable room = true ↔
        (e.signed s).onWire.writable room = true) := by
  have members : strKeys (e.withSig s signature) = strKeys (e.members s) ++ [(.str (text "sig"), .str signature)] := by
    simp [strKeys, Envelope.withSig]
  rw [signed_eq, members]
  simp only [Value.spellable, Value.onWire, Json.writable, Bool.and_eq_true, Value.spellableFields_iff,
    Value.writable_onWireFields_iff, List.forall_mem_append, List.forall_mem_singleton]
  exact ⟨⟨fun all => ⟨all.1, all.2.1⟩, fun all => ⟨all.1, all.2, rfl, trivial⟩⟩,
    ⟨fun all => ⟨all.1, all.2.1⟩, fun all => ⟨all.1, all.2, trivial⟩⟩⟩

theorem parseMessage_withSig (writable : (e.signed s).onWire.writable room = true) (signature : Text) :
    parseMessage room (Json.dumps {} (Value.dict (strKeys (e.withSig s signature))).onWire) =
      some (Value.ofJsonFields (asReadFields (e.withSig s signature))) := by
  have read := Json.loads_dumps_readBack (L := {}) rfl
    (Value.readable_onWire _ ((writable_withSig signature).2.mpr writable))
  have same : (Value.dict (strKeys (e.withSig s signature))).asRead = .obj (asReadFields (e.withSig s signature)) :=
    asRead_strKeys (List.Sublist.refl _)
  rw [Value.readBack_onWire, same] at read
  rw [parseMessage, read]
  rfl

/-- What the receiver makes of what was written. -/
theorem receives_eq (key : Bytes) {signature : Text} (digits : signature.all scalar = true)
    (spellable : (e.signed s).spellable room = true) (writable : (e.signed s).onWire.writable room = true) :
    ((jsonDumps room (.dict (strKeys (e.withSig s signature)))).bind fun raw => receives hmac room key raw) =
      (encode (Json.dumps canonicalLayout (e.signed s).asRead)).map fun bytes =>
        decide (computeHmac hmac key bytes = signature) := by
  have all := (writable_withSig signature).1.mpr spellable
  have fits := (writable_withSig signature).2.mpr writable
  have readable := Value.readable_asRead (Value.readable_onWire _ writable)
  have found : (Value.ofJsonFields (asReadFields (e.withSig s signature))).lookup (.str (text "sig")) =
      some (.str signature) := by
    have joined := Json.Scan.rejoin_scalar digits
    conv_rhs => rw [← joined]
    rfl
  have rest : (Value.dict (withoutSig (Value.ofJsonFields (asReadFields (e.withSig s signature))))) =
      .ofJson (.obj (asReadFields (e.members s))) := rfl
  rw [jsonDumps, all, fits, Bool.and_self, if_pos rfl, Option.bind_some, receives,
    parseMessage_withSig writable, Option.bind_some, found]
  dsimp only
  rw [verifyMessageSignature, rest, ← asRead_signed, canonicalJson_ofJson readable Value.distinct_asRead]

/-- A message is taken when it can be signed and sent and the receiver finds the
same bytes to sign, or ones of the same digest. -/
theorem accepted_iff : accepted hmac room s e = true ↔ s.valid = true ∧ (e.signed s).spellable room = true ∧
    (e.signed s).onWire.writable room = true ∧ (Json.texts (e.signed s).normalizeKeys).all (·.all scalar) = true ∧
      (Json.texts (e.signed s).asRead).all (·.all scalar) = true ∧
        hmac s.signingKey (encodeUtf8 (Json.dumps canonicalLayout (e.signed s).normalizeKeys)) =
          hmac s.signingKey (encodeUtf8 (Json.dumps canonicalLayout (e.signed s).asRead)) := by
  unfold accepted
  rw [signOutgoing_eq, decide_eq_true_eq]
  by_cases valid : s.valid = true
  · rw [if_pos valid]
    by_cases spellable : (e.signed s).spellable room = true
    · by_cases writable : (e.signed s).onWire.writable room = true
      · have readable := Value.readable_onWire _ writable
        rw [canonicalJson_of_readable spellable readable, encode_canonical (Value.readable_normalizeKeys readable)]
        split
        · rename_i plain
          have digits : ∀ bytes, (computeHmac hmac s.signingKey bytes).all scalar = true := fun _ => hexdigest_scalar _
          rw [Option.map_some, Option.bind_some, receives_eq _ (digits _) spellable writable,
            encode_canonical (Value.readable_asRead readable)]
          have digests : ∀ a b : Bytes, computeHmac hmac s.signingKey a = computeHmac hmac s.signingKey b ↔
              hmac s.signingKey b = hmac s.signingKey a :=
            fun a b => ⟨fun same => (hexdigest_inj same).symm, fun same => congrArg hexdigest same.symm⟩
          split
          · rename_i reads
            simp [valid, spellable, writable, plain, reads, digests]
          · rename_i reads
            simp [reads]
        · rename_i plain
          simp [plain]
      · have lost : ∀ signature, jsonDumps room (.dict (strKeys (e.withSig s signature))) = none := by
          intro signature
          rw [jsonDumps, if_neg]
          rw [Bool.and_eq_true]
          exact fun fits => writable ((writable_withSig signature).2.mp fits.2)
        cases canonicalJson room (e.signed s) <;> simp [lost, writable]
    · have raises : canonicalJson room (e.signed s) = none := by
        rw [canonicalJson, if_neg]
        rw [Bool.and_eq_true]
        exact fun fits => spellable fits.1
      simp [raises, spellable]
  · simp [valid]

end

/-- Whatever the digest, a message is taken exactly when it is signable. -/
theorem signed_accepted_iff (room : Nat) (s : Session) (e : Envelope) :
    (∀ hmac, accepted hmac room s e = true) ↔ s.valid = true ∧ Signable room (e.signed s) := by
  constructor
  · intro all
    obtain ⟨valid, spellable, writable, plain, plain', same⟩ := accepted_iff.mp (all fun _ message => message)
    have readable := Value.readable_onWire _ writable
    refine ⟨valid, spellable, writable, plain, ?_⟩
    exact (canonical_inj (Value.readable_normalizeKeys readable) (Value.readable_asRead readable)
      Value.distinct_normalizeKeys Value.distinct_asRead plain plain').mp same
  · rintro ⟨valid, signable⟩ hmac
    have readable := Value.readable_onWire _ signable.writable
    have plain' := plain_of_sorted signable.sameNames signable.plain
    have same := (canonical_inj (Value.readable_normalizeKeys readable) (Value.readable_asRead readable)
      Value.distinct_normalizeKeys Value.distinct_asRead signable.plain plain').mpr signable.sameNames
    exact accepted_iff.mpr ⟨valid, signable.spellable, signable.writable, signable.plain, plain', by rw [same]⟩

/-- A session. -/
def someSession : Session := ⟨text "token", [1], true⟩

/-- A text with a lone surrogate cannot be signed, and a message with `True` for
a key is refused where the digests of different messages differ. -/
theorem unsigned_and_refused :
    signOutgoing (fun _ message => message) 100 someSession
      (Envelope.message ⟨text "pong", text "now", .dict [(.str (text "x"), .str [0xd800])], 1⟩) = none ∧
    accepted (fun _ message => message) 100 someSession
      ⟨text "pong", text "now", .dict [(.bool true, .none)], 1⟩ = false := by
  constructor
  · have surrogate : (Json.dumps canonicalLayout (Envelope.signed ⟨text "pong", text "now",
        .dict [(.str (text "x"), .str [0xd800])], 1⟩ someSession).normalizeKeys).all scalar = false := by decide
    rw [signOutgoing_eq]
    simp [canonicalJson, encode, surrogate]
  · rw [Bool.eq_false_iff]
    intro takes
    obtain ⟨_, _, writable, plain, plain', same⟩ := accepted_iff.mp takes
    have readable := Value.readable_onWire _ writable
    have sorted := (canonical_inj (Value.readable_normalizeKeys readable) (Value.readable_asRead readable)
      Value.distinct_normalizeKeys Value.distinct_asRead plain plain').mp same
    have written := (Json.dumps_inj (L := canonicalLayout) rfl rfl (Value.readable_normalizeKeys readable)
      (Value.readable_asRead readable) Value.distinct_normalizeKeys Value.distinct_asRead).mpr sorted
    revert written
    decide

end OpenAvc.Cloud
