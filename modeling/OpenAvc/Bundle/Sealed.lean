import OpenAvc.Bundle.Opened

/-! Sealed logins: when they are opened as they were, and when any bytes are answered. -/

namespace OpenAvc.Bundle

open Logins (FoundLogin DateTime)

/-- When a sealed bundle opens to what was sealed, and when any bytes are answered. -/
theorem sealed_bundles (P : Interpreter) (C : Ciphers) (lawful : Lawful P C) (found : List FoundLogin) (passphrase : Text)
    (now : DateTime) (salt : Fin 16 → UInt8) (nonce : Nat) (unguessed : Unguessed P C passphrase salt)
    (long : minPassphrase ≤ (P.nfc passphrase).length) (each : ∀ login ∈ found, Found login) (raw : Bytes) (attempt : Text) :
    (RoundTrips P C found passphrase now salt nonce ↔ Sealable P found passphrase now) ∧
      ((Answers (openBundle P C raw attempt) ∧ Answers (readInfo P raw)) ↔
        ShallowHeader P raw ∧ ShallowPayload P C raw attempt) :=
  ⟨roundTrips_iff lawful unguessed long each, answers_iff P C raw attempt⟩

/-! ### A cipher without secrets -/

def padded (t : Text) : List Nat :=
  t ++ List.replicate (16 - t.length % 16) (16 - t.length % 16)

def unpadded (l : List Nat) : Text :=
  l.take (l.length - l.getLast?.getD 0)

theorem unpadded_padded (t : Text) : unpadded (padded t) = t := by
  have some' : 16 - t.length % 16 = (15 - t.length % 16) + 1 := by
    have below := Nat.mod_lt t.length (show 16 > 0 by decide)
    omega
  have last : (padded t).getLast? = some (16 - t.length % 16) := by
    rw [padded, List.getLast?_append, some', List.getLast?_replicate, if_neg (Nat.succ_ne_zero _)]
    rfl
  have rest : (padded t).length - (16 - t.length % 16) = t.length := by
    rw [padded, List.length_append, List.length_replicate]
    omega
  rw [unpadded, last, Option.getD_some, rest, padded, List.take_left]

def bytesOf (key : Key) (t : Text) : List Nat :=
  key.octets ++ (List.replicate 25 0 ++ padded (t.map (· % 256)))

/-- The one passphrase that this cipher knows. -/
def known : List Nat :=
  text "correct horse"

def zeros : Key := ⟨List.replicate 32 0, by simp, by decide⟩

def ones : Key := ⟨List.replicate 32 1, by simp, by decide⟩

/-- A token shows its key and its payload. -/
def openly : Ciphers where
  scrypt passphrase _ _ _ _ := if passphrase = known then zeros else ones
  encrypt key _ t := Base64.encode (bytesOf key t)
  decrypt key token := (Base64.decode token).bind fun l => if l.take 32 = key.octets then some (unpadded (l.drop 57)) else none

/-- What Python does with texts of ASCII. -/
def ascii : Interpreter where
  stack := 1000
  str _ := none
  fromisoformat _ := none
  isoformat _ := text "2026-11-05T14:03:00+00:00"
  nfc t := t

theorem decode_bytesOf (key : Key) (t : Text) : Base64.decode (Base64.encode (bytesOf key t)) = some (bytesOf key t) := by
  refine Base64.decode_encode _ fun b member => ?_
  rcases List.mem_append.mp member with inKey | later
  · exact key.bounded b inKey
  · rcases List.mem_append.mp later with zero | inText
    · rw [List.eq_of_mem_replicate zero]
      decide
    · rcases List.mem_append.mp inText with character | padding
      · obtain ⟨c, _, rfl⟩ := List.mem_map.mp character
        exact Nat.mod_lt _ (by decide)
      · rw [List.eq_of_mem_replicate padding]
        omega

theorem take_bytesOf (key : Key) (t : Text) : (bytesOf key t).take 32 = key.octets := by
  rw [bytesOf, ← key.length, List.take_left]

theorem drop_bytesOf (key : Key) (t : Text) : (bytesOf key t).drop 57 = padded (t.map (· % 256)) := by
  have front : (key.octets ++ List.replicate 25 0).length = 57 := by
    rw [List.length_append, key.length, List.length_replicate]
  rw [bytesOf, ← List.append_assoc, ← front, List.drop_left]

theorem lawful_openly : Lawful ascii openly := by
  have stamp : ∀ c ∈ text "2026-11-05T14:03:00+00:00", Json.printable c = true := by decide
  refine ⟨by decide, rfl, fun _ => stamp, fun key nonce t small => ?_, fun key key' nonce t differ => ?_,
    fun key nonce t => printable_base64 _, fun key nonce t _ => ?_⟩
  · have octets : t.map (· % 256) = t := by
      conv_rhs => rw [← List.map_id t]
      refine List.map_congr_left fun c member => ?_
      have bound := List.all_eq_true.mp small c member
      simp only [Json.ascii, decide_eq_true_eq] at bound
      exact Nat.mod_eq_of_lt (by omega)
    change (Base64.decode (Base64.encode (bytesOf key t))).bind _ = _
    rw [decode_bytesOf, Option.bind_some, take_bytesOf, if_pos rfl, drop_bytesOf, unpadded_padded, octets]
  · change (Base64.decode (Base64.encode (bytesOf key t))).bind _ = _
    rw [decode_bytesOf, Option.bind_some, take_bytesOf, if_neg]
    intro same
    obtain ⟨octets, _, _⟩ := key
    obtain ⟨octets', _, _⟩ := key'
    dsimp only at same
    subst same
    exact differ rfl
  · change (Base64.encode (bytesOf key t)).length = _
    have size : (bytesOf key t).length = 57 + 16 * (t.length / 16 + 1) := by
      simp only [bytesOf, padded, List.length_append, List.length_replicate, List.length_map, key.length]
      omega
    rw [Base64.length_encode, size]
    rfl

/-- A camera's login and the mesh key. -/
def logins : List FoundLogin :=
  [⟨⟨.device, text "cam1", text "axis"⟩, [(text "username", text "root"), (text "password", text "s3cret")]⟩,
    ⟨⟨.project, text "isc", []⟩, [(text "auth_key", text "mesh")]⟩]

theorem sealed_bundles_camera :
    (RoundTrips ascii openly logins known ⟨0, some 0⟩ (fun _ => 7) 1 ↔ Sealable ascii logins known ⟨0, some 0⟩) ∧
      ((Answers (openBundle ascii openly [91] known) ∧ Answers (readInfo ascii [91])) ↔
        ShallowHeader ascii [91] ∧ ShallowPayload ascii openly [91] known) := by
  refine sealed_bundles ascii openly lawful_openly logins known ⟨0, some 0⟩ (fun _ => 7) 1 ?_ (by decide) ?_ [91] known
  · intro bytes bytes' normal same
    have own : bytes = known := (Except.ok.inj ((by decide +kernel : normalized ascii known = .ok known).symm.trans normal)).symm
    by_contra differ
    subst own
    change (if bytes' = known then zeros else ones) = (if known = known then zeros else ones) at same
    rw [if_neg differ, if_pos rfl] at same
    exact absurd same (by decide)
  · intro login member
    simp only [logins, List.mem_cons, List.not_mem_nil, or_false] at member
    rcases member with rfl | rfl
    · exact ⟨by unfold IsDict; decide, by decide, fun _ => by decide, by decide⟩
    · exact ⟨by unfold IsDict; decide, by decide, fun kind => (nomatch kind), by decide⟩

/-- More brackets than the stack has room for. -/
theorem loads_brackets (budget : Nat) : Json.loads budget (List.replicate (budget + 1) 91) = .error .recursion := by
  have scans (more : Nat) (frames : List Json.Frame) (mode : Json.Mode) (inside : mode = .value ∨ mode = .item)
      (room : frames.length + more = budget) :
      (List.replicate (more + 1) 91).foldlM (Json.Scan.step budget) ⟨frames, mode⟩ = .error .recursion := by
    induction more generalizing frames mode with
    | zero =>
      have full : budget ≤ frames.length := by omega
      rw [List.replicate_succ, List.foldlM_cons]
      have raises : Json.Scan.step budget ⟨frames, mode⟩ 91 = .error .recursion := by
        rcases inside with rfl | rfl <;>
          simp [Json.Scan.step, Json.Scan.plain, Json.Scan.blank, Json.Scan.start, full]
      rw [raises]
      rfl
    | succ more ih =>
      have empty : ¬budget ≤ frames.length := by omega
      rw [List.replicate_succ, List.foldlM_cons]
      have opens : Json.Scan.step budget ⟨frames, mode⟩ 91 = .ok ⟨.arr [] :: frames, .item⟩ := by
        rcases inside with rfl | rfl <;>
          simp [Json.Scan.step, Json.Scan.plain, Json.Scan.blank, Json.Scan.start, empty]
      rw [opens]
      exact ih _ _ (Or.inr rfl) (by simp only [List.length_cons]; omega)
  have first : (List.replicate (budget + 1) 91).head? ≠ some 0xfeff := by
    rw [List.replicate_succ, List.head?_cons]
    decide
  unfold Json.loads
  rw [if_neg first, scans budget [] .value (Or.inl rfl) (by simp)]
  rfl

/-- A passphrase of lone surrogates cannot be sealed with, and a thousand brackets, which are no
bundle, raise what no caller catches. -/
theorem bundle_raises :
    ¬RoundTrips ascii openly logins (List.replicate 8 0xd800) ⟨0, some 0⟩ (fun _ => 7) 1 ∧
      openBundle ascii openly (encodeUtf8 (List.replicate 1001 91)) known = .error .recursion ∧
      readInfo ascii (encodeUtf8 (List.replicate 1001 91)) = .error .recursion := by
  have parsed : parse ascii (encodeUtf8 (List.replicate 1001 91)) = .error .recursion := by
    have small : ∀ c ∈ List.replicate 1001 91, c < 128 := fun c member => by
      rw [List.eq_of_mem_replicate member]
      decide
    have decoded := decodeStrict_encodeUtf8 fun c member => Or.inl (lt_trans (small c member) (by decide))
    unfold parse
    rw [length_encodeUtf8 small, List.length_replicate, if_neg (by decide), decoded]
    dsimp only
    rw [show ascii.stack = 1000 from rfl, loads_brackets 1000]
  refine ⟨?_, ?_, ?_⟩
  · rintro ⟨raw, sealing, _⟩
    have raises : sealWithPassphrase ascii openly logins (List.replicate 8 0xd800) ⟨0, some 0⟩ (fun _ => 7) 1 =
        .error .unicodeEncode := by rfl
    cases raises.symm.trans sealing
  · unfold openBundle
    rw [parsed]
    rfl
  · unfold readInfo
    rw [parsed]
    rfl

end OpenAvc.Bundle
