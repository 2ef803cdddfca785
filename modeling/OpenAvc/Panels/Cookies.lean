import OpenAvc.Panels.Devices

namespace OpenAvc.Panels

variable {L : Library}

/-- The hash of a secret, under some salt. -/
def Hashes (L : Library) (secret h : Text) : Prop :=
  ∃ salt, L.base64 salt = true ∧ salt ≠ [] ∧ secret ≠ [] ∧ h = hashApiKey L salt secret

theorem hashApiKey_eq {salt secret : Text} (nonempty : secret ≠ []) :
    hashApiKey L salt secret = text "sha256" ++ 36 :: (salt ++ 36 :: L.digest salt secret) := by
  unfold hashApiKey
  rw [if_neg nonempty]
  simp [text]

theorem splitOn_dollar {a b c : Text} (ha : 36 ∉ a) (hb : 36 ∉ b) (hc : 36 ∉ c) :
    (a ++ 36 :: (b ++ 36 :: c)).splitOn 36 = [a, b, c] := by
  have plain : ∀ {t : Text}, 36 ∉ t → t.splitOn 36 = [t] := fun absent =>
    List.splitOn_eq_singleton absent
  rw [List.splitOn_append_cons_self, List.splitOn_append_cons_self, plain ha, plain hb, plain hc]
  rfl

theorem Hashes.nonempty {secret h : Text} (hashes : Hashes L secret h) : h ≠ [] := by
  obtain ⟨salt, _, _, nonempty, rfl⟩ := hashes
  rw [hashApiKey_eq nonempty]
  exact List.append_ne_nil_of_right_ne_nil _ (List.cons_ne_nil _ _)

/-- Nothing but its secret is verified against a hash. -/
theorem Hashes.verify {secret h : Text} (hashes : Hashes L secret h) (provided : Text) :
    verifyApiKey L provided h = true ↔ provided = secret := by
  have nonempty' := hashes.nonempty
  obtain ⟨salt, encoded, salted, nonempty, rfl⟩ := hashes
  have hashed : looksHashed (hashApiKey L salt secret) = true := by
    unfold looksHashed
    refine decide_eq_true (Or.inr ?_)
    rw [hashApiKey, if_neg nonempty, List.append_assoc, List.append_assoc]
    exact List.prefix_append _ _
  have parts : (hashApiKey L salt secret).splitOn 36 = [text "sha256", salt, L.digest salt secret] := by
    rw [hashApiKey_eq nonempty]
    exact splitOn_dollar (by decide) (L.base64_plain _ encoded) (L.base64_plain _ (L.base64_digest _ _))
  unfold verifyApiKey
  rw [if_neg nonempty', hashed, if_neg (by decide), parts]
  simp only [encoded, L.base64_digest, salted, L.digest_nonempty, ne_eq, not_true, Bool.not_true, Bool.false_eq_true,
    or_self, if_false, decide_eq_true_eq]
  exact ⟨L.digest_injective salt provided secret, fun same => by rw [same]⟩

/-- The form of an id that `new_device_id` draws. -/
def drawsId (t : Text) : Bool :=
  t.length = 13 ∧ text "pd_" <+: t ∧ (t.drop 3).all fun c => isDigit c ∨ (97 ≤ c ∧ c ≤ 122)

theorem plain_of_drawsId {t : Text} (drawn : drawsId t = true) : text "pd_" <+: t ∧ 46 ∉ t := by
  obtain ⟨_, start, rest⟩ := of_decide_eq_true drawn
  refine ⟨start, fun dot => ?_⟩
  obtain ⟨r, rfl⟩ := start
  rcases List.mem_append.mp dot with early | late
  · exact absurd early (by decide)
  · have dropped : (text "pd_" ++ r).drop 3 = r := by simp [text]
    rw [dropped, List.all_eq_true] at rest
    exact absurd (rest 46 late) (by decide)

theorem takeWhile_cookie {id : Text} (drawn : drawsId id = true) (secret : Text) :
    (cookieValue id secret).takeWhile (fun c => decide (c ≠ 46)) = id ∧
      (cookieValue id secret).dropWhile (fun c => decide (c ≠ 46)) = 46 :: secret := by
  have before : ∀ c ∈ id, (decide (c ≠ 46)) = true := fun c member =>
    decide_eq_true fun same => (plain_of_drawsId drawn).2 (same ▸ member)
  rw [cookieValue, List.append_assoc, List.takeWhile_append_of_pos before, List.dropWhile_append_of_pos before]
  simp

theorem splitCookieValue_cookie {id secret : Text} (drawn : drawsId id = true) (nonempty : secret ≠ []) :
    splitCookieValue (some (cookieValue id secret)) = some (id, secret) := by
  obtain ⟨taken, dropped⟩ := takeWhile_cookie drawn secret
  unfold splitCookieValue
  simp only [dropped, taken, (plain_of_drawsId drawn).1, nonempty, not_true, or_self, if_false]

/-- A value that splits is the cookie of its parts. -/
theorem cookie_of_split {value : Option Text} {parts : Text × Text} (splits : splitCookieValue value = some parts) :
    value = some (cookieValue parts.1 parts.2) := by
  unfold splitCookieValue at splits
  split at splits
  · cases splits
  · rename_i v
    split at splits
    · rename_i c secret rest
      split at splits
      · cases splits
      · cases splits
        have dot : c = 46 := by
          have head := List.head?_dropWhile_not (fun c : Nat => decide (c ≠ 46)) v
          rw [rest] at head
          simpa using head
        subst dot
        rw [cookieValue, List.append_assoc]
        exact congrArg some ((List.takeWhile_append_dropWhile (p := fun c : Nat => decide (c ≠ 46)) (l := v)).symm.trans
          (by rw [rest]; rfl))
    · cases splits

theorem cookieValue_inj {id id' secret secret' : Text} (drawn : drawsId id = true) (drawn' : drawsId id' = true)
    (same : cookieValue id secret = cookieValue id' secret') : id = id' ∧ secret = secret' := by
  have ids := (takeWhile_cookie drawn secret).1
  have rests := (takeWhile_cookie drawn secret).2
  rw [same, (takeWhile_cookie drawn' secret').1] at ids
  rw [same, (takeWhile_cookie drawn' secret').2] at rests
  exact ⟨ids.symm, (List.cons.inj rests).2.symm⟩

/-! What a file gives back. -/

/-- What is left of an approved record that was read back. -/
def reloaded (d : PanelDevice) : PanelDevice :=
  { id := d.id
    status := .approved
    name := cleanName (some d.name)
    platform := d.platform
    userAgent := d.userAgent.take userAgentMax
    address := d.address
    secretHash := d.secretHash
    firstSeen := d.firstSeen
    approvedAt := d.approvedAt
    approvedBy := d.approvedBy
    lastSeen := d.lastSeen
    cookieIssuedAt := d.cookieIssuedAt }

theorem fromDisk_toDisk {d : PanelDevice} (named : text "pd_" <+: d.id) (hashed : d.secretHash ≠ []) :
    PanelDevice.fromDisk d.toDisk = some (reloaded d) := by
  have id : d.toDisk.get? (text "id") = some (.str d.id) := rfl
  have hash : d.toDisk.get? (text "secret_hash") = some (.str d.secretHash) := rfl
  have approvedAt : (d.toDisk.get? (text "approved_at")).bind Json.asStr = d.approvedAt := by
    have there : d.toDisk.get? (text "approved_at") = some ((d.approvedAt.map Json.str).getD .null) := rfl
    rw [there]
    cases d.approvedAt <;> rfl
  unfold PanelDevice.fromDisk
  rw [id, hash]
  simp only [named, hashed, not_true, or_self, if_false, approvedAt]
  rfl

end OpenAvc.Panels
