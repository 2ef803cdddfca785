import OpenAvc.Auth.Sockets
import OpenAvc.Run.Machine

/-! What the server keeps of its session tokens agrees with the ledger of them, whatever happens. -/

namespace OpenAvc.Auth

section

variable {η φ : Type*} [DecidableEq η] [DecidableEq φ] (lib : Library η φ) (limits : Limits)

/-- The table agrees with the ledger, and every token that stands was issued for a password. -/
structure Sound (minted : List Text) (s : System η φ) : Prop where
  agrees : Agrees lib.hash limits.ttl s.now (credentialFingerprint lib s.config) minted s.sessions s.log
  login : ∀ token fingerprint time, standing lib.hash token s.log = some (fingerprint, time) →
    ∃ user password, password ≠ [] ∧ fingerprint = lib.fingerprint user password
  nonempty : [] ∉ minted

variable {lib limits} {minted : List Text} {s : System η φ}

variable (hash_inj : Function.Injective lib.hash)
  (inj : ∀ u p u' p', lib.fingerprint u p = lib.fingerprint u' p' → u = u' ∧ p = p')

include hash_inj inj

/-- A token is accepted exactly while it stands under the login in force and within its time. -/
theorem Sound.accepts_iff (sound : Sound lib limits minted s) (token : Text) (refresh : Bool) :
    (checkSessionToken lib limits s token refresh).1 = true ↔
      ∃ time, standing lib.hash token s.log = some (credentialFingerprint lib s.config, time) ∧
        s.now ≤ time + limits.ttl := by
  have accepts := sound.agrees.accepts_iff hash_inj token refresh
  by_cases refused : token = [] ∨ s.config.password = []
  · have no : (checkSessionToken lib limits s token refresh).1 = false := by
      rw [checkSessionToken, if_pos refused]
    rw [no]
    refine ⟨fun impossible => absurd impossible Bool.false_ne_true, ?_⟩
    rintro ⟨time, stands, _⟩
    obtain ⟨user, password, some', same⟩ := sound.login _ _ _ stands
    rcases refused with blank | blank
    · exact absurd (sound.agrees.known token _ stands) (blank ▸ sound.nonempty)
    · exact absurd (blank.symm.trans (inj _ _ _ _ same).2).symm some'
  · have yes : (checkSessionToken lib limits s token refresh).1 =
        (s.sessions.validate limits s.now (lib.hash token) (credentialFingerprint lib s.config) refresh).1 := by
      rw [checkSessionToken, if_neg refused]
    rw [yes]
    exact accepts

theorem Sound.check (sound : Sound lib limits minted s) (token : Text) (refresh : Bool) :
    Sound lib limits minted (checkSessionToken lib limits s token refresh).2 := by
  unfold checkSessionToken
  split_ifs with refused
  · -- the session stays in the table, but without a password nobody is let in by it
    refine ⟨sound.agrees.refuse token fun session found => ?_, fun token' fingerprint time stands => ?_, sound.nonempty⟩
    · obtain ⟨owner, member, same, case⟩ := sound.agrees.owned _ session found
      rcases case with ⟨time, stands, _⟩ | ⟨_, spent⟩
      · obtain ⟨user, password, some', issued⟩ := sound.login _ _ _ stands
        refine Or.inl fun current => ?_
        rcases refused with blank | blank
        · exact sound.nonempty (blank ▸ hash_inj same ▸ member)
        · exact some' ((inj _ _ _ _ (issued.symm.trans current)).2.trans blank)
      · exact spent
    · rw [ends_refused token token' s.log] at stands
      split_ifs at stands
      exact sound.login token' fingerprint time stands
  · refine ⟨sound.agrees.validate hash_inj token refresh, fun token' fingerprint time stands => ?_, sound.nonempty⟩
    obtain ⟨before, stood⟩ := standing_noteUse stands
    exact sound.login token' fingerprint before stood

omit [DecidableEq φ] inj in
theorem Sound.create (sound : Sound lib limits minted s) (authorization : Text) {token : Text} (some' : token ≠ []) :
    Sound lib limits (token :: minted) (createAuthSession lib limits s authorization token) := by
  have nonempty : [] ∉ token :: minted := fun member => by
    rcases List.mem_cons.mp member with same | later
    · exact some' same.symm
    · exact sound.nonempty later
  have minted' : Sound lib limits (token :: minted) s := ⟨sound.agrees.mint token, sound.login, nonempty⟩
  unfold createAuthSession
  split
  · rename_i user password _
    split_ifs with right
    · refine ⟨sound.agrees.issue hash_inj token _, fun token' fingerprint time stands => ?_, nonempty⟩
      rcases standing_noteIssue stands with ⟨_, rfl⟩ | stood
      · exact ⟨s.config.username, s.config.password, right.1, rfl⟩
      · exact sound.login token' fingerprint time stood
    · exact minted'
  · exact minted'

omit [DecidableEq φ] inj in
theorem Sound.delete (sound : Sound lib limits minted s) (authorization : Text) :
    Sound lib limits minted (deleteAuthSession lib s authorization) := by
  unfold deleteAuthSession
  dsimp only
  split_ifs
  · exact sound
  · refine ⟨sound.agrees.revoke hash_inj _, fun token' fingerprint time stands => ?_, sound.nonempty⟩
    dsimp only at stands
    rw [ends_revoked _ token' s.log] at stands
    split_ifs at stands
    exact sound.login token' fingerprint time stands

end

end OpenAvc.Auth
