import Mathlib.Data.List.DropRight
import OpenAvc.Auth.Authority

/-! A grant that still answers is one that its own credential would be given again. -/

namespace List

variable {α : Type*}

/-- No piece has what the list was split at. -/
theorem not_mem_of_mem_splitOn [BEq α] [LawfulBEq α] {a : α} {l piece : List α} (member : piece ∈ l.splitOn a) :
    a ∉ piece := by
  induction l generalizing piece with
  | nil =>
    rw [splitOn_nil, mem_singleton] at member
    exact member ▸ not_mem_nil
  | cons x l ih =>
    rw [splitOn_cons_eq_if_modifyHead] at member
    split_ifs at member with here
    · rcases mem_cons.mp member with rfl | later
      · exact not_mem_nil
      · exact ih later
    · cases split : l.splitOn a with
      | nil => exact absurd split (splitOn_ne_nil a l)
      | cons first rest =>
        rw [split, modifyHead_cons] at member
        rcases mem_cons.mp member with rfl | later
        · intro inPiece
          rcases mem_cons.mp inPiece with rfl | inFirst
          · exact here (beq_self_eq_true a)
          · exact ih (split ▸ mem_cons_self) inFirst
        · exact ih (split ▸ mem_cons_of_mem _ later)

end List

theorem Text.strip_eq (t : Text) : t.strip = (t.dropWhile isSpace).rdropWhile isSpace := rfl

theorem Text.strip_strip (t : Text) : t.strip.strip = t.strip := by
  have start : t.strip.dropWhile isSpace = t.strip := by
    rw [List.dropWhile_eq_self_iff]
    intro more
    obtain ⟨rest, whole⟩ : t.strip <+: t.dropWhile isSpace := List.rdropWhile_prefix isSpace _
    have some' : 0 < (t.dropWhile isSpace).length := by
      rw [← whole, List.length_append]
      omega
    have first := List.dropWhile_get_zero_not isSpace t some'
    simp only [← whole, List.get_eq_getElem, List.getElem_append_left more] at first
    exact first
  rw [Text.strip_eq t.strip, start, Text.strip_eq, List.rdropWhile_idempotent]

theorem Text.mem_of_mem_strip {t : Text} {c : Nat} (member : c ∈ t.strip) : c ∈ t :=
  (List.dropWhile_sublist _).mem ((List.rdropWhile_prefix isSpace _).mem member)

namespace OpenAvc.Auth

/-- One of the ways in, with all that is presented at it. -/
inductive Attempt
  | programmer (request : Request) (credentials : Option (Text × Text)) (allowCloudSession refreshSession : Bool)
  | websocket (headers : Headers) (cloudSecret : Text) (refreshSession : Bool)

def noHeaders : Headers := ⟨[], [], []⟩

def noRequest : Request := ⟨false, [], noHeaders⟩

/-- The same way in with one credential alone. -/
def Attempt.only : Attempt → Credential → Attempt
  | .programmer request credentials allow refresh, credential =>
    match credential with
    | .cloudSession => .programmer { request with headers := noHeaders } none allow refresh
    | .apiKey => .programmer { noRequest with headers := { noHeaders with xApiKey := request.headers.xApiKey } } none allow refresh
    | .authorization =>
      .programmer { noRequest with headers := { noHeaders with authorization := request.headers.authorization } } none allow refresh
    | .basic => .programmer noRequest credentials allow refresh
    | .nothing | .protocol _ => .programmer noRequest none allow refresh
  | .websocket headers cloudSecret refresh, credential =>
    match credential with
    | .cloudSession => .websocket noHeaders cloudSecret refresh
    | .apiKey => .websocket { noHeaders with xApiKey := headers.xApiKey } [] refresh
    | .authorization => .websocket { noHeaders with authorization := headers.authorization } [] refresh
    | .protocol item => .websocket { noHeaders with secWebsocketProtocol := item } [] refresh
    | .nothing | .basic => .websocket noHeaders [] refresh

section

variable {η φ : Type*} [DecidableEq η] [DecidableEq φ] (lib : Library η φ) (limits : Limits)

def Attempt.run (s : System η φ) : Attempt → Option (Admission φ) × System η φ
  | .programmer request credentials allow refresh => programmerAuthority lib limits s request credentials allow refresh
  | .websocket headers cloudSecret refresh => websocketAuthority lib limits s headers cloudSecret refresh

variable {lib limits} {s s₀ : System η φ} {admission : Admission φ}

omit [DecidableEq η] [DecidableEq φ] in
theorem isCloudSession_nil (s : System η φ) : isCloudSession s [] = false := by
  simp [isCloudSession]

theorem cloudSessionSecret_noRequest (headers : Headers) : cloudSessionSecret { noRequest with headers := headers } = [] := rfl

/-- Whether a token is accepted does not depend on the use being counted. -/
theorem checkSessionToken_refresh (s : System η φ) (token : Text) (refresh refresh' : Bool) :
    (checkSessionToken lib limits s token refresh).1 = (checkSessionToken lib limits s token refresh').1 := by
  unfold checkSessionToken
  split_ifs
  · rfl
  · rw [Bool.eq_iff_iff]
    exact (Sessions.validate_accepts _ _ _ _ _ _).trans (Sessions.validate_accepts _ _ _ _ _ _).symm

variable (lib limits) in
/-- No check of a token changes the settings, the clock or the cloud's sessions. -/
theorem checkSessionToken_frame (s : System η φ) (token : Text) (refresh : Bool) :
    (checkSessionToken lib limits s token refresh).2.config = s.config ∧
      (checkSessionToken lib limits s token refresh).2.now = s.now ∧
      (checkSessionToken lib limits s token refresh).2.cloud = s.cloud := by
  unfold checkSessionToken
  split_ifs <;> exact ⟨rfl, rfl, rfl⟩

theorem checkSessionToken_accepted {token : Text} {refresh : Bool}
    (accepted : (checkSessionToken lib limits s token refresh).1 = true) : token ≠ [] ∧ s.config.password ≠ [] := by
  unfold checkSessionToken at accepted
  split_ifs at accepted with refused
  exact not_or.mp refused

omit [DecidableEq η] [DecidableEq φ] in
/-- What an anonymous grant that answers says of the settings. -/
theorem unclaimed_of_anonymous (anonymous : anonymousAuthority lib s = true) :
    (s.config.password = [] ∧ s.config.apiKey = []) ∧ anonymousAccessAllowed lib s.config = true := by
  simpa [anonymousAuthority, isClaimed] using anonymous

omit [DecidableEq η] [DecidableEq φ] in
theorem not_unclaimed_of_password (some' : s.config.password ≠ []) :
    ¬(s.config.password = [] ∧ s.config.apiKey = []) :=
  fun both => some' both.1

omit [DecidableEq η] [DecidableEq φ] in
theorem not_unclaimed_of_key (some' : s.config.apiKey ≠ []) : ¬(s.config.password = [] ∧ s.config.apiKey = []) :=
  fun both => some' both.2

/-! The Programmer's way in, with one credential presented alone. -/

section

variable (lib limits) (request : Request) (credentials : Option (Text × Text)) (allow refresh : Bool)

omit [DecidableEq η] [DecidableEq φ] in
theorem not_cloud {secret : Text} (blank : secret = []) : ¬(allow = true ∧ isCloudSession s secret = true) := by
  rintro ⟨_, active⟩
  rw [blank, isCloudSession_nil] at active
  exact Bool.false_ne_true active

theorem programmer_cloud (active : isCloudSession s (cloudSessionSecret request) = true) :
    (programmerAuthority lib limits s request credentials true refresh).1 =
      some ⟨.cloudSession, .cloud (cloudSessionSecret request)⟩ := by
  unfold programmerAuthority
  dsimp only
  rw [if_pos ⟨rfl, active⟩]

theorem programmer_blank (anonymous : anonymousAuthority lib s = true) :
    (programmerAuthority lib limits s noRequest none allow refresh).1 = some ⟨.nothing, .anonymous⟩ := by
  obtain ⟨unclaimed, allowed⟩ := unclaimed_of_anonymous anonymous
  unfold programmerAuthority
  dsimp only
  rw [if_neg (not_cloud allow (show cloudSessionSecret noRequest = [] from rfl)), if_pos unclaimed, if_pos allowed]

theorem programmer_key {provided : Text} (given : provided ≠ []) (some' : s.config.apiKey ≠ [])
    (right : checkApiKey lib s.config provided = true) :
    (programmerAuthority lib limits s { noRequest with headers := { noHeaders with xApiKey := provided } } none allow refresh).1 =
      some ⟨.apiKey, keyAuthority s⟩ := by
  unfold programmerAuthority
  dsimp only
  rw [if_neg (not_cloud allow (cloudSessionSecret_noRequest _)), if_neg (not_unclaimed_of_key some'), if_pos ⟨given, some', right⟩]

theorem programmer_session {header : Text}
    (accepted : (checkSessionToken lib limits s (extractBearer header) refresh).1 = true) :
    (programmerAuthority lib limits s { noRequest with headers := { noHeaders with authorization := header } } none allow
        refresh).1 = some ⟨.authorization, .session (extractBearer header)⟩ := by
  obtain ⟨bearer, some'⟩ := checkSessionToken_accepted accepted
  unfold programmerAuthority
  dsimp only
  rw [if_neg (not_cloud allow (cloudSessionSecret_noRequest _)), if_neg (not_unclaimed_of_password some'), if_neg fun key => key.1 rfl,
    if_pos bearer]
  cases checked : checkSessionToken lib limits s (extractBearer header) refresh with
  | mk answer s' =>
    rw [checked] at accepted
    dsimp only at accepted ⊢
    rw [if_pos accepted]

theorem programmer_basic {user password : Text} (some' : s.config.password ≠ [])
    (right : checkCredentials lib s.config user password = true) :
    (programmerAuthority lib limits s noRequest (some (user, password)) allow refresh).1 =
      some ⟨.basic, passwordAuthority lib s⟩ := by
  unfold programmerAuthority
  dsimp only
  rw [if_neg (not_cloud allow (show cloudSessionSecret noRequest = [] from rfl)), if_neg (not_unclaimed_of_password some'), if_neg fun key => key.1 rfl]
  have blank : ¬extractBearer noRequest.headers.authorization ≠ [] := not_not.mpr rfl
  rw [if_neg blank]
  dsimp only
  rw [if_neg Bool.false_ne_true, if_pos ⟨some', right⟩]

variable {lib limits request credentials allow refresh}

/-- The five kinds of grant of `programmer_authority`, and what each was given for. -/
theorem programmerAuthority_cases
    (admitted : (programmerAuthority lib limits s₀ request credentials allow refresh).1 = some admission) :
    (allow = true ∧ isCloudSession s₀ (cloudSessionSecret request) = true ∧
        admission = ⟨.cloudSession, .cloud (cloudSessionSecret request)⟩) ∨
      admission = ⟨.nothing, .anonymous⟩ ∨
      (request.headers.xApiKey ≠ [] ∧ s₀.config.apiKey ≠ [] ∧ checkApiKey lib s₀.config request.headers.xApiKey = true ∧
        admission = ⟨.apiKey, keyAuthority s₀⟩) ∨
      ((checkSessionToken lib limits s₀ (extractBearer request.headers.authorization) refresh).1 = true ∧
        admission = ⟨.authorization, .session (extractBearer request.headers.authorization)⟩) ∨
      ∃ user password, credentials = some (user, password) ∧ s₀.config.password ≠ [] ∧
        checkCredentials lib s₀.config user password = true ∧ admission = ⟨.basic, passwordAuthority lib s₀⟩ := by
  unfold programmerAuthority at admitted
  dsimp only at admitted
  by_cases cloud : allow = true ∧ isCloudSession s₀ (cloudSessionSecret request) = true
  · rw [if_pos cloud] at admitted
    exact Or.inl ⟨cloud.1, cloud.2, (Option.some.inj admitted).symm⟩
  rw [if_neg cloud] at admitted
  by_cases unclaimed : s₀.config.password = [] ∧ s₀.config.apiKey = []
  · rw [if_pos unclaimed] at admitted
    dsimp only at admitted
    split_ifs at admitted
    exact Or.inr (Or.inl (Option.some.inj admitted).symm)
  rw [if_neg unclaimed] at admitted
  by_cases key : request.headers.xApiKey ≠ [] ∧ s₀.config.apiKey ≠ [] ∧
      checkApiKey lib s₀.config request.headers.xApiKey = true
  · rw [if_pos key] at admitted
    exact Or.inr (Or.inr (Or.inl ⟨key.1, key.2.1, key.2.2, (Option.some.inj admitted).symm⟩))
  rw [if_neg key] at admitted
  rcases checked : (if extractBearer request.headers.authorization ≠ [] then
      checkSessionToken lib limits s₀ (extractBearer request.headers.authorization) refresh else (false, s₀)) with ⟨accepted, s'⟩
  have config : s'.config = s₀.config := by
    split_ifs at checked with bearer
    · have frame := (checkSessionToken_frame lib limits s₀ (extractBearer request.headers.authorization) refresh).1
      rw [checked] at frame
      exact frame
    · cases checked
      rfl
  rw [checked] at admitted
  dsimp only at admitted
  by_cases let_in : accepted = true
  · rw [if_pos let_in] at admitted
    refine Or.inr (Or.inr (Or.inr (Or.inl ⟨?_, (Option.some.inj admitted).symm⟩)))
    split_ifs at checked with bearer
    · rw [checked]
      exact let_in
    · cases checked
      cases let_in
  rw [if_neg let_in] at admitted
  cases credentials with
  | none => cases admitted
  | some pair =>
    obtain ⟨user, password⟩ := pair
    dsimp only at admitted
    split_ifs at admitted with right
    refine Or.inr (Or.inr (Or.inr (Or.inr ⟨user, password, rfl, right.1, right.2, ?_⟩)))
    rw [← Option.some.inj admitted, passwordAuthority, passwordAuthority, config]

end

/-- The login of a password's grant is the one in force, where the grant still answers. -/
theorem same_login (inj : ∀ u p u' p', lib.fingerprint u p = lib.fingerprint u' p' → u = u' ∧ p = p')
    (answers : ((passwordAuthority lib s₀).check lib limits s).1 = true) :
    passwordAuthority lib s = passwordAuthority lib s₀ ∧ s.config.password = s₀.config.password ∧
      checkCredentials lib s.config = checkCredentials lib s₀.config := by
  have same : credentialFingerprint lib s.config = credentialFingerprint lib s₀.config := of_decide_eq_true answers
  obtain ⟨user, password⟩ := inj _ _ _ _ same
  refine ⟨congrArg Grant.password same, password, ?_⟩
  funext u p
  simp only [checkCredentials, checkUsername, checkPassword, user, password]

theorem same_key (answers : ((keyAuthority s₀ : Grant φ).check lib limits s).1 = true) :
    s.config.apiKey = s₀.config.apiKey ∧ checkApiKey lib s.config = checkApiKey lib s₀.config := by
  have same : s.config.apiKey = s₀.config.apiKey := of_decide_eq_true answers
  refine ⟨same, ?_⟩
  funext provided
  simp only [checkApiKey, same]

theorem programmer_alone (inj : ∀ u p u' p', lib.fingerprint u p = lib.fingerprint u' p' → u = u' ∧ p = p')
    {request : Request} {credentials : Option (Text × Text)} {allow refresh : Bool}
    (admitted : (programmerAuthority lib limits s₀ request credentials allow refresh).1 = some admission)
    (answers : (admission.grant.check lib limits s).1 = true) :
    (((Attempt.programmer request credentials allow refresh).only admission.credential).run lib limits s).1 =
      some admission := by
  rcases programmerAuthority_cases admitted with ⟨rfl, _, rfl⟩ | rfl | ⟨given, some', right, rfl⟩ | ⟨_, rfl⟩ |
    ⟨user, password, rfl, some', right, rfl⟩
  · exact programmer_cloud lib limits { request with headers := noHeaders } none refresh answers
  · exact programmer_blank lib limits allow refresh answers
  · obtain ⟨same, checks⟩ := same_key answers
    have alone := programmer_key lib limits allow refresh given (same ▸ some') (checks ▸ right)
    rw [keyAuthority, same] at alone
    exact alone
  · refine programmer_session lib limits allow refresh ?_
    rw [checkSessionToken_refresh s _ refresh false]
    exact answers
  · obtain ⟨same, login, checks⟩ := same_login inj answers
    have alone := programmer_basic lib limits allow refresh (login ▸ some') (checks ▸ right)
    rw [same] at alone
    exact alone

end

end OpenAvc.Auth
