import OpenAvc.Auth.Alone

/-! A socket's way in, and the credential that it was let in by. -/

namespace OpenAvc.Auth

section

variable {η φ : Type*} [DecidableEq η] [DecidableEq φ] (lib : Library η φ) (limits : Limits)

/-- What an item of the subprotocols says that is not a session token. -/
def plainToken (item : Text) : Option Text :=
  if text "b64." <+: item.drop 5 then decodeB64 lib ((item.drop 5).drop 4) else some (item.drop 5)

/-- What an item is accepted for. -/
inductive Offer (config : Config) (item : Text) : Grant φ → Prop
  | session : text "bearer." <+: item.drop 5 → Offer config item (.session ((item.drop 5).drop 7))
  | password {token : Text} : ¬text "bearer." <+: item.drop 5 → plainToken lib item = some token → token ≠ [] →
    config.password ≠ [] → checkPassword lib config token = true →
    Offer config item (.password (credentialFingerprint lib config))
  | key {token : Text} : ¬text "bearer." <+: item.drop 5 → plainToken lib item = some token → token ≠ [] →
    config.apiKey ≠ [] → checkApiKey lib config token = true → Offer config item (.key config.apiKey)

variable {lib limits} {s s₀ : System η φ} {admission : Admission φ} {refresh : Bool}

theorem offered_cases {protos : List Text} (admitted : (offered lib limits refresh s₀ protos).1 = some admission) :
    ∃ proto ∈ protos, text "auth." <+: proto.strip ∧ admission.credential = .protocol proto.strip ∧
      Offer lib s₀.config proto.strip admission.grant := by
  induction protos generalizing s₀ with
  | nil => cases admitted
  | cons proto rest ih =>
    have later {s' : System η φ} (config : s'.config = s₀.config) (admitted : (offered lib limits refresh s' rest).1 = some admission) :
        ∃ p ∈ proto :: rest, text "auth." <+: p.strip ∧ admission.credential = .protocol p.strip ∧
          Offer lib s₀.config p.strip admission.grant := by
      obtain ⟨p, member, auth, credential, offer⟩ := ih admitted
      exact ⟨p, List.mem_cons_of_mem _ member, auth, credential, config ▸ offer⟩
    unfold offered at admitted
    dsimp only at admitted
    by_cases auth : text "auth." <+: proto.strip
    swap
    · rw [if_neg auth] at admitted
      exact later rfl admitted
    rw [if_pos auth] at admitted
    by_cases bearer : text "bearer." <+: proto.strip.drop 5
    · rw [if_pos bearer] at admitted
      have frame := (checkSessionToken_frame lib limits s₀ ((proto.strip.drop 5).drop 7) refresh).1
      split_ifs at admitted with accepted
      · cases admitted
        exact ⟨proto, List.mem_cons_self, auth, rfl, .session bearer⟩
      · exact later frame admitted
    rw [if_neg bearer] at admitted
    have said : (if text "b64." <+: proto.strip.drop 5 then decodeB64 lib ((proto.strip.drop 5).drop 4)
        else some (proto.strip.drop 5)) = plainToken lib proto.strip := rfl
    rw [said] at admitted
    cases token : plainToken lib proto.strip with
    | none =>
      rw [token] at admitted
      exact later rfl admitted
    | some t =>
      rw [token] at admitted
      dsimp only at admitted
      split_ifs at admitted with password key
      · cases admitted
        exact ⟨proto, List.mem_cons_self, auth, rfl, .password bearer token password.1 password.2.1 password.2.2⟩
      · cases admitted
        exact ⟨proto, List.mem_cons_self, auth, rfl, .key bearer token key.1 key.2.1 key.2.2⟩
      · exact later rfl admitted

variable (refresh) in
/-- An item is accepted by itself for as long as the grant that was given for it answers. -/
theorem offered_alone (inj : ∀ u p u' p', lib.fingerprint u p = lib.fingerprint u' p' → u = u' ∧ p = p')
    {item : Text} {grant : Grant φ} (stripped : item.strip = item) (auth : text "auth." <+: item)
    (offer : Offer lib s₀.config item grant) (answers : (grant.check lib limits s).1 = true) :
    (offered lib limits refresh s [item]).1.isSome = true := by
  have offered_plain {token : Text} (bearer : ¬text "bearer." <+: item.drop 5) (tells : plainToken lib item = some token)
      (given : token ≠ []) (accepted : (s.config.password ≠ [] ∧ checkPassword lib s.config token = true) ∨
        (s.config.apiKey ≠ [] ∧ checkApiKey lib s.config token = true)) :
      (offered lib limits refresh s [item]).1.isSome = true := by
    unfold plainToken at tells
    unfold offered
    dsimp only
    rw [stripped, if_pos auth, if_neg bearer, tells]
    dsimp only
    by_cases password : s.config.password ≠ [] ∧ checkPassword lib s.config token = true
    · rw [if_pos ⟨given, password⟩]
      rfl
    · rw [if_neg fun both => password both.2, if_pos ⟨given, accepted.resolve_left password⟩]
      rfl
  cases offer with
  | session bearer =>
    unfold offered
    dsimp only
    rw [stripped, if_pos auth]
    have accepted : (checkSessionToken lib limits s ((item.drop 5).drop 7) refresh).1 = true :=
      (checkSessionToken_refresh s _ refresh false).trans answers
    rw [if_pos bearer, if_pos accepted]
    rfl
  | @password token bearer tells given some' right =>
    obtain ⟨_, login, _⟩ := same_login inj answers
    have accepted : s.config.password ≠ [] ∧ checkPassword lib s.config token = true := by
      refine ⟨login ▸ some', ?_⟩
      rw [checkPassword, login]
      exact right
    exact offered_plain bearer tells given (Or.inl accepted)
  | @key token bearer tells given some' right =>
    obtain ⟨same, checks⟩ := same_key answers
    exact offered_plain bearer tells given (Or.inr ⟨same ▸ some', checks ▸ right⟩)

/-- A bearer token is no login. -/
theorem decodeBasicHeader_of_bearer {header : Text} (bearer : extractBearer header ≠ []) : decodeBasicHeader header = none := by
  unfold extractBearer at bearer
  unfold decodeBasicHeader
  split at bearer
  · rename_i scheme token parts
    split_ifs at bearer with isBearer
    · rw [if_neg]
      rw [isBearer]
      decide
    · exact absurd rfl bearer
  · exact absurd rfl bearer

/-! One credential presented alone. -/

section

variable (lib limits refresh)

theorem websocket_cloud {secret : Text} (active : isCloudSession s secret = true) :
    (websocketAuthority lib limits s noHeaders secret refresh).1 = some ⟨.cloudSession, .cloud secret⟩ := by
  unfold websocketAuthority
  dsimp only
  rw [if_pos active]

theorem websocket_blank (anonymous : anonymousAuthority lib s = true) :
    (websocketAuthority lib limits s noHeaders [] refresh).1 = some ⟨.nothing, .anonymous⟩ := by
  obtain ⟨unclaimed, allowed⟩ := unclaimed_of_anonymous anonymous
  unfold websocketAuthority
  dsimp only
  rw [isCloudSession_nil, if_neg Bool.false_ne_true, if_pos unclaimed, if_pos allowed]

theorem websocket_key {provided : Text} (given : provided ≠ []) (some' : s.config.apiKey ≠ [])
    (right : checkApiKey lib s.config provided = true) :
    (websocketAuthority lib limits s { noHeaders with xApiKey := provided } [] refresh).1 = some ⟨.apiKey, keyAuthority s⟩ := by
  unfold websocketAuthority
  dsimp only
  rw [isCloudSession_nil, if_neg Bool.false_ne_true, if_neg (not_unclaimed_of_key some'), if_pos ⟨given, some', right⟩]

theorem websocket_basic {header user password : Text} (decoded : decodeBasicHeader header = some (user, password))
    (some' : s.config.password ≠ []) (right : checkCredentials lib s.config user password = true) :
    (websocketAuthority lib limits s { noHeaders with authorization := header } [] refresh).1 =
      some ⟨.authorization, passwordAuthority lib s⟩ := by
  unfold websocketAuthority
  dsimp only
  rw [isCloudSession_nil, if_neg Bool.false_ne_true, if_neg (not_unclaimed_of_password some'), if_neg fun key => key.1 rfl,
    decoded]
  dsimp only
  rw [if_pos ⟨some', right⟩]

theorem websocket_session {header : Text}
    (accepted : (checkSessionToken lib limits s (extractBearer header) refresh).1 = true) :
    (websocketAuthority lib limits s { noHeaders with authorization := header } [] refresh).1 =
      some ⟨.authorization, .session (extractBearer header)⟩ := by
  obtain ⟨bearer, some'⟩ := checkSessionToken_accepted accepted
  unfold websocketAuthority bearerOrProtocols
  dsimp only
  rw [isCloudSession_nil, if_neg Bool.false_ne_true, if_neg (not_unclaimed_of_password some'), if_neg fun key => key.1 rfl,
    decodeBasicHeader_of_bearer bearer, if_pos bearer]
  dsimp only
  rw [if_pos accepted]

theorem websocket_protocol {item : Text} (whole : 44 ∉ item) (claimed : ¬(s.config.password = [] ∧ s.config.apiKey = [])) :
    (websocketAuthority lib limits s { noHeaders with secWebsocketProtocol := item } [] refresh).1 =
      (offered lib limits refresh s [item]).1 := by
  unfold websocketAuthority bearerOrProtocols
  dsimp only
  have blank : ¬extractBearer noHeaders.authorization ≠ [] := not_not.mpr rfl
  have none' : decodeBasicHeader noHeaders.authorization = none := rfl
  rw [isCloudSession_nil, if_neg Bool.false_ne_true, if_neg claimed, if_neg fun key => key.1 rfl, none', if_neg blank]
  dsimp only
  rw [if_neg Bool.false_ne_true, List.splitOn_eq_singleton whole]

end

theorem bearerOrProtocols_cases {headers : Headers}
    (admitted : (bearerOrProtocols lib limits s₀ headers refresh).1 = some admission) :
    admission = ⟨.authorization, .session (extractBearer headers.authorization)⟩ ∨
      ∃ proto ∈ headers.secWebsocketProtocol.splitOn 44, text "auth." <+: Text.strip proto ∧
        admission.credential = .protocol (Text.strip proto) ∧ Offer lib s₀.config (Text.strip proto) admission.grant := by
  unfold bearerOrProtocols at admitted
  dsimp only at admitted
  rcases checked : (if extractBearer headers.authorization ≠ [] then
      checkSessionToken lib limits s₀ (extractBearer headers.authorization) refresh else (false, s₀)) with ⟨accepted, s'⟩
  rw [checked] at admitted
  dsimp only at admitted
  have config : s'.config = s₀.config := by
    split_ifs at checked with bearer
    · have frame := (checkSessionToken_frame lib limits s₀ (extractBearer headers.authorization) refresh).1
      rw [checked] at frame
      exact frame
    · cases checked
      rfl
  by_cases let_in : accepted = true
  · rw [if_pos let_in] at admitted
    exact Or.inl (Option.some.inj admitted).symm
  · rw [if_neg let_in] at admitted
    rw [← config]
    exact Or.inr (offered_cases admitted)

/-- The kinds of grant of `websocket_authority`, and what each was given for. -/
theorem websocketAuthority_cases {headers : Headers} {cloudSecret : Text}
    (admitted : (websocketAuthority lib limits s₀ headers cloudSecret refresh).1 = some admission) :
    (isCloudSession s₀ cloudSecret = true ∧ admission = ⟨.cloudSession, .cloud cloudSecret⟩) ∨
      admission = ⟨.nothing, .anonymous⟩ ∨
      (headers.xApiKey ≠ [] ∧ s₀.config.apiKey ≠ [] ∧ checkApiKey lib s₀.config headers.xApiKey = true ∧
        admission = ⟨.apiKey, keyAuthority s₀⟩) ∨
      (∃ user password, decodeBasicHeader headers.authorization = some (user, password) ∧ s₀.config.password ≠ [] ∧
        checkCredentials lib s₀.config user password = true ∧ admission = ⟨.authorization, passwordAuthority lib s₀⟩) ∨
      admission = ⟨.authorization, .session (extractBearer headers.authorization)⟩ ∨
      ∃ proto ∈ headers.secWebsocketProtocol.splitOn 44, text "auth." <+: Text.strip proto ∧
        admission.credential = .protocol (Text.strip proto) ∧ Offer lib s₀.config (Text.strip proto) admission.grant := by
  unfold websocketAuthority at admitted
  dsimp only at admitted
  by_cases cloud : isCloudSession s₀ cloudSecret = true
  · rw [if_pos cloud] at admitted
    exact Or.inl ⟨cloud, (Option.some.inj admitted).symm⟩
  rw [if_neg cloud] at admitted
  by_cases unclaimed : s₀.config.password = [] ∧ s₀.config.apiKey = []
  · rw [if_pos unclaimed] at admitted
    dsimp only at admitted
    split_ifs at admitted
    exact Or.inr (Or.inl (Option.some.inj admitted).symm)
  rw [if_neg unclaimed] at admitted
  by_cases key : headers.xApiKey ≠ [] ∧ s₀.config.apiKey ≠ [] ∧ checkApiKey lib s₀.config headers.xApiKey = true
  · rw [if_pos key] at admitted
    exact Or.inr (Or.inr (Or.inl ⟨key.1, key.2.1, key.2.2, (Option.some.inj admitted).symm⟩))
  rw [if_neg key] at admitted
  cases decoded : decodeBasicHeader headers.authorization with
  | none =>
    rw [decoded] at admitted
    exact Or.inr (Or.inr (Or.inr (Or.inr (bearerOrProtocols_cases admitted))))
  | some pair =>
    obtain ⟨user, password⟩ := pair
    rw [decoded] at admitted
    dsimp only at admitted
    split_ifs at admitted with right
    · exact Or.inr (Or.inr (Or.inr (Or.inl ⟨user, password, rfl, right.1, right.2, (Option.some.inj admitted).symm⟩)))
    · exact Or.inr (Or.inr (Or.inr (Or.inr (bearerOrProtocols_cases admitted))))

theorem Offer.claimed (inj : ∀ u p u' p', lib.fingerprint u p = lib.fingerprint u' p' → u = u' ∧ p = p')
    {item : Text} {grant : Grant φ} (offer : Offer lib s₀.config item grant)
    (answers : (grant.check lib limits s).1 = true) : ¬(s.config.password = [] ∧ s.config.apiKey = []) := by
  cases offer with
  | session => exact not_unclaimed_of_password (checkSessionToken_accepted answers).2
  | password _ _ _ some' _ =>
    have login := (same_login inj answers).2.1
    exact not_unclaimed_of_password (login ▸ some')
  | key _ _ _ some' _ =>
    have same := (same_key answers).1
    exact not_unclaimed_of_key (same ▸ some')

theorem websocket_alone (inj : ∀ u p u' p', lib.fingerprint u p = lib.fingerprint u' p' → u = u' ∧ p = p')
    {headers : Headers} {cloudSecret : Text}
    (admitted : (websocketAuthority lib limits s₀ headers cloudSecret refresh).1 = some admission)
    (answers : (admission.grant.check lib limits s).1 = true) :
    (((Attempt.websocket headers cloudSecret refresh).only admission.credential).run lib limits s).1.isSome = true := by
  rcases websocketAuthority_cases admitted with ⟨_, rfl⟩ | rfl | ⟨given, some', right, rfl⟩ |
    ⟨user, password, decoded, some', right, rfl⟩ | rfl | ⟨proto, member, auth, credential, offer⟩
  · exact Option.isSome_of_eq_some (websocket_cloud lib limits refresh answers)
  · exact Option.isSome_of_eq_some (websocket_blank lib limits refresh answers)
  · obtain ⟨same, checks⟩ := same_key answers
    exact Option.isSome_of_eq_some (websocket_key lib limits refresh given (same ▸ some') (checks ▸ right))
  · obtain ⟨_, login, checks⟩ := same_login inj answers
    exact Option.isSome_of_eq_some (websocket_basic lib limits refresh decoded (login ▸ some') (checks ▸ right))
  · refine Option.isSome_of_eq_some (websocket_session lib limits refresh ?_)
    rw [checkSessionToken_refresh s _ refresh false]
    exact answers
  · have whole : 44 ∉ Text.strip proto := fun inside =>
      List.not_mem_of_mem_splitOn member (Text.mem_of_mem_strip inside)
    have alone := offered_alone refresh inj (Text.strip_strip proto) auth offer answers
    rw [credential]
    exact (congrArg _ (websocket_protocol lib limits refresh whole (offer.claimed inj answers))).trans alone

/-- A grant answers only where its own credential, presented alone, would be accepted. -/
theorem Attempt.alone (inj : ∀ u p u' p', lib.fingerprint u p = lib.fingerprint u' p' → u = u' ∧ p = p')
    {attempt : Attempt} (admitted : (attempt.run lib limits s₀).1 = some admission)
    (answers : (admission.grant.check lib limits s).1 = true) :
    ((attempt.only admission.credential).run lib limits s).1.isSome = true := by
  cases attempt with
  | programmer => exact Option.isSome_of_eq_some (programmer_alone inj admitted answers)
  | websocket => exact websocket_alone inj admitted answers

/-! ### What every check of a token keeps, an attempt keeps -/

section

/-- The state is one of these, and a session token that is let in was accepted in one of these. -/
def Keeps (lib : Library η φ) (limits : Limits) (P : System η φ → Prop) (result : Option (Admission φ) × System η φ) : Prop :=
  P result.2 ∧ ∀ admission token, result.1 = some admission → admission.grant = .session token →
    ∃ s refresh, P s ∧ (checkSessionToken lib limits s token refresh).1 = true

variable {P : System η φ → Prop}

theorem keeps_none (start : P s) : Keeps lib limits P (none, s) :=
  ⟨start, fun _ _ found => nomatch found⟩

theorem keeps_other {credential : Credential} {grant : Grant φ} (other : ∀ token, grant ≠ .session token) (start : P s) :
    Keeps lib limits P (some ⟨credential, grant⟩, s) := by
  refine ⟨start, fun admission token found same => ?_⟩
  cases found
  exact absurd same (other token)

variable (keep : ∀ s token refresh, P s → P (checkSessionToken lib limits s token refresh).2)
include keep

theorem keeps_session {credential : Credential} {token : Text} (start : P s)
    (accepted : (checkSessionToken lib limits s token refresh).1 = true) :
    Keeps lib limits P (some ⟨credential, .session token⟩, (checkSessionToken lib limits s token refresh).2) := by
  refine ⟨keep _ _ _ start, fun admission token' found same => ?_⟩
  cases found
  cases same
  exact ⟨s, refresh, start, accepted⟩

theorem offered_keeps {protos : List Text} (start : P s) : Keeps lib limits P (offered lib limits refresh s protos) := by
  induction protos generalizing s with
  | nil => exact keeps_none start
  | cons proto rest ih =>
    unfold offered
    dsimp only
    by_cases auth : text "auth." <+: proto.strip
    swap
    · rw [if_neg auth]
      exact ih start
    rw [if_pos auth]
    by_cases bearer : text "bearer." <+: proto.strip.drop 5
    · rw [if_pos bearer]
      split_ifs with accepted
      · exact keeps_session keep start accepted
      · exact ih (keep _ _ _ start)
    rw [if_neg bearer]
    have said : (if text "b64." <+: proto.strip.drop 5 then decodeB64 lib ((proto.strip.drop 5).drop 4)
        else some (proto.strip.drop 5)) = plainToken lib proto.strip := rfl
    rw [said]
    cases plainToken lib proto.strip with
    | none => exact ih start
    | some t =>
      dsimp only
      split_ifs
      · exact keeps_other (fun _ same => nomatch same) start
      · exact keeps_other (fun _ same => nomatch same) start
      · exact ih start

/-- A bearer token, where there is one. -/
theorem bearer_keeps (start : P s) (bearer : Text) {result : Bool × System η φ}
    (checked : (if bearer ≠ [] then checkSessionToken lib limits s bearer refresh else (false, s)) = result) :
    P result.2 ∧ (result.1 = true → Keeps lib limits P (some ⟨.authorization, .session bearer⟩, result.2)) := by
  subst checked
  by_cases some' : bearer ≠ []
  · rw [if_pos some']
    exact ⟨keep _ _ _ start, keeps_session keep start⟩
  · rw [if_neg some']
    exact ⟨start, fun impossible => absurd impossible Bool.false_ne_true⟩

theorem bearerOrProtocols_keeps (start : P s) (headers : Headers) :
    Keeps lib limits P (bearerOrProtocols lib limits s headers refresh) := by
  unfold bearerOrProtocols
  dsimp only
  generalize checked : (if extractBearer headers.authorization ≠ [] then
    checkSessionToken lib limits s (extractBearer headers.authorization) refresh else (false, s)) = result
  obtain ⟨start', accepted⟩ := bearer_keeps keep start _ checked
  split_ifs with let_in
  · exact accepted let_in
  · exact offered_keeps keep start'

theorem Attempt.keeps (start : P s) (attempt : Attempt) : Keeps lib limits P (attempt.run lib limits s) := by
  cases attempt with
  | programmer request credentials allow refresh =>
    change Keeps lib limits P (programmerAuthority lib limits s request credentials allow refresh)
    unfold programmerAuthority
    dsimp only
    by_cases cloud : allow = true ∧ isCloudSession s (cloudSessionSecret request) = true
    · rw [if_pos cloud]
      exact keeps_other (fun _ same => nomatch same) start
    rw [if_neg cloud]
    by_cases unclaimed : s.config.password = [] ∧ s.config.apiKey = []
    · rw [if_pos unclaimed]
      split_ifs
      · exact keeps_other (fun _ same => nomatch same) start
      · exact keeps_none start
    rw [if_neg unclaimed]
    by_cases key : request.headers.xApiKey ≠ [] ∧ s.config.apiKey ≠ [] ∧
        checkApiKey lib s.config request.headers.xApiKey = true
    · rw [if_pos key]
      exact keeps_other (fun _ same => nomatch same) start
    rw [if_neg key]
    generalize checked : (if extractBearer request.headers.authorization ≠ [] then
      checkSessionToken lib limits s (extractBearer request.headers.authorization) refresh else (false, s)) = result
    obtain ⟨start', accepted⟩ := bearer_keeps keep start _ checked
    by_cases let_in : result.1 = true
    · rw [if_pos let_in]
      exact accepted let_in
    rw [if_neg let_in]
    cases credentials with
    | none => exact keeps_none start'
    | some pair =>
      dsimp only
      split_ifs
      · exact keeps_other (fun _ same => nomatch same) start'
      · exact keeps_none start'
  | websocket headers cloudSecret refresh =>
    change Keeps lib limits P (websocketAuthority lib limits s headers cloudSecret refresh)
    unfold websocketAuthority
    dsimp only
    by_cases cloud : isCloudSession s cloudSecret = true
    · rw [if_pos cloud]
      exact keeps_other (fun _ same => nomatch same) start
    rw [if_neg cloud]
    by_cases unclaimed : s.config.password = [] ∧ s.config.apiKey = []
    · rw [if_pos unclaimed]
      split_ifs
      · exact keeps_other (fun _ same => nomatch same) start
      · exact keeps_none start
    rw [if_neg unclaimed]
    by_cases key : headers.xApiKey ≠ [] ∧ s.config.apiKey ≠ [] ∧ checkApiKey lib s.config headers.xApiKey = true
    · rw [if_pos key]
      exact keeps_other (fun _ same => nomatch same) start
    rw [if_neg key]
    cases decodeBasicHeader headers.authorization with
    | none => exact bearerOrProtocols_keeps keep start headers
    | some pair =>
      dsimp only
      split_ifs
      · exact keeps_other (fun _ same => nomatch same) start
      · exact bearerOrProtocols_keeps keep start headers

omit keep in
theorem Attempt.cloud_active {attempt : Attempt} {secret : Text} (admitted : (attempt.run lib limits s).1 = some admission)
    (cloud : admission.grant = .cloud secret) : isCloudSession s secret = true := by
  cases attempt with
  | programmer request credentials allow refresh =>
    rcases programmerAuthority_cases admitted with ⟨_, active, rfl⟩ | rfl | ⟨_, _, _, rfl⟩ | ⟨_, rfl⟩ | ⟨_, _, _, _, _, rfl⟩
    · cases cloud
      exact active
    all_goals cases cloud
  | websocket headers cloudSecret refresh =>
    rcases websocketAuthority_cases admitted with ⟨active, rfl⟩ | rfl | ⟨_, _, _, rfl⟩ | ⟨_, _, _, _, _, rfl⟩ | rfl |
      ⟨_, _, _, _, offer⟩
    · cases cloud
      exact active
    · cases cloud
    · cases cloud
    · cases cloud
    · cases cloud
    · rw [cloud] at offer
      cases offer

end

end

end OpenAvc.Auth
