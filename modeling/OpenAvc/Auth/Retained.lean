import OpenAvc.Auth.Ledger
import OpenAvc.Panels.Admission

/-! Grants that are kept of admissions, and the runs in which none comes back. -/

namespace OpenAvc.Auth

/-- An admission that is kept, with all that was presented for it. -/
structure Kept (φ : Type*) where
  attempt : Attempt
  admission : Admission φ

/-- The server with what it drew, the grants it keeps, and which of them have answered no. -/
structure World (η φ : Type*) where
  system : System η φ
  minted : List Text
  kept : List (Kept φ)
  refused : List Nat

inductive Call
  | issue (authorization token : Text)
  | attempt (attempt : Attempt)
  | check (i : Nat)
  | validate (token : Text) (refresh : Bool)
  | revoke (authorization : Text)
  | clear
  | pass (d : Nat)
  | configure (config : Config)
  | openSession (tunnel secret : Text)
  | closeSession (tunnel : Text)

section

variable {η φ : Type*} [DecidableEq η] [DecidableEq φ] (lib : Library η φ) (limits : Limits)

/-- A drawn text never repeats. -/
def step (w : World η φ) : Call → Option (World η φ)
  | .issue authorization token =>
    if token = [] ∨ token ∈ w.minted then none
    else some { w with system := createAuthSession lib limits w.system authorization token, minted := token :: w.minted }
  | .attempt attempt =>
    let (admission, system) := attempt.run lib limits w.system
    some { w with system := system, kept := w.kept ++ (admission.map fun a => ⟨attempt, a⟩).toList }
  | .check i =>
    (w.kept[i]?).map fun k =>
      let (answer, system) := k.admission.grant.check lib limits w.system
      { w with system := system, refused := if answer then w.refused else i :: w.refused }
  | .validate token refresh => some { w with system := (checkSessionToken lib limits w.system token refresh).2 }
  | .revoke authorization => some { w with system := deleteAuthSession lib w.system authorization }
  | .clear => some { w with system := { w.system with sessions := [], log := .cleared :: w.system.log } }
  | .pass d => some { w with system := { w.system with now := w.system.now + d } }
  | .configure config => some { w with system := { w.system with config := config } }
  | .openSession tunnel secret =>
    if secret = [] ∨ secret ∈ w.minted then none
    else some { w with system := { w.system with cloud := Dict.set w.system.cloud tunnel secret }, minted := secret :: w.minted }
  | .closeSession tunnel =>
    some { w with system := { w.system with cloud := w.system.cloud.filter fun u => u.1 ≠ tunnel } }

/-- A server that has just started, whatever its settings. -/
def machine : Run.Machine (World η φ) Call where
  init w := w.system.sessions = [] ∧ w.system.log = [] ∧ w.system.cloud = [] ∧ w.minted = [] ∧ w.kept = [] ∧ w.refused = []
  next := step lib limits

/-- New settings under which a grant that answered no would answer again, or a session token that
was refused while there was no password would be accepted. -/
def Revives (w : World η φ) (config : Config) : Prop :=
  (∃ i ∈ w.refused, ∃ k, w.kept[i]? = some k ∧
    match k.admission.grant with
    | .anonymous => isClaimed config = false ∧ anonymousAccessAllowed lib config = true
    | .key stored => config.apiKey = stored
    | .password fingerprint => credentialFingerprint lib config = fingerprint
    | _ => False) ∨
  ∃ token session, w.system.sessions.lookup (lib.hash token) = some session ∧
    standing lib.hash token w.system.log = none ∧ session.fingerprint = credentialFingerprint lib config ∧
    w.system.now ≤ session.expiresAt

/-- A step that sets nothing back. -/
def Onward (w : World η φ) (call : Call) : Prop :=
  ∀ config, call = .configure config → ¬Revives lib w config

/-! ### The invariant -/

/-- The grant does not answer, and nothing but new settings can make it answer. -/
def Quiet (s : System η φ) : Grant φ → Prop
  | .cloud secret => isCloudSession s secret = false
  | .anonymous => anonymousAuthority lib s = false
  | .key stored => s.config.apiKey ≠ stored
  | .session token => standing lib.hash token s.log = none
  | .password fingerprint => credentialFingerprint lib s.config ≠ fingerprint

/-- What a grant holds of what was drawn. -/
def Drawn (minted : List Text) : Grant φ → Prop
  | .cloud secret => secret ∈ minted
  | .session token => token ∈ minted
  | _ => True

structure Inv (w : World η φ) : Prop where
  sound : Sound lib limits w.minted w.system
  cloud : ∀ secret ∈ w.system.cloud.map Prod.snd, secret ∈ w.minted
  drawn : ∀ k ∈ w.kept, Drawn w.minted k.admission.grant
  admitted : ∀ k ∈ w.kept, ∃ s, (k.attempt.run lib limits s).1 = some k.admission
  quiet : ∀ i ∈ w.refused, ∃ k, w.kept[i]? = some k ∧ Quiet lib w.system k.admission.grant

variable {lib limits} {w : World η φ} {s s' : System η φ} {minted : List Text}

theorem standing_check_none {token token' : Text} {refresh : Bool} (gone : standing lib.hash token' s.log = none) :
    standing lib.hash token' (checkSessionToken lib limits s token refresh).2.log = none := by
  unfold checkSessionToken
  split_ifs
  · rw [ends_refused token token' s.log]
    split_ifs
    · rfl
    · exact gone
  · dsimp only
    by_contra stands
    obtain ⟨⟨fingerprint, time⟩, found⟩ := Option.ne_none_iff_exists'.mp stands
    obtain ⟨before, stood⟩ := standing_noteUse found
    cases gone.symm.trans stood

theorem standing_check_refused {token : Text} {refresh : Bool}
    (refused : (checkSessionToken lib limits s token refresh).1 = false) :
    standing lib.hash token (checkSessionToken lib limits s token refresh).2.log = none := by
  unfold checkSessionToken at refused ⊢
  split_ifs at refused ⊢
  · rw [ends_refused token token s.log, if_pos rfl]
  · dsimp only at refused ⊢
    rw [refused, noteUse, if_neg Bool.false_ne_true, ends_refused token token s.log, if_pos rfl]

theorem Quiet.check {grant : Grant φ} (quiet : Quiet lib s grant) (token : Text) (refresh : Bool) :
    Quiet lib (checkSessionToken lib limits s token refresh).2 grant := by
  obtain ⟨config, _, cloud⟩ := checkSessionToken_frame lib limits s token refresh
  cases grant with
  | cloud secret =>
    change isCloudSession _ secret = false
    unfold isCloudSession
    rw [cloud]
    exact quiet
  | anonymous =>
    change anonymousAuthority lib _ = false
    unfold anonymousAuthority
    rw [config]
    exact quiet
  | key stored =>
    change _ ≠ stored
    rw [config]
    exact quiet
  | session token' => exact standing_check_none quiet
  | password fingerprint =>
    change credentialFingerprint lib _ ≠ fingerprint
    rw [config]
    exact quiet

/-- A grant that answers no is quiet from then on. -/
theorem quiet_of_refused {grant : Grant φ} (refused : (grant.check lib limits s).1 = false) :
    Quiet lib (grant.check lib limits s).2 grant := by
  cases grant with
  | cloud secret => exact refused
  | anonymous => exact refused
  | key stored => exact of_decide_eq_false refused
  | session token => exact standing_check_refused refused
  | password fingerprint => exact of_decide_eq_false refused

omit [DecidableEq φ] in
theorem Drawn.mono {grant : Grant φ} (drawn : Drawn minted grant) (token : Text) : Drawn (token :: minted) grant := by
  cases grant with
  | cloud secret => exact List.mem_cons_of_mem _ drawn
  | session token' => exact List.mem_cons_of_mem _ drawn
  | _ => trivial

/-- The grants are kept as they are and those that answered no stay quiet. -/
theorem Inv.next (inv : Inv lib limits w) {minted' : List Text} (sound : Sound lib limits minted' s')
    (cloud : ∀ secret ∈ s'.cloud.map Prod.snd, secret ∈ minted')
    (drawn : ∀ grant : Grant φ, Drawn w.minted grant → Drawn minted' grant)
    (quiet : ∀ i ∈ w.refused, ∀ k, w.kept[i]? = some k → Drawn w.minted k.admission.grant →
      Quiet lib w.system k.admission.grant → Quiet lib s' k.admission.grant) :
    Inv lib limits { w with system := s', minted := minted' } where
  sound := sound
  cloud := cloud
  drawn k member := drawn _ (inv.drawn k member)
  admitted := inv.admitted
  quiet i refused := by
    obtain ⟨k, found, still⟩ := inv.quiet i refused
    exact ⟨k, found, quiet i refused k found (inv.drawn k (List.mem_of_getElem? found)) still⟩

variable (hash_inj : Function.Injective lib.hash)
  (inj : ∀ u p u' p', lib.fingerprint u p = lib.fingerprint u' p' → u = u' ∧ p = p')

include hash_inj inj

theorem Inv.refuses (inv : Inv lib limits w) {i : Nat} (refused : i ∈ w.refused) {k : Kept φ} (found : w.kept[i]? = some k) :
    (k.admission.grant.check lib limits w.system).1 = false := by
  obtain ⟨k', found', quiet⟩ := inv.quiet i refused
  cases found.symm.trans found'
  generalize k.admission.grant = grant at quiet ⊢
  cases grant with
  | cloud secret => exact quiet
  | anonymous => exact quiet
  | key stored => exact decide_eq_false quiet
  | session token =>
    rw [← Bool.not_eq_true]
    intro accepted
    obtain ⟨time, stands, _⟩ := (inv.sound.accepts_iff hash_inj inj token false).mp accepted
    cases Eq.trans (Eq.symm quiet) stands
  | password fingerprint => exact decide_eq_false quiet

theorem Inv.validate (inv : Inv lib limits w) (token : Text) (refresh : Bool) :
    Inv lib limits { w with system := (checkSessionToken lib limits w.system token refresh).2 } := by
  refine inv.next (inv.sound.check hash_inj inj token refresh) ?_ (fun _ drawn => drawn) fun _ _ _ _ _ quiet =>
    quiet.check token refresh
  rw [(checkSessionToken_frame lib limits w.system token refresh).2.2]
  exact inv.cloud

theorem Inv.check (inv : Inv lib limits w) {i : Nat} {k : Kept φ} (found : w.kept[i]? = some k) :
    Inv lib limits { w with
      system := (k.admission.grant.check lib limits w.system).2,
      refused := if (k.admission.grant.check lib limits w.system).1 then w.refused else i :: w.refused } := by
  have kept : Inv lib limits { w with system := (k.admission.grant.check lib limits w.system).2 } := by
    cases k.admission.grant with
    | session token => exact inv.validate hash_inj inj token false
    | _ => exact inv
  refine ⟨kept.sound, kept.cloud, kept.drawn, kept.admitted, fun j member => ?_⟩
  dsimp only at member
  split_ifs at member with answer
  · exact kept.quiet j member
  · rcases List.mem_cons.mp member with rfl | earlier
    · exact ⟨k, found, quiet_of_refused (Bool.eq_false_of_not_eq_true answer)⟩
    · exact kept.quiet j earlier

theorem Inv.attempt (inv : Inv lib limits w) (attempt : Attempt) :
    Inv lib limits { w with
      system := (attempt.run lib limits w.system).2,
      kept := w.kept ++ ((attempt.run lib limits w.system).1.map fun a => ⟨attempt, a⟩).toList } := by
  have keep : ∀ s token refresh,
      Inv lib limits { w with system := s } → Inv lib limits { w with system := (checkSessionToken lib limits s token refresh).2 } :=
    fun s token refresh inv => inv.validate hash_inj inj token refresh
  obtain ⟨after, sessions⟩ := Attempt.keeps keep inv attempt
  have new {k : Kept φ} (member : k ∈ ((attempt.run lib limits w.system).1.map fun a => ⟨attempt, a⟩).toList) :
      k.attempt = attempt ∧ (attempt.run lib limits w.system).1 = some k.admission := by
    obtain ⟨a, admitted, rfl⟩ := Option.map_eq_some_iff.mp (Option.mem_toList.mp member)
    exact ⟨rfl, admitted⟩
  refine ⟨after.sound, after.cloud, fun k member => ?_, fun k member => ?_, fun i refused => ?_⟩
  · rcases List.mem_append.mp member with old | fresh
    · exact after.drawn k old
    · obtain ⟨_, admitted⟩ := new fresh
      cases grant : k.admission.grant with
      | cloud secret =>
        have active : _ ∧ _ := of_decide_eq_true (Attempt.cloud_active admitted grant)
        exact inv.cloud secret active.2
      | session token =>
        obtain ⟨s', refresh, inv', accepted⟩ := sessions k.admission token admitted grant
        obtain ⟨time, stands, _⟩ := (inv'.sound.accepts_iff hash_inj inj token refresh).mp accepted
        exact inv'.sound.agrees.known token _ stands
      | _ => trivial
  · rcases List.mem_append.mp member with old | fresh
    · exact after.admitted k old
    · obtain ⟨rfl, admitted⟩ := new fresh
      exact ⟨w.system, admitted⟩
  · obtain ⟨k, found, quiet⟩ := after.quiet i refused
    refine ⟨k, ?_, quiet⟩
    have inside : i < w.kept.length := (List.getElem?_eq_some_iff.mp found).1
    exact (List.getElem?_append_left inside).trans found

omit [DecidableEq φ] hash_inj inj in
/-- Settings and cloud sessions that stay, and tokens that do not come to stand. -/
theorem Quiet.keep {grant : Grant φ} (quiet : Quiet lib s grant) (config : s'.config = s.config) (cloud : s'.cloud = s.cloud)
    (gone : ∀ token, grant = .session token → standing lib.hash token s.log = none → standing lib.hash token s'.log = none) :
    Quiet lib s' grant := by
  cases grant with
  | cloud secret =>
    change isCloudSession s' secret = false
    unfold isCloudSession
    rw [cloud]
    exact quiet
  | anonymous =>
    change anonymousAuthority lib s' = false
    unfold anonymousAuthority
    rw [config]
    exact quiet
  | key stored =>
    change s'.config.apiKey ≠ stored
    rw [config]
    exact quiet
  | session token => exact gone token rfl quiet
  | password fingerprint =>
    change credentialFingerprint lib s'.config ≠ fingerprint
    rw [config]
    exact quiet

omit inj in
theorem Inv.issue (inv : Inv lib limits w) (authorization : Text) {token : Text} (some' : token ≠ []) (fresh : token ∉ w.minted) :
    Inv lib limits { w with
      system := createAuthSession lib limits w.system authorization token, minted := token :: w.minted } := by
  have frame : (createAuthSession lib limits w.system authorization token).config = w.system.config ∧
      (createAuthSession lib limits w.system authorization token).cloud = w.system.cloud ∧
      ∀ token', token' ≠ token → standing lib.hash token' w.system.log = none →
        standing lib.hash token' (createAuthSession lib limits w.system authorization token).log = none := by
    unfold createAuthSession
    split
    · split_ifs
      · refine ⟨rfl, rfl, fun token' other gone => ?_⟩
        by_contra stands
        obtain ⟨⟨fingerprint, time⟩, found⟩ := Option.ne_none_iff_exists'.mp stands
        rcases standing_noteIssue found with ⟨same, _⟩ | stood
        · exact other same
        · cases gone.symm.trans stood
      · exact ⟨rfl, rfl, fun _ _ gone => gone⟩
    · exact ⟨rfl, rfl, fun _ _ gone => gone⟩
  obtain ⟨config, cloud, others⟩ := frame
  refine inv.next (inv.sound.create hash_inj authorization some') ?_ (fun _ drawn => drawn.mono token)
    fun i _ k _ drawn quiet => quiet.keep config cloud fun token' same gone => others token' ?_ gone
  · rw [cloud]
    exact fun secret member => List.mem_cons_of_mem _ (inv.cloud secret member)
  · rintro rfl
    rw [same] at drawn
    exact fresh drawn

omit inj in
theorem Inv.revoke (inv : Inv lib limits w) (authorization : Text) :
    Inv lib limits { w with system := deleteAuthSession lib w.system authorization } := by
  have frame : (deleteAuthSession lib w.system authorization).config = w.system.config ∧
      (deleteAuthSession lib w.system authorization).cloud = w.system.cloud ∧
      ∀ token', standing lib.hash token' w.system.log = none →
        standing lib.hash token' (deleteAuthSession lib w.system authorization).log = none := by
    unfold deleteAuthSession
    dsimp only
    split_ifs
    · exact ⟨rfl, rfl, fun _ gone => gone⟩
    · refine ⟨rfl, rfl, fun token' gone => ?_⟩
      dsimp only
      rw [ends_revoked _ token' w.system.log, gone, ite_self]
  obtain ⟨config, cloud, gone⟩ := frame
  refine inv.next (inv.sound.delete hash_inj authorization) ?_ (fun _ drawn => drawn)
    fun i _ k _ _ quiet => quiet.keep config cloud fun token' _ => gone token'
  rw [cloud]
  exact inv.cloud

omit hash_inj inj in
theorem Inv.configure (inv : Inv lib limits w) {config : Config} (onward : ¬Revives lib w config) :
    Inv lib limits { w with system := { w.system with config := config } } := by
  obtain ⟨grants, tokens⟩ := not_or.mp onward
  refine inv.next ⟨?_, inv.sound.login, inv.sound.nonempty⟩ inv.cloud (fun _ drawn => drawn) fun i refused k found _ quiet => ?_
  · refine inv.sound.agrees.configure fun token session found gone => ?_
    by_cases same : session.fingerprint = credentialFingerprint lib config
    · refine Or.inr (Nat.lt_of_not_le fun inTime => tokens ?_)
      exact ⟨token, session, found, gone, same, inTime⟩
    · exact Or.inl same
  · have still : ¬(match k.admission.grant with
        | .anonymous => isClaimed config = false ∧ anonymousAccessAllowed lib config = true
        | .key stored => config.apiKey = stored
        | .password fingerprint => credentialFingerprint lib config = fingerprint
        | _ => False) := fun back => grants ⟨i, refused, k, found, back⟩
    generalize k.admission.grant = grant at quiet still ⊢
    cases grant with
    | cloud secret => exact quiet
    | anonymous =>
      change anonymousAuthority lib _ = false
      unfold anonymousAuthority
      cases claimed : isClaimed config with
      | true => rfl
      | false =>
        cases allowed : anonymousAccessAllowed lib config with
        | false => rfl
        | true => exact absurd ⟨claimed, allowed⟩ still
    | key stored => exact still
    | session token => exact quiet
    | password fingerprint => exact still

omit [DecidableEq η] [DecidableEq φ] hash_inj inj in
theorem isCloudSession_set {tunnel secret secret' : Text} (other : secret' ≠ secret)
    (quiet : isCloudSession s secret' = false) :
    isCloudSession { s with cloud := Dict.set s.cloud tunnel secret } secret' = false := by
  refine decide_eq_false fun ⟨some', member⟩ => of_decide_eq_false quiet ⟨some', ?_⟩
  obtain ⟨u, inside, same⟩ := List.mem_map.mp member
  rcases Dict.mem_set inside with rfl | old
  · exact absurd same.symm other
  · exact same ▸ List.mem_map_of_mem old

omit hash_inj inj in
theorem Inv.openSession (inv : Inv lib limits w) {tunnel secret : Text} (some' : secret ≠ []) (fresh : secret ∉ w.minted) :
    Inv lib limits { w with
      system := { w.system with cloud := Dict.set w.system.cloud tunnel secret }, minted := secret :: w.minted } := by
  have nonempty : [] ∉ secret :: w.minted := fun member => by
    rcases List.mem_cons.mp member with same | later
    · exact some' same.symm
    · exact inv.sound.nonempty later
  refine inv.next ⟨inv.sound.agrees.mint secret, inv.sound.login, nonempty⟩ ?_ (fun _ drawn => drawn.mono secret)
    fun i _ k _ drawn quiet => ?_
  · intro secret' member
    obtain ⟨u, inside, rfl⟩ := List.mem_map.mp member
    rcases Dict.mem_set inside with rfl | old
    · exact List.mem_cons_self
    · exact List.mem_cons_of_mem _ (inv.cloud _ (List.mem_map_of_mem old))
  · generalize k.admission.grant = grant at drawn quiet ⊢
    cases grant with
    | cloud secret' => exact isCloudSession_set (fun same => fresh (same ▸ drawn)) quiet
    | _ => exact quiet

omit hash_inj inj in
theorem Inv.closeSession (inv : Inv lib limits w) (tunnel : Text) :
    Inv lib limits { w with system := { w.system with cloud := w.system.cloud.filter fun u => u.1 ≠ tunnel } } := by
  have fewer {secret : Text} (member : secret ∈ (w.system.cloud.filter fun u => u.1 ≠ tunnel).map Prod.snd) :
      secret ∈ w.system.cloud.map Prod.snd := (List.filter_sublist.map Prod.snd).mem member
  refine inv.next ⟨inv.sound.agrees, inv.sound.login, inv.sound.nonempty⟩ (fun secret member => inv.cloud secret (fewer member))
    (fun _ drawn => drawn) fun i _ k _ _ quiet => ?_
  generalize k.admission.grant = grant at quiet ⊢
  cases grant with
  | cloud secret => exact decide_eq_false fun active => of_decide_eq_false quiet ⟨active.1, fewer active.2⟩
  | _ => exact quiet

theorem Inv.step (inv : Inv lib limits w) {call : Call} (onward : Onward lib w call) {w' : World η φ}
    (run : step lib limits w call = some w') : Inv lib limits w' := by
  cases call with
  | issue authorization token =>
    simp only [Auth.step, Option.ite_none_left_eq_some] at run
    obtain ⟨drawn, same⟩ := run
    cases same
    obtain ⟨some', fresh⟩ := not_or.mp drawn
    exact inv.issue hash_inj authorization some' fresh
  | attempt attempt =>
    cases run
    exact inv.attempt hash_inj inj attempt
  | check i =>
    obtain ⟨k, found, rfl⟩ := Option.map_eq_some_iff.mp run
    exact inv.check hash_inj inj found
  | validate token refresh =>
    cases run
    exact inv.validate hash_inj inj token refresh
  | revoke authorization =>
    cases run
    exact inv.revoke hash_inj authorization
  | clear =>
    cases run
    refine inv.next ⟨Agrees.clear _ _ _ _ _, fun _ _ _ stands => (nomatch stands), inv.sound.nonempty⟩ inv.cloud
      (fun _ drawn => drawn) fun i _ k _ _ quiet => quiet.keep rfl rfl fun _ _ _ => rfl
  | pass d =>
    cases run
    exact inv.next ⟨inv.sound.agrees.pass d, inv.sound.login, inv.sound.nonempty⟩ inv.cloud (fun _ drawn => drawn)
      fun i _ k _ _ quiet => quiet.keep rfl rfl fun _ _ gone => gone
  | configure config =>
    cases run
    exact inv.configure (onward config rfl)
  | openSession tunnel secret =>
    simp only [Auth.step, Option.ite_none_left_eq_some] at run
    obtain ⟨drawn, same⟩ := run
    cases same
    obtain ⟨some', fresh⟩ := not_or.mp drawn
    exact inv.openSession some' fresh
  | closeSession tunnel =>
    cases run
    exact inv.closeSession tunnel

end

/-- In runs that set nothing back: a grant that is kept answers only where its own credential would be
accepted by itself; a session token is accepted exactly while it stands, under the login in force and
within its time since its client last used it; and a grant that answered no never answers again. -/
theorem retained_grants {η φ : Type*} [DecidableEq η] [DecidableEq φ] (lib : Library η φ) (limits : Limits)
    (hash_inj : Function.Injective lib.hash)
    (inj : ∀ u p u' p', lib.fingerprint u p = lib.fingerprint u' p' → u = u' ∧ p = p') (w : World η φ)
    (reach : Run.Reach (machine lib limits) (Onward lib) w) :
    (∀ k ∈ w.kept, (k.admission.grant.check lib limits w.system).1 = true →
      ((k.attempt.only k.admission.credential).run lib limits w.system).1.isSome = true) ∧
    (∀ token refresh, (checkSessionToken lib limits w.system token refresh).1 = true ↔
      ∃ time, standing lib.hash token w.system.log = some (credentialFingerprint lib w.system.config, time) ∧
        w.system.now ≤ time + limits.ttl) ∧
    ∀ i ∈ w.refused, ∀ k, w.kept[i]? = some k → (k.admission.grant.check lib limits w.system).1 = false := by
  have inv : Inv lib limits w := by
    refine reach.invariant (fun w start => ?_) fun w call w' _ inv onward run => inv.step hash_inj inj onward run
    obtain ⟨system, minted, kept, refused⟩ := w
    obtain ⟨config, now, sessions, cloud, log⟩ := system
    obtain ⟨rfl, rfl, rfl, rfl, rfl, rfl⟩ := start
    exact ⟨⟨agrees_nil _ _ _ _, fun _ _ _ stands => (nomatch stands), List.not_mem_nil⟩, fun _ member => (nomatch member),
      fun _ member => (nomatch member), fun _ member => (nomatch member), fun _ member => (nomatch member)⟩
  refine ⟨fun k member answers => ?_, inv.sound.accepts_iff hash_inj inj, fun i refused k found =>
    inv.refuses hash_inj inj refused found⟩
  obtain ⟨s₀, admitted⟩ := inv.admitted k member
  exact Attempt.alone inj admitted answers

/-- Hashes that show what they were made of. -/
def plain : Library Text (Text × Text) where
  hash t := t
  fingerprint user password := (user, password)
  keys := Panels.Library.plain
  int _ := none
  scrypt _ _ _ _ _ _ := none
  urlsafeB64decode := Base64.decode
  deploymentIsDev := false

/-- A server that has just started. -/
def started (config : Config) : World Text (Text × Text) where
  system := { config := config, now := 0, sessions := [], cloud := [], log := [] }
  minted := []
  kept := []
  refused := []

def keyed (apiKey : String) : Config := ⟨[], text "u:p", text apiKey, .other⟩

def byKey : Attempt :=
  .programmer { noRequest with headers := { noHeaders with xApiKey := text "first" } } none true true

theorem retained_grants_key : ∃ w, Run.Reach (machine plain standard) (Onward plain) w ∧ w.refused = [0] ∧
    (∀ k ∈ w.kept, (k.admission.grant.check plain standard w.system).1 = true →
      ((k.attempt.only k.admission.credential).run plain standard w.system).1.isSome = true) ∧
    (∀ token refresh, (checkSessionToken plain standard w.system token refresh).1 = true ↔
      ∃ time, standing plain.hash token w.system.log = some (credentialFingerprint plain w.system.config, time) ∧
        w.system.now ≤ time + standard.ttl) ∧
    ∀ i ∈ w.refused, ∀ k, w.kept[i]? = some k → (k.admission.grant.check plain standard w.system).1 = false := by
  have reach : Run.Reach (machine plain standard) (Onward plain)
      { started (keyed "second") with
        kept := [⟨byKey, ⟨.apiKey, .key (text "first")⟩⟩], refused := [0] } := by
    refine .step (l := .check 0) (.step (l := .configure (keyed "second")) (.step (l := .attempt byKey)
      (.init (s := started (keyed "first")) ⟨rfl, rfl, rfl, rfl, rfl, rfl⟩) (fun _ same => nomatch same) rfl) ?_ rfl)
      (fun _ same => nomatch same) rfl
    rintro config _ (⟨i, member, _⟩ | ⟨token, session, found, _⟩)
    · cases member
    · cases found
  exact ⟨_, reach, rfl, retained_grants plain standard (fun _ _ same => same)
    (fun _ _ _ _ same => ⟨congrArg Prod.fst same, congrArg Prod.snd same⟩) _ reach⟩

theorem reached {config : Config} {calls : List Call} {test : World Text (Text × Text) → Bool}
    (runs : (((machine plain standard).run Run.always (started config) calls).any test) = true) :
    ∃ w, Run.Reach (machine plain standard) Run.always w ∧ test w = true := by
  cases run : (machine plain standard).run Run.always (started config) calls with
  | none =>
    rw [run] at runs
    cases runs
  | some w =>
    rw [run] at runs
    have start : Run.Reach (machine plain standard) Run.always (started config) :=
      .init ⟨rfl, rfl, rfl, rfl, rfl, rfl⟩
    exact ⟨w, start.run run, runs⟩

/-- A key that is set back lets a grant answer again that had answered no, and a token is accepted
again that was refused while there was no password. -/
theorem grant_comes_back :
    (∃ w, Run.Reach (machine plain standard) Run.always w ∧ ∃ i ∈ w.refused, ∃ k, w.kept[i]? = some k ∧
      (k.admission.grant.check plain standard w.system).1 = true) ∧
    ∃ w, Run.Reach (machine plain standard) Run.always w ∧
      (checkSessionToken plain standard w.system (text "token") false).1 = true ∧
      standing plain.hash (text "token") w.system.log = none := by
  constructor
  · obtain ⟨w, reach, both⟩ := @reached (keyed "first")
      [.attempt byKey, .configure (keyed ""), .check 0, .configure (keyed "first")]
      (fun w => w.refused.contains 0 && (w.kept[0]?).any fun k => (k.admission.grant.check plain standard w.system).1)
      (by decide +kernel)
    obtain ⟨refused, answers⟩ := Bool.and_eq_true_iff.mp both
    cases found : w.kept[0]? with
    | none =>
      rw [found] at answers
      cases answers
    | some k =>
      rw [found] at answers
      exact ⟨w, reach, 0, List.contains_iff_mem.mp refused, k, found, answers⟩
  · obtain ⟨w, reach, both⟩ := @reached (keyed "")
      [.issue (text "Basic dTp1OnA=") (text "token"), .configure ⟨[], [], [], .other⟩, .validate (text "token") false,
        .configure (keyed "")]
      (fun w => (checkSessionToken plain standard w.system (text "token") false).1 &&
        (standing plain.hash (text "token") w.system.log).isNone) (by decide +kernel)
    obtain ⟨accepted, gone⟩ := Bool.and_eq_true_iff.mp both
    exact ⟨w, reach, accepted, Option.isNone_iff_eq_none.mp gone⟩

end OpenAvc.Auth
