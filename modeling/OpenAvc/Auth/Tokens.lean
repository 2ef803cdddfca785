import Mathlib.Data.List.MinMax
import OpenAvc.Data.Json

/-! The table of session tokens, and a ledger of what became of each token. -/

namespace OpenAvc.Auth

/-- `SessionTokenStore(ttl, max_sessions)` -/
structure Limits where
  ttl : Nat
  maxSessions : Nat
  room : 0 < maxSessions

/-- `SESSION_TTL_SECONDS` and `MAX_SESSIONS` -/
def standard : Limits := ⟨12 * 3600, 64, by decide⟩

/-- `_Session` -/
structure Session (φ : Type*) where
  expiresAt : Nat
  fingerprint : φ

/-- `_sessions`, by the hash of the token. -/
abbrev Sessions (η φ : Type*) := List (η × Session φ)

/-- What happens to tokens, as it happens. -/
inductive Event (η φ : Type*)
  | issued (token : Text) (fingerprint : φ) (time : Nat)
  | used (token : Text) (time : Nat)
  | refused (token : Text)
  | revoked (token : Text)
  | evicted (key : η)
  | cleared

variable {η φ : Type*} [DecidableEq η]

namespace Sessions

/-- `_prune` -/
def prune (now : Nat) (sessions : Sessions η φ) : Sessions η φ :=
  sessions.filter fun u => !decide (u.2.expiresAt < now)

/-- `del self._sessions[key]` -/
def drop (sessions : Sessions η φ) (key : η) : Sessions η φ :=
  sessions.filter fun u => u.1 ≠ key

/-- The session closest to expiry, where a full table has to lose one. -/
def oldest (limits : Limits) (sessions : Sessions η φ) : Option η :=
  if limits.maxSessions ≤ sessions.length then (sessions.argmin (·.2.expiresAt)).map (·.1) else none

/-- The table without the session that is evicted. -/
def evict (sessions : Sessions η φ) : Option η → Sessions η φ
  | some key => sessions.drop key
  | none => sessions

/-- `issue`, with the hash of the token it draws. -/
def issue (limits : Limits) (now : Nat) (key : η) (fingerprint : φ) (sessions : Sessions η φ) : Sessions η φ × Option η :=
  let sessions := sessions.prune now
  let evicted := sessions.oldest limits
  (Dict.set (sessions.evict evicted) key ⟨now + limits.ttl, fingerprint⟩, evicted)

/-- `validate`, with the hash of a token that is not empty. -/
def validate [DecidableEq φ] (limits : Limits) (now : Nat) (key : η) (fingerprint : φ) (refresh : Bool)
    (sessions : Sessions η φ) : Bool × Sessions η φ :=
  match sessions.lookup key with
  | none => (false, sessions)
  | some session =>
    if session.expiresAt < now then (false, sessions.drop key)
    else if session.fingerprint ≠ fingerprint then (false, sessions.drop key)
    else (true, if refresh then Dict.set sessions key { session with expiresAt := now + limits.ttl } else sessions)

theorem lookup_drop (sessions : Sessions η φ) (key k : η) :
    (sessions.drop key).lookup k = if k = key then none else sessions.lookup k := by
  have kept := List.lookup_filter_keys (fun j => decide (j ≠ key)) k sessions
  by_cases same : k = key
  · simpa [drop, same] using kept
  · simpa [drop, same] using kept

omit [DecidableEq η] in
theorem distinct_filter {sessions : Sessions η φ} (distinct : (sessions.map Prod.fst).Nodup) (keep : η × Session φ → Bool) :
    ((sessions.filter keep).map Prod.fst).Nodup :=
  distinct.sublist (List.filter_sublist.map _)

/-- What is pruned had expired. -/
theorem lookup_prune {sessions : Sessions η φ} (distinct : (sessions.map Prod.fst).Nodup) (now : Nat) {k : η}
    {session : Session φ} :
    (sessions.prune now).lookup k = some session ↔ sessions.lookup k = some session ∧ now ≤ session.expiresAt := by
  constructor
  · intro found
    obtain ⟨member, young⟩ := List.mem_filter.mp (List.mem_of_lookup_eq_some found)
    have inTime : now ≤ session.expiresAt := by simpa using young
    exact ⟨List.lookup_of_mem distinct member, inTime⟩
  · rintro ⟨found, inTime⟩
    have member : (k, session) ∈ sessions.prune now :=
      List.mem_filter.mpr ⟨List.mem_of_lookup_eq_some found, by simpa using inTime⟩
    exact List.lookup_of_mem (distinct_filter distinct _) member

omit [DecidableEq η] in
theorem mem_of_oldest {limits : Limits} {sessions : Sessions η φ} {key : η} (found : sessions.oldest limits = some key) :
    key ∈ sessions.map Prod.fst := by
  unfold oldest at found
  split_ifs at found
  obtain ⟨u, least, rfl⟩ := Option.map_eq_some_iff.mp found
  exact List.mem_map_of_mem (List.argmin_mem least)

omit [DecidableEq η] in
/-- A full table has one to lose. -/
theorem oldest_of_full {limits : Limits} {sessions : Sessions η φ} (full : limits.maxSessions ≤ sessions.length) :
    ∃ key, sessions.oldest limits = some key := by
  have some' : sessions ≠ [] := by
    rintro rfl
    have room := limits.room
    simp only [List.length_nil] at full
    omega
  cases least : sessions.argmin (·.2.expiresAt) with
  | none => exact absurd (List.argmin_eq_none.mp least) some'
  | some u => exact ⟨u.1, by rw [oldest, if_pos full, least, Option.map_some]⟩

theorem validate_accepts [DecidableEq φ] (limits : Limits) (now : Nat) (key : η) (fingerprint : φ) (refresh : Bool)
    (sessions : Sessions η φ) :
    (sessions.validate limits now key fingerprint refresh).1 = true ↔
      ∃ session, sessions.lookup key = some session ∧ now ≤ session.expiresAt ∧ session.fingerprint = fingerprint := by
  unfold validate
  cases sessions.lookup key with
  | none => simp
  | some session =>
    dsimp only
    have only : (∃ s, some session = some s ∧ now ≤ s.expiresAt ∧ s.fingerprint = fingerprint) ↔
        now ≤ session.expiresAt ∧ session.fingerprint = fingerprint := by simp
    rw [only]
    by_cases expired : session.expiresAt < now
    · rw [if_pos expired]
      simpa using fun inTime => absurd expired (Nat.not_lt.mpr inTime)
    · rw [if_neg expired]
      by_cases other : session.fingerprint = fingerprint
      · rw [if_neg (not_not.mpr other)]
        exact iff_of_true rfl ⟨Nat.not_lt.mp expired, other⟩
      · rw [if_pos other]
        simpa using fun _ => other

end Sessions

/-! ### The ledger -/

section

variable (hash : Text → η)

/-- The fingerprint under which a token was issued and when it was last used, while it stands: it
was issued, and not refused, revoked, evicted or cleared since. The newest event comes first. -/
def standing (token : Text) : List (Event η φ) → Option (φ × Nat)
  | [] => none
  | .issued token' fingerprint time :: log => if token = token' then some (fingerprint, time) else standing token log
  | .used token' time :: log =>
    if token = token' then (standing token log).map fun entry => (entry.1, time) else standing token log
  | .refused token' :: log => if token = token' then none else standing token log
  | .revoked token' :: log => if token = token' then none else standing token log
  | .evicted key :: log => if hash token = key then none else standing token log
  | .cleared :: _ => none

/-- What `validate` adds to the ledger. -/
def noteUse (token : Text) (now : Nat) (refresh accepted : Bool) (log : List (Event η φ)) : List (Event η φ) :=
  if accepted then if refresh then .used token now :: log else log else .refused token :: log

/-- What `issue` adds to the ledger. -/
def noteIssue (token : Text) (fingerprint : φ) (now : Nat) (evicted : Option η) (log : List (Event η φ)) :
    List (Event η φ) :=
  .issued token fingerprint now :: (match evicted with | some key => .evicted key :: log | none => log)

/-- The event ends this token and no other. -/
def Ends (token : Text) (event : Event η φ) : Prop :=
  ∀ (token' : Text) (log : List (Event η φ)),
    standing hash token' (event :: log) = if token' = token then none else standing hash token' log

/-- A session that no client is let in by any more. -/
def Spent (now : Nat) (current : φ) (session : Session φ) : Prop :=
  session.fingerprint ≠ current ∨ session.expiresAt < now

/-- The table holds what the ledger has standing, what expired apart, and besides only sessions
that are spent. -/
structure Agrees (ttl now : Nat) (current : φ) (minted : List Text) (sessions : Sessions η φ)
    (log : List (Event η φ)) : Prop where
  distinct : (sessions.map Prod.fst).Nodup
  held : ∀ token fingerprint time, standing hash token log = some (fingerprint, time) →
    sessions.lookup (hash token) = some ⟨time + ttl, fingerprint⟩ ∨ time + ttl < now
  owned : ∀ key session, sessions.lookup key = some session → ∃ token ∈ minted, hash token = key ∧
    ((∃ time, standing hash token log = some (session.fingerprint, time) ∧ session.expiresAt = time + ttl) ∨
      standing hash token log = none ∧ Spent now current session)
  known : ∀ token entry, standing hash token log = some entry → token ∈ minted

variable {hash}

theorem ends_refused (token : Text) : Ends hash token (.refused token : Event η φ) := fun _ _ => rfl

theorem ends_revoked (token : Text) : Ends hash token (.revoked token : Event η φ) := fun _ _ => rfl

theorem ends_evicted (inj : Function.Injective hash) (token : Text) : Ends hash token (.evicted (hash token) : Event η φ) := by
  intro token' log
  by_cases same : token' = token
  · rw [standing, if_pos (congrArg hash same), if_pos same]
  · rw [standing, if_neg (mt (@inj _ _) same), if_neg same]

/-- A use keeps the fingerprint that a token was issued under. -/
theorem standing_noteUse {token token' : Text} {now : Nat} {refresh accepted : Bool} {log : List (Event η φ)} {fingerprint : φ}
    {time : Nat} (stands : standing hash token' (noteUse token now refresh accepted log) = some (fingerprint, time)) :
    ∃ before, standing hash token' log = some (fingerprint, before) := by
  unfold noteUse at stands
  split_ifs at stands
  · rw [standing] at stands
    split_ifs at stands
    · obtain ⟨⟨fingerprint', before⟩, stood, same⟩ := Option.map_eq_some_iff.mp stands
      cases same
      exact ⟨before, stood⟩
    · exact ⟨time, stands⟩
  · exact ⟨time, stands⟩
  · rw [standing] at stands
    split_ifs at stands
    exact ⟨time, stands⟩

/-- An issue gives one token its fingerprint, and can only take away from the others. -/
theorem standing_noteIssue {token token' : Text} {fingerprint fingerprint' : φ} {now time : Nat} {evicted : Option η}
    {log : List (Event η φ)}
    (stands : standing hash token' (noteIssue token fingerprint now evicted log) = some (fingerprint', time)) :
    (token' = token ∧ fingerprint' = fingerprint) ∨ standing hash token' log = some (fingerprint', time) := by
  unfold noteIssue at stands
  rw [standing] at stands
  split_ifs at stands with same
  · cases stands
    exact Or.inl ⟨same, rfl⟩
  · cases evicted with
    | none => exact Or.inr stands
    | some key =>
      dsimp only at stands
      rw [standing] at stands
      split_ifs at stands
      exact Or.inr stands

variable {limits : Limits} {now : Nat} {current : φ} {minted : List Text} {sessions : Sessions η φ} {log : List (Event η φ)}

theorem agrees_nil (ttl now : Nat) (current : φ) (minted : List Text) :
    Agrees hash ttl now current minted ([] : Sessions η φ) [] where
  distinct := List.nodup_nil
  held _ _ _ stands := nomatch stands
  owned _ _ found := nomatch found
  known _ _ stands := nomatch stands

namespace Agrees

section

variable {ttl : Nat} (inj : Function.Injective hash) (agrees : Agrees hash ttl now current minted sessions log)
include agrees

theorem mint (token : Text) : Agrees hash ttl now current (token :: minted) sessions log where
  distinct := agrees.distinct
  held := agrees.held
  owned key session found := by
    obtain ⟨owner, member, rest⟩ := agrees.owned key session found
    exact ⟨owner, List.mem_cons_of_mem _ member, rest⟩
  known owner entry stands := List.mem_cons_of_mem _ (agrees.known owner entry stands)

/-- Time only lets more expire. -/
theorem pass (d : Nat) : Agrees hash ttl (now + d) current minted sessions log where
  distinct := agrees.distinct
  held token fingerprint time stands :=
    (agrees.held token fingerprint time stands).imp_right fun expired => by omega
  owned key session found := by
    obtain ⟨token, member, same, case⟩ := agrees.owned key session found
    exact ⟨token, member, same, case.imp_right fun ⟨gone, spent⟩ => ⟨gone, spent.imp_right fun expired => by omega⟩⟩
  known := agrees.known

theorem configure {current' : φ} (spent : ∀ token session, sessions.lookup (hash token) = some session →
      standing hash token log = none → Spent now current' session) :
    Agrees hash ttl now current' minted sessions log where
  distinct := agrees.distinct
  held := agrees.held
  owned key session found := by
    obtain ⟨token, member, rfl, case⟩ := agrees.owned key session found
    exact ⟨token, member, rfl, case.imp_right fun ⟨gone, _⟩ => ⟨gone, spent token session found gone⟩⟩
  known := agrees.known

/-- A token that is refused while the table still has it must be one that nobody is let in by. -/
theorem refuse (token : Text) (spent : ∀ session, sessions.lookup (hash token) = some session → Spent now current session) :
    Agrees hash ttl now current minted sessions (.refused token :: log) where
  distinct := agrees.distinct
  held token' fingerprint time stands := by
    rw [ends_refused token token' log] at stands
    split_ifs at stands
    exact agrees.held token' fingerprint time stands
  owned key session found := by
    obtain ⟨owner, member, rfl, case⟩ := agrees.owned key session found
    refine ⟨owner, member, rfl, ?_⟩
    rw [ends_refused token owner log]
    by_cases same : owner = token
    · rw [if_pos same]
      exact Or.inr ⟨rfl, spent session (same ▸ found)⟩
    · rw [if_neg same]
      exact case
  known token' entry stands := by
    rw [ends_refused token token' log] at stands
    split_ifs at stands
    exact agrees.known token' entry stands

include inj

theorem drop {token : Text} {event : Event η φ} (ends : Ends hash token event) :
    Agrees hash ttl now current minted (sessions.drop (hash token)) (event :: log) where
  distinct := Sessions.distinct_filter agrees.distinct _
  held token' fingerprint time stands := by
    rw [ends] at stands
    split_ifs at stands with same
    rw [Sessions.lookup_drop, if_neg (mt (@inj _ _) same)]
    exact agrees.held token' fingerprint time stands
  owned key session found := by
    rw [Sessions.lookup_drop] at found
    split_ifs at found with same
    obtain ⟨owner, member, rfl, case⟩ := agrees.owned key session found
    have other : ¬owner = token := fun equal => same (congrArg hash equal)
    refine ⟨owner, member, rfl, ?_⟩
    rw [ends, if_neg other]
    exact case
  known token' entry stands := by
    rw [ends] at stands
    split_ifs at stands
    exact agrees.known token' entry stands

/-- A session of this fingerprint that starts or goes on. -/
theorem put {token : Text} {event : Event η φ} (fingerprint : φ) (minted' : token ∈ minted)
    (starts : ∀ token', standing hash token' (event :: log) =
      if token' = token then some (fingerprint, now) else standing hash token' log) :
    Agrees hash ttl now current minted (Dict.set sessions (hash token) ⟨now + ttl, fingerprint⟩) (event :: log) where
  distinct := Dict.nodup_set agrees.distinct _ _
  held token' fingerprint' time stands := by
    rw [starts] at stands
    split_ifs at stands with same
    · cases stands
      rw [same]
      exact Or.inl (Dict.lookup_set_self _ _ _)
    · rw [Dict.lookup_set_of_ne (mt (@inj _ _) same)]
      exact agrees.held token' fingerprint' time stands
  owned key session found := by
    by_cases same : key = hash token
    · rw [same, Dict.lookup_set_self] at found
      cases found
      exact ⟨token, minted', same.symm, Or.inl ⟨now, by rw [starts, if_pos rfl], rfl⟩⟩
    · rw [Dict.lookup_set_of_ne same] at found
      obtain ⟨owner, member, rfl, case⟩ := agrees.owned key session found
      have other : ¬owner = token := fun equal => same (congrArg hash equal)
      refine ⟨owner, member, rfl, ?_⟩
      rw [starts, if_neg other]
      exact case
  known token' entry stands := by
    rw [starts] at stands
    split_ifs at stands with same
    · exact same ▸ minted'
    · exact agrees.known token' entry stands

omit inj in
theorem prune : Agrees hash ttl now current minted (sessions.prune now) log where
  distinct := Sessions.distinct_filter agrees.distinct _
  held token fingerprint time stands := by
    rcases agrees.held token fingerprint time stands with found | expired
    · by_cases inTime : now ≤ time + ttl
      · exact Or.inl ((Sessions.lookup_prune agrees.distinct now).mpr ⟨found, inTime⟩)
      · exact Or.inr (Nat.not_le.mp inTime)
    · exact Or.inr expired
  owned key session found := agrees.owned key session ((Sessions.lookup_prune agrees.distinct now).mp found).1
  known := agrees.known

omit agrees inj in
theorem clear (ttl now : Nat) (current : φ) (minted : List Text) (log : List (Event η φ)) :
    Agrees hash ttl now current minted ([] : Sessions η φ) (.cleared :: log) where
  distinct := List.nodup_nil
  held _ _ _ stands := nomatch stands
  owned _ _ found := nomatch found
  known _ _ stands := nomatch stands

end

variable (inj : Function.Injective hash) (agrees : Agrees hash limits.ttl now current minted sessions log)
include inj agrees

/-- Who is let in: the token of an entry that stands, under the fingerprint it was issued with and
within the time since its last use. -/
theorem accepts_iff [DecidableEq φ] (token : Text) (refresh : Bool) :
    (sessions.validate limits now (hash token) current refresh).1 = true ↔
      ∃ time, standing hash token log = some (current, time) ∧ now ≤ time + limits.ttl := by
  rw [Sessions.validate_accepts]
  constructor
  · rintro ⟨session, found, inTime, rfl⟩
    obtain ⟨owner, _, same, case⟩ := agrees.owned _ session found
    rw [inj same] at case
    rcases case with ⟨time, stands, expires⟩ | ⟨_, other | expired⟩
    · exact ⟨time, stands, expires ▸ inTime⟩
    · exact absurd rfl other
    · exact absurd expired (Nat.not_lt.mpr inTime)
  · rintro ⟨time, stands, inTime⟩
    rcases agrees.held token current time stands with found | expired
    · exact ⟨_, found, inTime, rfl⟩
    · omega

theorem validate [DecidableEq φ] (token : Text) (refresh : Bool) :
    Agrees hash limits.ttl now current minted (sessions.validate limits now (hash token) current refresh).2
      (noteUse token now refresh (sessions.validate limits now (hash token) current refresh).1 log) := by
  have accepts := agrees.accepts_iff inj token refresh
  revert accepts
  unfold Sessions.validate
  cases found : sessions.lookup (hash token) with
  | none =>
    intro _
    exact agrees.refuse token fun session present => nomatch found.symm.trans present
  | some session =>
    dsimp only
    split_ifs with expired other renewed
    · intro _
      exact agrees.drop inj (ends_refused token)
    · intro _
      exact agrees.drop inj (ends_refused token)
    · intro accepts
      obtain ⟨time, stands, _⟩ := accepts.mp rfl
      have same : session.fingerprint = current := not_not.mp other
      have sessionIs : { session with expiresAt := now + limits.ttl } = (⟨now + limits.ttl, current⟩ : Session φ) := by
        rw [← same]
      rw [sessionIs, noteUse, if_pos rfl, if_pos renewed]
      refine agrees.put inj current (agrees.known token _ stands) fun token' => ?_
      by_cases here : token' = token
      · rw [standing, if_pos here, if_pos here, here, stands, Option.map_some]
      · rw [standing, if_neg here, if_neg here]
    · intro _
      rw [noteUse, if_pos rfl, if_neg renewed]
      exact agrees

theorem issue (token : Text) (fingerprint : φ) :
    Agrees hash limits.ttl now current (token :: minted) (sessions.issue limits now (hash token) fingerprint).1
      (noteIssue token fingerprint now (sessions.issue limits now (hash token) fingerprint).2 log) := by
  have pruned := agrees.prune
  have kept : Agrees hash limits.ttl now current minted
      ((sessions.prune now).evict ((sessions.prune now).oldest limits))
      (match (sessions.prune now).oldest limits with | some key => .evicted key :: log | none => log) := by
    cases least : (sessions.prune now).oldest limits with
    | none => exact pruned
    | some key =>
      obtain ⟨session, found⟩ := List.exists_lookup_of_mem (Sessions.mem_of_oldest least)
      obtain ⟨owner, _, rfl, _⟩ := pruned.owned key session found
      exact pruned.drop inj (ends_evicted inj owner)
  exact (kept.mint token).put inj fingerprint List.mem_cons_self fun token' => rfl

theorem revoke (token : Text) :
    Agrees hash limits.ttl now current minted (sessions.drop (hash token)) (.revoked token :: log) :=
  agrees.drop inj (ends_revoked token)

end Agrees

end

end OpenAvc.Auth
