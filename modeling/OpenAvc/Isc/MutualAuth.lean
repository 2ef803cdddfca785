import OpenAvc.Isc.Handshake

/-! Who is at the other end of a handshake that an instance accepts. -/

namespace OpenAvc.Isc

@[simp] theorem serverProof_inj {n m : Text} : serverProof n = serverProof m ↔ n = m := by
  simp [serverProof]

@[simp] theorem clientProof_inj {n m : Text} : clientProof n = clientProof m ↔ n = m := by
  simp [clientProof]

/-- A proof of one direction is none of the other. -/
@[simp] theorem serverProof_ne_clientProof (n m : Text) : serverProof n ≠ clientProof m := by
  simp [serverProof, clientProof, serverProofPrefix, clientProofPrefix, text]

@[simp] theorem clientProof_ne_serverProof (n m : Text) : clientProof n ≠ serverProof m :=
  (serverProof_ne_clientProof m n).symm

namespace Network

/-- Whoever an instance takes for one that holds the key holds it. -/
def Authentic (s : Network) : Prop :=
  ∀ l ∈ s.links, (l.dialerAccepted = true → l.acceptor ≠ .attacker) ∧ (l.acceptorAccepted = true → l.dialer ≠ .attacker)

/-- A dial that the attacker answers, and that waits for the challenge, has this nonce. -/
def awaits (s : Network) (n : Text) : Bool :=
  s.links.any fun l => l.acceptor = .attacker && l.dialing = .greeted && l.clientNonce = n

/-- The attacker does not greet an instance with the nonce of a dial that it is answering itself. -/
def unrelayed (s : Network) : Label → Bool
  | .send c false (.hello peerId clientNonce) _ =>
    peerId = [] || !s.awaits clientNonce.orEmpty || !(s.links[c]?).any fun l => l.accepting = .listening
  | _ => true

/-- What holds of a connection, of the proofs that are known and the nonces that have been seen. -/
structure Good (known : List Proof) (seen : List Text) (l : Link) : Prop where
  drawn : l.clientNonce ∈ seen ∧ l.nonce ∈ seen
  unasked : l.accepting = .listening → l.nonce = []
  greets : l.dialing = .greeted → l.clientNonce ≠ []
  hello : ∀ id n, Message.hello id n ∈ l.toAcceptor → n = .str l.clientNonce ∧ l.clientNonce ≠ []
  challenge : ∀ n p, Message.challenge n p ∈ l.toDialer → n = .str l.nonce ∧ l.nonce ≠ []
  waiting : l.acceptor = .attacker → l.dialing = .greeted → serverProof l.clientNonce ∉ known
  pending : l.dialer = .attacker → l.accepting = .challenged → clientProof l.nonce ∉ known
  dialed : l.dialerAccepted = true → l.acceptor ≠ .attacker
  accepted : l.acceptorAccepted = true → l.dialer ≠ .attacker

/-- What holds in every state of a network in which the attacker relays no nonce. -/
structure Sound (s : Network) : Prop where
  empty : [] ∈ s.seen
  served : ∀ n, serverProof n ∈ s.known → n ∈ s.seen
  answered : ∀ n, clientProof n ∈ s.known → n ∈ s.seen
  good : ∀ (c : Nat) l, s.links[c]? = some l → Good s.known s.seen l
  apart : ∀ (c d : Nat) l m, c ≠ d → s.links[c]? = some l → s.links[d]? = some m →
    (l.clientNonce = m.clientNonce → l.clientNonce = []) ∧ (l.nonce = m.nonce → l.nonce = [])

variable {s : Network} {known : List Proof} {seen : List Text} {l : Link}

theorem Sound.start : Sound {} where
  empty := List.mem_cons_self
  served _ member := by cases member
  answered _ member := by cases member
  good _ _ there := by cases there
  apart _ _ _ _ _ there := by cases there

/-- More is seen and known, but no proof that a connection waits for. -/
theorem Good.grow (good : Good known seen l) {known' : List Proof} {seen' : List Text} (more : seen ⊆ seen')
    (server : l.acceptor = .attacker → l.dialing = .greeted → serverProof l.clientNonce ∈ known' →
      serverProof l.clientNonce ∈ known)
    (client : l.dialer = .attacker → l.accepting = .challenged → clientProof l.nonce ∈ known' →
      clientProof l.nonce ∈ known) : Good known' seen' l where
  drawn := ⟨more good.drawn.1, more good.drawn.2⟩
  unasked := good.unasked
  greets := good.greets
  hello := good.hello
  challenge := good.challenge
  waiting attacked greeted known := good.waiting attacked greeted (server attacked greeted known)
  pending attacked challenged known := good.pending attacked challenged (client attacked challenged known)
  dialed := good.dialed
  accepted := good.accepted

theorem getElem?_concat {α : Type} {l : List α} {a b : α} {c : Nat} (there : (l ++ [a])[c]? = some b) :
    l[c]? = some b ∨ c = l.length ∧ b = a := by
  rcases lt_trichotomy c l.length with before | rfl | after
  · rw [List.getElem?_append_left before] at there
    exact Or.inl there
  · rw [List.getElem?_concat_length] at there
    exact Or.inr ⟨rfl, (Option.some.inj there).symm⟩
  · have outside : (l ++ [a]).length ≤ c := by rw [List.length_append]; exact after
    rw [List.getElem?_eq_none outside] at there
    cases there

/-- A connection is added whose nonces nobody has seen. -/
theorem Sound.opened (sound : Sound s) {nonces : List Text} (good : Good s.known (s.seen ++ nonces) l)
    (fresh : l.clientNonce = [] ∨ l.clientNonce ∉ s.seen) (unasked : l.nonce = []) :
    Sound { s with links := s.links ++ [l], seen := s.seen ++ nonces } where
  empty := List.mem_append_left _ sound.empty
  served n there := List.mem_append_left _ (sound.served n there)
  answered n there := List.mem_append_left _ (sound.answered n there)
  good c m there := by
    rcases getElem?_concat there with old | ⟨_, rfl⟩
    · exact (sound.good c m old).grow (List.subset_append_left ..) (fun _ _ => id) fun _ _ => id
    · exact good
  apart c d m k other there there' := by
    rcases getElem?_concat there with old | ⟨here, rfl⟩ <;> rcases getElem?_concat there' with old' | ⟨here', rfl⟩
    · exact sound.apart c d m k other old old'
    · have drawn := (sound.good c m old).drawn
      refine ⟨fun same => ?_, fun same => same.trans unasked⟩
      rcases fresh with none | fresh
      · exact same.trans none
      · exact absurd (same ▸ drawn.1) fresh
    · have drawn := (sound.good d k old').drawn
      refine ⟨fun same => ?_, fun _ => unasked⟩
      rcases fresh with none | fresh
      · exact none
      · exact absurd (same ▸ drawn.1) fresh
    · exact absurd (here.trans here'.symm) other

/-- A connection goes on, and sends proofs that no other connection waits for. -/
theorem Sound.went (sound : Sound s) {c : Nat} (there : s.links[c]? = some l) {l' : Link} {proofs : List Proof}
    {nonces : List Text} (kept : l'.clientNonce = l.clientNonce) (nonce : l'.nonce = l.nonce ∨ l'.nonce ∉ s.seen)
    (good : Good (s.known ++ proofs) (s.seen ++ nonces) l')
    (server : ∀ n, serverProof n ∈ proofs → n ∈ s.seen ++ nonces ∧ ∀ (d : Nat) m, d ≠ c → s.links[d]? = some m →
      m.acceptor = .attacker → m.dialing = .greeted → m.clientNonce ≠ n)
    (client : ∀ n, clientProof n ∈ proofs → n ∈ s.seen ++ nonces ∧ ∀ (d : Nat) m, d ≠ c → s.links[d]? = some m →
      m.dialer = .attacker → m.accepting = .challenged → m.nonce ≠ n) :
    Sound { links := s.links.set c l', known := s.known ++ proofs, seen := s.seen ++ nonces } where
  empty := List.mem_append_left _ sound.empty
  served n known := by
    rcases List.mem_append.mp known with old | new
    · exact List.mem_append_left _ (sound.served n old)
    · exact (server n new).1
  answered n known := by
    rcases List.mem_append.mp known with old | new
    · exact List.mem_append_left _ (sound.answered n old)
    · exact (client n new).1
  good d m found := by
    by_cases here : d = c
    · subst here
      rw [List.getElem?_set_self (List.getElem?_eq_some_iff.mp there).1] at found
      cases found
      exact good
    · rw [List.getElem?_set_ne (Ne.symm here)] at found
      refine (sound.good d m found).grow (List.subset_append_left ..) (fun attacked greeted known => ?_)
        fun attacked challenged known => ?_
      · rcases List.mem_append.mp known with old | new
        · exact old
        · exact absurd rfl ((server _ new).2 d m here found attacked greeted)
      · rcases List.mem_append.mp known with old | new
        · exact old
        · exact absurd rfl ((client _ new).2 d m here found attacked challenged)
  apart d e m k other found found' := by
    have inside := (List.getElem?_eq_some_iff.mp there).1
    by_cases here : d = c
    · subst here
      rw [List.getElem?_set_self inside] at found
      rw [List.getElem?_set_ne other] at found'
      cases found
      have before := sound.apart d e l k other there found'
      refine ⟨by rw [kept]; exact before.1, fun same => ?_⟩
      rcases nonce with old | fresh
      · rw [old] at same ⊢
        exact before.2 same
      · exact absurd (same ▸ (sound.good e k found').drawn.2) fresh
    · rw [List.getElem?_set_ne (Ne.symm here)] at found
      by_cases there' : e = c
      · subst there'
        rw [List.getElem?_set_self inside] at found'
        cases found'
        have before := sound.apart d e m l other found there
        refine ⟨by rw [kept]; exact before.1, fun same => ?_⟩
        rcases nonce with old | fresh
        · rw [old] at same
          exact before.2 same
        · exact absurd (same ▸ (sound.good d m found).drawn.2) fresh
      · rw [List.getElem?_set_ne (Ne.symm there')] at found'
        exact sound.apart d e m k other found found'

/-- A connection goes on without a proof. -/
theorem Sound.silent (sound : Sound s) {c : Nat} (there : s.links[c]? = some l) {l' : Link} {nonces : List Text}
    (kept : l'.clientNonce = l.clientNonce) (nonce : l'.nonce = l.nonce) (good : Good s.known s.seen l') :
    Sound { links := s.links.set c l', known := s.known ++ [], seen := s.seen ++ nonces } := by
  have good' : Good (s.known ++ []) (s.seen ++ nonces) l' := by
    rw [List.append_nil]
    exact good.grow (List.subset_append_left ..) (fun _ _ => id) fun _ _ => id
  exact sound.went there kept (Or.inl nonce) good' (fun _ new => by cases new) fun _ new => by cases new

/-- Messages of a handshake that carry neither a nonce nor a proof. -/
def plain (msg : Message) : Bool :=
  msg.proofs.isEmpty && msg.nonces.isEmpty

theorem flatMap_plain {replies : List Message} (all : replies.all plain = true) :
    replies.flatMap Message.proofs = [] ∧ replies.flatMap Message.nonces = [] := by
  induction replies with
  | nil => exact ⟨rfl, rfl⟩
  | cons msg replies ih =>
    simp only [List.all_cons, plain, Bool.and_eq_true, List.isEmpty_iff] at all
    simp [all.1.1, all.1.2, ih all.2]

/-- What an end that dialled does with a message: it believes a challenge, or sends nothing. -/
theorem dial_cases (l : Link) (duplicate : Bool) (msg : Message) :
    (∃ phase, phase ≠ .greeted ∧ l.dial duplicate msg = ({ l with dialing := phase }, [])) ∨
    ∃ n, msg = .challenge n (serverProof l.clientNonce) ∧ l.dialing = .greeted ∧
      ∃ phase, phase ≠ .greeted ∧ l.dial duplicate msg = ({ l with dialing := phase, dialerAccepted := true },
        if n = .other then [] else [.auth (clientProof n.orEmpty)]) := by
  cases phase : l.dialing with
  | greeted =>
    cases msg with
    | challenge n proof =>
      by_cases valid : proof = serverProof l.clientNonce
      · subst valid
        refine Or.inr ⟨n, rfl, rfl, ?_⟩
        by_cases unusable : n = .other
        · exact ⟨.closed, Dialing.noConfusion, by simp [Link.dial, phase, unusable]⟩
        · exact ⟨.answered, Dialing.noConfusion, by simp [Link.dial, phase, unusable]⟩
      · exact Or.inl ⟨.closed, Dialing.noConfusion, by simp [Link.dial, phase, valid]⟩
    | _ => exact Or.inl ⟨.closed, Dialing.noConfusion, by simp [Link.dial, phase]⟩
  | answered =>
    cases msg with
    | welcome _ =>
      refine Or.inl ⟨if duplicate then .closed else .connected, ?_, by simp [Link.dial, phase]⟩
      cases duplicate <;> exact Dialing.noConfusion
    | _ => exact Or.inl ⟨.closed, Dialing.noConfusion, by simp [Link.dial, phase]⟩
  | connected =>
    obtain ⟨dialer, acceptor, dialing, accepting⟩ := l
    obtain rfl : dialing = .connected := phase
    exact Or.inl ⟨.connected, Dialing.noConfusion, rfl⟩
  | closed =>
    obtain ⟨dialer, acceptor, dialing, accepting⟩ := l
    obtain rfl : dialing = .closed := phase
    exact Or.inl ⟨.closed, Dialing.noConfusion, rfl⟩

/-- What an end that accepted does with a message: it greets back, it registers the
peer, or it sends neither a nonce nor a proof. -/
theorem accept_cases (l : Link) (instanceId nonce : Text) (duplicate : Bool) (msg : Message) :
    (∃ phase replies, phase ≠ .listening ∧ phase ≠ .challenged ∧ replies.all plain = true ∧
      l.accept instanceId nonce duplicate msg = ({ l with accepting := phase }, replies)) ∨
    (∃ peerId n, msg = .hello peerId n ∧ peerId ≠ [] ∧ l.accepting = .listening ∧
      l.accept instanceId nonce duplicate msg =
        ({ l with accepting := .challenged, nonce }, [.challenge (.str nonce) (serverProof n.orEmpty)])) ∨
    msg = .auth (clientProof l.nonce) ∧ l.accepting = .challenged ∧ l.accept instanceId nonce duplicate msg =
      ({ l with accepting := .registered, acceptorAccepted := true }, [.welcome instanceId]) := by
  have closes : ∀ replies, replies.all plain = true →
      l.accept instanceId nonce duplicate msg = ({ l with accepting := .closed }, replies) →
      ∃ phase replies, phase ≠ .listening ∧ phase ≠ .challenged ∧ replies.all plain = true ∧
        l.accept instanceId nonce duplicate msg = ({ l with accepting := phase }, replies) :=
    fun replies all result => ⟨.closed, replies, Accepting.noConfusion, Accepting.noConfusion, all, result⟩
  cases phase : l.accepting with
  | listening =>
    cases msg with
    | hello peerId n =>
      by_cases nameless : peerId = []
      · exact Or.inl (closes [.reject (text "missing instance_id")] rfl (by simp [Link.accept, phase, nameless]))
      · exact Or.inr (Or.inl ⟨peerId, n, rfl, nameless, rfl, by simp [Link.accept, phase, nameless]⟩)
    | _ => exact Or.inl (closes [] rfl (by simp [Link.accept, phase]))
  | challenged =>
    cases msg with
    | auth response =>
      by_cases valid : response = clientProof l.nonce
      · cases duplicate with
        | true => exact Or.inl (closes [.reject (text "duplicate")] rfl (by simp [Link.accept, phase, valid]))
        | false => exact Or.inr (Or.inr ⟨by rw [valid], rfl, by simp [Link.accept, phase, valid]⟩)
      · exact Or.inl (closes [.reject (text "auth_failed")] rfl (by simp [Link.accept, phase, valid]))
    | unreadable => exact Or.inl (closes [.reject (text "auth_timeout")] rfl (by simp [Link.accept, phase]))
    | _ => exact Or.inl (closes [.reject (text "expected isc.auth")] rfl (by simp [Link.accept, phase]))
  | registered =>
    obtain ⟨dialer, acceptor, dialing, accepting⟩ := l
    obtain rfl : accepting = .registered := phase
    exact Or.inl ⟨.registered, [], Accepting.noConfusion, Accepting.noConfusion, rfl, rfl⟩
  | closed =>
    obtain ⟨dialer, acceptor, dialing, accepting⟩ := l
    obtain rfl : accepting = .closed := phase
    exact Or.inl ⟨.closed, [], Accepting.noConfusion, Accepting.noConfusion, rfl, rfl⟩

variable {instanceId : Nat → Text}

/-- An end that dialled handles a message. A challenge that it believes comes from an instance. -/
theorem Sound.dials (sound : Sound s) {c : Nat} (there : s.links[c]? = some l) (holder : l.dialer ≠ .attacker)
    {queue : List Message} (sub : queue ⊆ l.toDialer) {msg : Message} {choice : Choice}
    (trusted : ∀ n, msg = .challenge n (serverProof l.clientNonce) → l.dialing = .greeted →
      n = .str l.nonce ∧ l.nonce ≠ [] ∧ l.acceptor ≠ .attacker) :
    Sound (s.receive instanceId c { l with toDialer := queue } true msg choice) := by
  have good := sound.good c l there
  have inQueue : ∀ n p, Message.challenge n p ∈ queue → n = .str l.nonce ∧ l.nonce ≠ [] :=
    fun n p member => good.challenge n p (sub member)
  rcases dial_cases { l with toDialer := queue } choice.duplicate msg with
    ⟨phase, past, result⟩ | ⟨n, believed, greeted, phase, past, result⟩
  · let l' : Link := { l with dialing := phase, toDialer := queue }
    have after : s.receive instanceId c { l with toDialer := queue } true msg choice =
        { links := s.links.set c l', known := s.known ++ [], seen := s.seen ++ msg.nonces } := by
      simp [receive, handle, result, l']
    have good' : Good s.known s.seen l' := { good with
      greets := fun same => absurd same past
      challenge := inQueue
      waiting := fun _ same => absurd same past }
    rw [after]
    exact sound.silent there rfl rfl good'
  · obtain ⟨rfl, nonempty, honest⟩ := trusted n believed greeted
    let l' : Link := { l with
      dialing := phase
      dialerAccepted := true
      toDialer := queue
      toAcceptor := l.toAcceptor ++ [.auth (clientProof l.nonce)] }
    have after : s.receive instanceId c { l with toDialer := queue } true msg choice =
        { links := s.links.set c l', known := s.known ++ [clientProof l.nonce], seen := s.seen ++ msg.nonces } := by
      simp [receive, handle, result, l', Message.proofs, Message.nonces, Field.orEmpty]
    have good' : Good (s.known ++ [clientProof l.nonce]) (s.seen ++ msg.nonces) l' := {
      drawn := ⟨List.mem_append_left _ good.drawn.1, List.mem_append_left _ good.drawn.2⟩
      unasked := good.unasked
      greets := fun same => absurd same past
      hello := fun id n member => good.hello id n (by simpa [l'] using member)
      challenge := inQueue
      waiting := fun _ same => absurd same past
      pending := fun attacked => absurd attacked holder
      dialed := fun _ => honest
      accepted := good.accepted }
    rw [after]
    refine sound.went there rfl (Or.inl rfl) good' (fun n member => ?_) fun n member => ?_
    · simp at member
    · obtain rfl : n = l.nonce := by simpa using member
      refine ⟨List.mem_append_left _ good.drawn.2, fun d m other found _ _ same => ?_⟩
      exact nonempty ((sound.apart c d l m (Ne.symm other) there found).2 same.symm)

/-- An end that accepted handles a message. A valid answer comes from an instance, and
no dial that the attacker answers waits for a proof of the nonce in a greeting. -/
theorem Sound.accepts (sound : Sound s) {c : Nat} (there : s.links[c]? = some l) {queue : List Message}
    (sub : queue ⊆ l.toAcceptor) {msg : Message} {choice : Choice} (fresh : choice.nonce ∉ s.seen)
    (trusted : msg = .auth (clientProof l.nonce) → l.accepting = .challenged → l.dialer ≠ .attacker)
    (unrelayed : ∀ peerId n, msg = .hello peerId n → peerId ≠ [] → l.accepting = .listening →
      ∀ (d : Nat) m, s.links[d]? = some m → m.acceptor = .attacker → m.dialing = .greeted →
        m.clientNonce ≠ n.orEmpty) :
    Sound (s.receive instanceId c { l with toAcceptor := queue } false msg choice) := by
  have good := sound.good c l there
  have inQueue : ∀ id n, Message.hello id n ∈ queue → n = .str l.clientNonce ∧ l.clientNonce ≠ [] :=
    fun id n member => good.hello id n (sub member)
  rcases accept_cases { l with toAcceptor := queue } (Party.id instanceId l.acceptor) choice.nonce choice.duplicate msg with
    ⟨phase, replies, heard, past, quiet, result⟩ | ⟨peerId, n, greeting, named, listening, result⟩ | ⟨answer, challenged, result⟩
  · let l' : Link := { l with accepting := phase, toAcceptor := queue, toDialer := l.toDialer ++ replies }
    have nothing := flatMap_plain quiet
    have after : s.receive instanceId c { l with toAcceptor := queue } false msg choice =
        { links := s.links.set c l', known := s.known ++ [], seen := s.seen ++ msg.nonces } := by
      simp [receive, handle, result, l', nothing.1, nothing.2]
    have good' : Good s.known s.seen l' := { good with
      unasked := fun same => absurd same heard
      hello := inQueue
      challenge := fun n p member => by
        rcases List.mem_append.mp member with old | new
        · exact good.challenge n p old
        · have bare := List.all_eq_true.mp quiet _ new
          simp [plain, Message.proofs] at bare
      pending := fun _ same => absurd same past }
    rw [after]
    exact sound.silent there rfl rfl good'
  · subst greeting
    let l' : Link := { l with
      accepting := .challenged
      nonce := choice.nonce
      toAcceptor := queue
      toDialer := l.toDialer ++ [.challenge (.str choice.nonce) (serverProof n.orEmpty)] }
    have after : s.receive instanceId c { l with toAcceptor := queue } false (.hello peerId n) choice =
        { links := s.links.set c l', known := s.known ++ [serverProof n.orEmpty],
          seen := s.seen ++ (n.texts ++ [choice.nonce]) } := by
      simp [receive, handle, result, l', Message.proofs, Message.nonces, Field.texts]
    have nonempty : choice.nonce ≠ [] := fun none => fresh (none ▸ sound.empty)
    have unanswered := good.unasked listening
    have good' : Good (s.known ++ [serverProof n.orEmpty]) (s.seen ++ (n.texts ++ [choice.nonce])) l' := {
      drawn := ⟨List.mem_append_left _ good.drawn.1, by simp [l']⟩
      unasked := nofun
      greets := good.greets
      hello := inQueue
      challenge := fun m p member => by
        rcases List.mem_append.mp member with old | new
        · exact absurd unanswered (good.challenge m p old).2
        · obtain ⟨rfl, rfl⟩ : m = .str choice.nonce ∧ p = serverProof n.orEmpty := by simpa using new
          exact ⟨rfl, nonempty⟩
      waiting := fun attacked greeted known => by
        rcases List.mem_append.mp known with old | new
        · exact good.waiting attacked greeted old
        · exact unrelayed peerId n rfl named listening c l there attacked greeted (by simpa using new)
      pending := fun _ _ known => by
        rcases List.mem_append.mp known with old | new
        · exact fresh (sound.answered choice.nonce old)
        · simp at new
      dialed := good.dialed
      accepted := good.accepted }
    rw [after]
    refine sound.went there rfl (Or.inr fresh) good' (fun m member => ?_) fun m member => ?_
    · obtain rfl : m = n.orEmpty := by simpa using member
      refine ⟨?_, fun d k _ found attacked greeted => unrelayed peerId n rfl named listening d k found attacked greeted⟩
      cases n with
      | str n => simp [Field.orEmpty, Field.texts]
      | _ => exact List.mem_append_left _ sound.empty
    · simp at member
  · let l' : Link := { l with
      accepting := .registered
      acceptorAccepted := true
      toAcceptor := queue
      toDialer := l.toDialer ++ [.welcome (Party.id instanceId l.acceptor)] }
    have after : s.receive instanceId c { l with toAcceptor := queue } false msg choice =
        { links := s.links.set c l', known := s.known ++ [], seen := s.seen ++ msg.nonces } := by
      simp [receive, handle, result, l', Message.proofs, Message.nonces]
    have good' : Good s.known s.seen l' := { good with
      unasked := nofun
      hello := inQueue
      challenge := fun n p member => good.challenge n p (by simpa [l'] using member)
      pending := fun _ => nofun
      accepted := fun _ => trusted answer challenged }
    rw [after]
    exact sound.silent there rfl rfl good'

theorem Sound.dial (sound : Sound s) (i : Nat) (acceptor : Party) {clientNonce : Text} (fresh : clientNonce ∉ s.seen) :
    Sound { s with
      links := s.links ++ [{
        dialer := .holder i, acceptor, dialing := .greeted, clientNonce
        toAcceptor := [.hello (instanceId i) (.str clientNonce)] }]
      seen := s.seen ++ [clientNonce] } := by
  have nonempty : clientNonce ≠ [] := fun none => fresh (none ▸ sound.empty)
  refine sound.opened ?_ (Or.inr fresh) rfl
  exact {
    drawn := ⟨List.mem_append_right _ List.mem_cons_self, List.mem_append_left _ sound.empty⟩
    unasked := fun _ => rfl
    greets := fun _ => nonempty
    hello := fun id n member => by
      obtain ⟨rfl, rfl⟩ : id = instanceId i ∧ n = .str clientNonce := by simpa using member
      exact ⟨rfl, nonempty⟩
    challenge := fun _ _ member => by cases member
    waiting := fun _ _ known => fresh (sound.served clientNonce known)
    pending := nofun
    dialed := nofun
    accepted := nofun }

theorem Sound.intrude (sound : Sound s) (j : Nat) :
    Sound { s with links := s.links ++ [{ dialer := .attacker, acceptor := .holder j }] } := by
  have opened := @Sound.opened s { dialer := .attacker, acceptor := .holder j } sound [] ?_ (Or.inl rfl) rfl
  · rw [List.append_nil] at opened
    exact opened
  · exact {
      drawn := ⟨List.mem_append_left _ sound.empty, List.mem_append_left _ sound.empty⟩
      unasked := fun _ => rfl
      greets := nofun
      hello := fun _ _ member => by cases member
      challenge := fun _ _ member => by cases member
      waiting := nofun
      pending := fun _ => nofun
      dialed := nofun
      accepted := nofun }

/-- A message between two instances. -/
theorem Sound.deliver (sound : Sound s) {c : Nat} {toDialer : Bool} {choice : Choice} {s' : Network}
    (run : s.next instanceId (.deliver c toDialer choice) = some s') : Sound s' := by
  simp only [next] at run
  split at run
  · cases run
  rename_i l there
  split at run
  · cases run
  rename_i honest
  obtain ⟨fresh, dialer, acceptor⟩ : choice.nonce ∉ s.seen ∧ l.dialer ≠ .attacker ∧ l.acceptor ≠ .attacker := by
    simpa only [not_or] using honest
  have good := sound.good c l there
  split at run <;> cases run
  · rename_i msg rest queue
    have sub : rest ⊆ l.toDialer := by
      rw [queue]
      exact List.subset_cons_self ..
    refine sound.dials there dialer sub fun n challenge _ => ?_
    have drawn := good.challenge n (serverProof l.clientNonce) (by rw [queue, challenge]; exact List.mem_cons_self)
    exact ⟨drawn.1, drawn.2, acceptor⟩
  · rename_i msg rest queue
    have sub : rest ⊆ l.toAcceptor := by
      rw [queue]
      exact List.subset_cons_self ..
    refine sound.accepts there sub fresh
      (fun _ _ => dialer) fun peerId n greeting _ _ d m found attacked greeted same => ?_
    obtain ⟨rfl, nonempty⟩ := good.hello peerId n (by rw [queue, greeting]; exact List.mem_cons_self)
    have other : c ≠ d := fun here => by
      subst here
      rw [there] at found
      cases found
      exact acceptor attacked
    exact nonempty ((sound.apart c d l m other there found).1 same.symm)

/-- A message of the attacker. -/
theorem Sound.send (sound : Sound s) {c : Nat} {toDialer : Bool} {msg : Message} {choice : Choice} {s' : Network}
    (unrelayed : s.unrelayed (.send c toDialer msg choice) = true)
    (run : s.next instanceId (.send c toDialer msg choice) = some s') : Sound s' := by
  simp only [next] at run
  split at run
  · cases run
  rename_i l there
  split at run
  · cases run
  rename_i allowed
  obtain ⟨fresh, _, known⟩ : choice.nonce ∉ s.seen ∧ choice.nonce ∉ msg.nonces ∧
      msg.proofs.all (fun p => p = .other || p ∈ s.known) = true := by
    simpa only [not_or, not_not] using allowed
  have stolen : ∀ message, .hmac message ∈ msg.proofs → .hmac message ∈ s.known := fun message member => by
    simpa using List.all_eq_true.mp known _ member
  have good := sound.good c l there
  split at run <;> cases run
  · rename_i i dialer acceptor
    refine sound.dials there (by rw [dialer]; exact Party.noConfusion) (List.Subset.refl _) fun n challenge greeted => ?_
    have heard : serverProof l.clientNonce ∈ s.known := stolen _ (by rw [challenge]; exact List.mem_cons_self)
    exact absurd heard (good.waiting acceptor greeted)
  · rename_i j dialer acceptor
    refine sound.accepts there (List.Subset.refl _) fresh (fun answer challenged => ?_)
      fun peerId n greeting named listening d m found attacked greeted same => ?_
    · have heard : clientProof l.nonce ∈ s.known := stolen _ (by rw [answer]; exact List.mem_cons_self)
      exact absurd heard (good.pending dialer challenged)
    · subst greeting
      have awaited : s.awaits n.orEmpty = true :=
        List.any_eq_true.mpr ⟨m, List.mem_of_getElem? found, by simp [attacked, greeted, same]⟩
      simp [Network.unrelayed, named, awaited, there, listening] at unrelayed

theorem Sound.next {label : Label} {s' : Network} (sound : Sound s) (unrelayed : s.unrelayed label = true)
    (run : s.next instanceId label = some s') : Sound s' := by
  cases label with
  | dial i acceptor clientNonce =>
    simp only [Network.next] at run
    split at run <;> cases run
    rename_i fresh
    exact sound.dial i acceptor fresh
  | intrude j =>
    cases run
    exact sound.intrude j
  | deliver c toDialer choice => exact sound.deliver run
  | send c toDialer msg choice => exact sound.send unrelayed run

/-- As long as the attacker relays no nonce of a dial that it answers, an instance takes
nobody for one that holds the key who does not. -/
theorem handshake_authentic (reach : Run.Reach (machine instanceId) (fun s l => s.unrelayed l = true) s) :
    s.Authentic := by
  have sound : Sound s := reach.invariant
    (fun s start => by rw [start]; exact .start) (fun _ _ _ _ sound unrelayed run => sound.next unrelayed run)
  intro l member
  obtain ⟨c, there⟩ := List.getElem?_of_mem member
  have good := sound.good c l there
  exact ⟨good.dialed, good.accepted⟩

section Runs

def ids (i : Nat) : Text :=
  text "instance-" ++ intText i

/-- Two instances shake hands while the attacker greets both of them and repeats what it hears. -/
theorem handshake_authentic_pair : ∃ s : Network, (s.links[0]?).any (fun l => l.dialerAccepted && l.acceptorAccepted) = true ∧
    s.Authentic := by
  have run : ∃ s, (machine ids).run (fun s l => s.unrelayed l = true) {} [.dial 0 (.holder 1) (text "a"), .intrude 1,
      .dial 0 .attacker (text "b"), .deliver 0 false ⟨text "c", false⟩, .send 1 false (.hello (text "m") (.str (text "a")))
      ⟨text "d", false⟩, .send 2 true (.challenge (.str (text "d")) (serverProof (text "a"))) ⟨text "e", false⟩,
      .deliver 0 true ⟨text "e", false⟩, .deliver 0 false ⟨text "e", false⟩, .send 1 false (.auth (clientProof (text "c")))
      ⟨text "e", false⟩, .deliver 0 true ⟨text "e", false⟩] = some s ∧
      (s.links[0]?).any (fun l => l.dialerAccepted && l.acceptorAccepted) = true := ⟨_, rfl, rfl⟩
  obtain ⟨s, run, accepted⟩ := run
  exact ⟨s, accepted, @handshake_authentic s ids (.run (.init rfl) run)⟩

/-- The attacker answers a dial of one instance with what another one answers to it, and back:
both take it for an instance that holds the key. -/
theorem handshake_relayed : ∃ s : Network, Run.Reach (machine ids) Run.always s ∧
    (∃ l ∈ s.links, l.dialer = .holder 0 ∧ l.acceptor = .attacker ∧ l.dialerAccepted = true) ∧
    (∃ l ∈ s.links, l.dialer = .attacker ∧ l.acceptor = .holder 1 ∧ l.acceptorAccepted = true) ∧ ¬s.Authentic := by
  have run : ∃ s l m, (machine ids).run Run.always {} [.dial 0 .attacker (text "a"), .intrude 1,
      .send 1 false (.hello (text "m") (.str (text "a"))) ⟨text "b", false⟩,
      .send 0 true (.challenge (.str (text "b")) (serverProof (text "a"))) ⟨text "c", false⟩,
      .send 1 false (.auth (clientProof (text "b"))) ⟨text "c", false⟩] = some s ∧
      s.links[0]? = some l ∧ s.links[1]? = some m ∧
      (l.dialer = .holder 0 ∧ l.acceptor = .attacker ∧ l.dialerAccepted = true) ∧
      m.dialer = .attacker ∧ m.acceptor = .holder 1 ∧ m.acceptorAccepted = true :=
    ⟨_, _, _, rfl, rfl, rfl, ⟨rfl, rfl, rfl⟩, rfl, rfl, rfl⟩
  obtain ⟨s, l, m, run, there, there', dialed, accepted⟩ := run
  refine ⟨s, .run (.init rfl) run, ⟨l, List.mem_of_getElem? there, dialed⟩, ⟨m, List.mem_of_getElem? there', accepted⟩,
    fun authentic => ?_⟩
  exact (authentic l (List.mem_of_getElem? there)).1 dialed.2.2 dialed.2.1

end Runs

end Network

end OpenAvc.Isc
