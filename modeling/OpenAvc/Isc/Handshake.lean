import OpenAvc.Data.Json
import OpenAvc.Run.Machine

/-! The handshake of two systems that share a key, in the presence of one that has none. -/

namespace OpenAvc.Isc

/-- A field of a message as `get` finds it. -/
inductive Field
  | missing
  | str (t : Text)
  | other
  deriving DecidableEq

/-- The value of a field that carries a proof: an HMAC under the shared key, of
which nobody else can make one, or anything else. -/
inductive Proof
  | hmac (message : Text)
  | other
  deriving DecidableEq

/-- `_SERVER_PROOF_PREFIX` -/
def serverProofPrefix : Text :=
  text "isc-server:"

/-- `_CLIENT_PROOF_PREFIX` -/
def clientProofPrefix : Text :=
  text "isc-client:"

/-- `_server_proof` -/
def serverProof (clientNonce : Text) : Proof :=
  .hmac (serverProofPrefix ++ clientNonce)

/-- `_client_proof` -/
def clientProof (serverNonce : Text) : Proof :=
  .hmac (clientProofPrefix ++ serverNonce)

/-- The messages of a handshake. An id that is missing is empty. -/
inductive Message
  | hello (instanceId : Text) (clientNonce : Field)
  | challenge (nonce : Field) (serverProof : Proof)
  | auth (response : Proof)
  | welcome (instanceId : Text)
  | reject (reason : Text)
  | unreadable
  | other
  deriving DecidableEq

def Message.proofs : Message → List Proof
  | .challenge _ proof => [proof]
  | .auth response => [response]
  | _ => []

/-- The text of a field, empty where there is none. -/
def Field.orEmpty : Field → Text
  | .str t => t
  | _ => []

def Field.texts : Field → List Text
  | .str t => [t]
  | _ => []

def Message.nonces : Message → List Text
  | .hello _ clientNonce => clientNonce.texts
  | .challenge nonce _ => nonce.texts
  | _ => []

inductive Party
  | holder (i : Nat)
  | attacker
  deriving DecidableEq

/-- How far `_outbound_connect` is. -/
inductive Dialing
  | greeted
  | answered
  | connected
  | closed
  deriving DecidableEq

/-- How far `accept_inbound` is, with the endpoint that reads the hello for it. -/
inductive Accepting
  | listening
  | challenged
  | registered
  | closed
  deriving DecidableEq

/-- A connection with its two ends. The phases and nonces are those of an end
that holds the key, and mean nothing for the attacker. `toDialer` and
`toAcceptor` are under way between two instances, on a connection that nobody
else writes to. The flags tell whether an end has ever taken the other for an
instance that holds the key. -/
structure Link where
  dialer : Party
  acceptor : Party
  dialing : Dialing := .closed
  accepting : Accepting := .listening
  clientNonce : Text := []
  nonce : Text := []
  toDialer : List Message := []
  toAcceptor : List Message := []
  dialerAccepted : Bool := false
  acceptorAccepted : Bool := false

namespace Link

/-- `accept_inbound` on the next message, `nonce` being what it draws and
`duplicate` whether another connection to the peer counts. -/
def accept (l : Link) (instanceId nonce : Text) (duplicate : Bool) (msg : Message) : Link × List Message :=
  match l.accepting, msg with
  | .listening, .hello peerId clientNonce =>
    if peerId = [] then ({ l with accepting := .closed }, [.reject (text "missing instance_id")])
    else
      ({ l with accepting := .challenged, nonce }, [.challenge (.str nonce) (serverProof clientNonce.orEmpty)])
  | .listening, _ => ({ l with accepting := .closed }, [])
  | .challenged, .unreadable => ({ l with accepting := .closed }, [.reject (text "auth_timeout")])
  | .challenged, .auth response =>
    if response = clientProof l.nonce then
      if duplicate then ({ l with accepting := .closed }, [.reject (text "duplicate")])
      else ({ l with accepting := .registered, acceptorAccepted := true }, [.welcome instanceId])
    else ({ l with accepting := .closed }, [.reject (text "auth_failed")])
  | .challenged, _ => ({ l with accepting := .closed }, [.reject (text "expected isc.auth")])
  | .registered, _ => (l, [])
  | .closed, _ => (l, [])

/-- `_outbound_connect` on the next message. A nonce that is no text raises. -/
def dial (l : Link) (duplicate : Bool) (msg : Message) : Link × List Message :=
  match l.dialing, msg with
  | .greeted, .challenge nonce proof =>
    if proof = serverProof l.clientNonce then
      if nonce = .other then ({ l with dialing := .closed, dialerAccepted := true }, [])
      else ({ l with dialing := .answered, dialerAccepted := true }, [.auth (clientProof nonce.orEmpty)])
    else ({ l with dialing := .closed }, [])
  | .greeted, _ => ({ l with dialing := .closed }, [])
  | .answered, .welcome _ => ({ l with dialing := if duplicate then .closed else .connected }, [])
  | .answered, _ => ({ l with dialing := .closed }, [])
  | .connected, _ => (l, [])
  | .closed, _ => (l, [])

end Link

/-- The connections, the proofs that have been sent on any of them, and the texts
that have been nonces of any message. -/
structure Network where
  links : List Link := []
  known : List Proof := []
  seen : List Text := [[]]

/-- What the two ends draw or decide for themselves while they handle a message. -/
structure Choice where
  nonce : Text
  duplicate : Bool

inductive Label
  | dial (i : Nat) (acceptor : Party) (clientNonce : Text)
  | intrude (j : Nat)
  | deliver (c : Nat) (toDialer : Bool) (choice : Choice)
  | send (c : Nat) (toDialer : Bool) (msg : Message) (choice : Choice)

namespace Network

variable (instanceId : Nat → Text)

/-- The end of a connection. -/
def Party.id : Party → Text
  | .holder i => instanceId i
  | .attacker => []

/-- An end of a connection handles a message, and what it answers is on its way. -/
def handle (l : Link) (toDialer : Bool) (msg : Message) (choice : Choice) : Link × List Message :=
  if toDialer then
    let (l, replies) := l.dial choice.duplicate msg
    ({ l with toAcceptor := l.toAcceptor ++ replies }, replies)
  else
    let (l, replies) := l.accept (Party.id instanceId l.acceptor) choice.nonce choice.duplicate msg
    ({ l with toDialer := l.toDialer ++ replies }, replies)

/-- The network after an end of connection `c`, which was `l`, has handled a message. -/
def receive (s : Network) (c : Nat) (l : Link) (toDialer : Bool) (msg : Message) (choice : Choice) : Network :=
  let (l, replies) := handle instanceId l toDialer msg choice
  { links := s.links.set c l
    known := s.known ++ replies.flatMap Message.proofs
    seen := s.seen ++ msg.nonces ++ replies.flatMap Message.nonces }

/-- A nonce that is drawn has not been seen before. The attacker may write what it
likes, and repeat every proof that anybody has sent. -/
def next (s : Network) : Label → Option Network
  | .dial i acceptor clientNonce =>
    if clientNonce ∈ s.seen then none
    else
      let hello := Message.hello (instanceId i) (.str clientNonce)
      some { s with
        links := s.links ++ [{ dialer := .holder i, acceptor, dialing := .greeted, clientNonce, toAcceptor := [hello] }]
        seen := s.seen ++ hello.nonces }
  | .intrude j => some { s with links := s.links ++ [{ dialer := .attacker, acceptor := .holder j }] }
  | .deliver c toDialer choice =>
    match s.links[c]? with
    | none => none
    | some l =>
      if choice.nonce ∈ s.seen ∨ l.dialer = .attacker ∨ l.acceptor = .attacker then none
      else match toDialer, l.toDialer, l.toAcceptor with
        | true, msg :: rest, _ => some (s.receive instanceId c { l with toDialer := rest } true msg choice)
        | false, _, msg :: rest => some (s.receive instanceId c { l with toAcceptor := rest } false msg choice)
        | _, _, _ => none
  | .send c toDialer msg choice =>
    match s.links[c]? with
    | none => none
    | some l =>
      if choice.nonce ∈ s.seen ∨ choice.nonce ∈ msg.nonces ∨ ¬msg.proofs.all (fun p => p = .other || p ∈ s.known) = true then
        none
      else match toDialer, l.dialer, l.acceptor with
        | true, .holder _, .attacker => some (s.receive instanceId c l true msg choice)
        | false, .attacker, .holder _ => some (s.receive instanceId c l false msg choice)
        | _, _, _ => none

/-- Any number of instances that hold the key, each dialling and accepting, and the attacker. -/
def machine : Run.Machine Network Label where
  init s := s = {}
  next := next instanceId

end Network

end OpenAvc.Isc
