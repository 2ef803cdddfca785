import OpenAvc.Data.Json

/-! Where a request came from, as `X-Forwarded-For` and the socket tell it. -/

namespace OpenAvc.Panels

/-- `LOOPBACK_HOSTS` -/
def loopbackHosts : List Text :=
  [text "127.0.0.1", text "::1", text "localhost"]

/-- `UVICORN_FORWARDED_ALLOW_IPS` -/
def uvicornForwardedAllowIps : List Text :=
  [text "127.0.0.1", text "::1"]

/-- The entries of a header, blanks around them taken off. -/
def entries (header : Text) : List Text :=
  (header.splitOn 44).map Text.strip

/-- What uvicorn hands on as the client: for a peer that it trusts, the rightmost entry
that it does not trust, or the leftmost when it trusts all of them. -/
structure Uvicorn where
  client : Text → Option Text → Text
  direct : ∀ peer header, peer ∉ uvicornForwardedAllowIps → client peer header = peer
  rightmost : ∀ peer header before host after, peer ∈ uvicornForwardedAllowIps → entries header = before ++ host :: after →
    host ≠ [] → host ∉ uvicornForwardedAllowIps → (∀ h ∈ after, h ∈ uvicornForwardedAllowIps) →
    client peer (some header) = host
  leftmost : ∀ peer header host after, peer ∈ uvicornForwardedAllowIps → entries header = host :: after →
    (∀ h ∈ host :: after, h ∈ uvicornForwardedAllowIps) → client peer (some header) = host

/-- `ipaddress`: what it reads as an address, and which addresses a network has. -/
structure IpAddress where
  Address : Type
  Network : Type
  read : Text → Option Address
  contains : Network → Address → Bool

/-- A request after uvicorn. -/
structure Request where
  client : Option Text
  forwardedFor : Option Text
  tunneled : Bool

variable (ip : IpAddress)

/-- `network.trust_forwarded_for` and the parsed `network.trusted_proxies` -/
structure Proxies where
  trustForwardedFor : Bool
  networks : List ip.Network

variable {ip} (config : Proxies ip) (request : Request)

def socketPeerIsLoopback : Bool :=
  request.client.any (· ∈ loopbackHosts)

/-- `_is_proxy` -/
def isProxy (host : Text) : Bool :=
  host ∈ loopbackHosts || (ip.read host).any fun address => config.networks.any (ip.contains · address)

/-- `forwarded_client` -/
def forwardedClient : Option Text :=
  if !config.trustForwardedFor then none
  else
    match request.forwardedFor.getD [], request.client with
    | [], _ | _, none => none
    | header, some client =>
      if !isProxy config client then none
      else
        let hops := (entries header).filter (· ≠ [])
        (hops.reverse.find? fun hop => !isProxy config hop).or hops.head?

/-- `peer_address` -/
def peerAddress : Text :=
  (forwardedClient config request).getD (request.client.getD [])

/-- `is_local_console_request` -/
def isLocalConsoleRequest : Bool :=
  if !socketPeerIsLoopback request then false
  else if request.tunneled then false
  else !(config.trustForwardedFor && request.forwardedFor.getD [] ≠ [])

/-! ### The way of a request -/

/-- The text of an address. -/
structure Host where
  text : Text
  nonempty : text ≠ []
  plain : ∀ c ∈ text, c ≠ 44 ∧ isSpace c = false

/-- A proxy adds the address it saw, after a comma and blanks if there is a header. -/
def appended (header : Option Text) (blanks : Nat) (seen : Host) : Text :=
  match header with
  | none => seen.text
  | some h => h ++ 44 :: (List.replicate blanks 32 ++ seen.text)

/-- What a server may get to see of a client that sent this header of its own: the peer
and the header after a chain of trusted proxies. -/
inductive Delivered (client : Host) (sent : Option Text) : Host → Option Text → Prop
  | direct : Delivered client sent client sent
  | proxied {peer header} (proxy : Host) (blanks : Nat) : Delivered client sent peer header →
      isProxy config proxy.text = true → Delivered client sent proxy (some (appended header blanks peer))

/-- The request that the server gets. -/
def received (uvicorn : Uvicorn) (peer : Host) (header : Option Text) (tunneled : Bool) : Request where
  client := some (uvicorn.client peer.text header)
  forwardedFor := header
  tunneled := tunneled

variable {config}

theorem Host.strip_blanks (host : Host) (blanks : Nat) : Text.strip (List.replicate blanks 32 ++ host.text) = host.text := by
  have front : (List.replicate blanks 32 ++ host.text).dropWhile isSpace = host.text := by
    rw [List.dropWhile_append_of_pos fun c member => by rw [List.eq_of_mem_replicate member]; rfl]
    obtain ⟨c, rest, shape⟩ := List.exists_cons_of_ne_nil host.nonempty
    rw [shape, List.dropWhile_cons_of_neg]
    rw [(host.plain c (by rw [shape]; exact List.mem_cons_self)).2]
    exact Bool.false_ne_true
  have back : host.text.reverse.dropWhile isSpace = host.text.reverse := by
    obtain ⟨c, rest, shape⟩ := List.exists_cons_of_ne_nil (List.reverse_ne_nil_iff.mpr host.nonempty)
    rw [shape, List.dropWhile_cons_of_neg]
    rw [(host.plain c (List.mem_reverse.mp (by rw [shape]; exact List.mem_cons_self))).2]
    exact Bool.false_ne_true
  rw [Text.strip, front, back, List.reverse_reverse]

theorem Host.entries_text (host : Host) (blanks : Nat) : entries (List.replicate blanks 32 ++ host.text) = [host.text] := by
  have absent : 44 ∉ List.replicate blanks 32 ++ host.text := by
    intro member
    rcases List.mem_append.mp member with blank | inside
    · exact absurd (List.eq_of_mem_replicate blank) (by decide)
    · exact (host.plain 44 inside).1 rfl
  rw [entries, List.splitOn_eq_singleton absent, List.map_singleton, host.strip_blanks]

/-- The entries of a header with one more address. -/
theorem entries_appended (header : Option Text) (blanks : Nat) (seen : Host) :
    entries (appended header blanks seen) = (header.elim [] entries) ++ [seen.text] := by
  cases header with
  | none => exact seen.entries_text 0
  | some h =>
    have last := seen.entries_text blanks
    unfold entries at last
    rw [appended, entries, List.splitOn_append_cons_self, List.map_append, last]
    rfl

/-- Behind the first proxy, the last entries are the client's address and those of proxies. -/
def Marked (config : Proxies ip) (client : Host) (header : Option Text) : Prop :=
  ∃ h front proxies, header = some h ∧ entries h = front ++ client.text :: proxies ∧
    ∀ p ∈ proxies, isProxy config p = true ∧ p ≠ []

theorem Delivered.marked {client peer : Host} {sent header : Option Text} (delivered : Delivered config client sent peer header) :
    (peer = client ∧ header = sent) ∨ (isProxy config peer.text = true ∧ Marked config client header) := by
  induction delivered with
  | direct => exact Or.inl ⟨rfl, rfl⟩
  | @proxied peer header proxy blanks before trusted ih =>
    refine Or.inr ⟨trusted, ?_⟩
    have more := entries_appended header blanks peer
    rcases ih with ⟨rfl, rfl⟩ | ⟨proxyBefore, h, front, proxies, rfl, shape, all⟩
    · exact ⟨_, _, [], rfl, more, nofun⟩
    · refine ⟨_, front, proxies ++ [peer.text], rfl, ?_, ?_⟩
      · rw [more]
        simp only [Option.elim_some, shape, List.append_assoc, List.cons_append]
      · intro p member
        rcases List.mem_append.mp member with earlier | last
        · exact all p earlier
        · rw [List.mem_singleton.mp last]
          exact ⟨proxyBefore, peer.nonempty⟩

theorem rightmost_eq {l front after : List Text} {host : Text} {p : Text → Bool} (shape : l = front ++ host :: after)
    (stops : p host = true) (passes : ∀ h ∈ after, p h = false) : l.reverse.find? p = some host := by
  rw [shape, List.reverse_append, List.reverse_cons, List.append_assoc, List.find?_append]
  have none' : after.reverse.find? p = none :=
    List.find?_eq_none.mpr fun h member => by simp [passes h (List.mem_reverse.mp member)]
  rw [none']
  simp [stops]

/-- Either all of a list are in another, or there is a last one that is not. -/
theorem last_outside (allowed l : List Text) :
    (∀ h ∈ l, h ∈ allowed) ∨ ∃ before host after, l = before ++ host :: after ∧ host ∉ allowed ∧ ∀ h ∈ after, h ∈ allowed := by
  induction l with
  | nil => exact Or.inl nofun
  | cons a l ih =>
    rcases ih with all | ⟨before, host, after, rfl, outside, all⟩
    · by_cases inside : a ∈ allowed
      · exact Or.inl (List.forall_mem_cons.mpr ⟨inside, all⟩)
      · exact Or.inr ⟨[], a, l, rfl, inside, all⟩
    · exact Or.inr ⟨a :: before, host, after, rfl, outside, all⟩

theorem allowed_loopback {host : Text} (allowed : host ∈ uvicornForwardedAllowIps) : host ∈ loopbackHosts := by
  have listed : uvicornForwardedAllowIps ⊆ loopbackHosts := by decide
  exact listed allowed

theorem not_loopback {host : Text} (client : isProxy config host = false) : host ∉ loopbackHosts := by
  intro loopback
  rw [isProxy, decide_eq_true loopback] at client
  cases client

/-- uvicorn finds the client, or one of the proxies. -/
theorem uvicorn_client (uvicorn : Uvicorn) {client peer : Host} {header : Option Text}
    (notProxy : isProxy config client.text = false) (proxy : isProxy config peer.text = true) (marked : Marked config client header) :
    uvicorn.client peer.text header = client.text ∨ isProxy config (uvicorn.client peer.text header) = true := by
  obtain ⟨h, front, proxies, rfl, shape, all⟩ := marked
  by_cases trusted : peer.text ∈ uvicornForwardedAllowIps
  · rcases last_outside uvicornForwardedAllowIps proxies with inside | ⟨before, host, after, rfl, outside, later⟩
    · have clientOutside := fun allowed => not_loopback notProxy (allowed_loopback allowed)
      exact Or.inl (uvicorn.rightmost _ _ front _ proxies trusted shape client.nonempty clientOutside inside)
    · obtain ⟨proxied, nonempty⟩ := all host (List.mem_append_right _ List.mem_cons_self)
      have found := uvicorn.rightmost peer.text h (front ++ client.text :: before) host after trusted (by simp [shape]) nonempty
        outside later
      rw [found]
      exact Or.inr proxied
  · rw [uvicorn.direct _ _ trusted]
    exact Or.inr proxy

theorem forwardedClient_of_client {request : Request} {client : Text} (from_ : request.client = some client)
    (notProxy : isProxy config client = false) : forwardedClient config request = none := by
  cases header : request.forwardedFor.getD [] with
  | nil => simp [forwardedClient, header]
  | cons c rest => simp [forwardedClient, header, from_, notProxy]

theorem Marked.nonempty {client : Host} {header : Option Text} (marked : Marked config client header) : header.getD [] ≠ [] := by
  obtain ⟨h, front, proxies, rfl, shape, _⟩ := marked
  intro empty
  rw [Option.getD_some] at empty
  have member : client.text ∈ entries h := by
    rw [shape]
    exact List.mem_append_right _ List.mem_cons_self
  rw [empty] at member
  exact client.nonempty (List.mem_singleton.mp member)

/-- Behind a proxy, the walk through the header ends at the client. -/
theorem forwardedClient_of_proxy {request : Request} {client : Host} {peer : Text} (trust : config.trustForwardedFor = true)
    (from_ : request.client = some peer) (proxy : isProxy config peer = true) (notProxy : isProxy config client.text = false)
    (marked : Marked config client request.forwardedFor) : forwardedClient config request = some client.text := by
  have nonempty := marked.nonempty
  obtain ⟨h, front, proxies, header, shape, all⟩ := marked
  rw [header, Option.getD_some] at nonempty
  have hops : (entries h).filter (· ≠ []) = front.filter (· ≠ []) ++ client.text :: proxies := by
    have kept : proxies.filter (· ≠ []) = proxies := List.filter_eq_self.mpr fun p member => decide_eq_true (all p member).2
    have first : decide (client.text ≠ []) = true := decide_eq_true client.nonempty
    rw [shape, List.filter_append, List.filter_cons, if_pos first, kept]
  have walked := @rightmost_eq _ _ _ _ (fun hop => !isProxy config hop) hops (by rw [notProxy]; rfl)
    fun p member => by rw [(all p member).1]; rfl
  obtain ⟨c, rest, rfl⟩ := List.exists_cons_of_ne_nil nonempty
  rw [forwardedClient, trust, header, from_, Option.getD_some]
  simp only [Bool.not_true, Bool.false_eq_true, if_false, proxy, walked, Option.some_or]

/-- Whatever header a client sends, it is taken for its own address and not for the console. -/
theorem client_address (uvicorn : Uvicorn) (config : Proxies ip) :
    (config.trustForwardedFor = true → ∀ client : Host, isProxy config client.text = false →
      ∀ sent peer header tunneled, Delivered config client sent peer header →
        peerAddress config (received uvicorn peer header tunneled) = client.text ∧
        isLocalConsoleRequest config (received uvicorn peer header tunneled) = false) ∧
    (config.trustForwardedFor = false → ∀ peer : Host, peer.text ∉ loopbackHosts → ∀ header header' tunneled,
      peerAddress config (received uvicorn peer header tunneled) = peerAddress config (received uvicorn peer header' tunneled) ∧
      isLocalConsoleRequest config (received uvicorn peer header tunneled) =
        isLocalConsoleRequest config (received uvicorn peer header' tunneled)) := by
  constructor
  · intro trust client notProxy sent peer header tunneled delivered
    have outside := not_loopback notProxy
    have asClient (same : uvicorn.client peer.text header = client.text) :
        peerAddress config (received uvicorn peer header tunneled) = client.text ∧
          isLocalConsoleRequest config (received uvicorn peer header tunneled) = false := by
      have from_ : (received uvicorn peer header tunneled).client = some client.text := congrArg some same
      constructor
      · rw [peerAddress, forwardedClient_of_client from_ notProxy, from_]
        rfl
      · rw [isLocalConsoleRequest, socketPeerIsLoopback, from_]
        simp [outside]
    rcases delivered.marked with ⟨rfl, rfl⟩ | ⟨proxy, marked⟩
    · exact asClient (uvicorn.direct _ _ fun allowed => outside (allowed_loopback allowed))
    · rcases uvicorn_client uvicorn notProxy proxy marked with same | proxy'
      · exact asClient same
      · constructor
        · rw [peerAddress, forwardedClient_of_proxy trust rfl proxy' notProxy marked]
          rfl
        · have nonempty := marked.nonempty
          unfold isLocalConsoleRequest
          split
          · rfl
          · split
            · rfl
            · simp [trust, received, nonempty]
  · intro off peer outside header header' tunneled
    have untrusted := fun allowed => outside (allowed_loopback allowed)
    have address (header : Option Text) : peerAddress config (received uvicorn peer header tunneled) = peer.text ∧
        isLocalConsoleRequest config (received uvicorn peer header tunneled) = false := by
      have from_ : (received uvicorn peer header tunneled).client = some peer.text := congrArg some (uvicorn.direct _ _ untrusted)
      constructor
      · rw [peerAddress, forwardedClient, off, from_]
        rfl
      · rw [isLocalConsoleRequest, socketPeerIsLoopback, from_]
        simp [outside]
    rw [(address header).1, (address header').1, (address header).2, (address header').2]
    exact ⟨rfl, rfl⟩

/-- uvicorn's walk through a header. -/
def Uvicorn.walking : Uvicorn where
  client peer header :=
    if peer ∈ uvicornForwardedAllowIps then
      match header with
      | none => peer
      | some h => (((entries h).reverse.find? fun h => !decide (h ∈ uvicornForwardedAllowIps)).or (entries h).head?).getD peer
    else peer
  direct _ _ outside := if_neg outside
  rightmost peer header before host after trusted shape _ outside inside := by
    have found := @rightmost_eq _ _ _ _ (fun h => !decide (h ∈ uvicornForwardedAllowIps)) shape (by simp [outside])
      fun h member => by simp [inside h member]
    rw [if_pos trusted]
    simp only [found, Option.some_or, Option.getD_some]
  leftmost peer header host after trusted shape inside := by
    have none' : (entries header).reverse.find? (fun h => !decide (h ∈ uvicornForwardedAllowIps)) = none := by
      refine List.find?_eq_none.mpr fun h member => ?_
      have allowed := inside h (shape ▸ List.mem_reverse.mp member)
      simp [allowed]
    rw [if_pos trusted]
    simp only [none']
    rw [shape]
    rfl

/-- Addresses as texts, each a network of its own. -/
def onlyAddresses : IpAddress where
  Address := Text
  Network := Text
  read := some
  contains network address := network == address

def proxied : Proxies onlyAddresses := ⟨true, [text "10.0.0.5"]⟩

def unproxied : Proxies onlyAddresses := ⟨false, []⟩

def sameMachine : Host := ⟨text "127.0.0.1", by decide, by decide⟩

def remote : Host := ⟨text "198.51.100.9", by decide, by decide⟩

theorem client_address_forged :
    (peerAddress proxied (received .walking sameMachine (some (appended (some sameMachine.text) 1 remote)) false) = remote.text ∧
      isLocalConsoleRequest proxied
        (received .walking sameMachine (some (appended (some sameMachine.text) 1 remote)) false) = false) ∧
    peerAddress unproxied (received .walking remote (some sameMachine.text) false) =
      peerAddress unproxied (received .walking remote none false) := by
  constructor
  · exact (client_address .walking proxied).1 rfl remote (by decide) (some sameMachine.text) _ _ _
      (.proxied sameMachine 1 .direct (by decide))
  · exact ((client_address .walking unproxied).2 rfl remote (by decide) _ _ _).1

end OpenAvc.Panels
