import OpenAvc.Auth.Tokens
import OpenAvc.Data.Base64
import OpenAvc.Data.FloatText
import OpenAvc.Data.Utf8
import OpenAvc.Panels.Devices

/-! Who is let in, and the grant that is kept of it. A stored login that UTF-8 has no bytes for is
no part of the model: a fingerprint and a comparison are there for every text. -/

namespace OpenAvc.Auth

/-- `auth.allow_anonymous`, as system.json or the environment holds it. -/
inductive Setting
  | bool (b : Bool)
  | str (t : Text)
  | other
  deriving DecidableEq

structure Config where
  username : Text
  password : Text
  apiKey : Text
  allowAnonymous : Setting
  deriving DecidableEq

/-- What the hashes and decoders of the standard library give, and the deployment that runs. -/
structure Library (η φ : Type*) where
  hash : Text → η
  fingerprint : Text → Text → φ
  keys : Panels.Library
  int : Text → Option Int
  scrypt : Text → List Nat → Int → Int → Int → Nat → Option (List Nat)
  urlsafeB64decode : Text → Option (List Nat)
  deploymentIsDev : Bool

structure Headers where
  xApiKey : Text
  authorization : Text
  secWebsocketProtocol : Text

structure Request where
  loopback : Bool
  cloudSession : Text
  headers : Headers

/-- `cloud_session_secret` -/
def cloudSessionSecret (request : Request) : Text :=
  if request.loopback then request.cloudSession.strip else []

def lower (t : Text) : Text :=
  t.map FloatText.lowerAscii

/-- `t.split(None, 1)` -/
def splitOnce (t : Text) : List Text :=
  let t := t.dropWhile isSpace
  let word := t.takeWhile (!isSpace ·)
  let rest := (t.dropWhile (!isSpace ·)).dropWhile isSpace
  if word = [] then [] else if rest = [] then [word] else [word, rest]

/-- `_extract_bearer` -/
def extractBearer (header : Text) : Text :=
  match splitOnce header with
  | [scheme, token] => if lower scheme = text "bearer" then token.strip else []
  | _ => []

/-- `bytes(l).decode("utf-8")` -/
def utf8 (l : List Nat) : Option Text :=
  decodeStrict (l.map UInt8.ofNat)

/-- `_decode_basic_header` -/
def decodeBasicHeader (header : Text) : Option (Text × Text) :=
  match splitOnce header with
  | [scheme, encoded] =>
    if lower scheme = text "basic" then
      match (Base64.decode encoded).bind utf8 with
      | some decoded =>
        match decoded.span (· ≠ 58) with
        | (user, _ :: password) => some (user, password)
        | (_, []) => none
      | none => none
    else none
  | _ => none

section

variable {η φ : Type*} (lib : Library η φ)

/-- The record's `n`, `r`, `p`, salt and digest. -/
def parse (stored : Text) : Option (Int × Int × Int × List Nat × List Nat) :=
  match stored.splitOn 36 with
  | [algo, n, r, p, salt, digest] =>
    if algo ≠ text "scrypt" then none
    else match lib.int n, lib.int r, lib.int p, Base64.decode salt, Base64.decode digest with
      | some n, some r, some p, some salt, some digest =>
        if n < 2 ∨ r < 1 ∨ p < 1 ∨ salt = [] ∨ digest = [] then none else some (n, r, p, salt, digest)
      | _, _, _, _, _ => none
  | _ => none

/-- `verify_password` -/
def verifyPassword (provided stored : Text) : Bool :=
  if stored = [] then false
  else if !Panels.looksHashed stored then provided = stored
  else match parse lib stored with
    | none => false
    | some (n, r, p, salt, expected) =>
      match lib.scrypt provided salt n r p expected.length with
      | none => false
      | some actual => actual = expected

def checkUsername (config : Config) (provided : Text) : Bool :=
  if config.username = [] then true else provided = config.username

def checkPassword (config : Config) (provided : Text) : Bool :=
  verifyPassword lib provided config.password

def checkApiKey (config : Config) (provided : Text) : Bool :=
  Panels.verifyApiKey lib.keys provided config.apiKey

def checkCredentials (config : Config) (user password : Text) : Bool :=
  checkUsername config user && checkPassword lib config password

def isClaimed (config : Config) : Bool :=
  config.password ≠ [] ∨ config.apiKey ≠ []

def credentialFingerprint (config : Config) : φ :=
  lib.fingerprint config.username config.password

def anonymousAccessAllowed (config : Config) : Bool :=
  match config.allowAnonymous with
  | .bool b => b
  | .str t =>
    let v := lower t.strip
    if v ∈ [text "true", text "1", text "yes", text "on"] then true
    else if v ∈ [text "false", text "0", text "no", text "off"] then false
    else lib.deploymentIsDev
  | .other => lib.deploymentIsDev

end

/-! ### Grants -/

/-- The server: its settings, the clock, its session tokens with the ledger of them, and the open
cloud sessions. -/
structure System (η φ : Type*) where
  config : Config
  now : Nat
  sessions : Sessions η φ
  cloud : List (Text × Text)
  log : List (Event η φ)

/-- What is kept of an admission, to be checked later. -/
inductive Grant (φ : Type*)
  | cloud (secret : Text)
  | anonymous
  | key (stored : Text)
  | session (token : Text)
  | password (fingerprint : φ)

/-- Which of the things presented was accepted. -/
inductive Credential
  | nothing
  | cloudSession
  | apiKey
  | authorization
  | basic
  | protocol (item : Text)

structure Admission (φ : Type*) where
  credential : Credential
  grant : Grant φ

/-- `_is_cloud_session` -/
def isCloudSession {η φ : Type*} (s : System η φ) (secret : Text) : Bool :=
  secret ≠ [] ∧ secret ∈ s.cloud.map Prod.snd

section

variable {η φ : Type*} [DecidableEq η] [DecidableEq φ] (lib : Library η φ) (limits : Limits)

/-- `_check_session_token` -/
def checkSessionToken (s : System η φ) (token : Text) (refresh : Bool) : Bool × System η φ :=
  if token = [] ∨ s.config.password = [] then (false, { s with log := .refused token :: s.log })
  else
    let (accepted, sessions) :=
      s.sessions.validate limits s.now (lib.hash token) (credentialFingerprint lib s.config) refresh
    (accepted, { s with sessions := sessions, log := noteUse token s.now refresh accepted s.log })

def anonymousAuthority (s : System η φ) : Bool :=
  !isClaimed s.config && anonymousAccessAllowed lib s.config

def passwordAuthority (s : System η φ) : Grant φ :=
  .password (credentialFingerprint lib s.config)

def keyAuthority (s : System η φ) : Grant φ :=
  .key s.config.apiKey

/-- The answer of a grant that is kept. -/
def Grant.check (s : System η φ) : Grant φ → Bool × System η φ
  | .cloud secret => (isCloudSession s secret, s)
  | .anonymous => (anonymousAuthority lib s, s)
  | .key stored => (decide (s.config.apiKey = stored), s)
  | .session token => checkSessionToken lib limits s token false
  | .password fingerprint => (decide (credentialFingerprint lib s.config = fingerprint), s)

/-- `programmer_authority` -/
def programmerAuthority (s : System η φ) (request : Request) (credentials : Option (Text × Text))
    (allowCloudSession refreshSession : Bool) : Option (Admission φ) × System η φ :=
  let secret := cloudSessionSecret request
  let config := s.config
  if allowCloudSession ∧ isCloudSession s secret then (some ⟨.cloudSession, .cloud secret⟩, s)
  else if config.password = [] ∧ config.apiKey = [] then
    (if anonymousAccessAllowed lib config then some ⟨.nothing, .anonymous⟩ else none, s)
  else
    let providedKey := request.headers.xApiKey
    if providedKey ≠ [] ∧ config.apiKey ≠ [] ∧ checkApiKey lib config providedKey then (some ⟨.apiKey, keyAuthority s⟩, s)
    else
      let bearer := extractBearer request.headers.authorization
      let (accepted, s) := if bearer ≠ [] then checkSessionToken lib limits s bearer refreshSession else (false, s)
      if accepted then (some ⟨.authorization, .session bearer⟩, s)
      else match credentials with
        | some (username, password) =>
          if config.password ≠ [] ∧ checkCredentials lib config username password then
            (some ⟨.basic, passwordAuthority lib s⟩, s)
          else (none, s)
        | none => (none, s)

/-- The text of `auth.b64.<value>`, or `none` where it is no such text. -/
def decodeB64 (raw : Text) : Option Text :=
  (lib.urlsafeB64decode (raw ++ List.replicate ((4 - raw.length % 4) % 4) 61)).bind utf8

/-- The subprotocols that a socket offers, one after the other. -/
def offered (refreshSession : Bool) (s : System η φ) : List Text → Option (Admission φ) × System η φ
  | [] => (none, s)
  | proto :: rest =>
    let proto := proto.strip
    if text "auth." <+: proto then
      let token := proto.drop 5
      if text "bearer." <+: token then
        let (accepted, s) := checkSessionToken lib limits s (token.drop 7) refreshSession
        if accepted then (some ⟨.protocol proto, .session (token.drop 7)⟩, s) else offered refreshSession s rest
      else match if text "b64." <+: token then decodeB64 lib (token.drop 4) else some token with
        | none => offered refreshSession s rest
        | some token =>
          if token ≠ [] ∧ s.config.password ≠ [] ∧ checkPassword lib s.config token then
            (some ⟨.protocol proto, passwordAuthority lib s⟩, s)
          else if token ≠ [] ∧ s.config.apiKey ≠ [] ∧ checkApiKey lib s.config token then
            (some ⟨.protocol proto, keyAuthority s⟩, s)
          else offered refreshSession s rest
    else offered refreshSession s rest

/-- The bearer token of a socket, and then its subprotocols. -/
def bearerOrProtocols (s : System η φ) (headers : Headers) (refreshSession : Bool) : Option (Admission φ) × System η φ :=
  let bearer := extractBearer headers.authorization
  let (accepted, s) := if bearer ≠ [] then checkSessionToken lib limits s bearer refreshSession else (false, s)
  if accepted then (some ⟨.authorization, .session bearer⟩, s)
  else offered lib limits refreshSession s (headers.secWebsocketProtocol.splitOn 44)

/-- `websocket_authority` -/
def websocketAuthority (s : System η φ) (headers : Headers) (cloudSecret : Text) (refreshSession : Bool) :
    Option (Admission φ) × System η φ :=
  let config := s.config
  if isCloudSession s cloudSecret then (some ⟨.cloudSession, .cloud cloudSecret⟩, s)
  else if config.password = [] ∧ config.apiKey = [] then
    (if anonymousAccessAllowed lib config then some ⟨.nothing, .anonymous⟩ else none, s)
  else if headers.xApiKey ≠ [] ∧ config.apiKey ≠ [] ∧ checkApiKey lib config headers.xApiKey then
    (some ⟨.apiKey, keyAuthority s⟩, s)
  else
    match decodeBasicHeader headers.authorization with
    | some (user, password) =>
      if config.password ≠ [] ∧ checkCredentials lib config user password then
        (some ⟨.authorization, passwordAuthority lib s⟩, s)
      else bearerOrProtocols lib limits s headers refreshSession
    | none => bearerOrProtocols lib limits s headers refreshSession

/-- `create_auth_session`, with the token it draws where the password is right. -/
def createAuthSession (s : System η φ) (authorization token : Text) : System η φ :=
  match decodeBasicHeader authorization with
  | some (user, password) =>
    if s.config.password ≠ [] ∧ checkCredentials lib s.config user password then
      let fingerprint := credentialFingerprint lib s.config
      let (sessions, evicted) := s.sessions.issue limits s.now (lib.hash token) fingerprint
      { s with sessions := sessions, log := noteIssue token fingerprint s.now evicted s.log }
    else s
  | none => s

/-- `delete_auth_session` -/
def deleteAuthSession (s : System η φ) (authorization : Text) : System η φ :=
  let token := extractBearer authorization
  if token = [] then s
  else { s with sessions := s.sessions.drop (lib.hash token), log := .revoked token :: s.log }

end

end OpenAvc.Auth
