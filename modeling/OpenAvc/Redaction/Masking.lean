import OpenAvc.Redaction.UrlPassword
import OpenAvc.Data.Double
import OpenAvc.Logins.Store

/-! A config with its credentials masked, and what a masked copy that comes back stands for. -/

namespace OpenAvc.Redaction

/-- `\w`, and how a name is written in lower case. -/
structure Python where
  word : Nat → Bool
  lower : Text → Text

/-- `SECRET_KEY_EXACT` -/
def secretKeyExact : List Text :=
  ["username", "user", "bearer", "psk", "pin", "key", "app_key", "client_key", "session_key", "stream_key", "display_key",
    "access_key", "pre_shared_key"].map text

/-- `SECRET_KEY_SUBSTRINGS` -/
def secretKeySubstrings : List Text :=
  ["password", "passwd", "passphrase", "secret", "token", "api_key", "apikey", "credential", "private", "community",
    "auth_key", "system_key", "lock_code"].map text

/-- `IDENTITY_KEYS` -/
def identityKeys : List Text :=
  ["username", "user"].map text

variable (py : Python)

/-- `is_secret_key` -/
def isSecretKey (key : Text) : Bool :=
  py.lower key ∈ secretKeyExact || secretKeySubstrings.any fun marker => marker <:+: py.lower key

/-- `_named_secret` -/
def namedSecret (key : Text) : Bool :=
  isSecretKey py key && py.lower key ∉ identityKeys

mutual

/-- `mask_secrets_by_name` -/
def maskSecrets : Bool → Json → Json
  | secret, .obj fields => .obj (maskFields secret fields)
  | secret, .arr items => .arr (maskItems secret items)
  | _, .null => .null
  | _, .bool b => .bool b
  | secret, .str t => .str (if secret ∧ t ≠ [] then redacted else maskUrlPassword py.word t)
  | secret, .int n => if secret then .str redacted else .int n
  | secret, .float d => if secret then .str redacted else .float d
  | secret, .constant name => if secret then .str redacted else .constant name

def maskFields : Bool → List (Text × Json) → List (Text × Json)
  | _, [] => []
  | secret, (key, item) :: fields => (key, maskSecrets (secret || namedSecret py key) item) :: maskFields secret fields

def maskItems : Bool → List Json → List Json
  | _, [] => []
  | secret, item :: items => maskSecrets secret item :: maskItems secret items

end

/-- The number that a value is for `==`; NaN is none. -/
def number? : Json → Option Double.Extended
  | .bool b => some (((if b then 1 else 0 : ℚ) : WithTop ℚ) : Double.Extended)
  | .int n => some (((n : ℚ) : WithTop ℚ) : Double.Extended)
  | .float d => some (Double.nearest d.value)
  | .constant "Infinity" => some ⊤
  | .constant "-Infinity" => some ⊥
  | _ => none

/-- `a == b` of a text or a number -/
def equal (a b : Json) : Bool :=
  match a, b with
  | .str t, .str u => t = u
  | a, b => (number? a).isSome && number? a = number? b

/-- The entries that `_matching_item` reads as ids. -/
def isId (u : Text × Json) : Bool :=
  (u.1 = text "id" || (text "_id").isSuffixOf u.1) &&
    match u.2 with
    | .str t => t ≠ []
    | .int _ => true
    | _ => false

/-- `_matching_item` -/
def matchingItem (item : Json) (stored : List Json) (index : Nat) : Json :=
  match item with
  | .obj fields =>
    match fields.filter isId with
    | [] => stored.getD index .null
    | ids => (ids.findSome? fun u => stored.find? fun candidate => (candidate.get? u.1).any fun v => equal v u.2).getD .null
  | _ => stored.getD index .null

/-- A saved value that a masked one can stand for. -/
def restorable : Json → Bool
  | .str t => t ≠ [] && t ≠ redacted
  | .int _ | .float _ | .constant _ => true
  | _ => false

/-- What is saved of a text, and whether it is reported. -/
def keepText (secret : Bool) (t : Text) (stored : Json) : Json × Bool :=
  if ¬redacted <:+: t then (.str t, false)
  else if t = redacted ∧ secret then
    if restorable stored then (stored, false) else (.str t, true)
  else if redacted ∉ passwords py.word t then (.str t, false)
  else match stored with
    | .str u => if maskUrlPassword py.word u = t then (.str u, false) else (.str t, true)
    | _ => (.str t, true)

def fieldPath (path key : Text) : Text :=
  if path = [] then key else path ++ 46 :: key

def itemPath (path : Text) (index : Nat) : Text :=
  path ++ 91 :: (intText index ++ [93])

/-- The entries of a saved list; anything else has none. -/
def itemsOf : Json → List Json
  | .arr items => items
  | _ => []

mutual

/-- `keep_masked_secrets` -/
def keepMasked : Bool → Text → Json → Json → Json × List Text
  | secret, path, .obj fields, stored =>
    let kept := keepFields secret path fields stored
    (.obj kept.1, kept.2)
  | secret, path, .arr items, stored =>
    let kept := keepItems secret path 0 items (itemsOf stored)
    (.arr kept.1, kept.2)
  | secret, path, .str t, stored =>
    let kept := keepText py secret t stored
    (kept.1, if kept.2 then [path] else [])
  | _, _, incoming, _ => (incoming, [])

def keepFields : Bool → Text → List (Text × Json) → Json → List (Text × Json) × List Text
  | _, _, [], _ => ([], [])
  | secret, path, (key, item) :: fields, stored =>
    let kept := keepMasked (secret || namedSecret py key) (fieldPath path key) item ((stored.get? key).getD .null)
    let rest := keepFields secret path fields stored
    ((key, kept.1) :: rest.1, kept.2 ++ rest.2)

def keepItems : Bool → Text → Nat → List Json → List Json → List Json × List Text
  | _, _, _, [], _ => ([], [])
  | secret, path, index, item :: items, stored =>
    let kept := keepMasked secret (itemPath path index) item (matchingItem item stored index)
    let rest := keepItems secret path (index + 1) items stored
    (kept.1 :: rest.1, kept.2 ++ rest.2)

end

/-- What `typed_secrets` reports of a value that is neither empty nor a container. -/
def typedValue (secret : Bool) (path : Text) (incoming stored : Json) : List Text :=
  if equal incoming stored then []
  else match secret, incoming with
    | true, .str t => if t ∈ [[], redacted, Logins.savedLogin] then [] else [path]
    | true, _ => [path]
    | false, .str t =>
      let before := match stored with
        | .str u => passwords py.word u
        | _ => []
      if (passwords py.word t).any fun p => p ∉ redacted :: before then [path] else []
    | false, _ => []

mutual

/-- `typed_secrets` -/
def typedSecrets : Bool → Text → Json → Json → List Text
  | secret, path, .obj fields, stored => typedFields secret path fields stored
  | secret, path, .arr items, stored => typedItems secret path 0 items (itemsOf stored)
  | _, _, .null, _ => []
  | _, _, .bool _, _ => []
  | secret, path, incoming, stored => typedValue py secret path incoming stored

def typedFields : Bool → Text → List (Text × Json) → Json → List Text
  | _, _, [], _ => []
  | secret, path, (key, item) :: fields, stored =>
    typedSecrets (secret || namedSecret py key) (fieldPath path key) item ((stored.get? key).getD .null) ++
      typedFields secret path fields stored

def typedItems : Bool → Text → Nat → List Json → List Json → List Text
  | _, _, _, [], _ => []
  | secret, path, index, item :: items, stored =>
    typedSecrets secret (itemPath path index) item (matchingItem item stored index) ++
      typedItems secret path (index + 1) items stored

end

end OpenAvc.Redaction
