import OpenAvc.Data.Base64
import OpenAvc.Data.Utf8Codec
import OpenAvc.Logins.Store

/-! Logins sealed with a passphrase, and what is made of any bytes that are opened. -/

namespace OpenAvc.Bundle

open Logins (Owner FoundLogin DateTime ownerFields ownerFrom payloadLists)

/-- The exceptions that leave a call: `unicodeEncode` is a `UnicodeEncodeError`. -/
inductive Exc
  | bundleUnreadable (message : String)
  | wrongPassphrase
  | passphraseTooShort
  | unicodeEncode
  | recursion
  deriving DecidableEq

/-- What the interpreter brings, `unicodedata.normalize("NFC", t)` among it. -/
structure Interpreter extends Logins.Python where
  nfc : Text → Text

/-- The 32 bytes of a Fernet key, which `base64.urlsafe_b64encode` hands to it. -/
structure Key where
  octets : List Nat
  length : octets.length = 32
  bounded : ∀ b ∈ octets, b < 256
  deriving DecidableEq

/-- Scrypt and Fernet. `decrypt` gives the decrypted text of a token: `none` when it raises
`InvalidToken`, or when the bytes are text in no encoding `json.loads` takes. A token depends
on the time and a random number too, which `encrypt` takes as a number. -/
structure Ciphers where
  scrypt : (passphrase salt : List Nat) → (n r p : Nat) → Key
  encrypt : Key → Nat → Text → Text
  decrypt : Key → Text → Option Text

structure KeyParams where
  n : Nat
  r : Nat
  p : Nat
  salt : List Nat

/-- `as_json` -/
def KeyParams.asJson (params : KeyParams) : Json :=
  .obj [(text "name", .str (text "scrypt")), (text "n", .int params.n), (text "r", .int params.r),
    (text "p", .int params.p), (text "salt", .str (Base64.encode params.salt))]

def minPassphrase : Nat := 8

def format : Text := text "openavc-sealed-logins"

def maxScryptMemory : Int := 256 * 1024 * 1024

def maxScryptP : Int := 4

def maxBundleBytes : Nat := 2 * 1024 * 1024

section

variable (P : Interpreter) (C : Ciphers)

/-- `_normalized` -/
def normalized (passphrase : Text) : Except Exc (List Nat) :=
  (Utf8.encode (P.nfc passphrase)).elim (.error .unicodeEncode) .ok

/-- `check_passphrase` of a text -/
def checkPassphrase (passphrase : Text) : Except Exc Text :=
  if (P.nfc passphrase).length < minPassphrase then .error .passphraseTooShort else .ok passphrase

/-- `new_params`, with a salt that `os.urandom` gives -/
def newParams (salt : Fin 16 → UInt8) : KeyParams where
  n := 2 ^ 15
  r := 8
  p := 1
  salt := (List.ofFn salt).map UInt8.toNat

/-- `derive_key` -/
def deriveKey (passphrase : Text) (params : KeyParams) : Except Exc Key := do
  return C.scrypt (← normalized P passphrase) params.salt params.n params.r params.p

/-! ### Sealing -/

/-- `now.replace(microsecond=0).isoformat()` -/
def sealedAtOf (now : DateTime) : Text :=
  P.isoformat { now with clock := now.clock - now.clock % 1000000 }

/-- `(KIND_ORDER.get(f.kind, 9), f.name, f.qualifier)` of one owner and of another, in order -/
def ownerLe (o o' : Owner) : Bool :=
  let parts (o : Owner) : List Text := [[o.kind.order], o.name, o.qualifier]
  decide (parts o ≤ parts o')

/-- `dict(sorted(f.fields.items()))` -/
def fieldsOf (login : FoundLogin) : List (Text × Json) :=
  (login.fields.insertionSort fun a b => a.1 ≤ b.1).map fun u => (u.1, .str u.2)

/-- The item of a payload for one login. -/
def itemOf (login : FoundLogin) : Json :=
  .obj (ownerFields login.owner ++ [(text "fields", .obj (fieldsOf login))])

/-- `lists.setdefault(listed, []).append(item)` -/
def append (lists : List (Text × Json)) (listed : Text) (item : Json) : List (Text × Json) :=
  let items := match lists.lookup listed with
    | some (.arr items) => items
    | _ => []
  Dict.set lists listed (.arr (items ++ [item]))

/-- `PAYLOAD_LISTS[kind]` -/
def listOf (kind : Logins.Kind) : Text :=
  (payloadLists.lookup kind).getD []

/-- What `seal_with_key` seals. -/
def payloadOf (sealedAt : Text) (found : List FoundLogin) : Json :=
  let ordered := found.insertionSort fun f f' => ownerLe f.owner f'.owner
  .obj ((text "sealed_at", .str sealedAt) ::
    ordered.foldl (fun lists login => append lists (listOf login.owner.kind) (itemOf login)) [(text "devices", .arr [])])

/-- The logins as JSON. -/
def payloadText (now : DateTime) (found : List FoundLogin) : Text :=
  Json.dumps { sortKeys := true } (payloadOf (sealedAtOf P now) found)

def bundleOf (sealedAt : Text) (params : KeyParams) (token : Text) : Json :=
  .obj [(text "format", .str format), (text "version", .int 1), (text "sealed_at", .str sealedAt),
    (text "kdf", params.asJson), (text "sealed", .str token)]

/-- `seal_with_key` -/
def sealWithKey (found : List FoundLogin) (key : Key) (params : KeyParams) (now : DateTime) (nonce : Nat) : Bytes :=
  let token := C.encrypt key nonce (payloadText P now found)
  encodeUtf8 (Json.dumps { indent := some 2 } (bundleOf (sealedAtOf P now) params token) ++ [10])

/-- `seal` -/
def sealWithPassphrase (found : List FoundLogin) (passphrase : Text) (now : DateTime) (salt : Fin 16 → UInt8)
    (nonce : Nat) : Except Exc Bytes := do
  let passphrase ← checkPassphrase P passphrase
  let key ← deriveKey P C passphrase (newParams salt)
  return sealWithKey P C found key (newParams salt) now nonce

/-! ### Opening -/

def notReadable : Exc := .bundleUnreadable "The sealed logins are not readable."

/-- `str(value)` -/
def strOf : Json → Except Exc Text
  | .str t => .ok t
  | value => (P.str value).elim (.error .recursion) .ok

/-- `version != _VERSION` is false: a number may be 1 in other ways. -/
def readableVersion : Option Json → Bool
  | some (.int n) => n = 1
  | some (.bool b) => b
  | some (.float d) => d.readsAs 1
  | _ => false

/-- The parameters that a reader derives a key with. -/
def checkedParams (n r p : Option Json) (salt : List Nat) : Option KeyParams :=
  match n, r, p with
  | some (.int n), some (.int r), some (.int p) =>
    if 2 ≤ n ∧ n.toNat &&& (n.toNat - 1) = 0 ∧ 1 ≤ r ∧ 1 ≤ p ∧ p ≤ maxScryptP ∧ 128 * n * r ≤ maxScryptMemory ∧
        8 ≤ salt.length then
      some ⟨n.toNat, r.toNat, p.toNat, salt⟩
    else none
  | _, _, _ => none

/-- What a bundle holds besides its parameters: `sealed_at` and `sealed`. -/
structure Envelope where
  sealedAt : Text
  token : Text

/-- `_parse` of what `json.loads` has made of the bytes -/
def parseBundle (bundle : Json) : Except Exc (Envelope × KeyParams) :=
  match bundle.get? (text "format") with
  | some (.str given) =>
    if given ≠ format then .error (.bundleUnreadable "The file is not a set of sealed device logins.")
    else if !readableVersion (bundle.get? (text "version")) then
      .error (.bundleUnreadable ("The device logins were sealed by a newer version of OpenAVC. Update this system, " ++
        "then import the file again."))
    else match bundle.get? (text "kdf") with
      | some (.obj kdf) =>
        if (kdf.lookup (text "name")).bind Json.asStr ≠ some (text "scrypt") then
          .error (.bundleUnreadable "The sealed logins name a key method this version does not know.")
        else do
          let t ← strOf P ((kdf.lookup (text "salt")).getD (.str []))
          match Base64.decode t with
          | none => .error notReadable
          | some salt =>
            match checkedParams (kdf.lookup (text "n")) (kdf.lookup (text "r")) (kdf.lookup (text "p")) salt with
            | none => .error (.bundleUnreadable "The sealed logins ask for a key this version will not derive.")
            | some params =>
              match bundle.get? (text "sealed"), bundle.get? (text "sealed_at") with
              | some (.str token), some (.str sealedAt) => .ok (⟨sealedAt, token⟩, params)
              | _, _ => .error notReadable
      | _ => .error (.bundleUnreadable "The sealed logins name a key method this version does not know.")
  | _ => .error (.bundleUnreadable "The file is not a set of sealed device logins.")

/-- `_parse` -/
def parse (raw : Bytes) : Except Exc (Envelope × KeyParams) :=
  if maxBundleBytes < raw.length then .error (.bundleUnreadable "The sealed logins are larger than any export makes.")
  else match decodeStrict raw with
    | none => .error notReadable
    | some t =>
      match Json.loads P.stack t with
      | .error .value => .error notReadable
      | .error .recursion => .error .recursion
      | .ok bundle => parseBundle P bundle

/-- `read_info` -/
def readInfo (raw : Bytes) : Except Exc Text := do
  let (bundle, _) ← parse P raw
  return bundle.sealedAt

/-- The login of one item of a payload, where it has one. -/
def loginFrom (kind : Logins.Kind) (item : Json) : Option FoundLogin :=
  match item, ownerFrom item kind, item.get? (text "fields") with
  | .obj _, some owner, some (.obj fields) =>
    match fields.filterMap fun u => u.2.asStr.bind fun v => if v ≠ [] then some (u.1, v) else none with
    | [] => none
    | kept => some ⟨owner, kept⟩
  | _, _, _ => none

/-- The logins of a payload. -/
def loginsFrom (payload : Json) : List FoundLogin :=
  payloadLists.flatMap fun l =>
    match payload.get? l.2 with
    | some (.arr items) => items.filterMap (loginFrom l.1)
    | _ => []

/-- The payload of a bundle, where the passphrase opens it. -/
def openPayload (token : Text) (params : KeyParams) (passphrase : Text) : Except Exc Json :=
  match deriveKey P C passphrase params with
  | .error _ => .error .wrongPassphrase
  | .ok key =>
    if token.any (128 ≤ ·) then .error .wrongPassphrase
    else match C.decrypt key token with
      | none => .error .wrongPassphrase
      | some t =>
        match Json.loads P.stack t with
        | .error .value => .error .wrongPassphrase
        | .error .recursion => .error .recursion
        | .ok payload => .ok payload

/-- `open_bundle` -/
def openBundle (raw : Bytes) (passphrase : Text) : Except Exc (List FoundLogin) := do
  let (bundle, params) ← parse P raw
  if passphrase = [] then throw .wrongPassphrase
  let payload ← openPayload P C bundle.token params passphrase
  return loginsFrom payload

end

end OpenAvc.Bundle
