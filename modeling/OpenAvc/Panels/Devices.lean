import OpenAvc.Data.Json
import Mathlib.Data.List.Infix

namespace OpenAvc.Panels

inductive Status
  | pending
  | approved
  | denied
  deriving DecidableEq

/-- A second of the monotonic clock, which counts in nanoseconds. -/
def second : Int := 1000000000

def pendingTtl : Int := 15 * 60 * second

def deniedTtl : Int := 24 * 60 * 60 * second

def handoffTtl : Int := 15 * 60 * second

def maxPending : Nat := 50

def maxPendingPerAddress : Nat := 3

def lastSeenWriteInterval : Int := 5 * 60 * second

def cookieMaxAge : Nat := 34560000

def pendingCookieMaxAge : Nat := 24 * 60 * 60

/-- In seconds of the wall clock. -/
def cookieReissueAfter : Int := 24 * 60 * 60

def userAgentMax : Nat := 256

def nameMax : Nat := 80

/-- The clocks as a call reads them: `time.monotonic()`, `time.time()` and
`_now_iso()`. -/
structure Now where
  monotonic : Int
  wall : Int
  stamp : Text

/-- What the standard library brings: the digest of a salt and a text, both
as base64, and `_parse_iso`. No two texts share a digest. -/
structure Library where
  digest : Text → Text → Text
  base64 : Text → Bool
  parseIso : Text → Option Int
  base64_plain : ∀ t, base64 t = true → 36 ∉ t
  base64_digest : ∀ salt t, base64 (digest salt t) = true
  digest_nonempty : ∀ salt t, digest salt t ≠ []
  digest_injective : ∀ salt t t', digest salt t = digest salt t' → t = t'

/-! Hashes. -/

section

variable (L : Library)

/-- `hash_api_key`, with the salt it draws. -/
def hashApiKey (salt plaintext : Text) : Text :=
  if plaintext = [] then []
  else text "sha256$" ++ salt ++ [36] ++ L.digest salt plaintext

def looksHashed (stored : Text) : Bool :=
  text "scrypt$" <+: stored ∨ text "sha256$" <+: stored

/-- `verify_api_key` -/
def verifyApiKey (provided stored : Text) : Bool :=
  if stored = [] then false
  else if !looksHashed stored then provided = stored
  else match stored.splitOn 36 with
    | [algo, salt, expected] =>
      if algo ≠ text "sha256" ∨ !L.base64 salt ∨ !L.base64 expected ∨ salt = [] ∨ expected = [] then false
      else L.digest salt provided = expected
    | _ => false

end

/-- `platform_label` -/
def platformLabel (userAgent : Text) : Text :=
  let has (word : String) : Bool := text word <:+: userAgent
  if has "iPad" then text "iPad"
  else if has "iPhone" then text "iPhone"
  else if has "Silk" then text "Fire tablet"
  else if has "Android" then if has "Mobile" then text "Android phone" else text "Android tablet"
  else if has "Windows" then text "Windows PC"
  else if has "CrOS" then text "Chromebook"
  else if has "Macintosh" then text "Mac or iPad"
  else if has "Linux" then text "Linux PC"
  else if userAgent ≠ [] then text "Browser"
  else text "Unknown device"

/-- `clean_name`; `none` for what is no text. -/
def cleanName (name : Option Text) : Text :=
  ([32].intercalate (((name.getD []).splitOnP isSpace).filter (· ≠ []))).take nameMax

structure PanelDevice where
  id : Text
  status : Status
  name : Text := []
  platform : Text := []
  userAgent : Text := []
  address : Text := []
  secretHash : Text := []
  code : Text := []
  firstSeen : Text := []
  approvedAt : Option Text := none
  approvedBy : Text := []
  lastSeen : Text := []
  cookieIssuedAt : Text := []
  deniedAt : Option Text := none
  lastCheckin : Int := 0
  statusSince : Int := 0
  handoffHash : Text := []
  handoffSecret : Text := []
  handoffUntil : Int := 0
  lastSeenWritten : Int := 0

namespace PanelDevice

def defaultName (d : PanelDevice) : Text :=
  if d.address ≠ [] then d.platform ++ text " at " ++ d.address else d.platform

/-- The status under which a device has a code that shows. -/
def live (d : PanelDevice) : Bool := d.status = .pending ∨ d.status = .denied

def toDisk (d : PanelDevice) : Json :=
  .obj [(text "id", .str d.id), (text "name", .str d.name), (text "platform", .str d.platform),
    (text "user_agent", .str d.userAgent), (text "address", .str d.address), (text "secret_hash", .str d.secretHash),
    (text "first_seen", .str d.firstSeen), (text "approved_at", (d.approvedAt.map Json.str).getD .null),
    (text "approved_by", .str d.approvedBy), (text "last_seen", .str d.lastSeen),
    (text "cookie_issued_at", .str d.cookieIssuedAt)]

/-- `from_disk` -/
def fromDisk (raw : Json) : Option PanelDevice :=
  let value (key : String) : Text := ((raw.get? (text key)).bind Json.asStr).getD []
  match raw.get? (text "id"), raw.get? (text "secret_hash") with
  | some (.str deviceId), some (.str secretHash) =>
    if ¬text "pd_" <+: deviceId ∨ secretHash = [] then none
    else some
      { id := deviceId
        status := .approved
        name := cleanName (some (value "name"))
        platform := value "platform"
        userAgent := (value "user_agent").take userAgentMax
        address := value "address"
        secretHash
        firstSeen := value "first_seen"
        approvedAt := (raw.get? (text "approved_at")).bind Json.asStr
        approvedBy := value "approved_by"
        lastSeen := value "last_seen"
        cookieIssuedAt := value "cookie_issued_at" }
  | _, _ => none

end PanelDevice

def cookieValue (deviceId secret : Text) : Text := deviceId ++ [46] ++ secret

/-- `split_cookie_value` -/
def splitCookieValue (value : Option Text) : Option (Text × Text) :=
  match value with
  | none => none
  | some v => match v.dropWhile (· ≠ 46) with
    | _ :: secret =>
      if ¬text "pd_" <+: v.takeWhile (· ≠ 46) ∨ secret = [] then none else some (v.takeWhile (· ≠ 46), secret)
    | [] => none

/-- Six digits shown as `482-915`. -/
def formatCode (number : Nat) : Text :=
  let digits (n : Nat) : Text := [48 + n / 100 % 10, 48 + n / 10 % 10, 48 + n % 10]
  digits (number / 1000) ++ [45] ++ digits (number % 1000)

/-- `panel_devices.json`, by the value its text reads as. -/
inductive File
  | missing
  | illegible
  | json (v : Json)

/-- A `PanelDeviceStore` and its file. -/
structure Store where
  devices : List (Text × PanelDevice) := []
  unreadable : Bool := false
  file : File := .missing

namespace Store

def fileContent (devices : List (Text × PanelDevice)) : Json :=
  let approved := (devices.map Prod.snd).filter fun d => d.status = .approved
  let sorted := approved.insertionSort fun d d' => [d.approvedAt.getD [], d.id] ≤ [d'.approvedAt.getD [], d'.id]
  .obj [(text "version", .int 1), (text "devices", .arr (sorted.map PanelDevice.toDisk))]

/-- `save`. A file that could not be read has been moved aside before. -/
def save (s : Store) : Store :=
  { s with
    unreadable := match s.file with
      | .missing => s.unreadable
      | _ => false
    file := .json (fileContent s.devices) }

/-- `load` -/
def load (s : Store) : Store :=
  let kept := s.devices.filter fun u => u.2.status ≠ .approved
  match s.file with
  | .missing => { s with devices := kept, unreadable := false }
  | .illegible => { s with devices := kept, unreadable := true }
  | .json data =>
    match data.get? (text "devices") with
    | some (.arr entries) =>
      { s with
        devices := entries.foldl (fun devices raw => match PanelDevice.fromDisk raw with
          | some device => Dict.set devices device.id device
          | none => devices) kept
        unreadable := false }
    | _ => { s with devices := kept, unreadable := true }

/-- A process started again on the same file. -/
def restart (s : Store) : Store :=
  load { file := s.file }

/-- The device under an id changed in place. -/
def update (s : Store) (deviceId : Text) (f : PanelDevice → PanelDevice) : Store :=
  { s with devices := s.devices.map fun u => if u.1 = deviceId then (u.1, f u.2) else u }

variable (L : Library)

/-- `verify` -/
def verify (s : Store) (value : Option Text) : Option PanelDevice :=
  match splitCookieValue value with
  | none => none
  | some parts => match s.devices.lookup parts.1 with
    | none => none
    | some device =>
      if device.status ≠ .approved then none
      else if !verifyApiKey L parts.2 device.secretHash then none
      else some device

inductive How
  | secret
  | handoff
  deriving DecidableEq

/-- `_match` -/
def matchValue (s : Store) (value : Option Text) (now : Int) : Option (PanelDevice × How) :=
  match splitCookieValue value with
  | none => none
  | some parts => match s.devices.lookup parts.1 with
    | none => none
    | some device =>
      if verifyApiKey L parts.2 device.secretHash then some (device, .secret)
      else if device.handoffHash ≠ [] ∧ now < device.handoffUntil ∧ verifyApiKey L parts.2 device.handoffHash then
        some (device, .handoff)
      else none

inductive Answer
  | approved
  | pending
  | denied
  | unavailable
  deriving DecidableEq

structure CheckIn where
  status : Answer
  device : Option PanelDevice := none
  setCookie : Option Text := none
  cookieMaxAge : Nat := 0
  created : Bool := false

/-- What a call draws at random. -/
structure Draw where
  id : Text
  secret : Text
  salt : Text
  code : Nat

/-- `_touch` -/
def touchDevice (s : Store) (device : PanelDevice) (now : Now) : Store :=
  if now.monotonic - device.lastSeenWritten ≥ lastSeenWriteInterval then
    save (s.update device.id fun d => { d with lastSeen := now.stamp, lastSeenWritten := now.monotonic })
  else s.update device.id fun d => { d with lastSeen := now.stamp }

def issued (now : Now) (d : PanelDevice) : PanelDevice :=
  { d with
    lastCheckin := now.monotonic, cookieIssuedAt := now.stamp, lastSeen := now.stamp
    lastSeenWritten := now.monotonic }

def seen (now : Now) (d : PanelDevice) : PanelDevice :=
  { d with lastCheckin := now.monotonic }

def seenWaiting (now : Now) (d : PanelDevice) : PanelDevice :=
  { d with lastCheckin := now.monotonic, lastSeen := now.stamp }

/-- `check_in` of a device that was recognised. -/
def checkInKnown (s : Store) (value : Option Text) (now : Now) (device : PanelDevice) (how : How) : CheckIn × Store :=
  let answer (status : Answer) (setCookie : Option Text) (after : Store) : CheckIn × Store :=
    ({ status, device := after.devices.lookup device.id, setCookie
       cookieMaxAge := if setCookie.isSome then Panels.cookieMaxAge else 0 }, after)
  match device.status with
  | .approved => match how with
    | .handoff =>
      -- the handoff is kept: the device may lose the cookie and come back with the pending one
      answer .approved (some (cookieValue device.id device.handoffSecret)) (save (s.update device.id (issued now)))
    | .secret =>
      if (L.parseIso device.cookieIssuedAt).all fun earlier => now.wall - earlier ≥ cookieReissueAfter then
        answer .approved value (save (s.update device.id (issued now)))
      else answer .approved none (touchDevice (s.update device.id (seen now)) device now)
  | .denied => answer .denied none (s.update device.id (seenWaiting now))
  | .pending => answer .pending none (s.update device.id (seenWaiting now))

def pendings (s : Store) : List PanelDevice :=
  (s.devices.map Prod.snd).filter fun d => d.status = .pending

/-- The codes that `_new_code` does not give. -/
def liveCodes (s : Store) : List Text :=
  ((s.devices.map Prod.snd).filter PanelDevice.live).map PanelDevice.code

/-- The record of a device that is new. -/
def newDevice (address userAgent : Text) (now : Now) (draw : Draw) : PanelDevice :=
  { id := draw.id
    status := .pending
    platform := platformLabel userAgent
    userAgent := userAgent.take userAgentMax
    address
    secretHash := hashApiKey L draw.salt draw.secret
    code := formatCode draw.code
    firstSeen := now.stamp
    lastSeen := now.stamp
    lastCheckin := now.monotonic
    statusSince := now.monotonic }

/-- `check_in` -/
def checkIn (s : Store) (value : Option Text) (address userAgent : Text) (now : Now) (draw : Draw) : CheckIn × Store :=
  match matchValue L s value now.monotonic with
  | some (device, how) => checkInKnown L s value now device how
  | none =>
    if maxPending ≤ s.pendings.length then ({ status := .unavailable }, s)
    else if maxPendingPerAddress ≤ (s.pendings.filter fun d => d.address = address).length then
      ({ status := .unavailable }, s)
    else
      let device := newDevice L address userAgent now draw
      ({ status := .pending, device := some device, setCookie := some (cookieValue draw.id draw.secret)
         cookieMaxAge := pendingCookieMaxAge, created := true },
        { s with devices := Dict.set s.devices device.id device })

/-- `touch` -/
def touch (s : Store) (deviceId : Text) (now : Now) : Store :=
  match s.devices.lookup deviceId with
  | some device => if device.status ≠ .approved then s else touchDevice s device now
  | none => s

/-- What `approve` makes of a record that is not approved yet. -/
def approveDevice (name : Option Text) (approvedBy : Text) (now : Now) (secret salt : Text) (d : PanelDevice) :
    PanelDevice :=
  { d with
    handoffHash := d.secretHash
    handoffSecret := secret
    handoffUntil := now.monotonic + handoffTtl
    secretHash := hashApiKey L salt secret
    status := .approved
    statusSince := now.monotonic
    approvedAt := some now.stamp
    approvedBy
    lastSeen := now.stamp
    lastSeenWritten := now.monotonic
    deniedAt := none
    name := if cleanName name ≠ [] then cleanName name else d.defaultName }

/-- `approve`; `none` for a `KeyError`. -/
def approve (s : Store) (deviceId : Text) (name : Option Text) (approvedBy : Text) (now : Now) (secret salt : Text) :
    Option (PanelDevice × Text) × Store :=
  match s.devices.lookup deviceId with
  | none => (none, s)
  | some device =>
    if device.status = .approved then
      let after := if cleanName name ≠ [] then save (s.update deviceId fun d => { d with name := cleanName name }) else s
      ((after.devices.lookup deviceId).map (·, device.handoffSecret), after)
    else
      let after := save (s.update deviceId (approveDevice L name approvedBy now secret salt))
      ((after.devices.lookup deviceId).map (·, secret), after)

/-- `mark_delivered` -/
def markDelivered (s : Store) (deviceId : Text) (now : Now) : Store :=
  match s.devices.lookup deviceId with
  | some device =>
    if device.status = .approved then save (s.update deviceId fun d => { d with cookieIssuedAt := now.stamp }) else s
  | none => s

def denyDevice (now : Now) (d : PanelDevice) : PanelDevice :=
  { d with status := .denied, statusSince := now.monotonic, deniedAt := some now.stamp }

/-- `deny`; `none` for a `KeyError` or the `ValueError` of an approved panel. -/
def deny (s : Store) (deviceId : Text) (now : Now) : Option PanelDevice × Store :=
  match s.devices.lookup deviceId with
  | none => (none, s)
  | some device =>
    if device.status = .approved then (none, s)
    else (some (denyDevice now device), s.update deviceId (denyDevice now))

/-- `revoke`; `none` for a `KeyError`. -/
def revoke (s : Store) (deviceId : Text) : Option PanelDevice × Store :=
  match s.devices.lookup deviceId with
  | none => (none, s)
  | some device =>
    let left := { s with devices := s.devices.filter fun u => u.1 ≠ deviceId }
    (some device, if device.status = .approved then save left else left)

/-- `rename`; `none` for a `KeyError` or the `ValueError` of an empty name. -/
def rename (s : Store) (deviceId : Text) (name : Text) : Option PanelDevice × Store :=
  match s.devices.lookup deviceId with
  | none => (none, s)
  | some device =>
    if cleanName (some name) = [] then (none, s)
    else
      let named := s.update deviceId fun d => { d with name := cleanName (some name) }
      (some { device with name := cleanName (some name) }, if device.status = .approved then save named else named)

/-- What `expire` leaves of a record. -/
def expireDevice (now : Int) (d : PanelDevice) : Option PanelDevice :=
  match d.status with
  | .pending => if now - d.lastCheckin ≥ pendingTtl then none else some d
  | .denied => if now - d.statusSince ≥ deniedTtl then none else some d
  | .approved =>
    if d.handoffHash ≠ [] ∧ now ≥ d.handoffUntil then
      some { d with handoffHash := [], handoffSecret := [], handoffUntil := 0 }
    else some d

/-- `expire`, and what it drops. -/
def expire (s : Store) (now : Int) : List PanelDevice × Store :=
  ((s.devices.map Prod.snd).filter fun d => (expireDevice now d).isNone,
    { s with devices := s.devices.filterMap fun u => (expireDevice now u.2).map (u.1, ·) })

end Store

end OpenAvc.Panels
