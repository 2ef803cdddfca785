import Mathlib.Data.List.Lex
import Mathlib.Data.Prod.Lex
import Mathlib.Order.BooleanAlgebra.Basic
import OpenAvc.Data.Fnmatch
import OpenAvc.Data.StableSort

/-! `TierMatcher`: which drivers the signals of a discovered device identify. -/

namespace OpenAvc.Discovery

open StableSort

/-- `str`, `str.lower`, and whether a host name has a match of a pattern. -/
structure Python where
  str : Json → Text
  lower : Text → Text
  search : Text → Text → Bool

inductive SignalTier
  | passiveListener
  | broadcastProbe
  | activeProbe
  | enrichment
  deriving DecidableEq

/-- The position of a strong tier in `_STRONG_TIERS`. -/
def SignalTier.strong? : SignalTier → Option Nat
  | .passiveListener => some 0
  | .broadcastProbe => some 1
  | .activeProbe => some 2
  | .enrichment => none

/-- The kinds of rules. -/
inductive Kind
  | mdns
  | ssdp
  | amxDdp
  | broadcast
  | activeProbe
  | oui
  | snmpPen
  | hostname
  | openPort
  | vendorString
  deriving DecidableEq

def Kind.name : Kind → Text
  | .mdns => text "mdns"
  | .ssdp => text "ssdp"
  | .amxDdp => text "amx_ddp"
  | .broadcast => text "broadcast"
  | .activeProbe => text "probe"
  | .oui => text "oui"
  | .snmpPen => text "snmp_pen"
  | .hostname => text "hostname"
  | .openPort => text "open_port"
  | .vendorString => text "vendor_string"

/-- `KIND_CONNECTED` -/
def kindConnected : Text :=
  text "connected"

/-- `_STRONG_KINDS` -/
def strongKinds : List Kind :=
  [.mdns, .ssdp, .amxDdp, .broadcast, .activeProbe]

/-- The kind of a record that can satisfy a strong rule. -/
def strongKind? (kind : Text) : Option Kind :=
  strongKinds.find? fun k => k.name = kind

/-- A record of the evidence log, known by `ref`. -/
structure Evidence where
  ref : Nat
  tier : SignalTier
  source : Text
  data : List (Text × Json)

/-- `ev.data.get(key)` -/
def Evidence.get (ev : Evidence) (key : String) : Json :=
  (ev.data.lookup (text key)).getD .null

structure SignalRule where
  driverId : Text
  kind : Kind
  sourceId : Text
  txtMatch : List (Text × Text) := []
  generic : Bool := false
  deriving DecidableEq

/-- `f"{kind}:{source_id}"` -/
def label (kind : Kind) (sourceId : Text) : Text :=
  kind.name ++ text ":" ++ sourceId

/-- `_rules` with its buckets, and the rules for host names. -/
structure SignalIndex where
  rules : List ((Kind × Text) × List SignalRule) := []
  hostnameRules : List SignalRule := []

structure DriverProfile where
  category : Text := []
  models : List Text := []

variable (py : Python)

/-- `_normalize_service_type` -/
def normalizeServiceType (service : Text) : Text :=
  let s := service.strip
  py.lower (if s.getLast? = some 46 then s else s ++ [46])

def isHexDigit (c : Nat) : Bool :=
  isDigit c || (97 ≤ c && c ≤ 102)

/-- `_hex_digits` -/
def hexDigits (value : Text) : Text :=
  (py.lower value.strip).filter isHexDigit

/-- `_colon_form` -/
def colonForm : Text → Text
  | [] => []
  | [c] => [c]
  | [c, d] => [c, d]
  | c :: d :: rest => c :: d :: 58 :: colonForm rest

/-- `OUI_BLOCK_DIGITS` -/
def ouiBlockDigits : List Nat :=
  [9, 7, 6]

/-- `mac_prefix_keys` -/
def macPrefixKeys (value : Text) : List Text :=
  (ouiBlockDigits.filter fun n => n ≤ (hexDigits py value).length).map fun n => colonForm ((hexDigits py value).take n)

/-- `_txt_match_satisfied` -/
def txtMatchSatisfied (required : List (Text × Text)) (observed : List (Text × Text)) : Bool :=
  required.all fun (key, expected) => (observed.lookup key).any fun actual => py.lower actual = py.lower expected

/-- `{k.lower(): str(v) for k, v in (txt or {}).items()}` -/
def observedFields (txt : List (Text × Json)) : List (Text × Text) :=
  txt.foldl (fun observed (k, v) => Dict.set observed (py.lower k) (py.str v)) []

namespace SignalIndex

variable (index : SignalIndex)

/-- `_find_amx_ddp_globs` -/
def findAmxDdpGlobs (sourceId : Text) (observedTxt : List (Text × Text)) : List SignalRule :=
  let observed := py.lower sourceId.strip
  let matching := (index.rules.filter fun (key, _) => key.1 = .amxDdp).flatMap fun (_, bucket) =>
    bucket.filter fun rule => Fnmatch.fnmatch id observed (py.lower rule.sourceId.strip) &&
      txtMatchSatisfied py rule.txtMatch observedTxt
  let rank (rule : SignalRule) : ℤ ×ₗ ℕ ×ₗ Text :=
    let pat := py.lower rule.sourceId.strip
    let wildcards := pat.count 42 + pat.count 63 + pat.count 91
    toLex ((pat.length : ℤ) - wildcards, toLex (rule.txtMatch.length, pat))
  sortedBy (fun rule => OrderDual.toDual (rank rule)) (sortedBy (·.driverId) matching)

/-- `_normalize_source_for_kind`, for a strong kind -/
def normalizeSourceForKind (kind : Kind) (sourceId : Text) : Text :=
  if kind = .mdns then normalizeServiceType py sourceId else sourceId

/-- `find_strong_all` -/
def findStrongAll (kind : Text) (sourceId : Text) (txt : List (Text × Json)) : List SignalRule :=
  match strongKind? kind with
  | none => []
  | some .amxDdp => index.findAmxDdpGlobs py sourceId (observedFields py txt)
  | some kind =>
    let bucket := (index.rules.lookup (kind, normalizeSourceForKind py kind sourceId)).getD []
    let matching := bucket.filter fun r => txtMatchSatisfied py r.txtMatch (observedFields py txt)
    sortedBy (fun r => (toLex (-(r.txtMatch.length : ℤ), r.driverId) : ℤ ×ₗ Text)) matching

def driversOf (kind : Kind) (sourceId : Text) : List Text :=
  ((index.rules.lookup (kind, sourceId)).getD []).map (·.driverId)

/-- `find_soft_oui_block` -/
def findSoftOuiBlock (mac : Text) : Text × List Text :=
  let keys := if mac = [] then [] else macPrefixKeys py mac
  match keys.find? fun key => index.driversOf .oui key ≠ [] with
  | some key => (key, index.driversOf .oui key)
  | none => (keys.getLast?.getD [], [])

/-- `find_soft_vendor_string` -/
def findSoftVendorString (value : Text) : List Text :=
  let normalized := py.lower value.strip
  if normalized = [] then [] else index.driversOf .vendorString normalized

/-- `find_soft_hostname` -/
def findSoftHostname (hostname : Text) : List Text :=
  if hostname = [] then [] else (index.hostnameRules.filter fun rule => py.search rule.sourceId hostname).map (·.driverId)

end SignalIndex

/-- `strong_rules` -/
def strongRules (ev : Evidence) (index : SignalIndex) : List SignalRule :=
  match ev.get "kind", ev.get "source_id" with
  | .str kind, .str sourceId =>
    index.findStrongAll py kind sourceId (match ev.get "txt" with | .obj txt => txt | _ => [])
  | _, _ => []

/-- `soft_signal_hits` -/
def softSignalHits (ev : Evidence) (index : SignalIndex) : Option (Text × List Text) :=
  let number (kind : Kind) : Option (Text × List Text) :=
    -- a truth value is an `int`, too
    match ev.get "value" with
    | .int n => some (label kind (py.str (.int n)), index.driversOf kind (py.str (.int n)))
    | .bool b => some (label kind (py.str (.bool b)), index.driversOf kind (py.str (.bool b)))
    | _ => none
  match ev.get "kind" with
  | .str kind =>
    if kind = Kind.oui.name then
      match ev.get "value" with
      | .str value =>
        let (found, drivers) := index.findSoftOuiBlock py (match ev.get "mac" with
          | .str mac => if mac = [] then value else mac
          | _ => value)
        some (label .oui found, drivers)
      | _ => none
    else if kind = Kind.snmpPen.name then number .snmpPen
    else if kind = Kind.hostname.name then
      match ev.get "value" with
      | .str value => some (label .hostname value, index.findSoftHostname py value)
      | _ => none
    else if kind = Kind.openPort.name then number .openPort
    else if kind = Kind.vendorString.name then
      match ev.get "value" with
      | .str value => some (label .vendorString value, index.findSoftVendorString py value)
      | _ => none
    else none
  | _ => none

/-- `_model_key` -/
def modelKey (model : Text) : Text :=
  (py.lower model).filter fun c => isDigit c || (97 ≤ c && c ≤ 122)

/-- A field of a dict. -/
def dictField (src : Json) (key : String) : Json :=
  (src.get? (text key)).getD .null

/-- `device_info_from_evidence(ev).get(key)`, for a key that has no other name -/
def deviceInfo (ev : Evidence) (key : String) : Json :=
  let response := ev.get "response"
  let given := [dictField response key, dictField (dictField response "extracted") key, dictField (ev.get "txt") key]
  (given.find? fun value => match value with | .null => false | _ => true).getD .null

/-- Is the field a claim of the driver? -/
def driverSupplied (ev : Evidence) (key : String) : Bool :=
  match ev.get "driver_supplied" with
  | .arr fields => fields.any fun field => match field with | .str name => name = text key | _ => false
  | _ => false

/-- `_reported_by_device`: the categories -/
def reportedCategories (log : List Evidence) : List Text :=
  log.filterMap fun ev => match deviceInfo ev "category" with
    | .str category =>
      if category.strip ≠ [] ∧ driverSupplied ev "category" = false then some (py.lower category.strip) else none
    | _ => none

/-- `_reported_by_device`: the models -/
def reportedModels (log : List Evidence) : List Text :=
  log.filterMap fun ev => match deviceInfo ev "model" with
    | .str model =>
      if modelKey py model ≠ [] ∧ driverSupplied ev "model" = false then some (modelKey py model) else none
    | _ => none

inductive DeviceState
  | identified
  | possible
  | unknown
  deriving DecidableEq

structure IdentificationMatch where
  state : DeviceState
  driverId : Option Text := none
  candidates : List Text := []
  alternatives : List Text := []
  source : Text := []
  reason : Text := []
  evidence : List Evidence := []

/-- A satisfied rule with its place among those of its record. -/
structure Hit where
  position : Nat
  rule : SignalRule
  ev : Evidence

structure TierMatcher where
  index : SignalIndex := {}
  profiles : List (Text × DriverProfile) := []

namespace TierMatcher

variable (m : TierMatcher)

/-- `fit` -/
def fit (log : List Evidence) (driverId : Text) : Nat :=
  match m.profiles.lookup driverId with
  | none => 0
  | some profile =>
    if (reportedModels py log).any fun model => profile.models.contains model then 2
    else if profile.category ≠ [] ∧ profile.category ∈ reportedCategories py log then 1 else 0

/-- The rules that the records of the strong tiers satisfy. -/
def satisfied (log : List Evidence) : List Hit :=
  log.flatMap fun ev => if ev.tier.strong?.isSome then
    (strongRules py ev m.index).zipIdx.map fun (rule, position) => ⟨position, rule, ev⟩ else []

/-- What the hits are sorted by. -/
def rank (log : List Evidence) (hit : Hit) : Bool ×ₗ ℕ ×ₗ ℕ ×ₗ ℤ ×ₗ Text ×ₗ Text :=
  toLex (hit.rule.generic, toLex (hit.ev.tier.strong?.getD 0, toLex (hit.position,
    toLex (-(m.fit py log hit.rule.driverId : ℤ), toLex (hit.rule.driverId, hit.ev.source)))))

/-- `_strong_hits` -/
def strongHits (log : List Evidence) : List Hit :=
  onceEach (·.rule.driverId) [] (sortedBy (m.rank py log) (m.satisfied py log))

/-- `_collect_soft_signal_results` -/
def collectSoftSignalResults (log : List Evidence) : List (Text × List Text) :=
  (log.filter fun ev => ev.tier = .enrichment).filterMap fun ev =>
    (softSignalHits py ev m.index).filter fun hit => hit.2 ≠ []

/-- The soft signals, the one with the fewest drivers first. -/
def narrowestFirst (results : List (Text × List Text)) : List (Text × List Text) :=
  sortedBy (fun r => (toLex (r.2.length, r.1) : ℕ ×ₗ Text)) results

/-- `_pick_demotion_target` -/
def pickDemotionTarget (log : List Evidence) (anchors : List Text) : List Text × Text :=
  match narrowestFirst (m.collectSoftSignalResults py log) with
  | [] => ([], [])
  | (source, hits) :: broader =>
    if hits.filter (· ∉ anchors) = [] then ([], [])
    else (onceEach id [] ((hits ++ broader.flatMap (·.2)).filter (· ∉ anchors)), source)

/-- `_gather_soft_candidates` -/
def gatherSoftCandidates (log : List Evidence) : List Text × Text :=
  match narrowestFirst (m.collectSoftSignalResults py log) with
  | [] => ([], [])
  | (source, candidates) :: broader =>
    let ordered := onceEach id [] (candidates ++ broader.flatMap (·.2))
    (ordered.filter (· ∈ candidates) ++ ordered.filter (· ∉ candidates), source)

/-- `_distinct_records` -/
def distinctRecords (records : List Evidence) : List Evidence :=
  onceEach (·.ref) [] records

/-- `_finalize_strong_match` -/
def finalizeStrongMatch (best : Hit) (others : List Hit) (log : List Evidence) : IdentificationMatch :=
  let strongEvidence := distinctRecords ((best :: others).map (·.ev))
  let bestSource := label best.rule.kind best.rule.sourceId
  let matched := (best :: others).map (·.rule.driverId)
  let plain : IdentificationMatch := {
    state := .identified, driverId := some best.rule.driverId, source := bestSource
    alternatives := matched.tail, evidence := strongEvidence }
  if best.rule.generic = false then plain
  else match m.pickDemotionTarget py log matched with
    | ([], _) => plain
    | (peer :: peers, softSource) => {
        state := .identified, driverId := some peer
        source := if softSource = [] then bestSource else softSource
        alternatives := peers ++ matched
        evidence := strongEvidence ++ log.filter fun e => e.tier = .enrichment }

/-- A record of a project device that is connected here, with its driver. -/
def connectedDriver? (ev : Evidence) : Option Text :=
  match ev.get "kind", ev.get "driver_id" with
  | .str kind, .str driverId => if kind = kindConnected ∧ driverId ≠ [] then some driverId else none
  | _, _ => none

/-- `match` -/
def identify (log : List Evidence) : IdentificationMatch :=
  match m.strongHits py log with
  | best :: others => m.finalizeStrongMatch py best others log
  | [] =>
    match log.find? fun ev => (connectedDriver? ev).isSome with
    | some connected => {
        state := .identified, driverId := connectedDriver? connected, source := connected.source
        evidence := [connected] }
    | none =>
      match m.gatherSoftCandidates py log with
      | ([], _) => { state := .unknown, reason := text "no_signal_matched", evidence := log }
      | (candidates, source) => {
          state := .possible, candidates := candidates, source := source
          evidence := log.filter fun ev => ev.tier = .enrichment }

end TierMatcher

end OpenAvc.Discovery
