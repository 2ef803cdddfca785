import OpenAvc.Cloud.Monitors
import OpenAvc.Data.Fnmatch
import OpenAvc.Run.Machine

/-! `AlertMonitor`: alert rules of the cloud and of the project, judged as the state changes. -/

namespace OpenAvc.Cloud

/-- A message that the monitor builds for the cloud. An alert of an absence rule has the device for its
key, and for its value the seconds that nothing was heard of it. -/
inductive AlertMessage
  | alert (id : Nat) (ruleId key : Text) (value : Primitive)
  | resolved (id : Nat) (ruleRemoved : Bool)

/-- The open alerts, the armed timers with the time they were armed, and what was built for the
cloud. Alerts are numbered as they are raised. -/
structure Alerts where
  active : List (Text × Nat) := []
  timers : List (Text × ℚ) := []
  nextAlert : Nat := 0
  built : List AlertMessage := []

/-- `f"rule:{rule['id']}:{key}"` -/
def alertKey (ruleId key : Text) : Text :=
  text "rule:" ++ ruleId ++ 58 :: key

/-- `alert_key.split(":")[1]` -/
def ruleIdOf (alertKey : Text) : Text :=
  (alertKey.drop 5).takeWhile (· ≠ 58)

/-- `alert_key.split(":", 2)[-1]` -/
def stateKeyOf (alertKey : Text) : Text :=
  ((alertKey.drop 5).dropWhile (· ≠ 58)).drop 1

namespace Alerts

def isOpen (s : Alerts) (alertKey : Text) : Bool :=
  (s.active.lookup alertKey).isSome

def isArmed (s : Alerts) (alertKey : Text) : Bool :=
  (s.timers.lookup alertKey).isSome

section

variable (py : Python) (s : Alerts)

/-- `_threshold_alert` and `_pattern_alert`, up to the text of the message. -/
def fire (rule : Rule) (key : Text) (value : Primitive) : Alerts :=
  { s with
    active := Dict.set s.active (alertKey rule.id key) s.nextAlert
    nextAlert := s.nextAlert + 1
    built := s.built ++ [.alert s.nextAlert rule.id key value] }

/-- `_active_alerts.pop`, and the message that the alert is over. -/
def resolve (alertKey : Text) (ruleRemoved : Bool) : Alerts :=
  { s with
    active := s.active.filter fun entry => entry.1 ≠ alertKey
    built := s.built ++ ((s.active.lookup alertKey).map fun id => AlertMessage.resolved id ruleRemoved).toList }

/-- `_pattern_timers.pop` -/
def disarm (alertKey : Text) : Alerts :=
  { s with timers := s.timers.filter fun entry => entry.1 ≠ alertKey }

/-- `_pattern_timers.setdefault` -/
def arm (alertKey : Text) (now : ℚ) : Alerts :=
  { s with timers := if s.isArmed alertKey then s.timers else s.timers ++ [(alertKey, now)] }

/-- `_evaluate_threshold` -/
def evaluateThreshold (rule : Rule) (key : Text) (value : Primitive) (now : ℚ) : Alerts :=
  let a := alertKey rule.id key
  if !Fnmatch.fnmatch py.normcase key rule.condition.key then s
  else if rule.condition.value.isNone then s
  else if rule.triggers py value then
    if s.isOpen a then s
    else if 0 < rule.duration then s.arm a now
    else s.fire rule key value
  else
    let s := s.disarm a
    if s.isOpen a ∧ rule.clears py value then s.resolve a false else s

/-- `_evaluate_pattern` -/
def evaluatePattern (rule : Rule) (key : Text) (value : Primitive) (now : ℚ) : Alerts :=
  let a := alertKey rule.id key
  if !Fnmatch.fnmatch py.normcase key rule.condition.key then s
  else if rule.triggers py value then
    if s.isOpen a then s
    else if 0 < rule.duration then s.arm a now
    else (s.disarm a).fire rule key value
  else
    let s := s.disarm a
    if s.isOpen a then s.resolve a false else s

/-- One rule is judged for one key. -/
def judge (rule : Rule) (key : Text) (value : Primitive) (now : ℚ) : Alerts :=
  match rule.ruleType with
  | .threshold => s.evaluateThreshold py rule key value now
  | .pattern => s.evaluatePattern py rule key value now
  | _ => s

/-- `_raise_what_is_already_wrong`; the store's `get_matching` is the filter. -/
def raiseWhatIsAlreadyWrong (store : List (Text × Primitive)) (rules : List Rule) (now : ℚ) : Alerts :=
  rules.foldl (fun s rule =>
    if !rule.enabled ∨ rule.condition.key = [] then s
    else (store.filter fun entry => Fnmatch.fnmatch py.normcase entry.1 rule.condition.key).foldl
      (fun s entry => s.judge py rule entry.1 entry.2 now) s) s

/-- What `_swap_rules` does to the alerts and timers of the rules that go. -/
def clearRemoved (old rules : List Rule) : Alerts :=
  let deleted := (old.map Rule.id).filter fun id => id ∉ rules.map Rule.id
  let s := ((s.active.map Prod.fst).filter fun a => ruleIdOf a ∈ deleted).foldl (fun s a => s.resolve a true) s
  { s with timers := s.timers.filter fun entry => ruleIdOf entry.1 ∉ deleted }

end

end Alerts

/-- Where the periodic check is: what it has still to come to of the timers, of the absence rules, and
of the devices for one of these. -/
inductive Check
  | idle
  | timers (left : List (Text × ℚ))
  | rules (left : List Rule)
  | devices (rule : Rule) (left : List (Text × ℚ)) (rest : List Rule)

/-- The monitor, with the state store it listens to. `monitors` is what the project's rules were
compiled from, and `tickedAt` the time the periodic check began. -/
structure AlertMonitor where
  store : List (Text × Primitive)
  running : Bool := false
  rules : List Rule := []
  monitors : List Monitor := []
  projectRules : List Rule := []
  alerts : Alerts := {}
  lastStateTimes : List (Text × ℚ) := []
  check : Check := .idle
  tickedAt : ℚ := 0

/-- `PRESENCE_PROPS` -/
def presenceProps : List Text :=
  [text "connected", text "online", text "offline_reason", text "offline_detail", text "reconnect_attempt"]

/-- `QUIET_FLAGS` -/
def quietFlags : List Text :=
  [text "asleep", text "restarting"]

/-- The last part of the key is a presence property. -/
def isPresence (key : Text) : Bool :=
  (splitDots key.length key).getLast?.any (· ∈ presenceProps)

def Primitive.truthy : Primitive → Bool
  | .none => false
  | .bool b => b
  | .int n => n ≠ 0
  | .float d => d.value ≠ 0
  | .nonFinite _ => true
  | .str s => s ≠ []

/-- `int(x)` -/
def truncated (x : ℚ) : Int :=
  x.num.tdiv x.den

/-- `_matches_key_prefix` -/
def matchesKeyPrefix (py : Python) (key keyPrefix : Text) : Bool :=
  if keyPrefix.any (· ∈ text "*?[") then Fnmatch.fnmatch py.normcase key keyPrefix
  else keyPrefix.isPrefixOf key

/-- `condition.get("key_prefix") or "device."` -/
def Rule.keyPrefix (rule : Rule) : Text :=
  if rule.condition.keyPrefix = [] then text "device." else rule.condition.keyPrefix

/-- `_sanitize_rules` -/
def sanitizeRules (py : Python) (rules : List Rule) : List Rule :=
  rules.filter fun rule =>
    rule.id ≠ [] ∧ ¬(rule.condition.operator = some .isMatch ∧ py.refused (rule.condition.value.str py))

namespace AlertMonitor

section

variable (py : Python) (s : AlertMonitor)

/-- `_quiet_device`; the device manager knows which devices are away on purpose. -/
def quietDevice (away : List Text) (deviceId : Text) : Bool :=
  quietFlags.any (fun flag => (s.store.lookup (text "device." ++ deviceId ++ text "." ++ flag)).any Primitive.truthy) ||
    deviceId ∈ away

/-- `_quiet_presence_key` -/
def quietPresenceKey (away : List Text) (key : Text) : Bool :=
  match splitDots key.length key with
  | device :: deviceId :: _ :: _ => device = text "device" && isPresence key && s.quietDevice away deviceId
  | _ => false

/-- `_all_rules` -/
def allRules : List Rule :=
  s.rules ++ s.projectRules

/-- `_evaluate` -/
def evaluate (key : Text) (value : Primitive) (now : ℚ) (away : List Text) : AlertMonitor :=
  let quiet := s.quietPresenceKey away key
  { s with alerts := s.allRules.foldl (fun alerts rule =>
      if !rule.enabled then alerts
      else if quiet then alerts.disarm (alertKey rule.id key)
      else alerts.judge py rule key value now) s.alerts }

/-- `_evaluate_presence` -/
def evaluatePresence (deviceId : Text) (now : ℚ) (away : List Text) : AlertMonitor :=
  ((s.store.filter fun entry => Fnmatch.fnmatch py.normcase entry.1 (text "device." ++ deviceId ++ text ".*")).filter
    fun entry => isPresence entry.1).foldl (fun s entry => s.evaluate py entry.1 entry.2 now away) s

/-- The part of `_on_state_change` that is about a device that is no longer quiet. -/
def onQuietChange (key : Text) (value : Primitive) (now : ℚ) (away : List Text) : AlertMonitor :=
  match splitDots key.length key with
  | [device, deviceId, flag] =>
    if device = text "device" ∧ flag ∈ quietFlags ∧ !value.truthy then s.evaluatePresence py deviceId now away else s
  | _ => s

/-- The part of it that is about when a device was last heard of. -/
def hear (key : Text) (now : ℚ) : AlertMonitor :=
  match splitDots key.length key with
  | device :: deviceId :: _ =>
    if device = text "device" then { s with lastStateTimes := Dict.set s.lastStateTimes deviceId now } else s
  | _ => s

/-- `_on_state_change` -/
def onStateChange (key : Text) (value : Primitive) (now : ℚ) (away : List Text) : AlertMonitor :=
  if isCloudExcludedKey key then s
  else ((s.hear key now).onQuietChange py key value now away).evaluate py key value now away

/-- `_on_rules_update_sync` -/
def pushRules (raw : List Rule) (now : ℚ) : AlertMonitor :=
  let rules := sanitizeRules py raw
  { s with
    rules
    alerts := (s.alerts.clearRemoved s.rules rules).raiseWhatIsAlreadyWrong py s.store rules now }

/-- `_reload_project_rules` -/
def reloadProjectRules (monitors : List Monitor) (now : ℚ) : AlertMonitor :=
  let rules := sanitizeRules py (compileAlertRules py monitors)
  { s with
    monitors
    projectRules := rules
    alerts := (s.alerts.clearRemoved s.projectRules rules).raiseWhatIsAlreadyWrong py s.store rules now }

/-- `start` -/
def start (monitors : List Monitor) (now : ℚ) : AlertMonitor :=
  let s := { s with running := true }.reloadProjectRules py monitors now
  { s with alerts := s.alerts.raiseWhatIsAlreadyWrong py s.store s.rules now }

/-- The value is set in the store, and the monitor hears of it while it runs. -/
def set (key : Text) (value : Primitive) (now : ℚ) (away : List Text) : AlertMonitor :=
  if (s.store.lookup key).any (·.unchanged value) then s
  else
    let s := { s with store := Dict.set s.store key value }
    if s.running then s.onStateChange py key value now away else s

def delete (key : Text) (now : ℚ) (away : List Text) : AlertMonitor :=
  if (s.store.lookup key).isNone then s
  else
    let s := { s with store := s.store.filter fun entry => entry.1 ≠ key }
    if s.running then s.onStateChange py key .none now away else s

/-- `_find_rule_from_key` -/
def findRuleFromKey (alertKey : Text) : Option Rule :=
  s.allRules.find? fun rule => rule.id = ruleIdOf alertKey

/-- What `_run_periodic_checks` does with one of the timers it found. -/
def checkTimer (timer : Text × ℚ) (away : List Text) : Alerts :=
  if s.alerts.isOpen timer.1 then s.alerts
  else
    match s.findRuleFromKey timer.1 with
    | none => s.alerts.disarm timer.1
    | some rule =>
      let key := stateKeyOf timer.1
      if s.tickedAt - timer.2 < rule.duration then s.alerts
      else if s.quietPresenceKey away key then s.alerts.disarm timer.1
      else s.alerts.fire rule key ((s.store.lookup key).getD .none)

/-- The enabled absence rules. -/
def absenceRules : List Rule :=
  s.allRules.filter fun rule => rule.ruleType = .absence ∧ rule.enabled

/-- What `_run_periodic_checks` forgets: devices that it has not heard of for longer than any rule waits. -/
def pruned : List (Text × ℚ) :=
  let maxAbsence := s.absenceRules.foldl (fun longest rule => max longest (truncated rule.condition.thresholdSeconds)) 0
  let staleCutoff := s.tickedAt - max 86400 (maxAbsence + 60)
  s.lastStateTimes.filter fun entry => ¬entry.2 < staleCutoff

/-- What it does with one of the devices for an absence rule. -/
def checkDevice (rule : Rule) (device : Text × ℚ) (away : List Text) : Alerts :=
  let a := alertKey rule.id device.1
  if !matchesKeyPrefix py (text "device." ++ device.1) rule.keyPrefix then s.alerts
  else if s.quietDevice away device.1 then s.alerts
  else if rule.condition.thresholdSeconds < s.tickedAt - device.2 then
    if s.alerts.isOpen a then s.alerts
    else s.alerts.fire rule device.1 (.int (truncated (s.tickedAt - device.2)))
  else if s.alerts.isOpen a then s.alerts.resolve a false
  else s.alerts

/-- `_run_periodic_checks`, as far as the next timer, rule or device. -/
def proceed (away : List Text) : Option AlertMonitor :=
  match s.check with
  | .idle => none
  | .timers (timer :: left) => some { s with alerts := s.checkTimer timer away, check := .timers left }
  | .timers [] => some { s with lastStateTimes := s.pruned, check := .rules s.absenceRules }
  | .rules (rule :: rest) => some { s with check := .devices rule s.lastStateTimes rest }
  | .rules [] => some { s with check := .idle }
  | .devices rule (device :: left) rest =>
    some { s with alerts := s.checkDevice py rule device away, check := .devices rule left rest }
  | .devices _ [] rest => some { s with check := .rules rest }

end

end AlertMonitor

/-- The periodic check sends an alert before it comes to the next timer or device, and suspends
there; `fail` is a send that raises an exception, which ends this check but not the loop. -/
inductive AlertLabel
  | start (monitors : List Monitor) (now : ℚ)
  | stop
  | set (key : Text) (value : Primitive) (now : ℚ) (away : List Text)
  | delete (key : Text) (now : ℚ) (away : List Text)
  | push (rules : List Rule) (now : ℚ)
  | reload (monitors : List Monitor) (now : ℚ)
  | tick (now : ℚ)
  | proceed (away : List Text)
  | fail

def Check.isIdle : Check → Bool
  | .idle => true
  | _ => false

def AlertMonitor.next (py : Python) (s : AlertMonitor) : AlertLabel → Option AlertMonitor
  | .start monitors now => if s.running then none else some (s.start py monitors now)
  | .stop => some { s with running := false, check := .idle }
  | .set key value now away => some (s.set py key value now away)
  | .delete key now away => some (s.delete py key now away)
  | .push rules now => if s.running then some (s.pushRules py rules now) else none
  | .reload monitors now => if s.running then some (s.reloadProjectRules py monitors now) else none
  | .tick now =>
    if s.running ∧ s.check.isIdle then some { s with check := .timers s.alerts.timers, tickedAt := now } else none
  | .proceed away => s.proceed py away
  | .fail => if s.check.isIdle then none else some { s with check := .idle }

/-- The monitor beside a store that holds each key once. -/
def alertMachine (py : Python) : Run.Machine AlertMonitor AlertLabel where
  init s := (s.store.map Prod.fst).Nodup ∧ s = { store := s.store }
  next s l := s.next py l

end OpenAvc.Cloud
