import Mathlib.Logic.Function.Basic
import OpenAvc.Run.Machine

namespace OpenAvc.Device

/-- A flat primitive of the state store. -/
inductive Value
  | none
  | bool (b : Bool)
  | number (q : Rat)
  | str (s : String)
  deriving DecidableEq

def Value.truthy : Value → Bool
  | none => false
  | bool b => b
  | number q => q ≠ 0
  | str s => s ≠ ""

inductive LocalId
  | int (n : Int)
  | str (s : String)
  deriving DecidableEq

/-- `id_format`, with its defaults. -/
inductive IdFormat
  | integer (min : Int := 1) (max : Option Int := none) (padWidth : Nat := 0)
  | string (maxLength : Nat := 128)
  | unsupported (kind : String)

/-- A definition under `child_entity_types`. `presence` is `instances.presence`. -/
structure ChildType where
  stateVariables : List String := []
  dynamic : Bool := false
  idFormat : IdFormat := .integer
  presence : Option String := none

structure DriverInfo where
  stateVariables : List String := []
  childEntityTypes : List (String × ChildType)

/-- The keys under `device.<id>.`: the device's own, and those of a child. A
child's id stands in its key in the form `formatChildId` gives it, which is
one-to-one on the ids of a type. -/
inductive Key
  | device (prop : String)
  | child (type : String) (id : LocalId) (prop : String)
  deriving DecidableEq

abbrev Child := String × LocalId
/-- The items of a dict. -/
abbrev Updates := List (String × Value)

/-- `_children` in registration order, `_child_schemas` by the props of the
schema, and the labels of `_project_child_entities`. -/
structure Driver where
  store : Key → Option Value
  children : List Child := []
  childSchemas : List (Child × List String) := []
  projectLabel : String → String → String := fun _ _ => ""
  strictState : Bool := false

inductive ChildError
  | undeclaredType (type : String)
  | wrongIdType (type : String) (id : LocalId)
  | invalidStringId (type : String) (id : String)
  | idTooLong (type : String) (id : String) (maxLength : Nat)
  | unsupportedIdFormat (type : String) (kind : String)
  | idBelowMin (type : String) (id min : Int)
  | idAboveMax (type : String) (id max : Int)
  | schemaNotAllowed (type : String)
  | undeclaredProp (type prop : String)
  | undeclaredState (prop : String)
  | notADriverFaultCode (code : String)

def notResponding := "not_responding"
def serviceFault := "service_fault"
def notFitted := "not_fitted"
def parentOffline := "parent_offline"

/-- `CHILD_DRIVER_FAULT_CODES` -/
def driverFaultCodes : List String := [notResponding, serviceFault, notFitted]

/-- `CHILD_RESERVED_PROPS` -/
def reservedProps : List String := ["online", "label", "offline_reason", "offline_detail"]

def defaultChildFaultMessage (code : String) : String :=
  if code = notResponding then "Not answering. Check that it has power and a network connection."
  else if code = serviceFault then
    "Reachable, but not running. Power-cycle it, or restart it from the controller."
  else if code = notFitted then "Nothing is connected here."
  else if code = parentOffline then
    "The device is offline, so this can't be checked. See the device's own status above."
  else ""

/-- The three presence keys. -/
structure Presence where
  online : Bool
  offlineReason : Value
  offlineDetail : Value
  deriving DecidableEq

namespace Presence

def inService : Presence := ⟨true, .none, .none⟩

def fault (code message : String) : Presence := ⟨false, .str code, .str message⟩

/-- The fragment's items. -/
def items (p : Presence) : Updates :=
  [("online", .bool p.online), ("offline_reason", p.offlineReason), ("offline_detail", p.offlineDetail)]

end Presence

/-- `_child_parent_offline_presence` -/
def childParentOfflinePresence : Presence := .fault parentOffline (defaultChildFaultMessage parentOffline)

/-- `child_fault` -/
def childFault (code message : String) : Except ChildError Presence :=
  if code = "" then .ok .inService
  else if code ∉ driverFaultCodes then .error (.notADriverFaultCode code)
  else .ok (.fault code (if message = "" then defaultChildFaultMessage code else message))

/-- `normalize_child_fault_claim` -/
def normalizeChildFaultClaim (prop : String) (value : Value) : Value :=
  if (prop = "offline_reason" ∨ prop = "offline_detail") ∧ value = .str "" then .none else value

namespace DriverInfo

def childTypeDef (info : DriverInfo) (type : String) : Except ChildError ChildType :=
  match info.childEntityTypes.lookup type with
  | some definition => .ok definition
  | none => .error (.undeclaredType type)

/-- `_child_presence_mode` is "reported". -/
def reported (info : DriverInfo) (type : String) : Bool :=
  (info.childEntityTypes.lookup type).bind ChildType.presence = some "reported"

/-- `_child_unknown_presence` -/
def childUnknownPresence (info : DriverInfo) (type : String) : Presence :=
  if info.reported type then .fault notFitted (defaultChildFaultMessage notFitted) else .inService

/-- `_CHILD_STRING_ID_RE`, whose `$` also matches before a final newline. -/
def stringIdMatches (s : String) : Bool :=
  let body := if s.toList.getLast? = some '\n' then s.toList.dropLast else s.toList
  body ≠ [] && body.all fun c => c.isAlphanum || c = '_' || c = '-'

def pad (n : Int) (width : Nat) : String :=
  let sign := if n < 0 then "-" else ""
  let digits := toString n.natAbs
  sign ++ String.ofList (List.replicate (width - (sign.length + digits.length)) '0') ++ digits

/-- `_format_child_id` -/
def formatChildId (info : DriverInfo) (type : String) (id : LocalId) : Except ChildError String := do
  let definition ← info.childTypeDef type
  match definition.idFormat, id with
  | .string maxLength, .str s =>
    if !stringIdMatches s then .error (.invalidStringId type s)
    else if maxLength ≠ 0 ∧ maxLength < s.length then .error (.idTooLong type s maxLength)
    else .ok s
  | .integer min max padWidth, .int n =>
    if n < min then .error (.idBelowMin type n min)
    else match max with
      | some top => if top < n then .error (.idAboveMax type n top) else .ok (pad n padWidth)
      | none => .ok (pad n padWidth)
  | .unsupported kind, _ => .error (.unsupportedIdFormat type kind)
  | _, _ => .error (.wrongIdType type id)

end DriverInfo

namespace Driver

/-- `state.set_batch`; the items are those of one dict. -/
def setBatch (d : Driver) (updates : List (Key × Value)) : Driver :=
  { d with store := fun key => (updates.lookup key).or (d.store key) }

def get (d : Driver) (key : Key) : Value := (d.store key).getD .none

def isChildRegistered (d : Driver) (c : Child) : Bool := c ∈ d.children

/-- Updates under the keys of a child. -/
def childItems (c : Child) (updates : Updates) : List (Key × Value) :=
  updates.map fun u => (.child c.1 c.2 u.1, u.2)

def normalized (updates : Updates) : Updates :=
  updates.map fun u => (u.1, normalizeChildFaultClaim u.1 u.2)

/-- The props of `_effective_child_schema`. -/
def effectiveChildSchema (definition : ChildType) (schema : Option (List String)) : List String :=
  let declared := if definition.dynamic then schema.getD definition.stateVariables
    else definition.stateVariables
  declared ++ reservedProps.filter (· ∉ declared)

/-- `_validate_child_prop` on every prop of a batch. -/
def validateChildProps (info : DriverInfo) (d : Driver) (c : Child) (updates : Updates) :
    Except ChildError Unit := do
  let definition ← info.childTypeDef c.1
  match updates.find? fun u => u.1 ∉ effectiveChildSchema definition (d.childSchemas.lookup c) with
  | some u => .error (.undeclaredProp c.1 u.1)
  | none => .ok ()

/-- The presence a child starts with when its `initial_state` says nothing. -/
def registeredPresence (info : DriverInfo) (type : String) (initialState : Updates) : Presence :=
  if initialState.lookup "online" = some (.bool true) ∧ initialState.lookup "offline_reason" = none then
    .inService
  else info.childUnknownPresence type

/-- The value a child is registered with under `prop`. -/
def registeredValue (initialState : Updates) (presence : Presence) (label prop : String) : Value :=
  match initialState.lookup prop with
  | some value => value
  | none =>
    match presence.items.lookup prop with
    | some value => value
    -- `_default_for_var_def` is None
    | none => if prop = "label" then .str label else .none

def registerChild (info : DriverInfo) (d : Driver) (c : Child) (initialState : Updates)
    (schema : Option (List String)) : Except ChildError Driver := do
  let padded ← info.formatChildId c.1 c.2
  let definition ← info.childTypeDef c.1
  if schema.isSome && !definition.dynamic then .error (.schemaNotAllowed c.1)
  else if d.isChildRegistered c then .ok d
  else
    let effective := effectiveChildSchema definition (schema.or (d.childSchemas.lookup c))
    match initialState.find? fun u => u.1 ∉ effective with
    | some u => .error (.undeclaredProp c.1 u.1)
    | none =>
      let presence := registeredPresence info c.1 initialState
      let value := registeredValue initialState presence (d.projectLabel c.1 padded)
      let d := { d with
        children := d.children ++ [c]
        childSchemas := (schema.map fun props => (c, props)).toList ++ d.childSchemas }
      .ok (d.setBatch (childItems c (normalized (effective.map fun prop => (prop, value prop)))))

def deregisterChild (d : Driver) (c : Child) : Driver :=
  if !d.isChildRegistered c then d
  else { d with
    store := fun
      | .child type id prop => if (type, id) = c then none else d.store (.child type id prop)
      | key => d.store key
    children := d.children.filter (· ≠ c)
    childSchemas := d.childSchemas.filter (·.1 ≠ c) }

def setChildState (info : DriverInfo) (d : Driver) (c : Child) (prop : String) (value : Value) :
    Except ChildError Driver := do
  if !d.isChildRegistered c then .ok d
  else
    validateChildProps info d c [(prop, value)]
    .ok (d.setBatch (childItems c (normalized [(prop, value)])))

def setChildStateBatch (info : DriverInfo) (d : Driver) (c : Child) (updates : Updates) :
    Except ChildError Driver := do
  if !d.isChildRegistered c then .ok d
  else
    validateChildProps info d c updates
    .ok (d.setBatch (childItems c (normalized updates)))

/-- The dict the entries are gathered in, the entry written last first. -/
def gathered : List (Child × Updates) → List (Key × Value)
  | [] => []
  | (c, updates) :: entries => gathered entries ++ childItems c (normalized updates)

def setChildrenStateBatch (info : DriverInfo) (d : Driver) (entries : List (Child × Updates)) :
    Except ChildError Driver := do
  let live := entries.filter fun entry => d.isChildRegistered entry.1
  live.forM fun entry => validateChildProps info d entry.1 entry.2
  .ok (d.setBatch (gathered live))

/-- What `_children_follow_parent` writes for one child. -/
def followItems (info : DriverInfo) (d : Driver) (connected : Bool) (c : Child) : List (Key × Value) :=
  let reason := d.get (.child c.1 c.2 "offline_reason")
  if connected then
    if reason ≠ .str parentOffline then [] else childItems c (info.childUnknownPresence c.1).items
  else if reason.truthy || d.get (.child c.1 c.2 "online") = .bool false then []
  else childItems c childParentOfflinePresence.items

/-- `_children_follow_parent` -/
def childrenFollowParent (info : DriverInfo) (d : Driver) (connected : Bool) : Driver :=
  d.setBatch (d.children.flatMap (d.followItems info connected))

/-- `_check_undeclared_state` raises. -/
def refusesUndeclared (info : DriverInfo) (d : Driver) (prop : String) : Bool :=
  prop ∉ info.stateVariables && prop ≠ "connected" && d.strictState

def setState (info : DriverInfo) (d : Driver) (prop : String) (value : Value) : Except ChildError Driver :=
  if d.refusesUndeclared info prop then .error (.undeclaredState prop)
  else
    let d := d.setBatch [(.device prop, value)]
    .ok (if prop = "connected" then d.childrenFollowParent info value.truthy else d)

def setStates (info : DriverInfo) (d : Driver) (updates : Updates) : Except ChildError Driver :=
  match updates.find? fun u => d.refusesUndeclared info u.1 with
  | some u => .error (.undeclaredState u.1)
  | none =>
    let d := d.setBatch (updates.map fun u => (.device u.1, u.2))
    .ok (match updates.lookup "connected" with
      | some value => d.childrenFollowParent info value.truthy
      | none => d)

/-- What a driver calls. -/
inductive Call
  | registerChild (c : Child) (initialState : Updates) (schema : Option (List String))
  | deregisterChild (c : Child)
  | setChildState (c : Child) (prop : String) (value : Value)
  | setChildStateBatch (c : Child) (updates : Updates)
  | setChildrenStateBatch (entries : List (Child × Updates))
  | setState (prop : String) (value : Value)
  | setStates (updates : Updates)

def call (info : DriverInfo) (d : Driver) : Call → Except ChildError Driver
  | .registerChild c initialState schema => d.registerChild info c initialState schema
  | .deregisterChild c => .ok (d.deregisterChild c)
  | .setChildState c prop value => d.setChildState info c prop value
  | .setChildStateBatch c updates => d.setChildStateBatch info c updates
  | .setChildrenStateBatch entries => d.setChildrenStateBatch info entries
  | .setState prop value => d.setState info prop value
  | .setStates updates => d.setStates info updates

/-- A call that raises leaves everything as it was. -/
def next (info : DriverInfo) (d : Driver) (c : Call) : Driver :=
  match d.call info c with
  | .ok d' => d'
  | .error _ => d

end Driver

/-- A driver from its construction: no child, and `connected` seeded False. -/
def driverMachine (info : DriverInfo) : Run.Machine Driver Driver.Call where
  init d := d.children = [] ∧ d.store (.device "connected") = some (.bool false)
  next d c := some (d.next info c)

end OpenAvc.Device
