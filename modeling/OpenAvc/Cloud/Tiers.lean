import OpenAvc.Data.Json

/-! How often changes of a state key go to the cloud. -/

namespace OpenAvc.Cloud

/-- `is_cloud_excluded_key` -/
def isCloudExcludedKey (key : Text) : Bool :=
  (text "system.cloud.").isPrefixOf key ∨ (text "isc.").isPrefixOf key

/-- `top` is flushed most often and `low` least. -/
inductive Tier
  | top
  | child
  | low
  deriving DecidableEq, Repr

/-- The `cloud_priority` of a state variable that is declared as a mapping. -/
structure VarDef where
  cloudPriority : Option Text

/-- `stateVariables` is `none` where it is no mapping. -/
structure ChildTypeDef where
  stateVariables : Option (List (Text × Option VarDef))
  dynamic : Bool

/-- An id as `get_child_schema` takes it. -/
inductive LocalId
  | str (id : Text)
  | int (n : Nat)

/-- What a driver declares. A variable or a type is `none` where it is no
mapping, and a schema is empty also where the lookup raises. -/
structure Driver where
  stateVariables : List (Text × Option VarDef)
  childEntityTypes : List (Text × Option ChildTypeDef)
  getChildSchema : Text → LocalId → List (Text × Option VarDef)

/-- `str.isdigit` and `int`, which refuses some of the digits that `isdigit` takes. -/
structure Digits where
  isdigit : Text → Bool
  int : Text → Option Nat

/-- `key.split(".", limit)` -/
def splitDots : Nat → Text → List Text
  | 0, key => [key]
  | limit + 1, key =>
    match key.span (· ≠ 46) with
    | (part, _ :: rest) => part :: splitDots limit rest
    | (part, []) => [part]

/-- `_RESERVED_FAST_CHILD_PROPS` -/
def reservedFastChildProps : List Text :=
  [text "online", text "offline_reason", text "offline_detail"]

section

variable (py : Digits) (drivers : Text → Option Driver)

/-- The ids `_dynamic_child_var` tries, or `none` where `int` raises. -/
def candidates (localId : Text) : Option (List LocalId) :=
  if py.isdigit localId then (py.int localId).map fun n => [.str localId, .int n] else some [.str localId]

/-- `_dynamic_child_var` -/
def dynamicChildVar (driver : Driver) (childType localId prop : Text) : Option (Option VarDef) :=
  (candidates py localId).map fun ids =>
    ids.findSome? fun id => ((driver.getChildSchema childType id).lookup prop).join

/-- `_lookup_flat_tier` -/
def lookupFlatTier (deviceId prop : Text) : Tier :=
  match drivers deviceId with
  | none => .top
  | some driver =>
    match (driver.stateVariables.lookup prop).join with
    | some varDef => if varDef.cloudPriority = some (text "low") then .low else .top
    | none => .top

/-- `_lookup_child_tier`, or `none` where it raises. -/
def lookupChildTier (deviceId childType localId prop : Text) : Option Tier :=
  match drivers deviceId with
  | none => some .top
  | some driver =>
    match (driver.childEntityTypes.lookup childType).join with
    | none => some .top
    | some typeDef => do
      let declared := ((← typeDef.stateVariables).lookup prop).join
      let dynamic := declared.isNone ∧ typeDef.dynamic
      match ← if dynamic then dynamicChildVar py driver childType localId prop else some declared with
      | none => return if prop ∈ reservedFastChildProps then .top else .child
      | some varDef =>
        return if varDef.cloudPriority = some (text "low") then .low
          else if varDef.cloudPriority = some (text "high") then .top
          else .child

/-- `_key_tier` of a key that is not in the cache, or `none` where it raises. -/
def computeTier (key : Text) : Option Tier :=
  if (text "device.").isPrefixOf key then
    match splitDots 4 key with
    | [_, deviceId, childType, localId, prop] => lookupChildTier py drivers deviceId childType localId prop
    | [_, deviceId, prop] => some (lookupFlatTier drivers deviceId prop)
    | _ => some .top
  else some .top

/-- `_key_tier`, and the cache after it, or `none` where it raises. -/
def keyTier (cache : List (Text × Tier)) (key : Text) : Option (Tier × List (Text × Tier)) :=
  match cache.lookup key with
  | some tier => some (tier, cache)
  | none => (computeTier py drivers key).map fun tier => (tier, Dict.set cache key tier)

end

end OpenAvc.Cloud
