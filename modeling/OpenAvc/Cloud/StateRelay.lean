import OpenAvc.Cloud.Canonical
import OpenAvc.Cloud.Tiers
import OpenAvc.Run.Machine

/-! `StateRelay`: changes of the state store, batched by tier and sent to the cloud. -/

namespace OpenAvc.Cloud

/-- A value of the state store. -/
inductive Primitive
  | none
  | bool (b : Bool)
  | int (n : Int)
  | float (d : Decimal)
  | nonFinite (x : NonFinite)
  | str (s : Text)
  deriving DecidableEq

/-- `old_value == value and type(old_value) is type(value)` -/
def Primitive.unchanged : Primitive → Primitive → Bool
  | .float d, .float d' => d.value = d'.value
  | .nonFinite .nan, .nonFinite .nan => false
  | old, value => old = value

/-- `cloud_state_value`, where `mask` is `mask_url_password`. -/
def cloudStateValue (mask : Text → Text) : Primitive → Primitive
  | .str s => if 64 ∈ s then .str (mask s) else .str s
  | value => value

/-- A change on its way to the cloud. Moments are counted by the changes before. -/
structure Change where
  key : Text
  value : Primitive
  deleted : Bool
  ts : Nat
  deriving DecidableEq

/-- What the cloud does with a change. -/
def Change.apply (cloud : List (Text × Primitive)) (c : Change) : List (Text × Primitive) :=
  if c.deleted then cloud.filter fun u => u.1 ≠ c.key else Dict.set cloud c.key c.value

/-- The state store, the relay and the cloud's copy. `snapshot` holds what is
left of the initial snapshot, until the flush loops start, and whether its first
chunk is still to be sent; `sending` holds what a flush has drained and not sent
yet. `sent` and `drained` tell which changes the sequencer was given and which
ones were drained from a batch or taken for the snapshot. -/
structure Relay where
  store : List (Text × Primitive)
  drivers : Text → Option Driver
  tierCache : List (Text × Tier) := []
  batches : Tier → List Change := fun _ => []
  sending : Tier → List Change := fun _ => []
  snapshot : Option (List Change)
  clearing : Bool := true
  throttles : List Text := []
  clock : Nat := 0
  cloud : List (Text × Primitive)
  sent : List Change := []
  drained : List Change

/-- What becomes of a message that no throttle holds back. One that cannot be
written raises before the sequencer has it, and one that cannot be signed after. -/
inductive Fate
  | fits
  | oversize
  | unwritable
  | unsignable
  deriving DecidableEq, Repr

/-- A snapshot that raises ends the connection. -/
inductive RelayEvent
  | set (key : Text) (value : Primitive)
  | setBatch (updates : List (Text × Primitive))
  | delete (key : Text)
  | retier (drivers : Text → Option Driver)
  | flush (tier : Tier)
  | chunk (tier : Tier) (size : Nat) (fate : Fate)
  | snapshotChunk (size : Nat) (fate : Fate)
  | throttle (limit : Text)
  | unthrottle (limit : Text)

/-- Drained entries by key: the last one of a key counts, in the place of the first. -/
def dedupe (entries : List Change) : List Change :=
  (entries.foldl (fun (d : List (Text × Change)) e => Dict.set d e.key e) []).map Prod.snd

namespace Relay

section

variable (py : Digits) (mask : Text → Text)

/-- What `_on_state_change` puts in a batch. -/
def entry (s : Relay) (key : Text) (newValue : Primitive) : Change where
  key := key
  value := cloudStateValue mask newValue
  deleted := newValue = .none ∧ (s.store.lookup key).isNone
  ts := s.clock + 1

/-- `_on_state_change`. The store logs what it raises and goes on. -/
def onStateChange (s : Relay) (key : Text) (newValue : Primitive) : Relay :=
  if isCloudExcludedKey key then s
  else
    match keyTier py s.drivers s.tierCache key with
    | none => s
    | some (tier, cache) => { s with
        clock := s.clock + 1
        batches := Function.update s.batches tier (s.batches tier ++ [s.entry mask key newValue])
        tierCache := if (s.entry mask key newValue).deleted then cache.filter fun u => u.1 ≠ key else cache }

/-- The key already holds this value. -/
def holds (s : Relay) (key : Text) (value : Primitive) : Bool :=
  (s.store.lookup key).any (·.unchanged value)

def notify (s : Relay) (changes : List (Text × Primitive)) : Relay :=
  changes.foldl (fun s u => s.onStateChange py mask u.1 u.2) s

/-- `StateStore.set` -/
def set (s : Relay) (key : Text) (value : Primitive) : Relay :=
  if s.holds key value then s
  else { s with store := Dict.set s.store key value }.onStateChange py mask key value

/-- `StateStore.set_batch` of a dict -/
def setBatch (s : Relay) (updates : List (Text × Primitive)) : Relay :=
  let changes := updates.filter fun u => !s.holds u.1 u.2
  let store := changes.foldl (fun (d : List (Text × Primitive)) (u : Text × Primitive) => Dict.set d u.1 u.2) s.store
  { s with store := store }.notify py mask changes

/-- `StateStore.delete` -/
def delete (s : Relay) (key : Text) : Relay :=
  if (s.store.lookup key).isNone then s
  else { s with store := s.store.filter fun u => u.1 ≠ key }.onStateChange py mask key .none

/-- `send_message` refuses: a throttle holds `state_batch` or all messages back,
or the message is too large. -/
def refuses (s : Relay) (fate : Fate) : Bool :=
  text "global" ∈ s.throttles ∨ text "state_batch" ∈ s.throttles ∨ fate = .oversize

/-- The sequencer takes a chunk, and the cloud applies it in its turn. -/
def hand (s : Relay) (chunk : List Change) (clears : Bool) : Relay :=
  { s with
    sent := s.sent ++ chunk
    cloud := chunk.foldl Change.apply (if clears then [] else s.cloud) }

def next (s : Relay) : RelayEvent → Option Relay
  | .set key value => some (s.set py mask key value)
  | .setBatch updates => if (updates.map Prod.fst).Nodup then some (s.setBatch py mask updates) else none
  | .delete key => some (s.delete py mask key)
  | .retier drivers => some { s with drivers := drivers }
  | .flush tier =>
    if s.snapshot.isNone ∧ s.sending tier = [] then
      some { s with
        drained := s.drained ++ s.batches tier
        batches := Function.update s.batches tier []
        sending := Function.update s.sending tier (dedupe (s.batches tier)) }
    else none
  | .chunk tier size fate =>
    if 0 < size ∧ s.sending tier ≠ [] then
      let rest := { s with sending := Function.update s.sending tier ((s.sending tier).drop size) }
      let stopped := { s with sending := Function.update s.sending tier [] }
      if s.refuses fate then some rest
      else match fate with
        | .unwritable => some stopped
        | .unsignable => some { stopped with sent := s.sent ++ (s.sending tier).take size }
        | _ => some (rest.hand ((s.sending tier).take size) false)
    else none
  | .snapshotChunk size fate =>
    match s.snapshot with
    | none => none
    | some changes =>
      if 0 < size then
        let rest := { s with
          snapshot := if changes.length ≤ size then none else some (changes.drop size)
          clearing := false }
        if s.refuses fate then some rest
        else if fate = .fits then some (rest.hand (changes.take size) s.clearing)
        else none
      else none
  | .throttle limit => some { s with throttles := limit :: s.throttles }
  | .unthrottle limit => some { s with throttles := s.throttles.filter (· ≠ limit) }

/-- The changes of the initial snapshot. -/
def snapshotChanges (store : List (Text × Primitive)) : List Change :=
  (store.filter fun u => !isCloudExcludedKey u.1).map fun u => ⟨u.1, cloudStateValue mask u.2, false, 0⟩

/-- The relay has subscribed and taken the snapshot, whatever the cloud holds. -/
def Started (s : Relay) : Prop :=
  ∃ store drivers cloud, (store.map Prod.fst).Nodup ∧ s = {
    store := store
    drivers := drivers
    snapshot := some (snapshotChanges mask store)
    cloud := cloud
    drained := snapshotChanges mask store }

/-- The state relay in one connection. -/
def machine : Run.Machine Relay RelayEvent where
  init := Started mask
  next := next py mask

end

end Relay

end OpenAvc.Cloud
