import Mathlib.Data.Rat.Defs
import OpenAvc.Data.Json
import OpenAvc.Data.Newest
import OpenAvc.Run.Machine

/-! `DeviceTrafficRecorder`: each device's newest traffic, its readers, and the files it does not
record. -/

namespace OpenAvc.Traffic

open Newest

inductive Direction
  | tx
  | rx
  deriving DecidableEq

/-- `TrafficEntry`; `info` is its `meta`. -/
structure TrafficEntry where
  t : ℚ
  deviceId : Text
  direction : Direction
  channel : Text
  data : List Nat
  chunk : Bool := false
  info : Option (List (Text × Json)) := none
  seq : Nat

/-- The payload bytes of some entries. -/
def size (entries : List TrafficEntry) : Nat :=
  (entries.map fun entry => entry.data.length).sum

/-- How much a recorder keeps. -/
structure Bounds where
  ringEntries : Nat := 500
  ringBytes : Nat := 524288
  maxDevices : Nat := 1024

def Bounds.fits (bounds : Bounds) (entries : List TrafficEntry) : Bool :=
  entries.length ≤ bounds.ringEntries && size entries ≤ bounds.ringBytes

/-- `_Ring`. -/
structure Ring where
  entries : List TrafficEntry
  bytes : Nat
  counted : bytes = size entries

def Ring.empty : Ring :=
  ⟨[], 0, rfl⟩

/-- The loop of `_append` that pops entries while there are too many of them, or of their bytes. -/
def pops (bounds : Bounds) : List TrafficEntry → Nat → List TrafficEntry × Nat
  | [], bytes => ([], bytes)
  | entry :: rest, bytes =>
    if bounds.ringEntries < rest.length + 1 ∨ bounds.ringBytes < bytes then
      pops bounds rest (bytes - entry.data.length)
    else (entry :: rest, bytes)

/-- It leaves the newest entries, and their bytes. -/
theorem pops_eq (bounds : Bounds) (entries : List TrafficEntry) :
    pops bounds entries (size entries) = (newest bounds.fits entries, size (newest bounds.fits entries)) := by
  induction entries with
  | nil => rfl
  | cons entry rest ih =>
    have whole : size (entry :: rest) = entry.data.length + size rest := by simp [size]
    unfold pops newest
    by_cases large : bounds.ringEntries < rest.length + 1 ∨ bounds.ringBytes < size (entry :: rest)
    · have tooMuch : ¬bounds.fits (entry :: rest) = true := by
        rw [Bounds.fits, Bool.and_eq_true, decide_eq_true_eq, decide_eq_true_eq, List.length_cons]
        omega
      rw [if_pos large, if_neg tooMuch, whole, Nat.add_sub_cancel_left, ih]
    · have enough : bounds.fits (entry :: rest) = true := by
        rw [Bounds.fits, Bool.and_eq_true, decide_eq_true_eq, decide_eq_true_eq, List.length_cons]
        omega
      rw [if_neg large, if_pos enough]

/-- An entry comes to a ring. -/
def Ring.append (bounds : Bounds) (ring : Ring) (entry : TrafficEntry) : Ring where
  entries := (pops bounds (ring.entries ++ [entry]) (ring.bytes + entry.data.length)).1
  bytes := (pops bounds (ring.entries ++ [entry]) (ring.bytes + entry.data.length)).2
  counted := by
    have grown : ring.bytes + entry.data.length = size (ring.entries ++ [entry]) := by simp [ring.counted, size]
    rw [grown, pops_eq]

theorem Ring.entries_append (bounds : Bounds) (ring : Ring) (entry : TrafficEntry) :
    (ring.append bounds entry).entries = newest bounds.fits (ring.entries ++ [entry]) := by
  have grown : ring.bytes + entry.data.length = size (ring.entries ++ [entry]) := by simp [ring.counted, size]
  change (pops bounds (ring.entries ++ [entry]) (ring.bytes + entry.data.length)).1 = _
  rw [grown, pops_eq]

/-- `TrafficSubscription`, with what its reader was given: by the callback where there is no queue.
`since` is how many entries were made before it. A queue of size 0 has no bound. -/
structure Subscription where
  number : Nat
  deviceId : Text
  chunks : Bool
  since : Nat
  queue : Option (List TrafficEntry)
  queueSize : Nat
  given : List TrafficEntry := []
  dropped : Nat := 0

/-- `deliver` -/
def Subscription.deliver (sub : Subscription) (entry : TrafficEntry) : Subscription :=
  match sub.queue with
  | none => { sub with given := sub.given ++ [entry] }
  | some queue =>
    if sub.queueSize = 0 ∨ queue.length < sub.queueSize then { sub with queue := some (queue ++ [entry]) }
    else { sub with dropped := sub.dropped + 1 }

/-- Its reader takes the first of what waits. -/
def Subscription.read (sub : Subscription) : Subscription :=
  match sub.queue with
  | some (entry :: queue) => { sub with queue := some queue, given := sub.given ++ [entry] }
  | _ => sub

/-- A device, and one direction of its traffic. -/
abbrev Way :=
  Text × Direction

/-- A ring after an entry came, which may be for its device. -/
def filed (bounds : Bounds) (entry : TrafficEntry) (u : Text × Ring) : Text × Ring :=
  if u.1 = entry.deviceId then (u.1, u.2.append bounds entry) else u

structure Recorder where
  rings : List (Text × Ring) := []
  subs : List (Text × List Subscription) := []
  chunkReaders : List (Text × Nat) := []
  holds : List (Way × Nat) := []
  subscribed : Nat := 0

namespace Recorder

variable (bounds : Bounds) (s : Recorder)

/-- The readers of a device. -/
def readers (deviceId : Text) : List Subscription :=
  (s.subs.lookup deviceId).getD []

/-- The device has no reader, so that its ring may go. -/
def unread (u : Text × Ring) : Bool :=
  (s.readers u.1).isEmpty

/-- `_evict`: while there are too many rings, the first one without a reader goes. -/
def evict (rings : List (Text × Ring)) : List (Text × Ring) :=
  (fun rings => rings.eraseP s.unread)^[rings.length - bounds.maxDevices] rings

/-- `_append`. A new ring may be the one that goes at once, and the entry with it. -/
def append (entry : TrafficEntry) : Recorder :=
  match s.rings.lookup entry.deviceId with
  | some ring =>
    { s with rings := (s.rings.filter fun u => u.1 ≠ entry.deviceId) ++ [(entry.deviceId, ring.append bounds entry)] }
  | none =>
    { s with rings := (s.evict bounds (s.rings ++ [(entry.deviceId, .empty)])).map (filed bounds entry) }

/-- Each of a device's readers that takes it is handed the entry. -/
def deliver (entry : TrafficEntry) : Recorder :=
  { s with subs := s.subs.map fun u =>
      if u.1 = entry.deviceId then
        (u.1, u.2.map fun sub => if entry.chunk ∧ !sub.chunks then sub else sub.deliver entry)
      else u }

/-- `_keep` -/
def keep (entry : TrafficEntry) : Recorder :=
  (s.append bounds entry).deliver entry

def isHeld (way : Way) : Bool :=
  (s.holds.lookup way).any (· ≠ 0)

/-- The entry that `record` makes: of what is held, the size only. -/
def recorded (seq : Nat) (t : ℚ) (way : Way) (data : List Nat) (channel : Text) (info : Option (List (Text × Json))) :
    TrafficEntry :=
  if s.isHeld way then
    { t, deviceId := way.1, direction := way.2, channel, data := [], seq
      info := some (Dict.set (info.getD []) (text "withheld") (.int data.length)) }
  else { t, deviceId := way.1, direction := way.2, channel, data, info, seq }

/-- The entry that `record_note` makes. -/
def noted (seq : Nat) (t : ℚ) (way : Way) (file : Text) (size : Int) (command : Text) : TrafficEntry where
  t := t
  deviceId := way.1
  direction := way.2
  channel := text "file"
  data := []
  info := some [(text "file", .str file), (text "size", .int size), (text "command", .str command)]
  seq := seq

/-- `wants_chunks` -/
def wantsChunks (deviceId : Text) : Bool :=
  (s.chunkReaders.lookup deviceId).any (· ≠ 0)

/-- `hold`, as its block begins. -/
def hold (ways : List Way) : Recorder :=
  { s with holds := ways.foldl (fun holds way => Dict.set holds way ((holds.lookup way).getD 0 + 1)) s.holds }

/-- `hold`, as its block ends. -/
def release (ways : List Way) : Recorder :=
  { s with holds := ways.foldl (fun holds way =>
      let left := (holds.lookup way).getD 0 - 1
      if 0 < left then Dict.set holds way left else holds.filter fun u => u.1 ≠ way) s.holds }

/-- `subscribe` -/
def subscribe (deviceId : Text) (chunks callback : Bool) (queueSize since : Nat) : Recorder :=
  let sub : Subscription :=
    { number := s.subscribed, deviceId, chunks, since, queueSize, queue := if callback then none else some [] }
  { s with
    subs := Dict.set s.subs deviceId (s.readers deviceId ++ [sub])
    chunkReaders :=
      if chunks then Dict.set s.chunkReaders deviceId ((s.chunkReaders.lookup deviceId).getD 0 + 1) else s.chunkReaders
    subscribed := s.subscribed + 1 }

/-- `unsubscribe`, of one that is not closed yet. -/
def unsubscribe (sub : Subscription) : Recorder :=
  let left := (s.readers sub.deviceId).filter fun other => other.number ≠ sub.number
  let wanted := (s.chunkReaders.lookup sub.deviceId).getD 0 - 1
  { s with
    subs := if left = [] then s.subs.filter fun u => u.1 ≠ sub.deviceId else Dict.set s.subs sub.deviceId left
    chunkReaders :=
      if !sub.chunks then s.chunkReaders
      else if 0 < wanted then Dict.set s.chunkReaders sub.deviceId wanted
      else s.chunkReaders.filter fun u => u.1 ≠ sub.deviceId }

/-- `forget` -/
def forget (deviceId : Text) : Recorder :=
  { s with rings := s.rings.filter fun u => u.1 ≠ deviceId }

/-- A reader takes the next entry from its queue. -/
def read (deviceId : Text) (number : Nat) : Recorder :=
  { s with subs := s.subs.map fun u =>
      if u.1 = deviceId then (u.1, u.2.map fun sub => if sub.number = number then sub.read else sub) else u }

/-- `get_recent`; a count of 0 is one that is not given. -/
def getRecent (deviceId : Text) (count : Nat) : List TrafficEntry :=
  let entries := ((s.rings.lookup deviceId).map Ring.entries).getD []
  if count = 0 then entries else entries.drop (entries.length - count)

end Recorder

/-- The recorder, every entry it made, with whether a block held its way then, and the blocks that
have not ended. -/
structure System where
  recorder : Recorder := {}
  log : List (TrafficEntry × Bool) := []
  blocks : List (List Way) := []

inductive Label
  | record (t : ℚ) (way : Way) (data : List Nat) (channel : Text) (info : Option (List (Text × Json)))
  | note (t : ℚ) (way : Way) (file : Text) (size : Int) (command : Text)
  | chunk (t : ℚ) (deviceId : Text) (data : List Nat) (channel : Text)
  | hold (deviceId : Text) (tx rx : Bool)
  | release (block : Nat)
  | subscribe (deviceId : Text) (chunks callback : Bool) (queueSize : Nat)
  | unsubscribe (deviceId : Text) (number : Nat)
  | read (deviceId : Text) (number : Nat)
  | forget (deviceId : Text)

/-- The device that an entry is kept for. -/
def Label.recordsFor : Label → Option Text
  | .record _ way _ _ _ => if way.1 = [] then none else some way.1
  | .note _ way _ _ _ => if way.1 = [] then none else some way.1
  | _ => none

/-- The device whose ring is dropped. -/
def Label.forgets : Label → Option Text
  | .forget deviceId => some deviceId
  | _ => none

namespace System

variable (bounds : Bounds) (s : System)

/-- `next(_seq)` -/
def seq : Nat :=
  s.log.length + 1

def holding (way : Way) : Bool :=
  s.blocks.any (way ∈ ·)

def logged (entry : TrafficEntry) : List (TrafficEntry × Bool) :=
  s.log ++ [(entry, s.holding (entry.deviceId, entry.direction))]

/-- An entry is kept. -/
def keep (entry : TrafficEntry) : System :=
  { s with recorder := s.recorder.keep bounds entry, log := s.logged entry }

def next : Label → Option System
  | .record t way data channel info =>
    if way.1 = [] then some s else some (s.keep bounds (s.recorder.recorded s.seq t way data channel info))
  | .note t way file size command =>
    if way.1 = [] then some s else some (s.keep bounds (Recorder.noted s.seq t way file size command))
  | .chunk t deviceId data channel =>
    if !s.recorder.wantsChunks deviceId ∨ s.recorder.isHeld (deviceId, .rx) then some s
    else
      let entry : TrafficEntry :=
        { t, deviceId, direction := .rx, channel, data, chunk := true, seq := s.seq }
      some { s with recorder := s.recorder.deliver entry, log := s.logged entry }
  | .hold deviceId tx rx =>
    let ways := [(Direction.tx, tx), (Direction.rx, rx)].filterMap fun u =>
      if u.2 ∧ deviceId ≠ [] then some (deviceId, u.1) else none
    some { s with recorder := s.recorder.hold ways, blocks := s.blocks ++ [ways] }
  | .release block =>
    s.blocks[block]?.map fun ways =>
      { s with recorder := s.recorder.release ways, blocks := s.blocks.eraseIdx block }
  | .subscribe deviceId chunks callback queueSize =>
    some { s with recorder := s.recorder.subscribe deviceId chunks callback queueSize s.log.length }
  | .unsubscribe deviceId number =>
    ((s.recorder.readers deviceId).find? fun sub => sub.number = number).map fun sub =>
      { s with recorder := s.recorder.unsubscribe sub }
  | .read deviceId number => some { s with recorder := s.recorder.read deviceId number }
  | .forget deviceId => some { s with recorder := s.recorder.forget deviceId }

end System

/-- What a step can do: an entry is kept, a raw chunk is handed to its readers, or neither. -/
inductive Step (bounds : Bounds) (s : System) : Label → System → Prop
  | idle {l} : Step bounds s l s
  | keep {l} {entry : TrafficEntry} : entry.chunk = false → entry.seq = s.seq → l.recordsFor = some entry.deviceId →
      (s.recorder.isHeld (entry.deviceId, entry.direction) = true → entry.data = []) → Step bounds s l (s.keep bounds entry)
  | chunk {l} {entry : TrafficEntry} : entry.chunk = true → entry.seq = s.seq →
      s.recorder.isHeld (entry.deviceId, entry.direction) = false →
      Step bounds s l { s with recorder := s.recorder.deliver entry, log := s.logged entry }
  | hold {l} (ways : List Way) :
      Step bounds s l { s with recorder := s.recorder.hold ways, blocks := s.blocks ++ [ways] }
  | release {l} {block : Nat} {ways : List Way} : s.blocks[block]? = some ways →
      Step bounds s l { s with recorder := s.recorder.release ways, blocks := s.blocks.eraseIdx block }
  | subscribe {l} (deviceId : Text) (chunks callback : Bool) (queueSize : Nat) :
      Step bounds s l { s with recorder := s.recorder.subscribe deviceId chunks callback queueSize s.log.length }
  | unsubscribe {l} (sub : Subscription) : Step bounds s l { s with recorder := s.recorder.unsubscribe sub }
  | read {l} (deviceId : Text) (number : Nat) : Step bounds s l { s with recorder := s.recorder.read deviceId number }
  | forget (deviceId : Text) : Step bounds s (.forget deviceId) { s with recorder := s.recorder.forget deviceId }

theorem System.step_of_next {bounds : Bounds} {s s' : System} {l : Label} (next : s.next bounds l = some s') :
    Step bounds s l s' := by
  cases l with
  | record t way data channel info =>
    simp only [System.next] at next
    split at next <;> cases next
    · exact .idle
    · rename_i named
      by_cases held : s.recorder.isHeld way = true
      · rw [Recorder.recorded, if_pos held]
        exact .keep rfl rfl (if_neg named) fun _ => rfl
      · rw [Recorder.recorded, if_neg held]
        exact .keep rfl rfl (if_neg named) fun still => absurd still held
  | note t way file size command =>
    simp only [System.next] at next
    split at next <;> cases next
    · exact .idle
    · rename_i named
      exact .keep rfl rfl (if_neg named) fun _ => rfl
  | chunk t deviceId data channel =>
    simp only [System.next] at next
    split at next <;> cases next
    · exact .idle
    · rename_i wanted
      exact .chunk rfl rfl (Bool.eq_false_iff.mpr fun held => wanted (.inr held))
  | hold deviceId tx rx =>
    cases next
    exact .hold _
  | release block =>
    obtain ⟨ways, found, rfl⟩ := Option.map_eq_some_iff.mp next
    exact .release found
  | subscribe deviceId chunks callback queueSize =>
    cases next
    exact .subscribe deviceId chunks callback queueSize
  | unsubscribe deviceId number =>
    obtain ⟨sub, _, rfl⟩ := Option.map_eq_some_iff.mp next
    exact .unsubscribe sub
  | read deviceId number =>
    cases next
    exact .read deviceId number
  | forget deviceId =>
    cases next
    exact .forget deviceId

/-- The recorder of the running program, which never clears it. -/
def machine (bounds : Bounds) : Run.Machine System Label where
  init s := s = {}
  next s l := s.next bounds l

end OpenAvc.Traffic
