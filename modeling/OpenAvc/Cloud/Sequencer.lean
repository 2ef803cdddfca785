import OpenAvc.Data.Json

/-! The upstream half of `Sequencer`: numbers, the send buffer and acks. -/

namespace OpenAvc.Cloud

/-- `MESSAGE_PRIORITY` -/
def messagePriority : List (String × Nat) :=
  [("state_batch", 0), ("heartbeat", 2), ("alert_resolved", 3), ("alert", 4), ("active_alerts", 4), ("command_result", 5),
    ("tunnel_ready", 5), ("tunnel_failed", 5), ("diagnostic_result", 5), ("ai_tool_result", 5), ("project_data", 5),
    ("device_commands_data", 5), ("gap_report", 7), ("cert_request", 5), ("cert_status", 5), ("pong", 6),
    ("session_rotate", 10), ("ack", 9), ("session_invalid", 9), ("config_update", 7), ("capabilities_update", 7),
    ("command", 7), ("config_push", 7), ("restart", 8), ("ping", 6), ("tunnel_open", 5), ("tunnel_close", 5),
    ("diagnostic", 4), ("software_update", 4), ("alert_rules_update", 4), ("ai_tool_call", 5), ("get_project", 5),
    ("cert_result", 5), ("cert_renew_due", 4), ("help_acknowledged", 6), ("throttle", 3), ("error", 3)]

/-- A message, by which of the sent ones it is and its type. -/
structure Message where
  id : Nat
  type : String
  deriving DecidableEq, Repr

def Message.priority (m : Message) : Nat :=
  (messagePriority.lookup m.type).getD 3

/-- The send buffer is a dict in the order its keys came. -/
structure Sequencer where
  maxBufferSize : Nat
  nextSeq : Nat := 1
  sendBuffer : List (Nat × Message) := []
  lastAckSeq : Int := 0

/-- The first entry of the lowest priority. -/
def lowest : List (Nat × Message) → Option (Nat × Message)
  | [] => none
  | u :: rest =>
    match lowest rest with
    | some w => if w.2.priority < u.2.priority then some w else some u
    | none => some u

namespace Sequencer

/-- `_evict_lowest_priority`, and the message it drops. -/
def evictLowestPriority (q : Sequencer) : Sequencer × Option Message :=
  match lowest q.sendBuffer with
  | some u => ({ q with sendBuffer := q.sendBuffer.filter fun w => w.1 ≠ u.1 }, some u.2)
  | none => (q, none)

/-- `assign_seq`, and the message an overflow drops. -/
def assignSeq (q : Sequencer) (m : Message) : Sequencer × Option Message :=
  let q := { q with nextSeq := q.nextSeq + 1, sendBuffer := Dict.set q.sendBuffer q.nextSeq m }
  if q.sendBuffer.length > q.maxBufferSize then q.evictLowestPriority else (q, none)

/-- `handle_ack` -/
def handleAck (q : Sequencer) (acked : Int) : Sequencer :=
  if acked ≤ q.lastAckSeq then q
  else { q with lastAckSeq := acked, sendBuffer := q.sendBuffer.filter fun u => ¬(u.1 : Int) ≤ acked }

/-- `get_replay_messages` -/
def getReplayMessages (q : Sequencer) (replayFrom : Int) : List Message :=
  (q.sendBuffer.filter fun u => replayFrom ≤ (u.1 : Int)).map Prod.snd

/-- `reset_for_new_session` -/
def resetForNewSession (q : Sequencer) : Sequencer :=
  { q with nextSeq := 1, lastAckSeq := 0 }

/-- `clear_buffer` -/
def clearBuffer (q : Sequencer) : Sequencer :=
  { q with sendBuffer := [] }

theorem lowest_mem {l : List (Nat × Message)} {u : Nat × Message} (low : lowest l = some u) : u ∈ l := by
  induction l generalizing u with
  | nil => cases low
  | cons v rest ih =>
    rw [lowest] at low
    cases further : lowest rest with
    | none =>
      rw [further] at low
      exact Option.some.inj low ▸ List.mem_cons_self
    | some w =>
      have there := List.mem_cons_of_mem v (ih further)
      rw [further] at low
      dsimp only at low
      split at low
      · exact Option.some.inj low ▸ there
      · exact Option.some.inj low ▸ List.mem_cons_self

/-- Every entry has a number that was given in this session. -/
def Numbered (q : Sequencer) : Prop :=
  ∀ u ∈ q.sendBuffer, u.1 < q.nextSeq

def Distinct (q : Sequencer) : Prop :=
  (q.sendBuffer.map Prod.fst).Nodup

/-- An overflow drops one entry and keeps the others. -/
theorem evictLowestPriority_spec {q : Sequencer} (distinct : q.Distinct) :
    q.evictLowestPriority.1.nextSeq = q.nextSeq ∧
      q.evictLowestPriority.1.sendBuffer.Sublist q.sendBuffer ∧
        ∀ u ∈ q.sendBuffer, u ∈ q.evictLowestPriority.1.sendBuffer ∨ q.evictLowestPriority.2 = some u.2 := by
  unfold evictLowestPriority
  cases low : lowest q.sendBuffer with
  | none => exact ⟨rfl, List.Sublist.refl _, fun u member => Or.inl member⟩
  | some w =>
    refine ⟨rfl, List.filter_sublist, fun u member => ?_⟩
    by_cases same : u.1 = w.1
    · have entry : u = w := List.inj_on_of_nodup_map distinct member (lowest_mem low) same
      exact Or.inr (by rw [entry])
    · exact Or.inl (List.mem_filter.mpr ⟨member, by simpa using same⟩)

/-- A message is given a number of this session and buffered, and an overflow
drops one entry. -/
theorem assignSeq_spec {q : Sequencer} (distinct : q.Distinct) (numbered : q.Numbered) (m : Message) :
    (q.assignSeq m).1.Distinct ∧ (q.assignSeq m).1.Numbered ∧
      (∀ u ∈ q.sendBuffer, u ∈ (q.assignSeq m).1.sendBuffer ∨ (q.assignSeq m).2 = some u.2) ∧
        ((∃ seq, (seq, m) ∈ (q.assignSeq m).1.sendBuffer) ∨ (q.assignSeq m).2 = some m) := by
  have absent : q.nextSeq ∉ q.sendBuffer.map Prod.fst := by
    intro member
    obtain ⟨u, there, same⟩ := List.mem_map.mp member
    have below := numbered u there
    omega
  have grown := Dict.set_of_not_mem absent m
  have distinct' : ((Dict.set q.sendBuffer q.nextSeq m).map Prod.fst).Nodup := Dict.nodup_set distinct _ _
  have numbered' : ∀ u ∈ Dict.set q.sendBuffer q.nextSeq m, u.1 < q.nextSeq + 1 := by
    intro u member
    rcases Dict.mem_set member with rfl | old
    · exact Nat.lt_succ_self _
    · have below := numbered u old
      omega
  have kept : ∀ u ∈ q.sendBuffer, u ∈ Dict.set q.sendBuffer q.nextSeq m := by
    intro u member
    rw [grown]
    exact List.mem_append_left _ member
  have added : (q.nextSeq, m) ∈ Dict.set q.sendBuffer q.nextSeq m := by
    rw [grown]
    exact List.mem_append_right _ List.mem_cons_self
  unfold assignSeq
  dsimp only
  split
  · have spec := evictLowestPriority_spec (q := { q with nextSeq := q.nextSeq + 1, sendBuffer := Dict.set q.sendBuffer q.nextSeq m })
      distinct'
    refine ⟨distinct'.sublist (spec.2.1.map _), fun u member => ?_, fun u member => spec.2.2 u (kept u member), ?_⟩
    · rw [spec.1]
      exact numbered' u (spec.2.1.subset member)
    · exact (spec.2.2 _ added).imp (fun member => ⟨_, member⟩) id
  · exact ⟨distinct', numbered', fun u member => Or.inl (kept u member), Or.inl ⟨_, added⟩⟩

end Sequencer

end OpenAvc.Cloud
