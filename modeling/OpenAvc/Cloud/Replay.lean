import OpenAvc.Cloud.Sequencer
import OpenAvc.Run.Machine

/-! A reconnect: what was not acknowledged is numbered anew and sent again. -/

namespace OpenAvc.Cloud

/-- Where the connection loop is. `replaying` awaits the send of a message that
`_replay_buffered` has numbered, and holds the ones after it. -/
inductive Phase
  | offline
  | resuming
  | replaying (rest : List Message)
  | connected
  deriving DecidableEq, Repr

/-- The agent, and what became of the messages it has sent. -/
structure Agent where
  sequencer : Sequencer
  phase : Phase := .offline
  disconnectTime : Bool := false
  sequenced : List Message := []
  acked : List Message := []
  evicted : List Message := []
  rejected : List Message := []

/-- `sent` and `lost` end the send a replay awaits, and `lost` also ends the
wait for an answer to the resume. `rejected` stands for every `HandshakeError`
of `send_resume`. -/
inductive Event
  | send (type : String)
  | ack (last : Int)
  | drop
  | newSession
  | accepted (replayFrom : Int)
  | rejected
  | sent
  | lost
  deriving DecidableEq, Repr

namespace Agent

/-- `assign_seq` of a message, and what an overflow drops. -/
def assign (s : Agent) (m : Message) : Agent :=
  { s with sequencer := (s.sequencer.assignSeq m).1, evicted := s.evicted ++ (s.sequencer.assignSeq m).2.toList }

/-- The loop of `_replay_buffered`, up to its next await. -/
def replay (s : Agent) : List Message → Agent
  | [] => { s with phase := .connected, disconnectTime := false }
  | m :: rest => { s.assign m with phase := .replaying rest }

/-- The messages an ack takes from the buffer, with numbers of this session. -/
def acknowledged (q : Sequencer) (last : Int) : List Message :=
  if last ≤ q.lastAckSeq then []
  else (q.sendBuffer.filter fun u => (u.1 : Int) ≤ last ∧ u.1 < q.nextSeq).map Prod.snd

def next (s : Agent) : Event → Option Agent
  | .send type =>
    let m : Message := ⟨s.sequenced.length, type⟩
    if s.phase = .connected then some { s.assign m with sequenced := s.sequenced ++ [m] } else none
  | .ack last =>
    if s.phase = .connected then
      some { s with sequencer := s.sequencer.handleAck last, acked := s.acked ++ acknowledged s.sequencer last }
    else none
  | .drop => if s.phase = .connected then some { s with phase := .offline, disconnectTime := true } else none
  | .newSession =>
    let s' := { s with sequencer := s.sequencer.resetForNewSession }
    if s.phase = .offline then
      if s.disconnectTime ∧ s'.sequencer.sendBuffer ≠ [] then some { s' with phase := .resuming } else some (s'.replay [])
    else none
  | .accepted replayFrom =>
    if s.phase = .resuming then
      match s.sequencer.getReplayMessages replayFrom with
      | [] => some (s.replay [])
      | messages => some ({ s with sequencer := s.sequencer.clearBuffer }.replay messages)
    else none
  | .rejected =>
    if s.phase = .resuming then
      some ({ s with
        sequencer := s.sequencer.clearBuffer
        rejected := s.rejected ++ s.sequencer.sendBuffer.map Prod.snd }.replay [])
    else none
  | .sent =>
    match s.phase with
    | .replaying rest => some (s.replay rest)
    | _ => none
  | .lost =>
    match s.phase with
    | .replaying _ | .resuming => some { s with phase := .offline }
    | _ => none

/-- The messages a replay has yet to number. -/
def waiting (s : Agent) : List Message :=
  match s.phase with
  | .replaying rest => rest
  | _ => []

/-- What the cloud acknowledged or would not have, and what an overflow dropped. -/
def Released (s : Agent) (m : Message) : Prop :=
  m ∈ s.acked ∨ m ∈ s.evicted ∨ m ∈ s.rejected

/-- Once a replay has begun, or none was due, numbers are of the new session. -/
def Running (s : Agent) : Prop :=
  s.phase = .connected ∨ ∃ rest, s.phase = .replaying rest

/-- The message is in the send buffer, under a number of the session that runs. -/
def Buffered (s : Agent) (m : Message) : Prop :=
  ∃ seq, (seq, m) ∈ s.sequencer.sendBuffer ∧ (s.Running → seq < s.sequencer.nextSeq)

/-- Every message that was sequenced stays in the send buffer until it is released. -/
def Retained (s : Agent) : Prop :=
  ∀ m ∈ s.sequenced, s.Released m ∨ s.Buffered m

/-- The cloud asks for all of the buffer, and no connection is lost while a
replay has messages left. -/
def Undisturbed (s : Agent) : Event → Prop
  | .accepted replayFrom => ∀ u ∈ s.sequencer.sendBuffer, replayFrom ≤ (u.1 : Int)
  | .lost => s.waiting = []
  | _ => True

/-- The cloud asks for all of the buffer, which holds one message at most. -/
def Single (s : Agent) : Event → Prop
  | .accepted replayFrom =>
    s.sequencer.sendBuffer.length ≤ 1 ∧ ∀ u ∈ s.sequencer.sendBuffer, replayFrom ≤ (u.1 : Int)
  | _ => True

instance (s : Agent) (event : Event) : Decidable (s.Undisturbed event) :=
  match event with
  | .accepted replayFrom => inferInstanceAs (Decidable (∀ u ∈ s.sequencer.sendBuffer, replayFrom ≤ (u.1 : Int)))
  | .lost => inferInstanceAs (Decidable (s.waiting = []))
  | .send _ | .ack _ | .drop | .newSession | .rejected | .sent => inferInstanceAs (Decidable True)

instance (s : Agent) (event : Event) : Decidable (s.Single event) :=
  match event with
  | .accepted replayFrom => inferInstanceAs (Decidable (s.sequencer.sendBuffer.length ≤ 1 ∧
      ∀ u ∈ s.sequencer.sendBuffer, replayFrom ≤ (u.1 : Int)))
  | .send _ | .ack _ | .drop | .newSession | .rejected | .sent | .lost => inferInstanceAs (Decidable True)

end Agent

/-- An agent before its first connection. -/
def agent (maxBufferSize : Nat) : Run.Machine Agent Event where
  init s := s = { sequencer := { maxBufferSize := maxBufferSize } }
  next := Agent.next

namespace Agent

/-- What holds in every state as long as no replay is disturbed. -/
structure Sound (s : Agent) : Prop where
  distinct : s.sequencer.Distinct
  numbered : s.Running → s.sequencer.Numbered
  fresh : s.disconnectTime = true ∨ s.phase = .connected ∨ s.phase = .offline ∧ s.sequencer.sendBuffer = []
  held : ∀ m ∈ s.sequenced, s.Released m ∨ (∃ seq, (seq, m) ∈ s.sequencer.sendBuffer) ∨ m ∈ s.waiting

variable {s s' : Agent} {maxBufferSize : Nat}

/-- What a replay goes on with: its messages wait, the others are buffered or released. -/
theorem Sound.replay {messages : List Message} (distinct : s.sequencer.Distinct) (numbered : s.sequencer.Numbered)
    (disconnected : messages ≠ [] → s.disconnectTime = true)
    (held : ∀ m ∈ s.sequenced, s.Released m ∨ (∃ seq, (seq, m) ∈ s.sequencer.sendBuffer) ∨ m ∈ messages) :
    Sound (s.replay messages) := by
  cases messages with
  | nil => exact ⟨distinct, fun _ => numbered, Or.inr (Or.inl rfl), held⟩
  | cons first rest =>
    obtain ⟨distinct', numbered', kept, added⟩ := Sequencer.assignSeq_spec distinct numbered first
    refine ⟨distinct', fun _ => numbered', Or.inl (disconnected (List.cons_ne_nil _ _)), fun m member => ?_⟩
    have evicted : ∀ w, (s.sequencer.assignSeq first).2 = some w → (s.replay (first :: rest)).Released w := by
      intro w out
      refine Or.inr (Or.inl (List.mem_append_right _ ?_))
      rw [out]
      exact List.mem_singleton_self w
    rcases held m member with (acked | evicted' | rejected) | ⟨seq, there⟩ | waits
    · exact Or.inl (Or.inl acked)
    · exact Or.inl (Or.inr (Or.inl (List.mem_append_left _ evicted')))
    · exact Or.inl (Or.inr (Or.inr rejected))
    · rcases kept _ there with still | out
      · exact Or.inr (Or.inl ⟨seq, still⟩)
      · exact Or.inl (evicted m out)
    · rcases List.mem_cons.mp waits with rfl | later
      · rcases added with still | out
        · exact Or.inr (Or.inl still)
        · exact Or.inl (evicted m out)
      · exact Or.inr (Or.inr later)

theorem not_running_of_offline (offline : s.phase = .offline) : ¬s.Running := by
  rintro (connected | ⟨rest, replaying⟩)
  · rw [offline] at connected
    cases connected
  · rw [offline] at replaying
    cases replaying

theorem Sound.send (sound : Sound s) (connected : s.phase = .connected) (m : Message) :
    Sound { s.assign m with sequenced := s.sequenced ++ [m] } := by
  obtain ⟨distinct, numbered, kept, added⟩ :=
    Sequencer.assignSeq_spec sound.distinct (sound.numbered (Or.inl connected)) m
  refine ⟨distinct, fun _ => numbered, Or.inr (Or.inl connected), fun w member => ?_⟩
  have evicted : ∀ w, (s.sequencer.assignSeq m).2 = some w →
      w ∈ s.evicted ++ (s.sequencer.assignSeq m).2.toList := by
    intro w out
    rw [out]
    exact List.mem_append_right _ (List.mem_singleton_self w)
  have waiting : s.waiting = [] := by rw [Agent.waiting, connected]
  rcases List.mem_append.mp member with old | new
  · rcases sound.held w old with (acked | evicted' | rejected) | ⟨seq, there⟩ | waits
    · exact Or.inl (Or.inl acked)
    · exact Or.inl (Or.inr (Or.inl (List.mem_append_left _ evicted')))
    · exact Or.inl (Or.inr (Or.inr rejected))
    · rcases kept _ there with still | out
      · exact Or.inr (Or.inl ⟨seq, still⟩)
      · exact Or.inl (Or.inr (Or.inl (evicted w out)))
    · rw [waiting] at waits
      cases waits
  · rw [List.mem_singleton.mp new]
    rcases added with still | out
    · exact Or.inr (Or.inl still)
    · exact Or.inl (Or.inr (Or.inl (evicted m out)))

theorem Sound.ack (sound : Sound s) (connected : s.phase = .connected) (last : Int) :
    Sound { s with sequencer := s.sequencer.handleAck last, acked := s.acked ++ acknowledged s.sequencer last } := by
  have numbered := sound.numbered (Or.inl connected)
  have fewer : (s.sequencer.handleAck last).sendBuffer.Sublist s.sequencer.sendBuffer := by
    unfold Sequencer.handleAck
    split
    · exact List.Sublist.refl _
    · exact List.filter_sublist
  have same : (s.sequencer.handleAck last).nextSeq = s.sequencer.nextSeq := by
    unfold Sequencer.handleAck
    split <;> rfl
  refine ⟨sound.distinct.sublist (fewer.map _), fun _ u member => ?_, Or.inr (Or.inl connected), fun m member => ?_⟩
  · rw [same]
    exact numbered u (fewer.subset member)
  · rcases sound.held m member with (acked | evicted | rejected) | ⟨seq, there⟩ | waits
    · exact Or.inl (Or.inl (List.mem_append_left _ acked))
    · exact Or.inl (Or.inr (Or.inl evicted))
    · exact Or.inl (Or.inr (Or.inr rejected))
    · have below : seq < s.sequencer.nextSeq := numbered _ there
      unfold Sequencer.handleAck acknowledged
      by_cases old : last ≤ s.sequencer.lastAckSeq
      · rw [if_pos old]
        exact Or.inr (Or.inl ⟨seq, there⟩)
      · rw [if_neg old, if_neg old]
        by_cases reached : (seq : Int) ≤ last
        · refine Or.inl (Or.inl (List.mem_append_right _ (List.mem_map.mpr ⟨(seq, m), ?_, rfl⟩)))
          exact List.mem_filter.mpr ⟨there, by simp [reached, below]⟩
        · exact Or.inr (Or.inl ⟨seq, List.mem_filter.mpr ⟨there, by simpa using reached⟩⟩)
    · have waiting : s.waiting = [] := by rw [Agent.waiting, connected]
      rw [waiting] at waits
      cases waits

/-- During a resume and its replay the agent knows when it was disconnected. -/
theorem Sound.disconnected (sound : Sound s) (notConnected : s.phase ≠ .connected) (notOffline : s.phase ≠ .offline) :
    s.disconnectTime = true := by
  rcases sound.fresh with disconnected | connected | ⟨offline, _⟩
  · exact disconnected
  · exact absurd connected notConnected
  · exact absurd offline notOffline

theorem waiting_of_offline (offline : s.phase = .offline) : s.waiting = [] := by
  rw [Agent.waiting, offline]

theorem waiting_of_resuming (resuming : s.phase = .resuming) : s.waiting = [] := by
  rw [Agent.waiting, resuming]

theorem Sound.newSession (sound : Sound s) (offline : s.phase = .offline) (run : s.next .newSession = some s') :
    Sound s' := by
  have held := sound.held
  simp only [waiting_of_offline offline] at held
  simp only [Agent.next, if_pos offline] at run
  split at run
  · rename_i resumes
    cases run
    refine ⟨sound.distinct, fun running => ?_, Or.inl resumes.1, held⟩
    rcases running with connected | ⟨rest, replaying⟩
    · cases connected
    · cases replaying
  · rename_i plain
    cases run
    have empty : s.sequencer.sendBuffer = [] := by
      rcases sound.fresh with disconnected | connected | ⟨_, empty⟩
      · exact not_not.mp fun some => plain ⟨disconnected, some⟩
      · rw [offline] at connected
        cases connected
      · exact empty
    refine Sound.replay sound.distinct (fun u member => ?_) (fun some => absurd rfl some) held
    have none : u ∈ s.sequencer.sendBuffer := member
    rw [empty] at none
    cases none

theorem Sound.accepted (sound : Sound s) (resuming : s.phase = .resuming) {replayFrom : Int}
    (whole : ∀ u ∈ s.sequencer.sendBuffer, replayFrom ≤ (u.1 : Int)) (run : s.next (.accepted replayFrom) = some s') :
    Sound s' := by
  have held := sound.held
  simp only [waiting_of_resuming resuming] at held
  have messages : s.sequencer.getReplayMessages replayFrom = s.sequencer.sendBuffer.map Prod.snd := by
    have all : s.sequencer.sendBuffer.filter (fun u => decide (replayFrom ≤ (u.1 : Int))) = s.sequencer.sendBuffer :=
      List.filter_eq_self.mpr fun u member => decide_eq_true (whole u member)
    rw [Sequencer.getReplayMessages, all]
  simp only [Agent.next, if_pos resuming, messages] at run
  split at run
  · rename_i none
    cases run
    have empty := List.map_eq_nil_iff.mp none
    refine Sound.replay sound.distinct (fun u member => ?_) (fun some => absurd rfl some) held
    rw [empty] at member
    cases member
  · cases run
    have disconnected := sound.disconnected (by rw [resuming]; nofun) (by rw [resuming]; nofun)
    refine Sound.replay List.nodup_nil (fun u member => absurd member List.not_mem_nil) (fun _ => disconnected)
      fun m member => ?_
    rcases held m member with released | ⟨seq, there⟩ | waits
    · exact Or.inl released
    · exact Or.inr (Or.inr (List.mem_map.mpr ⟨_, there, rfl⟩))
    · cases waits

theorem Sound.next (sound : Sound s) {event : Event} (undisturbed : s.Undisturbed event)
    (run : s.next event = some s') : Sound s' := by
  cases event with
  | send type =>
    simp only [Agent.next, Option.ite_none_right_eq_some, Option.some.injEq] at run
    obtain ⟨connected, rfl⟩ := run
    exact sound.send connected _
  | ack last =>
    simp only [Agent.next, Option.ite_none_right_eq_some, Option.some.injEq] at run
    obtain ⟨connected, rfl⟩ := run
    exact sound.ack connected last
  | drop =>
    simp only [Agent.next, Option.ite_none_right_eq_some, Option.some.injEq] at run
    obtain ⟨connected, rfl⟩ := run
    have held := sound.held
    simp only [Agent.waiting, connected] at held
    exact ⟨sound.distinct, fun running => absurd running (not_running_of_offline rfl), Or.inl rfl, held⟩
  | newSession =>
    have offline : s.phase = .offline := by
      by_contra other
      simp [Agent.next, other] at run
    exact sound.newSession offline run
  | accepted replayFrom =>
    have resuming : s.phase = .resuming := by
      by_contra other
      simp [Agent.next, other] at run
    exact sound.accepted resuming undisturbed run
  | rejected =>
    simp only [Agent.next, Option.ite_none_right_eq_some, Option.some.injEq] at run
    obtain ⟨resuming, rfl⟩ := run
    have held := sound.held
    simp only [waiting_of_resuming resuming] at held
    refine Sound.replay List.nodup_nil (fun u member => absurd member List.not_mem_nil) (fun some => absurd rfl some)
      fun m member => ?_
    rcases held m member with (acked | evicted | rejected) | ⟨seq, there⟩ | waits
    · exact Or.inl (Or.inl acked)
    · exact Or.inl (Or.inr (Or.inl evicted))
    · exact Or.inl (Or.inr (Or.inr (List.mem_append_left _ rejected)))
    · exact Or.inl (Or.inr (Or.inr (List.mem_append_right _ (List.mem_map.mpr ⟨_, there, rfl⟩))))
    · cases waits
  | sent =>
    cases phase : s.phase with
    | replaying rest =>
      simp only [Agent.next, phase, Option.some.injEq] at run
      subst run
      have held := sound.held
      simp only [Agent.waiting, phase] at held
      have disconnected := sound.disconnected (by rw [phase]; nofun) (by rw [phase]; nofun)
      exact Sound.replay sound.distinct (sound.numbered (Or.inr ⟨rest, phase⟩)) (fun _ => disconnected) held
    | offline | resuming | connected =>
      simp only [Agent.next, phase] at run
      cases run
  | lost =>
    have nothing : s.waiting = [] := undisturbed
    have held := sound.held
    simp only [nothing] at held
    simp only [Agent.next] at run
    split at run
    · rename_i phase
      cases run
      exact ⟨sound.distinct, fun running => absurd running (not_running_of_offline rfl),
        Or.inl (sound.disconnected (by rw [phase]; nofun) (by rw [phase]; nofun)), held⟩
    · rename_i phase
      cases run
      exact ⟨sound.distinct, fun running => absurd running (not_running_of_offline rfl),
        Or.inl (sound.disconnected (by rw [phase]; nofun) (by rw [phase]; nofun)), held⟩
    · cases run

theorem sound (reach : Run.Reach (agent maxBufferSize) Undisturbed s) : Sound s := by
  refine reach.invariant (fun s start => ?_) fun s event s' _ sound undisturbed run => sound.next undisturbed run
  rw [show s = _ from start]
  exact ⟨List.nodup_nil, fun _ _ member => absurd member List.not_mem_nil, Or.inr (Or.inr ⟨rfl, rfl⟩),
    fun _ member => absurd member List.not_mem_nil⟩

theorem waiting_replay (s : Agent) (messages : List Message) : (s.replay messages).waiting = messages.tail := by
  cases messages <;> rfl

/-- Where no replay has more than one message, none waits. -/
theorem waiting_next (nothing : s.waiting = []) {event : Event} (single : s.Single event)
    (run : s.next event = some s') : s'.waiting = [] := by
  cases event with
  | send type | ack last | drop =>
    simp only [Agent.next, Option.ite_none_right_eq_some, Option.some.injEq] at run
    obtain ⟨connected, rfl⟩ := run
    first
    | exact nothing
    | rfl
  | newSession =>
    simp only [Agent.next] at run
    split at run
    · split at run
      · cases run
        rfl
      · cases run
        rfl
    · cases run
  | accepted replayFrom =>
    have few : (s.sequencer.getReplayMessages replayFrom).length ≤ 1 := by
      rw [Sequencer.getReplayMessages, List.length_map]
      exact (List.length_filter_le _ _).trans single.1
    simp only [Agent.next] at run
    split at run
    · split at run
      · cases run
        rfl
      · rename_i messages _
        cases run
        rw [waiting_replay]
        exact List.length_eq_zero_iff.mp (by rw [List.length_tail]; omega)
    · cases run
  | rejected =>
    simp only [Agent.next, Option.ite_none_right_eq_some, Option.some.injEq] at run
    obtain ⟨resuming, rfl⟩ := run
    rfl
  | sent =>
    simp only [Agent.next] at run
    split at run
    · rename_i rest phase
      cases run
      rw [Agent.waiting, phase] at nothing
      have none : rest = [] := nothing
      rw [waiting_replay, none]
      rfl
    · cases run
  | lost =>
    simp only [Agent.next] at run
    split at run
    · cases run
      rfl
    · cases run
      rfl
    · cases run

theorem undisturbed_of_single (reach : Run.Reach (agent maxBufferSize) Single s) :
    Run.Reach (agent maxBufferSize) Undisturbed s ∧ s.waiting = [] := by
  induction reach with
  | init start =>
    refine ⟨.init start, ?_⟩
    rw [show _ = _ from start]
    rfl
  | @step s event s' _ single run ih =>
    refine ⟨.step ih.1 ?_ run, waiting_next ih.2 single run⟩
    cases event with
    | accepted replayFrom => exact single.2
    | lost => exact ih.2
    | _ => trivial

/-- A message that was sequenced stays in the send buffer until it is released,
at every await where no replay has more than one message, and otherwise, where
every replay runs to its end, at every await outside the replays. -/
theorem retained_until_acked (maxBufferSize : Nat) (s : Agent) :
    (Run.Reach (agent maxBufferSize) Single s → s.Retained) ∧
      (Run.Reach (agent maxBufferSize) Undisturbed s → ∀ m ∈ s.sequenced, s.Released m ∨ s.Buffered m ∨ m ∈ s.waiting) := by
  have held : Run.Reach (agent maxBufferSize) Undisturbed s →
      ∀ m ∈ s.sequenced, s.Released m ∨ s.Buffered m ∨ m ∈ s.waiting := by
    intro reach m member
    have sound := Agent.sound reach
    rcases sound.held m member with released | ⟨seq, there⟩ | waits
    · exact Or.inl released
    · exact Or.inr (Or.inl ⟨seq, there, fun running => sound.numbered running _ there⟩)
    · exact Or.inr (Or.inr waits)
  refine ⟨fun reach m member => ?_, held⟩
  obtain ⟨reach, nothing⟩ := undisturbed_of_single reach
  rcases held reach m member with released | buffered | waits
  · exact Or.inl released
  · exact Or.inr buffered
  · rw [nothing] at waits
    cases waits

theorem retained_one_and_two : (∃ s : Agent, s.Retained ∧ s.sequencer.sendBuffer = [(1, ⟨0, "command_result"⟩)]) ∧
    ∃ s : Agent, (∀ m ∈ s.sequenced, s.Released m ∨ s.Buffered m ∨ m ∈ s.waiting) ∧
      s.sequencer.sendBuffer = [(1, ⟨0, "command_result"⟩), (2, ⟨1, "pong"⟩)] := by
  have one : (agent 1000).run Single { sequencer := { maxBufferSize := 1000 } }
      [.newSession, .send "command_result", .drop, .newSession, .accepted 1, .lost] = some _ := rfl
  have two : (agent 1000).run Undisturbed { sequencer := { maxBufferSize := 1000 } }
      [.newSession, .send "command_result", .send "pong", .drop, .newSession, .accepted 1, .sent, .sent] = some _ := rfl
  exact ⟨⟨_, (retained_until_acked 1000 _).1 (.run (.init rfl) one), rfl⟩,
    ⟨_, (retained_until_acked 1000 _).2 (.run (.init rfl) two), rfl⟩⟩

/-- Two results are sent and the connection is lost; so is the next one, while
the first result is being sent again. -/
def interrupted : List Event :=
  [.newSession, .send "command_result", .send "command_result", .drop, .newSession, .accepted 1, .lost]

theorem interrupted_loses_one : ∃ s, Run.Reach (agent 1000) Run.always s ∧ ¬s.Retained ∧ s.sequencer.sendBuffer =
    [(1, ⟨0, "command_result"⟩)] ∧ ⟨1, "command_result"⟩ ∈ s.sequenced := by
  have run : (agent 1000).run Run.always { sequencer := { maxBufferSize := 1000 } } interrupted = some _ := rfl
  refine ⟨_, Run.Reach.run (.init rfl) run, fun retained => ?_, rfl, by decide⟩
  rcases retained ⟨1, "command_result"⟩ (by decide) with (acked | evicted | rejected) | ⟨seq, there, _⟩
  · cases acked
  · cases evicted
  · cases rejected
  · rcases List.mem_cons.mp there with same | none
    · cases same
    · cases none

end Agent

end OpenAvc.Cloud
