import OpenAvc.Cloud.Sequencer

/-! The send buffer over a session: its numbers go up, and an overflow drops the oldest message of the lowest
priority. An ack of a number that was never sent stops the buffer from being cleared by those that follow. -/

namespace OpenAvc.Cloud

theorem lowest_eq_none {l : List (Nat × Message)} (none' : lowest l = none) : l = [] := by
  cases l with
  | nil => rfl
  | cons u rest =>
    rw [lowest] at none'
    split at none'
    · split at none' <;> cases none'
    · cases none'

/-- No entry has a lower priority, and an entry before it has a higher one. -/
theorem lowest_first {l : List (Nat × Message)} {u : Nat × Message} (low : lowest l = some u) :
    ∃ before after, l = before ++ u :: after ∧ (∀ w ∈ before, u.2.priority < w.2.priority) ∧
      ∀ w ∈ after, u.2.priority ≤ w.2.priority := by
  induction l generalizing u with
  | nil => cases low
  | cons v rest ih =>
    rw [lowest] at low
    cases further : lowest rest with
    | none =>
      rw [further] at low
      obtain rfl := Option.some.inj low
      have empty := lowest_eq_none further
      exact ⟨[], rest, rfl, by simp, by simp [empty]⟩
    | some w =>
      obtain ⟨before, after, parts, higher, least⟩ := ih further
      rw [further] at low
      dsimp only at low
      split at low
      · rename_i less
        obtain rfl := Option.some.inj low
        refine ⟨v :: before, after, by rw [parts]; rfl, fun x member => ?_, least⟩
        rcases List.mem_cons.mp member with rfl | member
        · exact less
        · exact higher x member
      · rename_i more
        obtain rfl := Option.some.inj low
        refine ⟨[], rest, rfl, by simp, fun x member => ?_⟩
        rw [parts] at member
        rcases List.mem_append.mp member with member | member
        · have above := higher x member
          omega
        · rcases List.mem_cons.mp member with rfl | member
          · omega
          · have above := least x member
            omega

/-- What happens to the buffer within one session. -/
inductive SendOp
  | assign (m : Message)
  | ack (lastSeq : Int)

/-- A session of the sequencer, with the `seq` each message object has now, the acks received, and for each
overflow the buffer it found and the message it dropped. -/
structure SendSession where
  sequencer : Sequencer
  seqOf : Nat → Option Nat := fun _ => none
  acks : List Int := []
  evictions : List (List (Nat × Message) × Message) := []

namespace SendSession

/-- `assign_seq` writes the number into the message itself. -/
def step (s : SendSession) : SendOp → SendSession
  | .assign m =>
    let (q, dropped) := s.sequencer.assignSeq m
    { s with
      sequencer := q
      seqOf := fun id => if id = m.id then some s.sequencer.nextSeq else s.seqOf id
      evictions := s.evictions ++ dropped.toList.map fun d => (Dict.set s.sequencer.sendBuffer s.sequencer.nextSeq m, d) }
  | .ack lastSeq => { s with sequencer := s.sequencer.handleAck lastSeq, acks := s.acks ++ [lastSeq] }

def run (s : SendSession) (ops : List SendOp) : SendSession :=
  ops.foldl step s

/-- An ack of a number that was given, or a message that is not in the buffer already. -/
def Fair (s : SendSession) : SendOp → Prop
  | .assign m => ∀ u ∈ s.sequencer.sendBuffer, u.2.id ≠ m.id
  | .ack lastSeq => lastSeq < s.sequencer.nextSeq

instance (s : SendSession) : (op : SendOp) → Decidable (s.Fair op)
  | .assign m => inferInstanceAs (Decidable (∀ u ∈ s.sequencer.sendBuffer, u.2.id ≠ m.id))
  | .ack lastSeq => inferInstanceAs (Decidable (lastSeq < s.sequencer.nextSeq))

/-- Every step of a run is fair when it is made. -/
def FairRun : SendSession → List SendOp → Prop
  | _, [] => True
  | s, op :: ops => s.Fair op ∧ FairRun (s.step op) ops

/-- The dropped message has the lowest priority of all, and every older one a higher priority. -/
def Chosen (buffer : List (Nat × Message)) (dropped : Message) : Prop :=
  ∃ seq, (seq, dropped) ∈ buffer ∧ ∀ u ∈ buffer, dropped.priority ≤ u.2.priority ∧ (u.1 < seq → dropped.priority < u.2.priority)

/-- What is said of a send buffer. -/
structure Orderly (s : SendSession) : Prop where
  increasing : (s.sequencer.sendBuffer.map Prod.fst).Pairwise (· < ·)
  named : ∀ u ∈ s.sequencer.sendBuffer, s.seqOf u.2.id = some u.1
  above : ∀ acked ∈ s.acks, acked < s.sequencer.nextSeq → ∀ u ∈ s.sequencer.sendBuffer, acked < u.1
  size : s.sequencer.sendBuffer.length ≤ s.sequencer.maxBufferSize
  chosen : ∀ e ∈ s.evictions, Chosen e.1 e.2

/-- Besides, the last ack covers those before it and was given. -/
structure Invariant (s : SendSession) : Prop extends s.Orderly where
  positive : 0 < s.sequencer.maxBufferSize
  numbered : ∀ u ∈ s.sequencer.sendBuffer, s.sequencer.lastAckSeq < u.1 ∧ u.1 < s.sequencer.nextSeq
  acked : s.sequencer.lastAckSeq < s.sequencer.nextSeq
  covered : ∀ acked ∈ s.acks, acked ≤ s.sequencer.lastAckSeq

end SendSession

namespace Sequencer

/-- What an overflow does to a buffer whose numbers go up. -/
theorem evict_spec {q : Sequencer} (increasing : (q.sendBuffer.map Prod.fst).Pairwise (· < ·)) (full : q.sendBuffer ≠ []) :
    ∃ dropped, q.evictLowestPriority.2 = some dropped ∧ SendSession.Chosen q.sendBuffer dropped ∧
      q.evictLowestPriority.1.sendBuffer.Sublist q.sendBuffer ∧
      q.evictLowestPriority.1.sendBuffer.length + 1 = q.sendBuffer.length ∧
      q.evictLowestPriority.1 = { q with sendBuffer := q.evictLowestPriority.1.sendBuffer } := by
  unfold evictLowestPriority
  cases low : lowest q.sendBuffer with
  | none => exact absurd (lowest_eq_none low) full
  | some u =>
    obtain ⟨before, after, parts, higher, least⟩ := lowest_first low
    have ordered := increasing
    rw [parts, List.map_append, List.map_cons, List.pairwise_append] at ordered
    obtain ⟨_, later, earlier⟩ := ordered
    have beyond : ∀ w ∈ after, u.1 < w.1 := fun w member =>
      (List.pairwise_cons.mp later).1 w.1 (List.mem_map_of_mem member)
    have below : ∀ w ∈ before, w.1 < u.1 := fun w member =>
      earlier w.1 (List.mem_map_of_mem member) u.1 List.mem_cons_self
    have left : (q.sendBuffer.filter fun w => w.1 ≠ u.1) = before ++ after := by
      have first : (before.filter fun w => w.1 ≠ u.1) = before :=
        List.filter_eq_self.mpr fun w member => decide_eq_true (Nat.ne_of_lt (below w member))
      have second : (after.filter fun w => w.1 ≠ u.1) = after :=
        List.filter_eq_self.mpr fun w member => decide_eq_true (Nat.ne_of_gt (beyond w member))
      rw [parts, List.filter_append, List.filter_cons, if_neg (by simp), first, second]
    refine ⟨u.2, rfl, ⟨u.1, lowest_mem low, fun w member => ?_⟩, List.filter_sublist, ?_, rfl⟩
    · rw [parts] at member
      rcases List.mem_append.mp member with member | member
      · have more := higher w member
        exact ⟨by omega, fun _ => more⟩
      · rcases List.mem_cons.mp member with rfl | member
        · exact ⟨le_rfl, fun less => absurd less (Nat.lt_irrefl _)⟩
        · have older := beyond w member
          exact ⟨least w member, fun less => absurd less (by omega)⟩
    · dsimp only
      rw [left, parts]
      simp only [List.length_append, List.length_cons]
      omega

end Sequencer

namespace SendSession

variable {s : SendSession}

/-- An ack takes off the numbers it covers; one that is covered already changes nothing. -/
theorem Invariant.ack (inv : s.Invariant) {lastSeq : Int} (given : lastSeq < s.sequencer.nextSeq) :
    (s.step (.ack lastSeq)).Invariant := by
  have acks {last : Int} (covered : ∀ a ∈ s.acks, a ≤ last) (here : lastSeq ≤ last) : ∀ a ∈ s.acks ++ [lastSeq], a ≤ last := by
    intro a member
    rcases List.mem_append.mp member with old | new
    · exact covered a old
    · exact List.mem_singleton.mp new ▸ here
  by_cases old : lastSeq ≤ s.sequencer.lastAckSeq
  · have same : s.sequencer.handleAck lastSeq = s.sequencer := if_pos old
    unfold step
    dsimp only
    rw [same]
    have covered := acks inv.covered old
    refine { inv with above := fun a member _ u inside => ?_, covered := covered }
    have le := covered a member
    have less := (inv.numbered u inside).1
    omega
  · have cleared : s.sequencer.handleAck lastSeq =
        { s.sequencer with lastAckSeq := lastSeq, sendBuffer := s.sequencer.sendBuffer.filter fun u => ¬(u.1 : Int) ≤ lastSeq } :=
      if_neg old
    have left (u : Nat × Message) (member : u ∈ s.sequencer.sendBuffer.filter fun u => ¬(u.1 : Int) ≤ lastSeq) :
        u ∈ s.sequencer.sendBuffer ∧ lastSeq < u.1 := by
      obtain ⟨inside, more⟩ := List.mem_filter.mp member
      have more' := of_decide_eq_true more
      exact ⟨inside, by omega⟩
    unfold step
    dsimp only
    rw [cleared]
    have covered := acks (fun a member => (inv.covered a member).trans (by omega : s.sequencer.lastAckSeq ≤ lastSeq)) le_rfl
    exact
      { increasing := inv.increasing.sublist (List.filter_sublist.map _)
        named := fun u member => inv.named u (left u member).1
        above := fun a member _ u inside => by
          have le := covered a member
          have less := (left u inside).2
          omega
        size := (List.filter_sublist.length_le).trans inv.size
        chosen := inv.chosen
        positive := inv.positive
        numbered := fun u member => ⟨(left u member).2, (inv.numbered u (left u member).1).2⟩
        acked := given
        covered := covered }

/-- A message goes behind the others with the next number, and an overflow drops one. -/
theorem Invariant.assign (inv : s.Invariant) {m : Message} (fresh : ∀ u ∈ s.sequencer.sendBuffer, u.2.id ≠ m.id) :
    (s.step (.assign m)).Invariant := by
  have absent : s.sequencer.nextSeq ∉ s.sequencer.sendBuffer.map Prod.fst := by
    intro member
    obtain ⟨u, inside, same⟩ := List.mem_map.mp member
    have below := (inv.numbered u inside).2
    omega
  have grown := Dict.set_of_not_mem absent m
  let buffer := Dict.set s.sequencer.sendBuffer s.sequencer.nextSeq m
  have entry (u : Nat × Message) (member : u ∈ buffer) : u ∈ s.sequencer.sendBuffer ∨ u = (s.sequencer.nextSeq, m) := by
    have member' : u ∈ s.sequencer.sendBuffer ++ [(s.sequencer.nextSeq, m)] := grown ▸ member
    exact (List.mem_append.mp member').imp id List.mem_singleton.mp
  have increasing : (buffer.map Prod.fst).Pairwise (· < ·) := by
    show ((Dict.set s.sequencer.sendBuffer s.sequencer.nextSeq m).map Prod.fst).Pairwise (· < ·)
    rw [grown, List.map_append, List.pairwise_append]
    refine ⟨inv.increasing, List.pairwise_singleton _ _, fun a member b last => ?_⟩
    obtain ⟨u, inside, rfl⟩ := List.mem_map.mp member
    rw [List.mem_singleton.mp last]
    exact (inv.numbered u inside).2
  have numbered (u : Nat × Message) (member : u ∈ buffer) :
      s.sequencer.lastAckSeq < u.1 ∧ u.1 < s.sequencer.nextSeq + 1 := by
    rcases entry u member with old | rfl
    · have bounds := inv.numbered u old
      exact ⟨bounds.1, by omega⟩
    · exact ⟨inv.acked, Nat.lt_succ_self _⟩
  have named (u : Nat × Message) (member : u ∈ buffer) :
      (if u.2.id = m.id then some s.sequencer.nextSeq else s.seqOf u.2.id) = some u.1 := by
    rcases entry u member with old | rfl
    · rw [if_neg (fresh u old)]
      exact inv.named u old
    · exact if_pos rfl
  have above (a : Int) (member : a ∈ s.acks) (u : Nat × Message) (inside : u ∈ buffer) : a < u.1 := by
    have le := inv.covered a member
    have less := (numbered u inside).1
    omega
  have length : buffer.length = s.sequencer.sendBuffer.length + 1 := by
    show (Dict.set s.sequencer.sendBuffer s.sequencer.nextSeq m).length = _
    rw [grown, List.length_append, List.length_singleton]
  -- what stays in the buffer after an overflow stays in its order
  have kept {left : List (Nat × Message)} {evictions} (sub : left.Sublist buffer) (small : left.length ≤ s.sequencer.maxBufferSize)
      (chosen : ∀ e ∈ s.evictions ++ evictions, Chosen e.1 e.2) :
      Invariant ⟨{ s.sequencer with nextSeq := s.sequencer.nextSeq + 1, sendBuffer := left },
        fun id => if id = m.id then some s.sequencer.nextSeq else s.seqOf id, s.acks, s.evictions ++ evictions⟩ :=
    { increasing := increasing.sublist (sub.map _)
      named := fun u member => named u (sub.subset member)
      above := fun a member _ u inside => above a member u (sub.subset inside)
      size := small
      chosen := chosen
      positive := inv.positive
      numbered := fun u member => numbered u (sub.subset member)
      acked := by
        have below := inv.acked
        show s.sequencer.lastAckSeq < ((s.sequencer.nextSeq + 1 : Nat) : Int)
        omega
      covered := inv.covered }
  unfold step Sequencer.assignSeq
  dsimp only
  split
  · have full : buffer ≠ [] := fun empty => by
      rw [empty] at length
      cases length
    obtain ⟨dropped, out, chosen, sub, size, rest⟩ :=
      @Sequencer.evict_spec ⟨s.sequencer.maxBufferSize, s.sequencer.nextSeq + 1, buffer, s.sequencer.lastAckSeq⟩ increasing full
    have bound := inv.size
    rw [rest, out]
    refine kept sub ?_ fun e member => ?_
    · dsimp only at size
      omega
    · rcases List.mem_append.mp member with old | new
      · exact inv.chosen e old
      · rw [List.mem_singleton.mp new]
        exact chosen
  · rename_i fits
    refine kept (List.Sublist.refl _) (Nat.le_of_not_lt fits) fun e member => ?_
    rw [Option.toList_none, List.map_nil, List.append_nil] at member
    exact inv.chosen e member

theorem Invariant.step (inv : s.Invariant) {op : SendOp} (fair : s.Fair op) : (s.step op).Invariant := by
  cases op with
  | assign m => exact inv.assign fair
  | ack lastSeq => exact inv.ack fair

theorem Invariant.run (inv : s.Invariant) {ops : List SendOp} (fair : s.FairRun ops) : (s.run ops).Invariant := by
  induction ops generalizing s with
  | nil => exact inv
  | cons op ops ih => exact ih (inv.step fair.1) fair.2

theorem invariant_fresh {maxBufferSize : Nat} (positive : 0 < maxBufferSize) : Invariant ⟨⟨maxBufferSize, 1, [], 0⟩, fun _ => none, [], []⟩ where
  increasing := .nil
  named := by simp
  above := by simp
  size := Nat.zero_le _
  chosen := by simp
  positive := positive
  numbered := by simp
  acked := Int.zero_lt_one
  covered := by simp

/-- Over a session in which no ack is ahead of what was sent, and no message is given a second number while it is
buffered, the buffer is orderly. -/
theorem orderly_run {maxBufferSize : Nat} (positive : 1 ≤ maxBufferSize) {ops : List SendOp}
    (fair : FairRun ⟨⟨maxBufferSize, 1, [], 0⟩, fun _ => none, [], []⟩ ops) :
    (run ⟨⟨maxBufferSize, 1, [], 0⟩, fun _ => none, [], []⟩ ops).Orderly :=
  ((invariant_fresh positive).run fair).toOrderly

/-- Two messages with room for one: the first, a state batch, is dropped. -/
theorem orderly_run_pair :
    (run ⟨⟨1, 1, [], 0⟩, fun _ => none, [], []⟩ [.assign ⟨0, "state_batch"⟩, .assign ⟨1, "alert"⟩, .ack 1]).Orderly ∧
      (run ⟨⟨1, 1, [], 0⟩, fun _ => none, [], []⟩ [.assign ⟨0, "state_batch"⟩, .assign ⟨1, "alert"⟩, .ack 1]).sequencer.sendBuffer =
        [(2, ⟨1, "alert"⟩)] :=
  ⟨orderly_run (by decide) ⟨by decide, by decide, by decide, trivial⟩, by decide⟩

/-- After an ack ahead of what was sent, the ack of what was sent clears nothing. -/
theorem ack_ahead_keeps_buffer :
    ¬(run ⟨⟨8, 1, [], 0⟩, fun _ => none, [], []⟩ [.ack 100, .assign ⟨0, "alert"⟩, .ack 1]).Orderly := by
  intro orderly
  have below := orderly.above 1 (by decide) (by decide) (1, ⟨0, "alert"⟩) (by decide)
  exact absurd below (by decide)

end SendSession

end OpenAvc.Cloud
