import OpenAvc.Push.Hub

/-! A client ends up with the part of the store that its filter lets through. -/

namespace OpenAvc.Push

open Cloud (Primitive)
open State (StateStore Op Change ofKey)

namespace Message

/-- What a message says of a key: nothing, that it is gone, or its value. -/
def tells (k : Text) : Message → Option (Option Primitive)
  | .update changes => (changes.lookup k).map some
  | .delete keys => if k ∈ keys then some none else none
  | .other => none

/-- No key comes twice in an update. -/
def Distinct : Message → Prop
  | .update changes => (changes.map Prod.fst).Nodup
  | _ => True

theorem lookup_apply {message : Message} (distinct : message.Distinct) (d : List (Text × Primitive)) (k : Text) :
    (message.apply d).lookup k = (message.tells k).getD (d.lookup k) := by
  cases message with
  | update changes =>
    rcases Dict.lookup_walk Prod.fst Prod.snd changes d k with ⟨same, other⟩ | ⟨u, member, rfl, found⟩
    · have absent := List.lookup_eq_none_of_forall other
      rw [apply, same, tells, absent]
      rfl
    · have there := List.lookup_of_mem distinct member
      rw [apply, found, tells, there]
      rfl
  | delete keys =>
    rw [apply, List.lookup_filter_keys (fun key => !keys.contains key), tells]
    by_cases gone : k ∈ keys <;> simp [gone]
  | other => rfl

end Message

/-- The last that a list of messages says of a key. -/
def said (messages : List Message) (k : Text) : Option (Option Primitive) :=
  messages.foldl (fun told message => (message.tells k).or told) none

@[simp] theorem said_nil (k : Text) : said [] k = none := rfl

@[simp] theorem said_concat (messages : List Message) (message : Message) (k : Text) :
    said (messages ++ [message]) k = (message.tells k).or (said messages k) := by
  rw [said, List.foldl_append]
  rfl

theorem lookup_foldl_apply {messages : List Message} (distinct : ∀ message ∈ messages, message.Distinct)
    (d : List (Text × Primitive)) (k : Text) :
    (messages.foldl Message.apply d).lookup k = (said messages k).getD (d.lookup k) := by
  induction messages using List.reverseRecOn with
  | nil => rfl
  | append_singleton messages message ih =>
    have last := distinct message (List.mem_append_right _ List.mem_cons_self)
    have before := ih fun m member => distinct m (List.mem_append_left _ member)
    rw [List.foldl_append, List.foldl_cons, List.foldl_nil, Message.lookup_apply last, before, said_concat]
    cases message.tells k <;> rfl

namespace Client

/-- All messages for the client since it was added. -/
def messages (c : Client) : List Message :=
  c.received ++ c.queue

theorem part_distinct {c : Client} {message text : Message} (distinct : message.Distinct) (part : c.part message = some text) :
    text.Distinct := by
  cases message with
  | update changes =>
    have inside : ∀ p : Text × Primitive → Bool, ((changes.filter p).map Prod.fst).Nodup := fun p =>
      distinct.sublist (List.filter_sublist.map _)
    simp only [Client.part] at part
    split at part
    · cases part
      exact distinct
    · split at part
      · cases part
      · cases part
        exact inside _
  | delete keys =>
    simp only [Client.part] at part
    split at part
    · cases part
      trivial
    · split at part <;> cases part
      trivial
  | other =>
    cases part
    trivial

theorem part_writable {c : Client} {message text : Message} (fits : message.writable = true) (part : c.part message = some text) :
    text.writable = true := by
  cases message with
  | update changes =>
    have inside : ∀ p : Text × Primitive → Bool, (Message.update (changes.filter p)).writable = true := fun p =>
      List.all_eq_true.mpr fun u member => List.all_eq_true.mp fits u (List.mem_filter.mp member).1
    simp only [Client.part] at part
    split at part
    · cases part
      exact fits
    · split at part
      · cases part
      · cases part
        exact inside _
  | delete keys =>
    simp only [Client.part] at part
    split at part
    · cases part
      rfl
    · split at part <;> cases part
      rfl
  | other =>
    cases part
    rfl

/-- A client is told what a message says of the keys that pass its filter. -/
theorem tells_part (c : Client) (message : Message) (k : Text) :
    (c.part message).bind (fun text => text.tells k) = if c.passes k then message.tells k else none := by
  cases message with
  | update changes =>
    have inside := List.lookup_filter_keys c.passes k changes
    simp only [Client.part]
    split
    · rename_i unfiltered
      have passes : c.passes k = true := by rw [Client.passes, unfiltered]; rfl
      rw [passes]
      rfl
    · split
      · rename_i none
        rw [List.isEmpty_iff.mp none] at inside
        cases passes : c.passes k with
        | false => rfl
        | true =>
          rw [passes, if_pos rfl] at inside
          rw [if_pos rfl, Message.tells, ← inside]
          rfl
      · show ((changes.filter fun u => c.passes u.1).lookup k).map some = _
        rw [inside]
        cases c.passes k <;> rfl
  | delete keys =>
    simp only [Client.part]
    split
    · rename_i unfiltered
      have passes : c.passes k = true := by rw [Client.passes, unfiltered]; rfl
      rw [passes]
      rfl
    · split
      · rename_i none
        have outside : c.passes k = true → k ∉ keys := fun passes member => by
          have there := List.mem_filter.mpr ⟨member, passes⟩
          rw [List.isEmpty_iff.mp none] at there
          cases there
        cases passes : c.passes k with
        | false => rfl
        | true => simp [Message.tells, outside passes]
      · cases passes : c.passes k <;> simp [Message.tells, passes]
  | other => simp [Client.part, Message.tells]

/-- The client with what it is to be told. -/
def gives (c : Client) (message : Message) : List Client :=
  match c.part message with
  | none => [c]
  | some text => (c.enqueue text).toList

end Client

/-- A message that can be written reaches every client that it is for. -/
theorem broadcast_writable {message : Message} (fits : message.writable = true) (clients : List Client) :
    broadcast message clients = (clients.flatMap fun c => c.gives message, true) := by
  induction clients with
  | nil => rfl
  | cons c clients ih =>
    rw [broadcast, List.flatMap_cons, Client.gives]
    cases part : c.part message with
    | none => simp [ih]
    | some text => simp [ih, Client.part_writable fits part]

/-- What becomes of a client that is told something of the keys that pass its filter. -/
structure Told (tells : Text → Option (Option Primitive)) (c c' : Client) : Prop where
  nsPrefixes : c'.nsPrefixes = c.nsPrefixes
  snapshot : c'.snapshot = c.snapshot
  distinct : (∀ message ∈ c.messages, message.Distinct) → ∀ message ∈ c'.messages, message.Distinct
  said : ∀ k, said c'.messages k = (if c.passes k then tells k else none).or (said c.messages k)

theorem Told.nothing (c : Client) {tells : Text → Option (Option Primitive)} (silent : ∀ k, tells k = none) : Told tells c c where
  nsPrefixes := rfl
  snapshot := rfl
  distinct := id
  said k := by
    rw [silent]
    cases c.passes k <;> rfl

theorem told_of_gives {c c' : Client} {message : Message} (distinct : message.Distinct) (given : c' ∈ c.gives message) :
    Told (fun k => message.tells k) c c' := by
  have tells := c.tells_part message
  unfold Client.gives at given
  split at given
  · rename_i part
    rw [List.mem_singleton.mp given]
    refine ⟨rfl, rfl, id, fun k => ?_⟩
    rw [← tells k, part]
    rfl
  · rename_i text part
    unfold Client.enqueue at given
    split at given
    · rw [List.mem_singleton.mp given]
      have all : Client.messages { c with queue := c.queue ++ [text] } = c.messages ++ [text] :=
        (List.append_assoc ..).symm
      refine ⟨rfl, rfl, fun before m member => ?_, fun k => ?_⟩
      · rw [all] at member
        rcases List.mem_append.mp member with old | new
        · exact before m old
        · rw [List.mem_singleton.mp new]
          exact Client.part_distinct distinct part
      · rw [all, said_concat, ← tells k, part]
        rfl
    · cases given

/-- A broadcast of what can be written, unless there is nothing to say. -/
theorem told_of_broadcast {message : Message} {clients clients' : List Client} {skip done : Bool} (fits : message.writable = true)
    (distinct : message.Distinct) (silent : skip = true → ∀ k, message.tells k = none)
    (run : (if skip then (clients, true) else broadcast message clients) = (clients', done)) :
    done = true ∧ ∀ c' ∈ clients', ∃ c ∈ clients, Told (fun k => message.tells k) c c' := by
  split at run
  · rename_i skipped
    cases run
    exact ⟨rfl, fun c member => ⟨c, member, .nothing c (silent skipped)⟩⟩
  · rw [broadcast_writable fits] at run
    cases run
    refine ⟨rfl, fun c' member => ?_⟩
    obtain ⟨c, there, given⟩ := List.mem_flatMap.mp member
    exact ⟨c, there, told_of_gives distinct given⟩

namespace Hub

variable {s s' : Hub}

/-- What is still to be flushed of a key agrees with the store. -/
def pending (s : Hub) (k : Text) : Prop :=
  (s.stateBatch.lookup k).isSome = true ∨ k ∈ s.stateDeletedKeys

/-- Changes that are gathered touch neither the store nor the clients. -/
theorem foldl_onStateChange_same (s : Hub) (changes : List Change) :
    changes.foldl onStateChange s = { s with
      stateBatch := (changes.foldl onStateChange s).stateBatch
      stateDeletedKeys := (changes.foldl onStateChange s).stateDeletedKeys } := by
  induction changes using List.reverseRecOn with
  | nil => rfl
  | append_singleton changes change ih =>
    rw [List.foldl_append, List.foldl_cons, List.foldl_nil, onStateChange]
    split <;> rw [ih]

/-- The last change of a key decides in which of the two buffers the key stands. -/
theorem foldl_onStateChange (s : Hub) (changes : List Change) (k : Text) :
    match (ofKey k changes).getLast? with
    | none => (changes.foldl onStateChange s).stateBatch.lookup k = s.stateBatch.lookup k ∧
      (k ∈ (changes.foldl onStateChange s).stateDeletedKeys ↔ k ∈ s.stateDeletedKeys)
    | some change =>
      if change.new = .none ∧ (s.state.store.lookup k).isNone then
        (changes.foldl onStateChange s).stateBatch.lookup k = none ∧ k ∈ (changes.foldl onStateChange s).stateDeletedKeys
      else (changes.foldl onStateChange s).stateBatch.lookup k = some change.new ∧
        k ∉ (changes.foldl onStateChange s).stateDeletedKeys := by
  induction changes using List.reverseRecOn with
  | nil => exact ⟨rfl, Iff.rfl⟩
  | append_singleton changes change ih =>
    have same := foldl_onStateChange_same s changes
    have store : (changes.foldl onStateChange s).state = s.state := by rw [same]
    rw [List.foldl_append, List.foldl_cons, List.foldl_nil]
    by_cases here : change.key = k
    · subst here
      have last : (ofKey change.key (changes ++ [change])).getLast? = some change := by simp [ofKey]
      rw [last, onStateChange, store]
      by_cases gone : change.new = .none ∧ (s.state.store.lookup change.key).isNone
      · have erased := List.lookup_filter_keys (fun key => decide (key ≠ change.key)) change.key
          (changes.foldl onStateChange s).stateBatch
        rw [if_pos gone]
        show if change.new = .none ∧ _ then _ else _
        rw [if_pos gone]
        refine ⟨erased.trans (by simp), ?_⟩
        show change.key ∈ if change.key ∈ (changes.foldl onStateChange s).stateDeletedKeys then _ else _
        split
        · assumption
        · exact List.mem_append_right _ List.mem_cons_self
      · rw [if_neg gone]
        show if change.new = .none ∧ _ then _ else _
        rw [if_neg gone]
        exact ⟨Dict.lookup_set_self .., by simp⟩
    · have last : ofKey k (changes ++ [change]) = ofKey k changes := by simp [ofKey, here]
      have other : k ≠ change.key := Ne.symm here
      have kept : ((changes.foldl onStateChange s).onStateChange change).stateBatch.lookup k =
          (changes.foldl onStateChange s).stateBatch.lookup k ∧
          (k ∈ ((changes.foldl onStateChange s).onStateChange change).stateDeletedKeys ↔
            k ∈ (changes.foldl onStateChange s).stateDeletedKeys) := by
        rw [onStateChange]
        split
        · refine ⟨(List.lookup_filter_keys (fun key => decide (key ≠ change.key)) k _).trans (by simp [other]), ?_⟩
          show k ∈ (if change.key ∈ (changes.foldl onStateChange s).stateDeletedKeys then _ else _) ↔ _
          split <;> simp [other]
        · exact ⟨Dict.lookup_set_of_ne other .., by simp [other]⟩
      rw [last, kept.1, kept.2]
      exact ih

theorem foldl_onStateChange_batch (s : Hub) (changes : List Change) :
    ((s.stateBatch.map Prod.fst).Nodup → ((changes.foldl onStateChange s).stateBatch.map Prod.fst).Nodup) ∧
    ∀ u ∈ (changes.foldl onStateChange s).stateBatch, u ∈ s.stateBatch ∨ ∃ change ∈ changes, u.2 = change.new := by
  induction changes using List.reverseRecOn with
  | nil => exact ⟨id, fun u member => Or.inl member⟩
  | append_singleton changes change ih =>
    have old : ∀ u ∈ (changes.foldl onStateChange s).stateBatch,
        u ∈ s.stateBatch ∨ ∃ change' ∈ changes ++ [change], u.2 = change'.new := fun u member =>
      (ih.2 u member).imp id fun ⟨change, there, new⟩ => ⟨change, List.mem_append_left _ there, new⟩
    rw [List.foldl_append, List.foldl_cons, List.foldl_nil, onStateChange]
    split
    · exact ⟨fun distinct => (ih.1 distinct).sublist (List.filter_sublist.map _),
        fun u member => old u (List.mem_filter.mp member).1⟩
    · refine ⟨fun distinct => Dict.nodup_set (ih.1 distinct) .., fun u member => ?_⟩
      rcases Dict.mem_set member with rfl | there
      · exact Or.inr ⟨change, List.mem_append_right _ List.mem_cons_self, rfl⟩
      · exact old u there

/-- A client knows of the store all that is not pending, from its snapshot (the one
it would have taken, if it has not yet) and the messages for it. -/
structure Current (s : Hub) (c : Client) : Prop where
  distinct : ∀ message ∈ c.messages, message.Distinct
  foreign : ∀ k, c.passes k = false → said c.messages k = none ∧ ∀ snap ∈ c.snapshot, snap.lookup k = none
  fresh : ∀ k, c.passes k = true → ¬s.pending k →
    (said c.messages k).getD ((c.snapshot.getD s.state.store).lookup k) = s.state.store.lookup k

/-- What holds in every state of a hub whose changes can all be written. -/
structure Sound (s : Hub) : Prop where
  batch : ∀ k v, s.stateBatch.lookup k = some v → s.state.store.lookup k = some v
  deleted : ∀ k ∈ s.stateDeletedKeys, s.state.store.lookup k = none
  distinct : (s.stateBatch.map Prod.fst).Nodup
  writable : ∀ u ∈ s.stateBatch, Isc.writable u.2 = true
  clients : ∀ c ∈ s.clients, s.Current c

/-- Only what `json.dumps` can write is written to the store. -/
def writes (s : Hub) : HubLabel → Bool
  | .write op => (s.state.write op).2.all fun change => Isc.writable change.new
  | _ => true

theorem Sound.write (sound : s.Sound) {op : Op} (writes : s.writes (.write op) = true) : (s.write op).Sound := by
  have wrote := State.StateStore.wrote_write s.state op
  rw [Hub.writes] at writes
  rw [Hub.write]
  obtain ⟨⟨state, changes⟩, written⟩ : ∃ result, s.state.write op = result := ⟨_, rfl⟩
  rw [written] at wrote writes ⊢
  show (changes.foldl onStateChange { s with state }).Sound
  have same := foldl_onStateChange_same { s with state } changes
  have gathered := foldl_onStateChange { s with state } changes
  have batched := foldl_onStateChange_batch { s with state } changes
  obtain ⟨s', folded⟩ : ∃ s', changes.foldl onStateChange { s with state } = s' := ⟨_, rfl⟩
  rw [folded] at same gathered batched ⊢
  have store : s'.state = state := by rw [same]
  have clients : s'.clients = s.clients := by rw [same]
  have cases_ : ∀ k, state.store.lookup k = s.state.store.lookup k ∧
        s'.stateBatch.lookup k = s.stateBatch.lookup k ∧ (k ∈ s'.stateDeletedKeys ↔ k ∈ s.stateDeletedKeys) ∨
      s'.stateBatch.lookup k = none ∧ k ∈ s'.stateDeletedKeys ∧ state.store.lookup k = none ∨
      (∃ v, s'.stateBatch.lookup k = some v ∧ state.store.lookup k = some v) ∧ k ∉ s'.stateDeletedKeys := by
    intro k
    have here := gathered k
    cases last : (ofKey k changes).getLast? with
    | none =>
      rw [last] at here
      have untouched : ∀ change ∈ changes, change.key ≠ k := fun change member same => by
        have there : change ∈ ofKey k changes := List.mem_filter.mpr ⟨member, decide_eq_true same⟩
        rw [List.getLast?_eq_none_iff.mp last] at there
        cases there
      exact Or.inl ⟨wrote.others k untouched, here⟩
    | some change =>
      rw [last] at here
      have new : change.new = state.get k := (wrote.leads k).last last
      change if change.new = .none ∧ (state.store.lookup k).isNone then _ else _ at here
      by_cases gone : change.new = .none ∧ (state.store.lookup k).isNone
      · rw [if_pos gone] at here
        exact Or.inr (Or.inl ⟨here.1, here.2, Option.isNone_iff_eq_none.mp gone.2⟩)
      · rw [if_neg gone] at here
        refine Or.inr (Or.inr ⟨⟨change.new, here.1, ?_⟩, here.2⟩)
        cases found : state.store.lookup k with
        | some v => rw [new, State.StateStore.get, found]; rfl
        | none =>
          refine absurd ⟨?_, by rw [found]; rfl⟩ gone
          rw [new, State.StateStore.get, found]
          rfl
  constructor
  · intro k v there
    rw [store]
    rcases cases_ k with ⟨kept, same, _⟩ | ⟨none, _⟩ | ⟨⟨w, found, value⟩, _⟩
    · rw [kept]
      exact sound.batch k v (same.symm.trans there)
    · rw [none] at there
      cases there
    · rw [found] at there
      cases there
      exact value
  · intro k there
    rw [store]
    rcases cases_ k with ⟨kept, _, same⟩ | ⟨_, _, none⟩ | ⟨_, absent⟩
    · rw [kept]
      exact sound.deleted k (same.mp there)
    · exact none
    · exact absurd there absent
  · exact batched.1 sound.distinct
  · intro u member
    rcases batched.2 u member with old | ⟨change, there, new⟩
    · exact sound.writable u old
    · rw [new]
      exact List.all_eq_true.mp writes change there
  · rw [clients]
    intro c member
    have current := sound.clients c member
    refine ⟨current.distinct, current.foreign, fun k passes settled => ?_⟩
    rw [store]
    rcases cases_ k with ⟨kept, same, same'⟩ | ⟨_, there, _⟩ | ⟨⟨_, there, _⟩, _⟩
    · have before := current.fresh k passes (by rwa [pending, ← same, ← same'])
      rw [kept, ← before]
      cases c.snapshot with
      | none => exact congrArg _ kept
      | some snap => rfl
    · exact absurd (Or.inr there) settled
    · exact absurd (Or.inl (by rw [there]; rfl)) settled

theorem Sound.flush (sound : s.Sound) : s.flushStateBatch.Sound := by
  have updates : (Message.update s.stateBatch).writable = true := List.all_eq_true.mpr sound.writable
  have noUpdates : s.stateBatch.isEmpty = true → ∀ k, (Message.update s.stateBatch).tells k = none := fun none k => by
    rw [List.isEmpty_iff.mp none]
    rfl
  have noDeletes : s.stateDeletedKeys.isEmpty = true → ∀ k,
      (Message.delete (s.stateDeletedKeys.insertionSort (· ≤ ·))).tells k = none := fun none k => by
    rw [List.isEmpty_iff.mp none]
    rfl
  have deletes : ∀ k, (Message.delete (s.stateDeletedKeys.insertionSort (· ≤ ·))).tells k =
      if k ∈ s.stateDeletedKeys then some none else none := fun k => by
    simp only [Message.tells, List.mem_insertionSort]
  unfold flushStateBatch
  cases first : (if s.stateBatch.isEmpty then (s.clients, true) else broadcast (.update s.stateBatch) s.clients) with
  | mk middle done =>
    obtain ⟨rfl, told⟩ := told_of_broadcast updates sound.distinct noUpdates first
    show (if true = true then _ else _ : Hub).Sound
    rw [if_pos rfl]
    cases second : (if s.stateDeletedKeys.isEmpty then (middle, true)
      else broadcast (.delete (s.stateDeletedKeys.insertionSort (· ≤ ·))) middle) with
    | mk clients done =>
      obtain ⟨rfl, told'⟩ := told_of_broadcast
        (show (Message.delete (s.stateDeletedKeys.insertionSort (· ≤ ·))).writable = true from rfl) trivial noDeletes second
      refine ⟨nofun, nofun, List.nodup_nil, nofun, fun c'' member => ?_⟩
      obtain ⟨c', there, last⟩ := told' c'' member
      obtain ⟨c, there, first⟩ := told c' there
      have current := sound.clients c there
      have passes : ∀ k, c'.passes k = c.passes k ∧ c''.passes k = c.passes k := fun k => by
        simp only [Client.passes, first.nsPrefixes, last.nsPrefixes, and_self]
      have snapshot : c''.snapshot = c.snapshot := last.snapshot.trans first.snapshot
      refine ⟨last.distinct (first.distinct current.distinct), fun k outside => ?_, fun k inside _ => ?_⟩
      · rw [(passes k).2] at outside
        rw [last.said, first.said, (passes k).1, outside, snapshot]
        exact current.foreign k outside
      · rw [(passes k).2] at inside
        rw [last.said, first.said, (passes k).1, inside, if_pos rfl, if_pos rfl, snapshot, deletes, Message.tells]
        show _ = s.state.store.lookup k
        by_cases gone : k ∈ s.stateDeletedKeys
        · rw [if_pos gone, sound.deleted k gone]
          rfl
        · rw [if_neg gone]
          cases found : s.stateBatch.lookup k with
          | some v =>
            rw [sound.batch k v found]
            rfl
          | none =>
            refine current.fresh k inside fun waits => ?_
            rcases waits with there | there
            · rw [found] at there
              cases there
            · exact gone there

/-- A client that is as it was, but for what it has been sent of its messages. -/
theorem Current.same {c c' : Client} (current : s.Current c) (nsPrefixes : c'.nsPrefixes = c.nsPrefixes)
    (snapshot : c'.snapshot = c.snapshot) (messages : c'.messages = c.messages) : s.Current c' := by
  have passes : ∀ k, c'.passes k = c.passes k := fun k => by simp only [Client.passes, nsPrefixes]
  refine ⟨?_, fun k outside => ?_, fun k inside settled => ?_⟩
  · rw [messages]
    exact current.distinct
  · rw [messages, snapshot]
    exact current.foreign k ((passes k).symm.trans outside)
  · rw [messages, snapshot]
    exact current.fresh k ((passes k).symm.trans inside) settled

theorem Current.added (nsPrefixes : List Text) : s.Current { nsPrefixes } where
  distinct _ member := by cases member
  foreign _ _ := ⟨rfl, nofun⟩
  fresh _ _ _ := rfl

/-- The snapshot may be older than what has been queued, or newer. -/
theorem Current.snapshot {c : Client} (current : s.Current c) (untaken : c.snapshot = none) :
    s.Current { c with snapshot := some (s.state.store.filter fun u => c.passes u.1) } where
  distinct := current.distinct
  foreign k outside := by
    refine ⟨(current.foreign k outside).1, fun snap taken => ?_⟩
    cases taken
    rw [List.lookup_filter_keys c.passes]
    exact if_neg (Bool.eq_false_iff.mp outside)
  fresh k inside settled := by
    have before := current.fresh k inside settled
    rw [untaken] at before
    have inside : c.passes k = true := inside
    show (said c.messages k).getD ((s.state.store.filter fun u => c.passes u.1).lookup k) = _
    rw [List.lookup_filter_keys c.passes, if_pos inside]
    exact before

theorem Current.sent {c c' : Client} (current : s.Current c) (given : c' ∈ (c.enqueue .other).toList) : s.Current c' := by
  have told := told_of_gives (show Message.Distinct .other from trivial) given
  have silent : ∀ k, said c'.messages k = said c.messages k := fun k => by
    rw [told.said]
    cases c.passes k <;> rfl
  have passes : ∀ k, c'.passes k = c.passes k := fun k => by simp only [Client.passes, told.nsPrefixes]
  refine ⟨told.distinct current.distinct, fun k outside => ?_, fun k inside settled => ?_⟩
  · rw [silent, told.snapshot]
    exact current.foreign k ((passes k).symm.trans outside)
  · rw [silent, told.snapshot]
    exact current.fresh k ((passes k).symm.trans inside) settled

theorem Sound.replaced (sound : s.Sound) {clients : List Client} (current : ∀ c ∈ clients, s.Current c) :
    Sound { s with clients } :=
  ⟨sound.batch, sound.deleted, sound.distinct, sound.writable, fun c member =>
    ⟨(current c member).distinct, (current c member).foreign, (current c member).fresh⟩⟩

theorem Sound.updated (sound : s.Sound) {i : Nat} {f : Client → Option Client}
    (keeps : ∀ c c', s.Current c → f c = some c' → s.Current c') (run : s.update i f = some s') : s'.Sound := by
  unfold update at run
  split at run
  · cases run
  · rename_i c there
    obtain ⟨c', gone, rfl⟩ := Option.map_eq_some_iff.mp run
    refine sound.replaced fun d member => ?_
    rcases List.mem_or_eq_of_mem_set member with old | rfl
    · exact sound.clients d old
    · exact keeps c _ (sound.clients c (List.mem_of_getElem? there)) gone

theorem Sound.next (sound : s.Sound) {l : HubLabel} (writes : s.writes l = true) (run : s.next l = some s') : s'.Sound := by
  cases l with
  | write op =>
    cases run
    exact sound.write writes
  | flush =>
    simp only [Hub.next, Option.ite_none_right_eq_some, Option.some.injEq] at run
    rw [← run.2]
    exact sound.flush
  | add nsPrefixes =>
    cases run
    refine sound.replaced fun c member => ?_
    rcases List.mem_append.mp member with old | new
    · exact sound.clients c old
    · rw [List.mem_singleton.mp new]
      exact .added nsPrefixes
  | reorder clients =>
    simp only [Hub.next, Option.ite_none_right_eq_some, Option.some.injEq] at run
    obtain ⟨perm, rfl⟩ := run
    exact sound.replaced fun c member => sound.clients c ((List.isPerm_iff.mp perm).mem_iff.mp member)
  | snapshot i =>
    refine sound.updated (fun c c' current taken => ?_) run
    simp only [Option.ite_none_right_eq_some, Option.some.injEq, Bool.and_eq_true] at taken
    rw [← taken.2]
    exact current.snapshot (Option.isNone_iff_eq_none.mp taken.1.1)
  | ready i =>
    refine sound.updated (fun c c' current set => ?_) run
    simp only [Option.ite_none_right_eq_some, Option.some.injEq] at set
    rw [← set.2]
    exact current.same rfl rfl rfl
  | deliver i =>
    refine sound.updated (fun c c' current sent => ?_) run
    split at sent
    · rename_i message queue waiting
      simp only [Option.ite_none_right_eq_some, Option.some.injEq] at sent
      rw [← sent.2]
      refine current.same rfl rfl ?_
      rw [Client.messages, Client.messages, waiting]
      exact List.append_assoc ..
    · cases sent
  | send i =>
    simp only [Hub.next] at run
    split at run
    · cases run
    · rename_i c there
      cases run
      refine sound.replaced fun d member => ?_
      rcases List.mem_append.mp member with member | after
      · rcases List.mem_append.mp member with before | given
        · exact sound.clients d (List.mem_of_mem_take before)
        · exact (sound.clients c (List.mem_of_getElem? there)).sent given
      · exact sound.clients d (List.mem_of_mem_drop after)
  | drop i =>
    cases run
    exact sound.replaced fun c member => sound.clients c (List.mem_of_mem_eraseIdx member)

/-- A client that has got its snapshot and all that was queued for it knows the
part of the store that passes its filter, once nothing is left to flush, if all that
was written could be. -/
theorem client_converges (reach : Run.Reach machine (fun s l => s.writes l = true) s) (flushed : s.stateBatch = [])
    (flushed' : s.stateDeletedKeys = []) {c : Client} (member : c ∈ s.clients) (taken : c.snapshot.isSome = true)
    (delivered : c.queue = []) (k : Text) :
    c.view.lookup k = if c.passes k then s.state.store.lookup k else none := by
  have sound : s.Sound := reach.invariant
    (fun s ⟨clients, batch, deleted, _⟩ => by
      refine ⟨?_, ?_, ?_, ?_, ?_⟩ <;> simp [clients, batch, deleted])
    fun _ _ _ _ sound writes run => sound.next writes run
  have current := sound.clients c member
  obtain ⟨snap, taken⟩ := Option.isSome_iff_exists.mp taken
  have all : c.messages = c.received := by rw [Client.messages, delivered, List.append_nil]
  have distinct := current.distinct
  rw [all] at distinct
  rw [Client.view, lookup_foldl_apply distinct, taken, ← all]
  cases passes : c.passes k with
  | false =>
    obtain ⟨silent, absent⟩ := current.foreign k passes
    rw [silent]
    exact absent snap taken
  | true =>
    have settled : ¬s.pending k := by simp [pending, flushed, flushed']
    have known := current.fresh k passes settled
    rw [taken] at known
    exact known

section Runs

def muted : Text := text "var.muted"

def input : Text := text "var.input"

def put (key : Text) (value : Primitive) : HubLabel :=
  .write (.set key (.flat value) (text "api"))

/-- A flush before the snapshot, one after it, and keys that are gone or do not pass. -/
theorem client_converges_late : ∃ (s : Hub) (c : Client), c ∈ s.clients ∧ c.snapshot.isSome = true ∧
    c.received.length = 3 ∧ ∀ k, c.view.lookup k = if c.passes k then s.state.store.lookup k else none := by
  have run : ∃ s, machine.run (fun s l => s.writes l = true) { state := {} } [put muted (.bool true), .add [text "var."],
      put input (.str (text "hdmi1")), .flush, .write (.delete muted (text "api")), .snapshot 0, put (text "ui.page") (.str []),
      .ready 0, .deliver 0, put muted (.bool false), put input (.str (text "hdmi2")), .write (.delete muted (text "api")),
      .flush, .deliver 0, .deliver 0] = some s ∧ s.stateBatch = [] ∧ s.stateDeletedKeys = [] ∧
      ∃ c, s.clients = [c] ∧ c.snapshot.isSome = true ∧ c.queue = [] ∧ c.received.length = 3 :=
    ⟨_, rfl, rfl, rfl, _, rfl, rfl, rfl, rfl⟩
  obtain ⟨s, run, flushed, flushed', c, clients, taken, delivered, three⟩ := run
  have member : c ∈ s.clients := by
    rw [clients]
    exact List.mem_cons_self
  have reach : Run.Reach machine (fun s l => s.writes l = true) s := .run (.init ⟨rfl, rfl, rfl, rfl⟩) run
  exact ⟨s, c, member, taken, three, client_converges reach flushed flushed' member taken delivered⟩

theorem not_writable {n : Nat} (large : 10 ^ Json.Scan.intLimit ≤ n) : Isc.writable (.int n) = false := by
  rw [Isc.writable, Int.natAbs_natCast, decide_eq_false_iff_not, Nat.not_lt]
  exact large

/-- A number of more digits than Python writes loses what is flushed with it, and all that comes later. -/
theorem client_diverges : ¬∀ (s : Hub) (c : Client) (k : Text), Run.Reach machine Run.always s → s.stateBatch = [] →
    s.stateDeletedKeys = [] → c ∈ s.clients → c.snapshot.isSome = true → c.queue = [] →
    c.view.lookup k = if c.passes k then s.state.store.lookup k else none := by
  intro all
  obtain ⟨n, unwritable⟩ : ∃ n : Nat, Isc.writable (.int n) = false := ⟨_, not_writable (Nat.le_refl _)⟩
  have run : ∃ s, machine.run Run.always { state := {} } [.add [], .snapshot 0, .ready 0, put input (.int n),
      put muted (.bool true)] = some s ∧ s.stateBatch = [(input, .int n), (muted, .bool true)] ∧ s.stateDeletedKeys = [] ∧
      s.clients = [{ snapshot := some [], ready := true }] ∧ s.flushing = true ∧
      s.state.store.lookup muted = some (.bool true) := ⟨_, rfl, rfl, rfl, rfl, rfl, rfl⟩
  obtain ⟨s, run, batch, deleted, clients, flushing, there⟩ := run
  have reach : Run.Reach machine Run.always s := .run (.init ⟨rfl, rfl, rfl, rfl⟩) run
  have raises : broadcast (.update s.stateBatch) s.clients = (s.clients, false) := by
    rw [clients, batch]
    simp [broadcast, Client.part, Message.writable, unwritable]
  have lost : s.flushStateBatch = { s with stateBatch := [], stateDeletedKeys := [], flushing := false } := by
    have held : s.stateBatch.isEmpty = false := by rw [batch]; rfl
    unfold flushStateBatch
    rw [held, if_neg Bool.false_ne_true, raises]
    rfl
  have flushed : machine.next s .flush = some s.flushStateBatch := if_pos flushing
  have reach' := Run.Reach.step reach trivial flushed
  rw [lost] at reach'
  have member : { snapshot := some [], ready := true } ∈ s.clients := by
    rw [clients]
    exact List.mem_cons_self
  have view := all _ _ muted reach' rfl rfl member rfl rfl
  have here : s.state.store.lookup muted = none := view.symm
  rw [there] at here
  cases here

end Runs

end Hub

end OpenAvc.Push
