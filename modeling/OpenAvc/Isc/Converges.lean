import OpenAvc.Isc.Mirror

/-! When a peer has all that a system shares, and nothing else. -/

namespace OpenAvc.Isc

open Cloud (Primitive)
open State (StateStore Op Change Written)

namespace Mirror

/-- A value that the store keeps where it is given another: the same one, or an equal one of its type. -/
def Same (held value : Primitive) : Prop :=
  held = value ∨ held.unchanged value = true

/-- Both have no value, or the same. -/
def SameAt : Option Primitive → Option Primitive → Prop
  | none, none => True
  | some held, some value => Same held value
  | _, _ => False

variable (normcase : Text → Text) (instanceId : Text)

/-- The key is one that this system shares. -/
def shares (s : Mirror) (k : Text) : Bool :=
  !isIscKey k && isSharedKey normcase s.patterns k

/-- The peer has what is shared, under the keys it is kept under, and nothing else there. -/
def Mirrored (s : Mirror) : Prop :=
  ∀ k, SameAt (s.b.store.lookup (localKey instanceId k)) (if s.shares normcase k then s.a.store.lookup k else none)

/-- Everything has been flushed and handled. -/
def Settled (s : Mirror) : Prop :=
  s.greeted = true ∧ s.outgoingBatch = [] ∧ s.inFlight = []

/-- While the peer is connected: subscriptions hear of every change of a shared key,
which no write has marked as the peer's; a reload shares every key that there is or
shares it not as before; every entry of a batch that is sent is the value of a key
that is there and shared; and the peer drops no message. -/
def faithful (s : Mirror) : MirrorLabel → Bool
  | .write op => !s.registered || (s.a.write op).2.all fun change =>
      !s.shares normcase change.key || hears normcase s.patterns change.key && change.source ≠ text "isc"
  | .reload patterns => !s.registered || s.a.store.all fun u =>
      isIscKey u.1 || isSharedKey normcase s.patterns u.1 = isSharedKey normcase patterns u.1
  | .flush => !s.registered || s.outgoingBatch.all fun u =>
      s.a.store.lookup u.1 = some u.2 && isSharedKey normcase s.patterns u.1 && writable u.2
  | .process limited => !limited
  | _ => true

/-- What becomes of the value under a key when the peer applies a change. -/
def take (k : Text) (held : Option Primitive) (u : Text × Primitive) : Option Primitive :=
  if u.1 = k then if held.any (·.unchanged u.2) then held else some u.2 else held

/-- The value that the peer will have under the key when it has handled all that is on its way. -/
def view (s : Mirror) (k : Text) : Option Primitive :=
  s.inFlight.flatten.foldl (take k) (s.b.store.lookup (localKey instanceId k))

theorem foldl_take_other {k : Text} {entries : List (Text × Primitive)} (other : ∀ u ∈ entries, u.1 ≠ k)
    (held : Option Primitive) : entries.foldl (take k) held = held := by
  induction entries with
  | nil => rfl
  | cons u entries ih =>
    rw [List.foldl_cons, take, if_neg (other u List.mem_cons_self)]
    exact ih fun w member => other w (List.mem_cons_of_mem _ member)

theorem foldl_take_lookup {k : Text} {entries : List (Text × Primitive)} (distinct : (entries.map Prod.fst).Nodup)
    {value : Primitive} (there : entries.lookup k = some value) (held : Option Primitive) :
    ∃ kept, entries.foldl (take k) held = some kept ∧ Same kept value := by
  induction entries generalizing held with
  | nil => cases there
  | cons u entries ih =>
    obtain ⟨key, first⟩ := u
    obtain ⟨apart, distinct⟩ := List.nodup_cons.mp distinct
    by_cases here : k = key
    · subst here
      obtain rfl : first = value := by simpa using there
      have others : ∀ u ∈ entries, u.1 ≠ k := fun u member same => apart (List.mem_map.mpr ⟨u, member, same⟩)
      rw [List.foldl_cons, foldl_take_other others, take, if_pos rfl]
      split
      · rename_i kept
        obtain ⟨old, rfl, same⟩ := (Option.any_eq_true ..).mp kept
        exact ⟨old, rfl, Or.inr same⟩
      · exact ⟨first, rfl, Or.inl rfl⟩
    · rw [List.lookup_cons, beq_eq_false_iff_ne.mpr here] at there
      rw [List.foldl_cons, take, if_neg (Ne.symm here)]
      exact ih distinct there held

theorem localKey_inj {k j : Text} : localKey instanceId k = localKey instanceId j ↔ k = j := by
  simp [localKey]

theorem applyRemoteState_lookup (changes : List (Text × Primitive)) (b : StateStore) (k : Text) :
    (applyRemoteState instanceId b changes).store.lookup (localKey instanceId k) =
      changes.foldl (take k) (b.store.lookup (localKey instanceId k)) := by
  induction changes generalizing b with
  | nil => rfl
  | cons u changes ih =>
    have first : (b.apply (localKey instanceId u.1) (text "isc") (.flat u.2)).1.store.lookup (localKey instanceId k) =
        take k (b.store.lookup (localKey instanceId k)) u := by
      rw [StateStore.apply, take]
      by_cases here : u.1 = k
      · subst here
        rw [if_pos rfl]
        unfold StateStore.holds
        split
        · rfl
        · exact Dict.lookup_set_self ..
      · rw [if_neg here]
        split
        · rfl
        · exact Dict.lookup_set_of_ne (fun same => here ((localKey_inj instanceId).mp same).symm) ..
    rw [applyRemoteState, List.foldl_cons, List.foldl_cons, ← first]
    exact ih _

/-- What holds in every state of a system that shares its state faithfully. -/
structure Sound (s : Mirror) : Prop where
  distinct : (s.a.store.map Prod.fst).Nodup
  batched : (s.outgoingBatch.map Prod.fst).Nodup
  own : ∀ u ∈ s.outgoingBatch, isIscKey u.1 = false
  alone : s.registered = false → s.greeted = false ∧ ∀ k, s.view instanceId k = none
  known : ∀ k held, s.view instanceId k = some held → s.outgoingBatch.lookup k = none →
    s.shares normcase k = true ∧ ∃ value, s.a.store.lookup k = some value ∧ Same held value
  shared : s.greeted = true → ∀ k value, s.outgoingBatch.lookup k = none → s.shares normcase k = true →
    s.a.store.lookup k = some value → ∃ held, s.view instanceId k = some held ∧ Same held value

variable {normcase instanceId} {s s' : Mirror}

/-- In a sound state that has settled, the peer's keys mirror what is shared. -/
theorem Sound.mirrored (sound : Sound normcase instanceId s) (settled : s.Settled) : s.Mirrored normcase instanceId := by
  obtain ⟨greeted, batch, inFlight⟩ := settled
  intro k
  have now : s.view instanceId k = s.b.store.lookup (localKey instanceId k) := by
    rw [view, inFlight]
    rfl
  have idle : s.outgoingBatch.lookup k = none := by rw [batch]; rfl
  rw [← now]
  cases seen : s.view instanceId k with
  | some held =>
    obtain ⟨shares, value, there, same⟩ := sound.known k held seen idle
    rw [if_pos shares, there]
    exact same
  | none =>
    split
    · rename_i shares
      cases there : s.a.store.lookup k with
      | none => exact trivial
      | some value =>
        obtain ⟨held, seen', _⟩ := sound.shared greeted k value idle shares there
        rw [seen] at seen'
        cases seen'
    · exact trivial

theorem Sound.start (init : (machine normcase instanceId).init s) : Sound normcase instanceId s := by
  obtain ⟨batch, registered, greeted, inFlight, distinct, clear⟩ := init
  have empty : ∀ k, s.view instanceId k = none := fun k => by
    rw [view, inFlight]
    exact clear k
  constructor
  · exact distinct
  · rw [batch]
    exact List.nodup_nil
  · rw [batch]
    exact fun _ member => by cases member
  · exact fun _ => ⟨greeted, empty⟩
  · intro k held seen
    rw [empty k] at seen
    cases seen
  · intro sent
    rw [greeted] at sent
    cases sent

/-- The batch after changes have been queued. -/
structure Queued (s s' : Mirror) (changes : List Change) : Prop where
  same : s' = { s with outgoingBatch := s'.outgoingBatch }
  batched : (s.outgoingBatch.map Prod.fst).Nodup → (s'.outgoingBatch.map Prod.fst).Nodup
  own : (∀ u ∈ s.outgoingBatch, isIscKey u.1 = false) → ∀ u ∈ s'.outgoingBatch, isIscKey u.1 = false
  absent : ∀ k, s'.outgoingBatch.lookup k = none → s.outgoingBatch.lookup k = none ∧
    ∀ change ∈ changes, change.source ≠ text "isc" → isIscKey change.key = false → change.key ≠ k

theorem queued_one (s : Mirror) (change : Change) : Queued s (s.onLocalStateChange change) [change] := by
  unfold onLocalStateChange
  split
  · rename_i theirs
    exact ⟨rfl, id, id, fun k none => ⟨none, fun c member source => by
      rw [List.mem_singleton.mp member] at source
      exact absurd theirs source⟩⟩
  · split
    · rename_i isc
      exact ⟨rfl, id, id, fun k none => ⟨none, fun c member _ other => by
        rw [List.mem_singleton.mp member, isc] at other
        cases other⟩⟩
    · rename_i other
      refine ⟨rfl, fun distinct => Dict.nodup_set distinct .., fun own u member => ?_, fun k none => ?_⟩
      · rcases Dict.mem_set member with rfl | old
        · exact Bool.eq_false_iff.mpr other
        · exact own u old
      · have distinct : k ≠ change.key := fun here => by
          rw [here, Dict.lookup_set_self] at none
          cases none
        rw [Dict.lookup_set_of_ne distinct] at none
        exact ⟨none, fun c member _ _ => by rw [List.mem_singleton.mp member]; exact Ne.symm distinct⟩

theorem queued_all (s : Mirror) (changes : List Change) : Queued s (changes.foldl onLocalStateChange s) changes := by
  induction changes generalizing s with
  | nil => exact ⟨rfl, id, id, fun k none => ⟨none, fun _ member => by cases member⟩⟩
  | cons change changes ih =>
    have first := queued_one s change
    have rest := ih (s.onLocalStateChange change)
    rw [List.foldl_cons]
    refine ⟨?_, rest.batched ∘ first.batched, rest.own ∘ first.own, fun k none => ?_⟩
    · rw [rest.same, first.same]
    · obtain ⟨before, later⟩ := rest.absent k none
      obtain ⟨start, now⟩ := first.absent k before
      refine ⟨start, fun c member => ?_⟩
      rcases List.mem_cons.mp member with rfl | there
      · exact now c List.mem_cons_self
      · exact later c there

theorem Sound.write (sound : Sound normcase instanceId s) {op : Op}
    (faithful : s.faithful normcase (.write op) = true) : Sound normcase instanceId (s.write normcase op) := by
  obtain ⟨⟨a, changes⟩, written⟩ : ∃ result, s.a.write op = result := ⟨_, rfl⟩
  have wrote : StateStore.Wrote s.a a changes := by simpa only [written] using StateStore.wrote_write s.a op
  have queued := queued_all { s with a } (changes.filter fun change => hears normcase s.patterns change.key)
  rw [Mirror.write, written]
  show Sound normcase instanceId ((changes.filter fun change => hears normcase s.patterns change.key).foldl
    onLocalStateChange { s with a })
  obtain ⟨s', result⟩ : ∃ s', (changes.filter fun change => hears normcase s.patterns change.key).foldl
    onLocalStateChange { s with a } = s' := ⟨_, rfl⟩
  rw [result] at queued ⊢
  have same := queued.same
  have store : s'.a = a := by rw [same]
  have views : ∀ k, s'.view instanceId k = s.view instanceId k := fun k => by rw [same]; rfl
  have shares : ∀ k, s'.shares normcase k = s.shares normcase k := fun k => by rw [same]; rfl
  have registered : s'.registered = s.registered := by rw [same]
  have greeted : s'.greeted = s.greeted := by rw [same]
  -- a shared key of which no change is queued has not been changed
  have untouched : s.registered = true → ∀ k, s'.outgoingBatch.lookup k = none → s.shares normcase k = true →
      a.store.lookup k = s.a.store.lookup k := by
    intro connected k none shared
    refine wrote.others k fun change member here => ?_
    rw [Mirror.faithful, connected, written] at faithful
    have heard := List.all_eq_true.mp faithful change member
    simp only [here, shared, Bool.not_true, Bool.false_or, Bool.and_eq_true, decide_eq_true_eq] at heard
    have own : isIscKey change.key = false := by
      rw [here]
      simpa using (Bool.and_eq_true_iff.mp shared).1
    exact (queued.absent k none).2 change (List.mem_filter.mpr ⟨member, by rw [here]; exact heard.1⟩) heard.2 own here
  constructor
  · rw [store]
    exact wrote.distinct sound.distinct
  · exact queued.batched sound.batched
  · exact queued.own sound.own
  · rw [registered, greeted]
    simpa only [views] using sound.alone
  · intro k held seen none
    rw [views] at seen
    rw [shares, store]
    obtain ⟨shared, value, there, close⟩ := sound.known k held seen (queued.absent k none).1
    cases connected : s.registered with
    | false =>
      rw [(sound.alone connected).2 k] at seen
      cases seen
    | true => exact ⟨shared, value, (untouched connected k none shared).trans there, close⟩
  · intro sent k value none shared there
    rw [greeted] at sent
    rw [shares] at shared
    rw [store] at there
    rw [views]
    cases connected : s.registered with
    | false =>
      rw [(sound.alone connected).1] at sent
      cases sent
    | true =>
      have before := (untouched connected k none shared).symm.trans there
      exact sound.shared sent k value (queued.absent k none).1 shared before

theorem Sound.reload (sound : Sound normcase instanceId s) {patterns : List Text}
    (faithful : s.faithful normcase (.reload patterns) = true) : Sound normcase instanceId { s with patterns } := by
  -- a key that there is, is shared as before
  have kept : s.registered = true → ∀ k value, s.a.store.lookup k = some value →
      shares normcase { s with patterns } k = s.shares normcase k := by
    intro connected k value there
    rw [Mirror.faithful, connected] at faithful
    have alike := List.all_eq_true.mp faithful (k, value) (List.mem_of_lookup_eq_some there)
    cases own : isIscKey k with
    | true => simp [shares, own]
    | false =>
      simp only [own, Bool.false_or, decide_eq_true_eq] at alike
      simp only [shares, own, alike]
  constructor
  · exact sound.distinct
  · exact sound.batched
  · exact sound.own
  · exact sound.alone
  · intro k held seen none
    obtain ⟨shared, value, there, close⟩ := sound.known k held seen none
    cases connected : s.registered with
    | false =>
      have nothing := (sound.alone connected).2 k
      rw [show s.view instanceId k = some held from seen] at nothing
      cases nothing
    | true => exact ⟨(kept connected k value there).trans shared, value, there, close⟩
  · intro sent k value none shared there
    cases connected : s.registered with
    | false =>
      have unsent := (sound.alone connected).1
      rw [show s.greeted = true from sent] at unsent
      cases unsent
    | true => exact sound.shared sent k value none ((kept connected k value there).symm.trans shared) there

/-- A message with current values of shared keys is sent. -/
theorem Sound.sent (sound : Sound normcase instanceId s) {entries : List (Text × Primitive)}
    (connected : s.registered = true) (distinct : (entries.map Prod.fst).Nodup)
    (current : ∀ k value, entries.lookup k = some value → s.shares normcase k = true ∧ s.a.store.lookup k = some value)
    {batch : List (Text × Primitive)} (kept : ∀ u ∈ batch, u ∈ s.outgoingBatch) (batched : (batch.map Prod.fst).Nodup)
    (sentOrKept : ∀ k, entries.lookup k = none → batch.lookup k = none → s.outgoingBatch.lookup k = none)
    {greeted : Bool} (told : greeted = true → s.greeted = true ∨
      ∀ k value, s.shares normcase k = true → s.a.store.lookup k = some value → entries.lookup k = some value) :
    Sound normcase instanceId { s with
      outgoingBatch := batch
      greeted
      inFlight := s.inFlight ++ [entries] } := by
  have views : ∀ k, view instanceId { s with
      outgoingBatch := batch
      greeted
      inFlight := s.inFlight ++ [entries] } k = entries.foldl (take k) (s.view instanceId k) := fun k => by
    simp [view]
  have others : ∀ k, entries.lookup k = none → entries.foldl (take k) (s.view instanceId k) = s.view instanceId k :=
    fun k none => foldl_take_other (fun u member same => by
      obtain ⟨value, there⟩ := List.exists_lookup_of_mem (List.mem_map.mpr ⟨u, member, same⟩)
      rw [none] at there
      cases there) _
  constructor
  · exact sound.distinct
  · exact batched
  · exact fun u member => sound.own u (kept u member)
  · intro alone
    rw [show s.registered = false from alone] at connected
    cases connected
  · intro k held seen none
    rw [views] at seen
    cases there : entries.lookup k with
    | none =>
      rw [others k there] at seen
      exact sound.known k held seen (sentOrKept k there none)
    | some value =>
      obtain ⟨held', result, close⟩ := foldl_take_lookup distinct there (s.view instanceId k)
      rw [result] at seen
      cases seen
      exact ⟨(current k value there).1, value, (current k value there).2, close⟩
  · intro sent k value none shared there
    rw [views]
    cases now : entries.lookup k with
    | none =>
      rw [others k now]
      rcases told sent with before | all
      · exact sound.shared before k value (sentOrKept k now none) shared there
      · have told := all k value shared there
        rw [now] at told
        cases told
    | some value' =>
      have same : some value' = some value := (current k value' now).2.symm.trans there
      cases same
      exact foldl_take_lookup distinct now _

theorem Sound.flush (sound : Sound normcase instanceId s) (faithful : s.faithful normcase .flush = true) :
    Sound normcase instanceId s.flush := by
  unfold Mirror.flush
  split
  · exact sound
  rcases Bool.eq_false_or_eq_true s.registered with connected | connected
  · rw [Mirror.faithful, connected] at faithful
    have fits : ∀ u ∈ s.outgoingBatch, s.a.store.lookup u.1 = some u.2 ∧
        isSharedKey normcase s.patterns u.1 = true ∧ writable u.2 = true := fun u member => by
      simpa [and_assoc] using List.all_eq_true.mp faithful u member
    have writes : s.outgoingBatch.all (fun u => writable u.2) = true :=
      List.all_eq_true.mpr fun u member => (fits u member).2.2
    have sends : (s.registered && s.outgoingBatch.all fun u => writable u.2) = true := by rw [connected, writes]; rfl
    rw [if_pos sends]
    have nothing : ∀ u ∈ ([] : List (Text × Primitive)), u ∈ s.outgoingBatch := fun _ member => by cases member
    refine sound.sent connected sound.batched (fun k value there => ?_) nothing List.nodup_nil (fun _ none _ => none) Or.inl
    have member := List.mem_of_lookup_eq_some there
    obtain ⟨current, shared, _⟩ := fits (k, value) member
    have own : isIscKey k = false := sound.own (k, value) member
    exact ⟨by simp [shares, own, shared], current⟩
  · have unsends : (s.registered && s.outgoingBatch.all fun u => writable u.2) = false := by rw [connected]; rfl
    rw [unsends]
    obtain ⟨unsent, nothing⟩ := sound.alone connected
    exact {
      distinct := sound.distinct
      batched := List.nodup_nil
      own := fun _ member => by cases member
      alone := fun _ => ⟨unsent, nothing⟩
      known := fun k held seen _ => by
        have nothing := nothing k
        rw [show s.view instanceId k = some held from seen] at nothing
        cases nothing
      shared := fun sent => by
        rw [show s.greeted = true from sent] at unsent
        cases unsent }

theorem Sound.greet (sound : Sound normcase instanceId s) (connected : s.registered = true) :
    Sound normcase instanceId { s with
      greeted := true
      inFlight := if s.sharedState normcase = [] then s.inFlight else s.inFlight ++ [s.sharedState normcase] } := by
  have lookup := fun k => List.lookup_filter_keys (s.shares normcase) k s.a.store
  have all : ∀ k value, s.shares normcase k = true → s.a.store.lookup k = some value →
      (s.sharedState normcase).lookup k = some value := fun k value shared there =>
    (lookup k).trans ((if_pos shared).trans there)
  have current : ∀ k value, (s.sharedState normcase).lookup k = some value →
      s.shares normcase k = true ∧ s.a.store.lookup k = some value := by
    intro k value there
    have found := (lookup k).symm.trans there
    split at found
    · exact ⟨‹_›, found⟩
    · cases found
  split
  · rename_i none
    exact { sound with
      alone := fun alone => by
        rw [show s.registered = false from alone] at connected
        cases connected
      shared := fun _ k value _ shared there => by
        have told := all k value shared there
        rw [none] at told
        cases told }
  · have distinct : ((s.sharedState normcase).map Prod.fst).Nodup :=
      sound.distinct.sublist (List.filter_sublist.map Prod.fst)
    exact sound.sent connected distinct current (fun _ => id) sound.batched (fun _ _ none => none)
      fun _ => Or.inr all

/-- Every faithful step keeps the systems sound. -/
theorem Sound.next {l : MirrorLabel} (sound : Sound normcase instanceId s) (faithful : s.faithful normcase l = true)
    (run : s.next normcase instanceId l = some s') : Sound normcase instanceId s' := by
  cases l with
  | write op =>
    cases run
    exact sound.write faithful
  | reload patterns =>
    cases run
    exact sound.reload faithful
  | flush =>
    cases run
    exact sound.flush faithful
  | register =>
    simp only [Mirror.next] at run
    split at run <;> cases run
    exact { sound with alone := nofun }
  | greet =>
    simp only [Mirror.next] at run
    split at run <;> cases run
    rename_i allowed
    have connected : s.registered = true := by
      cases registered : s.registered with
      | true => rfl
      | false => simp [registered] at allowed
    exact sound.greet connected
  | process limited =>
    obtain rfl : limited = false := by simpa [Mirror.faithful] using faithful
    simp only [Mirror.next] at run
    split at run
    · cases run
    · rename_i changes rest inFlight
      cases run
      have views : ∀ k, view instanceId { s with
          inFlight := rest
          b := applyRemoteState instanceId s.b changes } k = s.view instanceId k := fun k => by
        rw [view, view, inFlight, applyRemoteState_lookup]
        simp
      exact {
        distinct := sound.distinct
        batched := sound.batched
        own := sound.own
        alone := fun alone => ⟨(sound.alone alone).1, fun k => (views k).trans ((sound.alone alone).2 k)⟩
        known := fun k held seen => sound.known k held ((views k).symm.trans seen)
        shared := fun sent k value none shared there => by
          obtain ⟨held, seen, close⟩ := sound.shared sent k value none shared there
          exact ⟨held, (views k).trans seen, close⟩ }

/-- Once everything has been flushed and handled, the peer's mirror is what is shared,
if the steps to there were faithful. -/
theorem mirror_converges
    (reach : Run.Reach (machine normcase instanceId) (fun s l => s.faithful normcase l = true) s)
    (settled : s.Settled) : s.Mirrored normcase instanceId := by
  have sound : Sound normcase instanceId s :=
    reach.invariant (fun s init => .start init) (fun _ _ _ _ sound faithful run => sound.next faithful run)
  exact sound.mirrored settled

section Runs

def room : Text := text "a1"

def muted : Text := text "var.muted"

def start (patterns : List Text) : Mirror where
  a := { store := [(text "device.amp.on", .bool true)] }
  patterns
  b := {}

theorem start_init (patterns : List Text) : (machine id room).init (start patterns) :=
  ⟨rfl, rfl, rfl, rfl, List.nodup_singleton _, fun _ => rfl⟩

theorem mirror_converges_once : ∃ s : Mirror, s.Settled ∧
    s.b.store.lookup (localKey room muted) = some (.bool true) ∧ s.Mirrored id room := by
  have run : ∃ s, (machine id room).run (fun s l => s.faithful id l = true) (start [text "var.*"]) [.register, .greet,
      .write (.set muted (.flat (.bool false)) (text "api")), .flush, .process false,
      .write (.delete muted (text "api")), .write (.set muted (.flat (.bool true)) (text "api")), .flush, .process false] =
      some s ∧ s.Settled ∧ s.b.store.lookup (localKey room muted) = some (.bool true) := ⟨_, rfl, ⟨rfl, rfl, rfl⟩, rfl⟩
  obtain ⟨s, run, settled, there⟩ := run
  exact ⟨s, settled, there, @mirror_converges id room s (.run (.init (start_init _)) run) settled⟩

/-- A key that is deleted stays with the peer as one of no value. One that a reload
begins to share does not come to the peer, and one that it stops sharing stays there. -/
theorem mirror_diverges :
    (∃ s : Mirror, Run.Reach (machine id room) Run.always s ∧ s.Settled ∧ s.a.store.lookup muted = none ∧
      s.b.store.lookup (localKey room muted) = some .none ∧ ¬s.Mirrored id room) ∧
    ∃ s : Mirror, Run.Reach (machine id room) Run.always s ∧ s.Settled ∧
      s.shares id (text "device.amp.on") = true ∧
      s.b.store.lookup (localKey room (text "device.amp.on")) = none ∧
      s.shares id muted = false ∧ s.b.store.lookup (localKey room muted) = some (.bool false) ∧ ¬s.Mirrored id room := by
  constructor
  · have run : ∃ s, (machine id room).run Run.always (start [text "var.*"]) [.register, .greet,
        .write (.set muted (.flat (.bool false)) (text "api")), .flush, .process false,
        .write (.delete muted (text "api")), .flush, .process false] = some s ∧ s.Settled ∧
        s.a.store.lookup muted = none ∧ s.b.store.lookup (localKey room muted) = some .none ∧
        s.shares id muted = true := ⟨_, rfl, ⟨rfl, rfl, rfl⟩, rfl, rfl, rfl⟩
    obtain ⟨s, run, settled, gone, there, shared⟩ := run
    refine ⟨s, .run (.init (start_init _)) run, settled, gone, there, fun mirrored => ?_⟩
    have same := mirrored muted
    rw [there, if_pos shared, gone] at same
    exact same
  · have run : ∃ s, (machine id room).run Run.always (start [text "var.*"]) [.register, .greet,
        .write (.set muted (.flat (.bool false)) (text "api")), .flush, .process false,
        .reload [text "device.*"], .flush] = some s ∧ s.Settled ∧
        s.shares id (text "device.amp.on") = true ∧ s.b.store.lookup (localKey room (text "device.amp.on")) = none ∧
        s.shares id muted = false ∧ s.b.store.lookup (localKey room muted) = some (.bool false) :=
      ⟨_, rfl, ⟨rfl, rfl, rfl⟩, rfl, rfl, rfl, rfl⟩
    obtain ⟨s, run, settled, shared, absent, unshared, there⟩ := run
    refine ⟨s, .run (.init (start_init _)) run, settled, shared, absent, unshared, there, fun mirrored => ?_⟩
    have same := mirrored muted
    rw [there, unshared] at same
    exact same

end Runs

end Mirror

end OpenAvc.Isc
