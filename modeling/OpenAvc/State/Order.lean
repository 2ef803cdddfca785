import Mathlib.Data.List.Chain
import OpenAvc.Run.Machine
import OpenAvc.State.Deliveries

/-! In which order listeners and the event bus learn of the changes of a key. -/

namespace OpenAvc.State

/-- Changes that lead from one value to another, each from where the one before it led. -/
def Leads (v : Value) : List Change → Value → Prop
  | [], w => v = w
  | change :: changes, w => change.old = v ∧ Leads change.new changes w

theorem Leads.append {v u w : Value} {changes more : List Change} (first : Leads v changes u) (then_ : Leads u more w) :
    Leads v (changes ++ more) w := by
  induction changes generalizing v with
  | nil =>
    cases first
    exact then_
  | cons change changes ih => exact ⟨first.1, ih first.2⟩

theorem Leads.isChain {v w : Value} {changes : List Change} (leads : Leads v changes w) :
    changes.IsChain fun c d => c.new = d.old := by
  induction changes generalizing v with
  | nil => exact .nil
  | cons change changes ih =>
    cases changes with
    | nil => exact .singleton _
    | cons next changes => exact .cons_cons leads.2.1.symm (ih leads.2)

theorem Leads.last {v w : Value} {changes : List Change} (leads : Leads v changes w) {change : Change}
    (last : changes.getLast? = some change) : change.new = w := by
  induction changes generalizing v with
  | nil => cases last
  | cons first changes ih =>
    cases changes with
    | nil =>
      cases last
      exact leads.2
    | cons next changes =>
      rw [List.getLast?_cons_cons] at last
      exact ih leads.2 last

namespace StateStore

/-- The changes of the key, in the order they were applied. -/
def applied (s : StateStore) (k : Text) : List Change :=
  ofKey k s.history

/-- The changes of the key that the listener was given. -/
def receivedBy (s : StateStore) (l : Nat) (k : Text) : List Change :=
  ofKey k (givenTo l s.received)

/-- The changes of the key whose `state.changed.<key>` reached the event bus. -/
def emittedOf (s : StateStore) (k : Text) : List Change :=
  ofKey k s.emitted

/-- The changes that tasks still have to emit an event of. -/
def pending (tasks : List EventTask) : List Change :=
  tasks.flatMap fun task => task.remaining.filterMap Event.keyed?

/-- The changes of transactions that are still being notified, the outermost first. -/
def inProgress (notifying : List Notification) : List Change :=
  notifying.reverse.flatMap (·.changes)

/-- The changes of the key that the event bus has not been told of yet. -/
def owed (s : StateStore) (k : Text) : List Change :=
  ofKey k (pending s.pendingEventTasks) ++ ofKey k (inProgress s.notifying)

/-- Every listener, and the event bus, learns of the changes of a key in the order
they were applied; the bus knows the current value once nothing is owed to it. -/
structure Ordered (s : StateStore) : Prop where
  received : ∀ l k, s.receivedBy l k <:+: s.applied k ∧ (s.receivedBy l k).IsChain fun c d => c.new = d.old
  emitted : ∀ k, s.emittedOf k <+: s.applied k
  settled : ∀ k, s.owed k = [] → ∀ change ∈ (s.emittedOf k).getLast?, change.new = s.get k

/-- A change of the key is being notified. -/
def notifies (s : StateStore) (k : Text) : Bool :=
  (inProgress s.notifying).any fun change => change.key = k

/-- A task made before this one still has to emit an event of the key. -/
def owedBefore (s : StateStore) (t : Nat) (k : Text) : Bool :=
  (pending (s.pendingEventTasks.take t)).any fun change => change.key = k

/-- The event of a key that the task with the thread emits next. -/
def nextEvent? (s : StateStore) : Option (Nat × Change) := do
  let t ← s.running
  let task ← s.pendingEventTasks[t]?
  let event ← task.remaining.head?
  let change ← event.keyed?
  return (t, change)

/-- No listener changes a key of which a change is being notified, and no task
emits the event of a key that a task made before it still has to emit an event of. -/
def undisturbed (s : StateStore) : Label → Bool
  | .call op => (s.write op).2.all fun change => !s.notifies change.key
  | .emit _ => s.nextEvent?.all fun (t, change) => !s.owedBefore t change.key
  | _ => true

/-- What a write does: it appends its changes to the history, and they lead from
the old value of each key to the new one. -/
structure Wrote (s s' : StateStore) (changes : List Change) : Prop where
  same : s' = { s with store := s'.store, history := s.history ++ changes }
  leads : ∀ k, Leads (s.get k) (ofKey k changes) (s'.get k)
  others : ∀ k, (∀ change ∈ changes, change.key ≠ k) → s'.store.lookup k = s.store.lookup k
  distinct : (s.store.map Prod.fst).Nodup → (s'.store.map Prod.fst).Nodup

theorem Wrote.nothing (s : StateStore) : Wrote s s [] where
  same := by simp
  leads _ := rfl
  others _ _ := rfl
  distinct := id

theorem Wrote.trans {s s' s'' : StateStore} {changes more : List Change} (first : Wrote s s' changes)
    (second : Wrote s' s'' more) : Wrote s s'' (changes ++ more) where
  same := by rw [second.same, first.same]; simp
  leads k := by
    rw [ofKey_append]
    exact (first.leads k).append (second.leads k)
  others k untouched := by
    rw [second.others k fun change member => untouched change (List.mem_append_right _ member),
      first.others k fun change member => untouched change (List.mem_append_left _ member)]
  distinct := second.distinct ∘ first.distinct

theorem wrote_one (s : StateStore) (change : Change) {store : List (Text × Value)} (old : change.old = s.get change.key)
    (new : (store.lookup change.key).getD .none = change.new)
    (others : ∀ k, k ≠ change.key → store.lookup k = s.store.lookup k)
    (distinct : (s.store.map Prod.fst).Nodup → (store.map Prod.fst).Nodup) :
    Wrote s { s with store := store, history := s.history ++ [change] } [change] where
  same := rfl
  leads k := by
    by_cases here : k = change.key
    · subst here
      have kept : ofKey change.key [change] = [change] := by simp [ofKey]
      rw [kept]
      exact ⟨old, new.symm⟩
    · have dropped : ofKey k [change] = [] := ofKey_eq_nil fun c member => by
        rw [List.mem_singleton.mp member]
        exact Ne.symm here
      rw [dropped]
      exact congrArg (·.getD .none) (others k here).symm
  others k untouched := others k (Ne.symm (untouched change List.mem_cons_self))
  distinct := distinct

theorem wrote_apply (s : StateStore) (key source : Text) (value : Written) :
    Wrote s (s.apply key source value).1 (s.apply key source value).2 := by
  cases value with
  | nested => exact .nothing s
  | flat value =>
    rw [apply]
    split
    · exact .nothing s
    · have new : (Dict.set s.store key value).lookup key = some value := Dict.lookup_set_self ..
      exact wrote_one s ⟨key, s.get key, value, source⟩ rfl (by rw [new]; rfl)
        (fun k other => Dict.lookup_set_of_ne other ..) fun distinct => Dict.nodup_set distinct ..

theorem wrote_write (s : StateStore) (op : Op) : Wrote s (s.write op).1 (s.write op).2 := by
  cases op with
  | set key value source => exact wrote_apply s key source value
  | setBatch updates source =>
    have loop : ∀ (updates : List (Text × Written)) (middle : StateStore) (changes : List Change),
        Wrote s middle changes →
        let last := updates.foldl (fun last u =>
          ((last.1.apply u.1 source u.2).1, last.2 ++ (last.1.apply u.1 source u.2).2)) (middle, changes)
        Wrote s last.1 last.2 := by
      intro updates
      induction updates with
      | nil => exact fun _ _ wrote => wrote
      | cons u updates ih => exact fun middle changes wrote => ih _ _ (wrote.trans (wrote_apply middle u.1 source u.2))
    exact loop updates s [] (.nothing s)
  | delete key source =>
    rw [write]
    split
    · exact .nothing s
    · have gone := List.lookup_filter_keys (fun key' => decide (key' ≠ key)) key s.store
      have new : (s.store.filter fun u => u.1 ≠ key).lookup key = none := gone.trans (by simp)
      exact wrote_one s ⟨key, s.get key, .none, source⟩ rfl (by rw [new]; rfl) (fun k other =>
        (List.lookup_filter_keys (fun key' => decide (key' ≠ key)) k s.store).trans (if_pos (decide_eq_true other)))
        fun distinct => distinct.sublist (List.filter_sublist.map _)

/-- The changes of the key that the listener is still to be given. -/
def toReceive (s : StateStore) (l : Nat) (k : Text) : List Change :=
  ofKey k (givenTo l (s.notifying.reverse.flatMap (·.remaining)))

variable (normcase : Text → Text)

/-- What holds in every state of an undisturbed store. -/
structure Sound (s : StateStore) : Prop where
  filed : s.subs.Filed s.nextSub
  leads : ∀ k, Leads .none (s.applied k) (s.get k)
  apart : s.notifying.Pairwise fun inner outer => ∀ c ∈ inner.changes, ∀ d ∈ outer.changes, c.key ≠ d.key
  inside : ∀ n ∈ s.notifying, ∀ l k, ofKey k n.changes = [] → ofKey k (givenTo l n.remaining) = []
  fresh : ∀ l k, s.nextSub ≤ l → s.receivedBy l k = []
  covered : ∀ l k, s.subs.covers normcase l k = true → s.receivedBy l k ++ s.toReceive l k <:+ s.applied k
  uncovered : ∀ l k, s.subs.covers normcase l k = false → s.receivedBy l k <:+: s.applied k ∧ s.toReceive l k = []
  emitted : ∀ k, s.emittedOf k ++ s.owed k = s.applied k

variable {normcase} {s s' : StateStore}

theorem Sound.start : Sound normcase {} where
  filed := .start
  leads _ := rfl
  apart := .nil
  inside _ member := by cases member
  fresh _ _ _ := rfl
  covered _ _ _ := List.suffix_rfl
  uncovered _ _ _ := ⟨List.infix_rfl, rfl⟩
  emitted _ := rfl

/-- In a sound state, everybody has learnt of the changes in their order. -/
theorem Sound.ordered (sound : Sound normcase s) : s.Ordered where
  received l k := by
    have part : s.receivedBy l k <:+: s.applied k := by
      cases covers : s.subs.covers normcase l k with
      | true => exact (List.prefix_append _ _).isInfix.trans (sound.covered l k covers).isInfix
      | false => exact (sound.uncovered l k covers).1
    have chain := (sound.leads k).isChain
    exact ⟨part, List.IsChain.infix chain part⟩
  emitted k := ⟨s.owed k, sound.emitted k⟩
  settled k nothing change last := by
    have all := sound.emitted k
    rw [nothing, List.append_nil] at all
    rw [all] at last
    exact (sound.leads k).last last

/-- A step that writes nothing and tells nobody anything. -/
theorem Sound.quiet (sound : Sound normcase s) (values : ∀ k, s'.get k = s.get k) (history : s'.history = s.history)
    (subs : s'.subs = s.subs) (nextSub : s'.nextSub = s.nextSub) (notifying : s'.notifying = s.notifying)
    (received : s'.received = s.received) (emitted : ∀ k, s'.emittedOf k ++ s'.owed k = s.emittedOf k ++ s.owed k) :
    Sound normcase s' where
  filed := by rw [subs, nextSub]; exact sound.filed
  leads k := by
    rw [values, applied, history]
    exact sound.leads k
  apart := by rw [notifying]; exact sound.apart
  inside := by rw [notifying]; exact sound.inside
  fresh := by simpa only [receivedBy, nextSub, received] using sound.fresh
  covered := by simpa only [receivedBy, toReceive, applied, subs, notifying, received, history] using sound.covered
  uncovered := by simpa only [receivedBy, toReceive, applied, subs, notifying, received, history] using sound.uncovered
  emitted k := by
    rw [emitted k, sound.emitted k]
    simp only [applied, history]

/-- Changes that nobody is told of yet, but a transaction has that starts to be notified. -/
theorem Sound.notify (sound : Sound normcase s) {changes : List Change} (wrote : Wrote s s' changes)
    (undisturbed : ∀ change ∈ changes, s.notifies change.key = false) : Sound normcase { s' with
      notifying := ⟨changes, notifications normcase s.subs changes, false⟩ :: s'.notifying } := by
  have same := wrote.same
  have applied_eq : ∀ k, s'.applied k = s.applied k ++ ofKey k changes := fun k => by
    rw [same]
    exact ofKey_append ..
  have notifying : s'.notifying = s.notifying := by rw [same]
  have subs : s'.subs = s.subs := by rw [same]
  have nextSub : s'.nextSub = s.nextSub := by rw [same]
  have received : s'.received = s.received := by rw [same]
  have given := @givenTo_notifications normcase s.subs s.nextSub sound.filed
  have toReceive_eq : ∀ l k, toReceive { s' with
      notifying := ⟨changes, notifications normcase s.subs changes, false⟩ :: s'.notifying } l k =
      s.toReceive l k ++ if s.subs.covers normcase l k then ofKey k changes else [] := fun l k => by
    rw [← given l k changes, toReceive, notifying, List.reverse_cons, List.flatMap_append, givenTo_append, ofKey_append]
    simp [toReceive]
  constructor
  · rw [subs, nextSub]
    exact sound.filed
  · intro k
    show Leads .none (s'.applied k) (s'.get k)
    rw [applied_eq]
    exact (sound.leads k).append (wrote.leads k)
  · rw [notifying]
    refine .cons (fun outer there c member d inside key => ?_) sound.apart
    have quiet := List.any_eq_false.mp (undisturbed c member) d
      (List.mem_flatMap.mpr ⟨outer, List.mem_reverse.mpr there, inside⟩)
    exact quiet (decide_eq_true key.symm)
  · rw [notifying]
    intro n there l k none
    rcases List.mem_cons.mp there with rfl | there
    · rw [given]
      split
      · exact none
      · rfl
    · exact sound.inside n there l k none
  · intro l k new
    rw [nextSub] at new
    simpa only [receivedBy, received] using sound.fresh l k new
  · intro l k covers
    rw [subs] at covers
    obtain ⟨earlier, all⟩ := sound.covered l k covers
    refine ⟨earlier, ?_⟩
    show earlier ++ (ofKey k (givenTo l s'.received) ++ _) = s'.applied k
    rw [toReceive_eq, if_pos covers, applied_eq, ← all, received]
    simp only [receivedBy, List.append_assoc]
  · intro l k covers
    rw [subs] at covers
    obtain ⟨part, nothing⟩ := sound.uncovered l k covers
    constructor
    · show ofKey k (givenTo l s'.received) <:+: s'.applied k
      rw [received, applied_eq]
      exact part.trans (List.prefix_append _ _).isInfix
    · rw [toReceive_eq, nothing, covers]
      rfl
  · intro k
    show ofKey k s'.emitted ++ (ofKey k (pending s'.pendingEventTasks) ++ ofKey k (inProgress (_ :: s'.notifying))) =
      s'.applied k
    rw [applied_eq, ← sound.emitted k, notifying, inProgress, List.reverse_cons, List.flatMap_append, ofKey_append]
    have emitted : s'.emitted = s.emitted := by rw [same]
    have tasks : s'.pendingEventTasks = s.pendingEventTasks := by rw [same]
    rw [emitted, tasks]
    simp [emittedOf, owed, inProgress]

theorem Sound.call (sound : Sound normcase s) {op : Op} (undisturbed : s.undisturbed (.call op) = true) :
    Sound normcase (s.call normcase op) := by
  obtain ⟨⟨s', changes⟩, written⟩ : ∃ result, s.write op = result := ⟨_, rfl⟩
  have wrote : Wrote s s' changes := by simpa only [written] using wrote_write s op
  have calm : ∀ change ∈ changes, s.notifies change.key = false := fun change member => by
    rw [StateStore.undisturbed, written] at undisturbed
    simpa using List.all_eq_true.mp undisturbed change member
  have same := wrote.same
  have subs : s'.subs = s.subs := by rw [same]
  rw [StateStore.call, written]
  show Sound normcase (if changes = [] then s' else _)
  split
  · rename_i none
    subst none
    refine sound.quiet (fun k => (wrote.leads k).symm) ?_ subs ?_ ?_ ?_ fun k => ?_ <;> rw [same]
    · exact List.append_nil _
    · rfl
  · exact sound.notify wrote calm

/-- The innermost transaction shares no key with the others. -/
theorem Sound.alone (sound : Sound normcase s) {top : Notification} {outer : List Notification}
    (notifying : s.notifying = top :: outer) (k : Text) :
    ofKey k top.changes = [] ∨ ofKey k (inProgress outer) = [] ∧
      ∀ l, ofKey k (givenTo l (outer.reverse.flatMap (·.remaining))) = [] := by
  have apart := sound.apart
  have inside := sound.inside
  rw [notifying] at apart inside
  by_cases here : ∃ c ∈ top.changes, c.key = k
  · obtain ⟨c, member, rfl⟩ := here
    have others : ∀ n ∈ outer, ofKey c.key n.changes = [] := fun n there =>
      ofKey_eq_nil fun d inside => Ne.symm ((List.pairwise_cons.mp apart).1 n there c member d inside)
    refine Or.inr ⟨?_, fun l => ?_⟩
    · refine ofKey_eq_nil fun d there => ?_
      obtain ⟨n, there, inside⟩ := List.mem_flatMap.mp there
      exact Ne.symm ((List.pairwise_cons.mp apart).1 n (List.mem_reverse.mp there) c member d inside)
    · have none : ∀ frames : List Notification, (∀ n ∈ frames, n ∈ outer) →
          ofKey c.key (givenTo l (frames.flatMap (·.remaining))) = [] := by
        intro frames sub
        induction frames with
        | nil => rfl
        | cons n frames ih =>
          have there := sub n List.mem_cons_self
          rw [List.flatMap_cons, givenTo_append, ofKey_append,
            inside n (List.mem_cons_of_mem _ there) l c.key (others n there),
            ih fun n member => sub n (List.mem_cons_of_mem _ member)]
          rfl
      exact none _ fun n member => List.mem_reverse.mp member
  · exact Or.inl (ofKey_eq_nil fun c member key => here ⟨c, member, key⟩)

/-- A listener is called with the next part of the innermost transaction. -/
theorem Sound.deliverNext (sound : Sound normcase s) {changes : List Change} {delivery : Delivery}
    {remaining : List Delivery} {calling : Bool} {outer : List Notification}
    (notifying : s.notifying = ⟨changes, delivery :: remaining, calling⟩ :: outer) : Sound normcase { s with
      notifying := ⟨changes, remaining, true⟩ :: outer
      received := s.received ++ [delivery] } := by
  have foreign : ∀ l k, ofKey k changes = [] →
      ofKey k (givenTo l [delivery]) = [] ∧ ofKey k (givenTo l remaining) = [] := fun l k none => by
    have nothing := sound.inside _ (by rw [notifying]; exact List.mem_cons_self) l k none
    have first : givenTo l (delivery :: remaining) = givenTo l [delivery] ++ givenTo l remaining :=
      givenTo_append l [delivery] remaining
    rwa [first, ofKey_append, List.append_eq_nil_iff] at nothing
  have split : ∀ l k, s.toReceive l k = ofKey k (givenTo l (outer.reverse.flatMap (·.remaining))) ++
      (ofKey k (givenTo l [delivery]) ++ ofKey k (givenTo l remaining)) := fun l k => by
    rw [toReceive, notifying]
    simp [givenTo_cons]
  have moved : ∀ l k, s.receivedBy l k ++ s.toReceive l k = (s.receivedBy l k ++ ofKey k (givenTo l [delivery])) ++
      (ofKey k (givenTo l (outer.reverse.flatMap (·.remaining))) ++ ofKey k (givenTo l remaining)) := fun l k => by
    rw [split]
    rcases sound.alone notifying k with none | ⟨_, none⟩
    · rw [(foreign l k none).1, (foreign l k none).2]
      simp
    · rw [none l]
      simp
  have toReceive_eq : ∀ l k, toReceive { s with
      notifying := ⟨changes, remaining, true⟩ :: outer
      received := s.received ++ [delivery] } l k =
      ofKey k (givenTo l (outer.reverse.flatMap (·.remaining))) ++ ofKey k (givenTo l remaining) := fun l k => by
    simp [toReceive]
  have receivedBy_eq : ∀ l k, receivedBy { s with
      notifying := ⟨changes, remaining, true⟩ :: outer
      received := s.received ++ [delivery] } l k = s.receivedBy l k ++ ofKey k (givenTo l [delivery]) := fun l k => by
    simp [receivedBy]
  have untold : ∀ l k, s.subs.covers normcase l k = false → ofKey k (givenTo l [delivery]) = [] ∧
      ofKey k (givenTo l (outer.reverse.flatMap (·.remaining))) ++ ofKey k (givenTo l remaining) = [] := by
    intro l k covers
    have nothing := (sound.uncovered l k covers).2
    rw [split, List.append_eq_nil_iff, List.append_eq_nil_iff] at nothing
    exact ⟨nothing.2.1, by rw [nothing.1, nothing.2.2]; rfl⟩
  constructor
  · exact sound.filed
  · exact sound.leads
  · have apart := sound.apart
    rw [notifying] at apart
    exact .cons (List.pairwise_cons.mp apart).1 (List.pairwise_cons.mp apart).2
  · intro n there l k none
    rcases List.mem_cons.mp there with rfl | there
    · exact (foreign l k none).2
    · exact sound.inside n (by rw [notifying]; exact List.mem_cons_of_mem _ there) l k none
  · intro l k new
    rw [receivedBy_eq, sound.fresh l k new, (untold l k (sound.filed.covers_fresh new k)).1]
    rfl
  · intro l k covers
    rw [receivedBy_eq, toReceive_eq, ← moved]
    exact sound.covered l k covers
  · intro l k covers
    rw [receivedBy_eq, toReceive_eq, (untold l k covers).1, List.append_nil]
    exact ⟨(sound.uncovered l k covers).1, (untold l k covers).2⟩
  · intro k
    have all := sound.emitted k
    have kept : inProgress (⟨changes, remaining, true⟩ :: outer) = inProgress s.notifying := by
      rw [notifying]
      simp [inProgress]
    rw [owed, ← kept] at all
    exact all

/-- The innermost transaction has told its last listener, and its events have a task. -/
theorem Sound.deliverLast (sound : Sound normcase s) {changes : List Change} {calling : Bool}
    {outer : List Notification} (notifying : s.notifying = ⟨changes, [], calling⟩ :: outer) : Sound normcase { s with
      notifying := outer
      pendingEventTasks := s.pendingEventTasks ++ [⟨changeEvents changes, false⟩] } := by
  have toReceive_eq : ∀ l k, s.toReceive l k = ofKey k (givenTo l (outer.reverse.flatMap (·.remaining))) := fun l k => by
    rw [toReceive, notifying]
    simp
  have events : ∀ changes : List Change, (changeEvents changes).filterMap Event.keyed? = changes := by
    intro changes
    induction changes with
    | nil => rfl
    | cons change changes ih => exact congrArg (change :: ·) ih
  constructor
  · exact sound.filed
  · exact sound.leads
  · have apart := sound.apart
    rw [notifying] at apart
    exact (List.pairwise_cons.mp apart).2
  · exact fun n there => sound.inside n (by rw [notifying]; exact List.mem_cons_of_mem _ there)
  · exact sound.fresh
  · intro l k covers
    have all := sound.covered l k covers
    rw [toReceive_eq] at all
    exact all
  · intro l k covers
    have all := sound.uncovered l k covers
    rw [toReceive_eq] at all
    exact all
  · intro k
    have all := sound.emitted k
    rw [owed, notifying] at all
    have made : pending (s.pendingEventTasks ++ [⟨changeEvents changes, false⟩]) =
        pending s.pendingEventTasks ++ changes := by simp [pending, events]
    show s.emittedOf k ++ (ofKey k (pending (s.pendingEventTasks ++ [⟨changeEvents changes, false⟩])) ++
      ofKey k (inProgress outer)) = s.applied k
    rw [made, ofKey_append, ← all]
    have split : inProgress (⟨changes, [], calling⟩ :: outer) = inProgress outer ++ changes := by simp [inProgress]
    rw [split, ofKey_append]
    rcases sound.alone notifying k with none | ⟨none, _⟩ <;> rw [none] <;> simp

theorem Sound.deliver (sound : Sound normcase s) (run : s.deliver = some s') : Sound normcase s' := by
  unfold StateStore.deliver at run
  split at run
  · cases run
  · rename_i changes calling outer notifying
    cases run
    exact sound.deliverLast notifying
  · rename_i changes delivery remaining calling outer notifying
    cases run
    exact sound.deliverNext notifying

theorem pending_middle (before after : List EventTask) (task : EventTask) : pending (before ++ task :: after) =
    pending before ++ task.remaining.filterMap Event.keyed? ++ pending after := by
  simp [pending]

/-- What the tasks still have to emit, around one of them. -/
theorem pending_set {tasks : List EventTask} {t : Nat} {task : EventTask} (there : tasks[t]? = some task)
    (task' : EventTask) : ∃ later, pending tasks =
      pending (tasks.take t) ++ task.remaining.filterMap Event.keyed? ++ later ∧
      pending (tasks.set t task') = pending (tasks.take t) ++ task'.remaining.filterMap Event.keyed? ++ later := by
  obtain ⟨inside, rfl⟩ := List.getElem?_eq_some_iff.mp there
  refine ⟨pending (tasks.drop (t + 1)), ?_, ?_⟩
  · have parts : tasks.take t ++ tasks[t] :: tasks.drop (t + 1) = tasks := by simp
    rw [← pending_middle, parts]
  · rw [List.set_eq_take_append_cons_drop, if_pos inside, pending_middle]

theorem Sound.resume (sound : Sound normcase s) {t : Nat} (run : s.resume t = some s') : Sound normcase s' := by
  unfold StateStore.resume at run
  split at run
  · cases run
  · rename_i task there
    split at run <;> cases run
    obtain ⟨later, before, after⟩ := pending_set there { task with started := true }
    refine sound.quiet (fun _ => rfl) rfl rfl rfl rfl rfl fun k => ?_
    simp only [owed, after, before]
    rfl

theorem Sound.emit (sound : Sound normcase s) {waits : Bool} (undisturbed : s.undisturbed (.emit waits) = true)
    (run : s.emit waits = some s') : Sound normcase s' := by
  unfold StateStore.emit at run
  split at run
  · cases run
  rename_i t running
  split at run
  · rename_i event remaining started there
    cases run
    obtain ⟨later, before, after⟩ := pending_set there ⟨remaining, started⟩
    refine sound.quiet (fun _ => rfl) rfl rfl rfl rfl rfl fun k => ?_
    simp only [emittedOf, owed, after, before, ofKey_append]
    cases event with
    | changed change => simp [Event.keyed?, List.filterMap_cons]
    | keyChanged change =>
      by_cases here : change.key = k
      · subst here
        have next : s.nextEvent? = some (t, change) := by
          simp [nextEvent?, running, there, Event.keyed?]
        have first : ofKey change.key (pending (s.pendingEventTasks.take t)) = [] := by
          refine ofKey_eq_nil fun other member same => ?_
          have quiet : s.owedBefore t change.key = false := by
            simpa [StateStore.undisturbed, next] using undisturbed
          exact List.any_eq_false.mp quiet other member (decide_eq_true same)
        rw [first]
        simp [Event.keyed?, ofKey]
      · simp [Event.keyed?, ofKey, here]
  · cases run

theorem receivedBy_subscribe (pattern : Text) (bulk : Bool) (l : Nat) (k : Text) :
    receivedBy { s with subs := s.subs.addSub ⟨s.nextSub, pattern, bulk⟩, nextSub := s.nextSub + 1 } l k =
      s.receivedBy l k := rfl

theorem toReceive_idle (idle : s.idle = true) (l : Nat) (k : Text) : s.toReceive l k = [] := by
  have nobody : s.notifying = [] := by simpa using (Bool.and_eq_true_iff.mp idle).1
  rw [toReceive, nobody]
  rfl

theorem Sound.subscribe (sound : Sound normcase s) (idle : s.idle = true) (pattern : Text) (bulk : Bool) :
    Sound normcase { s with
      subs := s.subs.addSub ⟨s.nextSub, pattern, bulk⟩
      nextSub := s.nextSub + 1 } where
  filed := sound.filed.addSub pattern bulk
  leads := sound.leads
  apart := sound.apart
  inside := sound.inside
  fresh l k new := sound.fresh l k (Nat.le_of_succ_le new)
  covered l k covers := by
    by_cases here : l = s.nextSub
    · subst here
      have nothing := sound.fresh s.nextSub k le_rfl
      have none := toReceive_idle idle s.nextSub k
      show s.receivedBy s.nextSub k ++ s.toReceive s.nextSub k <:+ s.applied k
      rw [nothing, none]
      exact List.nil_suffix
    · rw [Subscriptions.covers_addSub here] at covers
      exact sound.covered l k covers
  uncovered l k covers := by
    by_cases here : l = s.nextSub
    · subst here
      exact sound.uncovered s.nextSub k (sound.filed.covers_fresh le_rfl k)
    · rw [Subscriptions.covers_addSub here] at covers
      exact sound.uncovered l k covers
  emitted := sound.emitted

theorem Sound.unsubscribe (sound : Sound normcase s) (idle : s.idle = true) (subId : Nat) :
    Sound normcase { s with subs := s.subs.unsubscribe subId } where
  filed := sound.filed.unsubscribe subId
  leads := sound.leads
  apart := sound.apart
  inside := sound.inside
  fresh := sound.fresh
  covered l k covers := by
    by_cases here : l = subId
    · subst here
      rw [sound.filed.covers_gone] at covers
      cases covers
    · rw [sound.filed.covers_unsubscribe here] at covers
      exact sound.covered l k covers
  uncovered l k covers := by
    by_cases here : l = subId
    · subst here
      have none : s.toReceive l k = [] := toReceive_idle idle l k
      refine ⟨?_, none⟩
      cases before : s.subs.covers normcase l k with
      | true =>
        have all := sound.covered l k before
        rw [none, List.append_nil] at all
        exact all.isInfix
      | false => exact (sound.uncovered l k before).1
    · rw [sound.filed.covers_unsubscribe here] at covers
      exact sound.uncovered l k covers
  emitted := sound.emitted

/-- Every undisturbed step keeps a store sound. -/
theorem Sound.next {l : Label} (sound : Sound normcase s) (undisturbed : s.undisturbed l = true)
    (run : s.next normcase l = some s') : Sound normcase s' := by
  cases l with
  | call op =>
    simp only [StateStore.next] at run
    split at run <;> cases run
    exact sound.call undisturbed
  | deliver => exact sound.deliver run
  | resume t => exact sound.resume run
  | emit waits => exact sound.emit undisturbed run
  | subscribe pattern bulk =>
    simp only [StateStore.next] at run
    split at run <;> cases run
    rename_i idle
    exact sound.subscribe idle pattern bulk
  | unsubscribe subId =>
    simp only [StateStore.next] at run
    split at run <;> cases run
    rename_i idle
    exact sound.unsubscribe idle subId

/-- As long as no change of a key is disturbed, listeners and the event bus learn
of the changes of every key in the order they were applied. -/
theorem changes_in_order (reach : Run.Reach (machine normcase) (fun s l => s.undisturbed l = true) s) : s.Ordered := by
  have sound : Sound normcase s := reach.invariant
    (fun s start => by rw [start]; exact .start) (fun _ _ _ _ sound undisturbed run => sound.next undisturbed run)
  exact sound.ordered

section Runs

def level : Text := text "var.level"

def muted : Text := text "var.muted"

def put (key : Text) (n : Int) : Label :=
  .call (.set key (.flat (.int n)) (text "api"))

/-- A listener on everything mutes above 15, and one on the level follows. -/
theorem changes_in_order_muted : ∃ s : StateStore, s.receivedBy 1 level =
    [⟨level, .none, .int 20, text "api"⟩, ⟨level, .int 20, .int 10, text "api"⟩] ∧ s.Ordered := by
  have run : ∃ s, (machine id).run (fun s l => s.undisturbed l = true) {} [.subscribe (text "*") false,
      .subscribe level false, put level 20, .deliver, put muted 1, .deliver, .deliver, .deliver, .deliver,
      .resume 0, .emit true, put level 10, .deliver, .deliver, .deliver, .resume 0, .emit false, .resume 1,
      .emit true, .resume 2, .emit true] = some s ∧ s.receivedBy 1 level =
      [⟨level, .none, .int 20, text "api"⟩, ⟨level, .int 20, .int 10, text "api"⟩] := ⟨_, rfl, rfl⟩
  obtain ⟨s, run, received⟩ := run
  exact ⟨s, received, @changes_in_order id s (.run (.init rfl) run)⟩

/-- A listener on everything that corrects the level has the next listener learn of the
correction first; and an event overtakes another one whose task waits for a handler. -/
theorem changes_disordered :
    (∃ s : StateStore, Run.Reach (machine id) Run.always s ∧
      s.receivedBy 1 level = [⟨level, .int 20, .int 10, text "api"⟩, ⟨level, .none, .int 20, text "api"⟩] ∧ ¬s.Ordered) ∧
    ∃ s : StateStore, Run.Reach (machine id) Run.always s ∧ s.get level = .int 10 ∧ s.owed level = [] ∧
      s.emittedOf level = [⟨level, .int 20, .int 10, text "api"⟩, ⟨level, .none, .int 20, text "api"⟩] ∧ ¬s.Ordered := by
  constructor
  · have run : ∃ s, (machine id).run Run.always {} [.subscribe (text "*") false, .subscribe level false, put level 20,
        .deliver, put level 10, .deliver, .deliver, .deliver, .deliver, .deliver] = some s ∧
        s.receivedBy 1 level = [⟨level, .int 20, .int 10, text "api"⟩, ⟨level, .none, .int 20, text "api"⟩] := ⟨_, rfl, rfl⟩
    obtain ⟨s, run, received⟩ := run
    refine ⟨s, .run (.init rfl) run, received, fun ordered => ?_⟩
    have chain := (ordered.received 1 level).2
    rw [received] at chain
    exact absurd chain (by decide)
  · have run : ∃ s, (machine id).run Run.always {} [.call (.setBatch [(muted, .flat (.int 1)), (level, .flat (.int 20))]
        (text "api")), .deliver, .resume 0, .emit true, put level 10, .deliver, .resume 1, .emit false, .emit false,
        .resume 0, .emit false, .emit false, .emit false] = some s ∧ s.get level = .int 10 ∧ s.owed level = [] ∧
        s.emittedOf level = [⟨level, .int 20, .int 10, text "api"⟩, ⟨level, .none, .int 20, text "api"⟩] :=
      ⟨_, rfl, rfl, rfl, rfl⟩
    obtain ⟨s, run, current, nothing, emitted⟩ := run
    refine ⟨s, .run (.init rfl) run, current, nothing, emitted, fun ordered => ?_⟩
    have last := ordered.settled level nothing ⟨level, .none, .int 20, text "api"⟩ (by rw [emitted]; rfl)
    rw [current] at last
    cases last

end Runs

end StateStore

end OpenAvc.State
