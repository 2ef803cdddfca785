import Mathlib.Algebra.Order.BigOperators.Group.List
import Mathlib.Algebra.Order.Group.Nat
import Mathlib.Data.List.Dedup
import OpenAvc.State.Following

/-! Every cascade of bindings ends, and what the variables hold then. -/

namespace OpenAvc.State

/-- The most calls that a change of the key can make. -/
def calls (normcase : Text → Text) (subs : Subscriptions) (key : Text) : Nat :=
  subs.universalSubs.length + 2 * (subs.matching normcase key).length

theorem length_set_le (buckets : List (Nat × List Change)) (n : Nat) (changes : List Change) :
    (Dict.set buckets n changes).length ≤ buckets.length + 1 := by
  induction buckets with
  | nil => exact Nat.le_refl 1
  | cons u buckets ih =>
    rw [Dict.set]
    split
    · exact Nat.le_succ _
    · rw [List.length_cons, List.length_cons]
      omega

theorem length_bulkBuckets_le (matched : List (Sub × Change)) : (bulkBuckets matched).length ≤ matched.length := by
  suffices loop : ∀ buckets : List (Nat × List Change),
      (matched.foldl (fun buckets u =>
        Dict.set buckets u.1.subId ((buckets.lookup u.1.subId).getD [] ++ [u.2])) buckets).length ≤
          buckets.length + matched.length by
    have all := loop []
    rw [List.length_nil, Nat.zero_add] at all
    exact all
  induction matched with
  | nil => exact fun buckets => Nat.le_refl _
  | cons u matched ih =>
    intro buckets
    have first := length_set_le buckets u.1.subId ((buckets.lookup u.1.subId).getD [] ++ [u.2])
    refine (ih _).trans ?_
    have more := Nat.add_le_add_right first matched.length
    rw [List.length_cons, Nat.add_comm matched.length, ← Nat.add_assoc]
    exact more

theorem length_notifications_le (normcase : Text → Text) (subs : Subscriptions) (change : Change) :
    (notifications normcase subs [change]).length ≤ calls normcase subs change.key := by
  have universal : (subs.universalSubs.flatMap fun sub =>
      if sub.bulk then [(⟨sub.subId, [change]⟩ : Delivery)] else [change].map fun change => ⟨sub.subId, [change]⟩).length =
      subs.universalSubs.length := by
    induction subs.universalSubs with
    | nil => rfl
    | cons sub rest ih =>
      rw [List.flatMap_cons, List.length_append, ih, List.length_cons]
      split
      · exact Nat.add_comm 1 _
      · exact Nat.add_comm 1 _
  have matched : ([change].flatMap fun change => (subs.matching normcase change.key).map fun sub => (sub, change)).length =
      (subs.matching normcase change.key).length := by
    rw [List.flatMap_singleton, List.length_map]
  rw [notifications, List.length_append, List.length_append, universal, List.length_map, List.length_map, calls, Nat.two_mul,
    ← Nat.add_assoc, ← matched]
  exact Nat.add_le_add (Nat.add_le_add_left (List.length_filter_le _ _) _)
    ((length_bulkBuckets_le _).trans (List.length_filter_le _ _))

/-- What a call can lead to, where so many variables are free. -/
def weight (width : Nat) : Nat → Nat
  | 0 => 1
  | free + 1 => width * weight width free + 2

theorem weight_pos (width free : Nat) : 0 < weight width free := by
  cases free with
  | zero => exact Nat.one_pos
  | succ free => exact Nat.succ_pos _

theorem weight_mono {width : Nat} {less more : Nat} (le : less ≤ more) : weight width less ≤ weight width more := by
  induction le with
  | refl => exact Nat.le_refl _
  | @step more _ ih =>
    cases width with
    | zero =>
      cases more with
      | zero => exact ih.trans (by decide)
      | succ more =>
        refine ih.trans ?_
        rw [weight, weight, Nat.zero_mul, Nat.zero_mul]
    | succ width =>
      have more' : weight (width + 1) more ≤ (width + 1) * weight (width + 1) more :=
        Nat.le_mul_of_pos_left _ (Nat.succ_pos _)
      rw [weight]
      omega

/-- The variables that no handler is writing. -/
def free (bindings : List Binding) (frames : List Frame) : List Text :=
  ((bindings.map Binding.key).dedup).filter fun key => key ∉ frames.filterMap fun f => f.handler.map Binding.key

/-- What the notifications in progress can lead to: a call may be that of a handler whose variable is
free now and is not in the notification that it makes. -/
def potential (width : Nat) (bindings : List Binding) : List Frame → Nat
  | [] => 0
  | f :: outer => f.remaining.length * weight width (free bindings (f :: outer)).length + 1 + potential width bindings outer

theorem free_congr (bindings : List Binding) {f f' : Frame} (same : f.handler = f'.handler) (outer : List Frame) :
    free bindings (f :: outer) = free bindings (f' :: outer) := by
  obtain ⟨remaining, calling, handler⟩ := f
  obtain ⟨remaining', calling', handler'⟩ := f'
  have same : handler = handler' := same
  subst same
  rfl

/-- A handler that writes has one variable less free. -/
theorem free_handler {bindings : List Binding} {f : Frame} {frames : List Frame} {b : Binding} (member : b ∈ bindings)
    (own : f.handler = some b) (inactive : b.key ∉ frames.filterMap fun f => f.handler.map Binding.key) :
    (free bindings (f :: frames)).length < (free bindings frames).length := by
  have active : ((f :: frames).filterMap fun f => f.handler.map Binding.key) =
      b.key :: frames.filterMap fun f => f.handler.map Binding.key := by
    rw [List.filterMap_cons, own]
    rfl
  have distinct (frames : List Frame) : (free bindings frames).Nodup := (List.nodup_dedup _).filter _
  have inside : b.key ∈ free bindings frames :=
    List.mem_filter.mpr ⟨List.mem_dedup.mpr (List.mem_map_of_mem member), decide_eq_true inactive⟩
  have gone : b.key ∉ free bindings (f :: frames) := by
    rw [free, List.mem_filter, active, decide_eq_true_iff]
    exact fun free => free.2 List.mem_cons_self
  have fewer : b.key :: free bindings (f :: frames) ⊆ free bindings frames := by
    refine List.cons_subset.mpr ⟨inside, fun key there => ?_⟩
    obtain ⟨bound, inactive⟩ := List.mem_filter.mp there
    rw [active, decide_eq_true_iff] at inactive
    exact List.mem_filter.mpr ⟨bound, decide_eq_true fun active => inactive (List.mem_cons_of_mem _ active)⟩
  exact (List.subperm_of_subset (List.nodup_cons.mpr ⟨gone, distinct _⟩) fewer).length_le

theorem potential_called (width : Nat) (bindings : List Binding) (d : Delivery) (remaining : List Delivery)
    (calling calling' : Bool) (handler : Option Binding) (outer : List Frame) :
    potential width bindings (⟨remaining, calling', handler⟩ :: outer) +
      weight width (free bindings (⟨remaining, calling', handler⟩ :: outer)).length =
        potential width bindings (⟨d :: remaining, calling, handler⟩ :: outer) := by
  have same : free bindings (⟨d :: remaining, calling, handler⟩ :: outer) =
      free bindings (⟨remaining, calling', handler⟩ :: outer) := free_congr bindings rfl outer
  simp only [potential, List.length_cons, Nat.succ_mul, same]
  omega

/-- The notification that a handler makes leads to less than its call did. -/
theorem potential_handled {width : Nat} {bindings : List Binding} {f : Frame} {frames : List Frame} {b : Binding}
    (member : b ∈ bindings) (own : f.handler = some b)
    (inactive : b.key ∉ frames.filterMap fun f => f.handler.map Binding.key) (narrow : f.remaining.length ≤ width) :
    potential width bindings (f :: frames) < potential width bindings frames + weight width (free bindings frames).length := by
  have fewer := free_handler member own inactive
  have less : weight width ((free bindings (f :: frames)).length + 1) ≤ weight width (free bindings frames).length :=
    weight_mono fewer
  have calls := Nat.mul_le_mul_right (weight width (free bindings (f :: frames)).length) narrow
  rw [weight] at less
  rw [potential]
  omega

namespace Engine

variable {py : Python} {normcase : Text → Text} {e : Engine}

/-- The most calls that a handler can make. -/
def widest (normcase : Text → Text) (e : Engine) : Nat :=
  (e.bindings.map fun b => calls normcase e.state.subs b.key).sum

theorem widest_write (op : Op) (writer : Option Nat) (handler : Option Binding) :
    (e.write normcase op writer handler).widest normcase = e.widest normcase := by
  rw [widest, write_state, (subs_write e.state op).1, write_bindings, widest]

theorem calls_le_widest {b : Binding} (member : b ∈ e.bindings) : calls normcase e.state.subs b.key ≤ e.widest normcase :=
  List.le_sum_of_mem (List.mem_map_of_mem member)

/-- What a handler notifies is not more than it can. -/
theorem narrow_handled {b : Binding} (member : b ∈ e.bindings) (c : Change) :
    (notifications normcase e.state.subs (e.state.write (handled py b c)).2).length ≤
      if (e.state.write (handled py b c)).2 = [] then (notifications normcase e.state.subs []).length else e.widest normcase := by
  have keys := keys_apply e.state b.key (text "variable_binding") (.flat (mapValue py b c.new))
  have write : (e.state.write (handled py b c)).2 = (e.state.apply b.key (text "variable_binding") (.flat (mapValue py b c.new))).2 :=
    rfl
  rw [write]
  split
  · rename_i none
    rw [none]
  · rename_i some_
    obtain ⟨change, rest, cons⟩ := List.exists_cons_of_ne_nil some_
    rw [cons, List.map_cons] at keys
    have single : rest = [] := by
      have short := keys.length_le
      rw [List.length_cons, List.length_map, List.length_singleton] at short
      exact List.eq_nil_of_length_eq_zero (by omega)
    have key : change.key = b.key := List.mem_singleton.mp (keys.subset List.mem_cons_self)
    rw [cons, single]
    refine (length_notifications_le normcase e.state.subs change).trans ?_
    rw [key]
    exact calls_le_widest member

/-- What a write of a handler leads to. -/
theorem potential_write {b : Binding} (member : b ∈ e.bindings) (inactive : b.key ∉ e.active) (c : Change) :
    potential (e.widest normcase) e.bindings (e.write normcase (handled py b c) (some b.subId) (some b)).frames <
      potential (e.widest normcase) e.bindings e.frames + weight (e.widest normcase) (free e.bindings e.frames).length := by
  rcases @write_frames normcase e (handled py b c) (some b.subId) (some b) with ⟨_, frames⟩ | ⟨some_, frames⟩
  · rw [frames]
    exact Nat.lt_add_of_pos_right (weight_pos _ _)
  · have narrow := @narrow_handled py normcase e b member c
    rw [if_neg some_] at narrow
    rw [frames]
    exact potential_handled member rfl inactive narrow

/-- The next call lowers what the notifications can lead to. -/
theorem deliver_lowers (some_ : e.frames ≠ []) : ∃ e', e.deliver py normcase = some e' ∧
    potential (e'.widest normcase) e'.bindings e'.frames < potential (e.widest normcase) e.bindings e.frames := by
  rcases shape : e.frames with _ | ⟨⟨_ | ⟨d, remaining⟩, calling, handler⟩, outer⟩
  · exact absurd shape some_
  · refine ⟨{ e with frames := outer }, by simp only [Engine.deliver, shape], ?_⟩
    exact Nat.lt_add_of_pos_left (Nat.succ_pos _)
  · have called (calling' : Bool) := potential_called (e.widest normcase) e.bindings d remaining calling calling' handler outer
    have quiet (calling' : Bool) : potential (({ e with frames := ⟨remaining, calling', handler⟩ :: outer } : Engine).widest normcase)
        e.bindings (⟨remaining, calling', handler⟩ :: outer) <
        potential (e.widest normcase) e.bindings (⟨d :: remaining, calling, handler⟩ :: outer) := by
      rw [← called calling']
      exact Nat.lt_add_of_pos_right (weight_pos _ _)
    cases found : e.bindings.find? fun b => b.subId = d.subId with
    | none => exact ⟨{ e with frames := ⟨remaining, true, handler⟩ :: outer }, by simp only [Engine.deliver, shape, found], quiet true⟩
    | some b =>
      have member := List.mem_of_find?_eq_some found
      refine ⟨_, by simp only [Engine.deliver, shape, found]; rfl, ?_⟩
      unfold handle
      split
      · rename_i c _
        split
        · exact quiet false
        · rename_i inactive
          rw [widest_write, write_bindings, ← called false]
          exact potential_write (e := { e with frames := ⟨remaining, false, handler⟩ :: outer }) member inactive c
      · exact quiet false

/-- Where nobody but the bindings writes, a cascade comes to its end. -/
theorem cascade_ends (e : Engine) : ∃ n e',
    (machine py normcase).run Run.always e (List.replicate n .deliver) = some e' ∧ e'.frames = [] :=
  @Run.Machine.ends _ _ (machine py normcase) .deliver (fun e => e.frames = [])
    (fun e => potential (e.widest normcase) e.bindings e.frames) (fun _ some_ => deliver_lowers some_) e

/-- The variables hold what their sources have now: where the binding lies on no cycle, nothing else
has written the variable, and the source has a value or has had one since it was bound. -/
def Followed (py : Python) (e : Engine) : Prop :=
  ∀ b ∈ e.bindings, ¬OnCycle e.bindings b → b.subId ∉ e.touched →
    (e.state.get b.source ≠ .none ∨ b.subId ∈ e.sourced) → e.Follows py b

theorem Good.followed (good : e.Good py) (idle : e.idle = true) : e.Followed py := by
  obtain ⟨quiet, done⟩ := idle_iff.mp idle
  have bound : e.bound = e.bindings := bound_of_not_subscribing (by rw [done]; rfl)
  intro b member acyclic untouched present
  have inside : b ∈ e.bound := mem_bound.mpr (Or.inl member)
  have sourced : b.subId ∈ e.sourced := by
    by_contra unsourced
    exact present.elim (fun value => value (good.sourceless b inside unsourced)) unsourced
  rw [← bound] at acyclic
  exact (good.tracks b inside acyclic untouched).settled (pendingOf_quiet quiet b) sourced

/-- Every cascade ends; and in a run in which the source of a binding is left alone while its handler is to be
called, is writing, or is not subscribed yet, the variables hold what their sources have whenever
no notification is in progress. -/
theorem variables_follow (py : Python) (normcase : Text → Text) :
    (∀ e : Engine, ∃ n e', (machine py normcase).run Run.always e (List.replicate n .deliver) = some e' ∧ e'.frames = []) ∧
    ∀ e, Run.Reach (machine py normcase) (fun e l => e.Calm py l) e → e.idle = true → e.Followed py :=
  ⟨cascade_ends, fun _ reach idle => (good_of_reach reach).followed idle⟩

section Runs

/-- `Waiting`, by the numbers of the subscriptions. -/
def waits (e : Engine) (b : Binding) : Bool :=
  (e.rebinding.bind (·.subscribing)).any (fun b' => b'.subId = b.subId) || !(e.pendingOf b).isEmpty ||
    e.frames.any fun f => f.handler.any fun b' => b'.subId = b.subId

/-- No binding that waits has its source written, cycle or not. -/
def unwatched (e : Engine) (op : Op) : Bool :=
  e.bound.all fun b => !e.waits b || (e.state.write op).2.all fun c => c.key ≠ b.source

def calm (py : Python) (e : Engine) : Label → Bool
  | .call op => e.unwatched op
  | .deliver =>
    match e.frames with
    | ⟨d :: remaining, _, handler⟩ :: outer =>
      e.bindings.all fun b => d.subId ≠ b.subId || d.changes.all fun c =>
        ({ e with frames := ⟨remaining, false, handler⟩ :: outer } : Engine).unwatched (handled py b c)
    | _ => true
  | _ => true

theorem undisturbed_of_unwatched {op : Op} (unwatched : e.unwatched op = true) : e.Undisturbed py op := by
  intro b member _ waiting c changed here
  have waits : e.waits b = true := by
    rw [waits, Bool.or_eq_true, Bool.or_eq_true]
    rcases waiting with next | pending | ⟨f, there, own⟩
    · rw [Subscribing] at next
      exact Or.inl (Or.inl (by rw [next]; exact decide_eq_true rfl))
    · exact Or.inl (Or.inr (by simpa using pending))
    · exact Or.inr (List.any_eq_true.mpr ⟨f, there, by rw [own]; exact decide_eq_true rfl⟩)
  have quiet := List.all_eq_true.mp unwatched b member
  rw [waits] at quiet
  exact absurd here (of_decide_eq_true (List.all_eq_true.mp quiet c changed))

theorem Calm.of_calm {l : Label} (calm : e.calm py l = true) : e.Calm py l := by
  cases l with
  | call op => exact undisturbed_of_unwatched calm
  | deliver =>
    rw [Engine.calm] at calm
    rw [Calm]
    split
    · rename_i frames
      rw [frames] at calm
      rintro b member c rfl _
      have called := List.all_eq_true.mp calm b member
      simp only [ne_eq, not_true_eq_false, decide_false, Bool.false_or, List.all_cons, List.all_nil, Bool.and_true] at called
      exact undisturbed_of_unwatched called
    · trivial
  | _ => trivial

/-- Python, as far as the runs below need it. -/
def plain : Python where
  str
    | .str t => t
    | .bool b => if b then text "True" else text "False"
    | _ => text "None"
  dumps _ := text "{}"

def power : Text := text "device.projector1.power"

def busy : Variable where
  id := text "busy"
  sourceKey := power
  sourceMap := [(text "on", .bool true), (text "off", .bool false)]

def blinds : Variable where
  id := text "blinds"
  sourceKey := text "var.busy"
  sourceMap := [(text "True", .str (text "down")), (text "False", .str (text "up"))]

def report (value : String) : Label :=
  .call (.set power (.flat (.str (text value))) (text "device"))

/-- A projector that is on, and is turned off: one variable follows it, and another one that variable. -/
theorem variables_follow_chain : ∃ e : Engine, e.state.get blinds.key = .str (text "up") ∧ e.bindings.length = 2 ∧
    e.touched = [] ∧ e.Followed plain := by
  have run : ∃ e, (machine plain id).run (fun e l => e.calm plain l = true) {} [report "on", .deliver, .rebind [busy, blinds],
      .bindNext, .deliver, .bindNext, .bindNext, .deliver, .bindNext, .bindNext, report "off",
      .deliver, .deliver, .deliver, .deliver, .deliver] = some e ∧ e.state.get blinds.key = .str (text "up") ∧
      e.bindings.length = 2 ∧ e.touched = [] ∧ e.idle = true := ⟨_, rfl, rfl, rfl, rfl, rfl⟩
  obtain ⟨e, run, value, length, touched, idle⟩ := run
  have reach : Run.Reach (machine plain id) (fun e l => e.Calm plain l) e :=
    (Run.Reach.run (.init rfl) run).mono fun _ _ => Calm.of_calm
  exact ⟨e, value, length, touched, (variables_follow plain id).2 e reach idle⟩

/-- A listener that writes the source again while the handler of the binding is still to be called: the
handler writes the newer value first and the older one after it, which stays. -/
theorem variables_left_behind : ∃ e : Engine, Run.Reach (machine plain id) Run.always e ∧ e.idle = true ∧
    e.state.get power = .str (text "off") ∧ e.state.get busy.key = .bool true ∧ e.touched = [] ∧ ¬e.Followed plain := by
  have run : ∃ e, (machine plain id).run Run.always {} [.subscribe power false, .rebind [busy], .bindNext, .bindNext, .bindNext,
      report "on", .deliver, report "off", .deliver, .deliver, .deliver, .deliver, .deliver, .deliver, .deliver] = some e ∧
      e.state.get power = .str (text "off") ∧ e.state.get busy.key = .bool true ∧ e.touched = [] ∧ e.idle = true ∧
      e.bindings = [⟨1, busy⟩] := ⟨_, rfl, rfl, rfl, rfl, rfl, rfl⟩
  obtain ⟨e, run, source, value, touched, idle, bindings⟩ := run
  refine ⟨e, .run (.init rfl) run, idle, source, value, touched, fun followed => ?_⟩
  have follows := followed ⟨1, busy⟩ (by rw [bindings]; exact List.mem_cons_self)
    (by
      rw [bindings]
      refine not_onCycle fun b member => ?_
      rw [List.mem_singleton.mp member]
      decide)
    (by rw [touched]; exact List.not_mem_nil) (Or.inl (by rw [show (⟨1, busy⟩ : Binding).source = power from rfl, source]; nofun))
  rw [Follows, wanted, show (⟨1, busy⟩ : Binding).key = busy.key from rfl,
    show (⟨1, busy⟩ : Binding).source = power from rfl, value, source] at follows
  exact absurd follows (by decide)

end Runs

end Engine

end OpenAvc.State
