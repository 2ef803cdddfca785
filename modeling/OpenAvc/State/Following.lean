import OpenAvc.State.Follows

/-! The steps of the store keep the bound variables on their sources. -/

namespace OpenAvc.State

namespace Engine

variable {py : Python} {normcase : Text → Text} {e : Engine}

/-- The calls of the handler of the binding that are still to come. -/
def pendingOf (e : Engine) (b : Binding) : List Delivery :=
  callsOf b.subId (e.frames.flatMap Frame.remaining)

/-- The handler of the binding made a write that is still notified. -/
def Writing (e : Engine) (b : Binding) : Prop :=
  ∃ f ∈ e.frames, f.handler = some b

/-- The variable was written and the binding is to be subscribed next. -/
def Subscribing (e : Engine) (b : Binding) : Prop :=
  e.rebinding.bind (·.subscribing) = some b

def Waiting (e : Engine) (b : Binding) : Prop :=
  e.Subscribing b ∨ e.pendingOf b ≠ [] ∨ e.Writing b

/-- The write changes nothing for a binding on no cycle that is waiting. -/
def Undisturbed (py : Python) (e : Engine) (op : Op) : Prop :=
  ∀ b ∈ e.bound, ¬OnCycle e.bound b → e.Waiting b →
    ∀ c ∈ (e.state.write op).2, c.key = b.source → Alike (mapValue py b c.new) (mapValue py b c.old)

/-- Neither a caller nor the handler that is called writes the source of a binding that is waiting. -/
def Calm (py : Python) (e : Engine) : Label → Prop
  | .call op => e.Undisturbed py op
  | .deliver =>
    match e.frames with
    | ⟨d :: remaining, _, handler⟩ :: outer =>
      ∀ b ∈ e.bindings, ∀ c, d = ⟨b.subId, [c]⟩ → b.key ∉ e.active →
        ({ e with frames := ⟨remaining, false, handler⟩ :: outer } : Engine).Undisturbed py (handled py b c)
    | _ => True
  | _ => True

/-- What the variable is to hold. -/
def wanted (py : Python) (e : Engine) (b : Binding) : Value :=
  mapValue py b (e.state.get b.source)

def Follows (py : Python) (e : Engine) (b : Binding) : Prop :=
  Alike (e.state.get b.key) (e.wanted py b)

/-- What is known of a binding in the middle of a cascade: it is handed nothing but what
its variable is to hold, and the variable holds it where no call is to come. -/
structure Tracks (py : Python) (e : Engine) (b : Binding) : Prop where
  pending : ∀ d ∈ e.pendingOf b, ∃ c, d.changes = [c] ∧ Alike (mapValue py b c.new) (e.wanted py b)
  settled : e.pendingOf b = [] → b.subId ∈ e.sourced → e.Follows py b
  writing : e.Writing b → e.Follows py b

/-- The bindings are subscribed, each once. -/
structure Registered (e : Engine) : Prop where
  filed : e.state.subs.Filed e.state.nextSub
  held : e.state.subs.Held
  subscribed : ∀ b ∈ e.bindings, ⟨b.subId, b.source, false⟩ ∈ e.state.subs.allSubs
  apart : (e.bindings.map (·.subId)).Nodup
  fresh : ∀ b, e.Subscribing b → b.subId = e.state.nextSub
  concrete : ∀ b ∈ e.bound, b.source.any globChars.contains = false
  known : ∀ f ∈ e.frames, ∀ d ∈ f.remaining, d.subId < e.state.nextSub

/-! ### The bindings -/

theorem mem_bound {b : Binding} : b ∈ e.bound ↔ b ∈ e.bindings ∨ e.Subscribing b := by
  rw [bound, List.mem_append, Option.mem_toList, Subscribing]

theorem Registered.below (registered : e.Registered) {b : Binding} (member : b ∈ e.bindings) :
    b.subId < e.state.nextSub :=
  registered.filed.known _ (registered.subscribed b member)

theorem Registered.inj (registered : e.Registered) {b b' : Binding} (member : b ∈ e.bound) (member' : b' ∈ e.bound)
    (same : b.subId = b'.subId) : b = b' := by
  rcases mem_bound.mp member with member | next <;> rcases mem_bound.mp member' with member' | next'
  · exact List.inj_on_of_nodup_map registered.apart member member' same
  · have below := registered.below member
    rw [same, registered.fresh b' next'] at below
    exact absurd below (Nat.lt_irrefl _)
  · have below := registered.below member'
    rw [← same, registered.fresh b next] at below
    exact absurd below (Nat.lt_irrefl _)
  · exact Option.some.inj (next.symm.trans next')

theorem Registered.find (registered : e.Registered) {b : Binding} (member : b ∈ e.bindings) {d : Delivery}
    (same : d.subId = b.subId) : e.bindings.find? (fun b => b.subId = d.subId) = some b := by
  cases found : e.bindings.find? fun b => b.subId = d.subId with
  | none => exact absurd (decide_eq_true same.symm) (List.find?_eq_none.mp found b member)
  | some b' =>
    have here : b'.subId = d.subId := by simpa using List.find?_some found
    rw [List.inj_on_of_nodup_map registered.apart (List.mem_of_find?_eq_some found) member (here.trans same)]

/-- A binding that is not subscribed yet is not called. -/
theorem Registered.pendingOf_fresh (registered : e.Registered) {b : Binding} (next : e.Subscribing b) :
    e.pendingOf b = [] := by
  refine List.filter_eq_nil_iff.mpr fun d member => ?_
  obtain ⟨f, inside, there⟩ := List.mem_flatMap.mp member
  have below := registered.known f inside d there
  have fresh := registered.fresh b next
  simp only [decide_eq_true_eq]
  omega

/-! ### What a write leaves -/

section Write

variable (op : Op) (writer : Option Nat) (handler : Option Binding)

theorem write_state : (e.write normcase op writer handler).state = (e.state.write op).1 := by
  simp only [write]
  split <;> rfl

theorem write_bindings : (e.write normcase op writer handler).bindings = e.bindings := by
  simp only [write]
  split <;> rfl

theorem write_rebinding : (e.write normcase op writer handler).rebinding = e.rebinding := by
  simp only [write]
  split <;> rfl

theorem write_bound : (e.write normcase op writer handler).bound = e.bound := by
  rw [bound, write_bindings, write_rebinding, bound]

theorem write_frames : ((e.state.write op).2 = [] ∧ (e.write normcase op writer handler).frames = e.frames) ∨
    ((e.state.write op).2 ≠ [] ∧ (e.write normcase op writer handler).frames =
      ⟨notifications normcase e.state.subs (e.state.write op).2, false, handler⟩ :: e.frames) := by
  by_cases none : (e.state.write op).2 = []
  · exact Or.inl ⟨none, by simp only [write, if_pos none]⟩
  · exact Or.inr ⟨none, by simp only [write, if_neg none, (subs_write e.state op).1]⟩

theorem mem_touched_write {n : Nat} : n ∈ (e.write normcase op writer handler).touched ↔
    n ∈ e.touched ∨ ∃ b ∈ e.bound, b.subId = n ∧ (∃ c ∈ (e.state.write op).2, c.key = b.key) ∧ writer ≠ some n := by
  have added : (∃ b ∈ e.bound, b.subId = n ∧ (∃ c ∈ (e.state.write op).2, c.key = b.key) ∧ writer ≠ some n) ↔
      n ∈ (e.bound.filter fun b => changesKey (e.state.write op).2 b.key && writer ≠ some b.subId).map (·.subId) := by
    simp only [List.mem_map, List.mem_filter, changesKey, Bool.and_eq_true, List.any_eq_true, decide_eq_true_eq]
    constructor
    · rintro ⟨b, member, rfl, changed, other⟩
      exact ⟨b, ⟨member, changed, other⟩, rfl⟩
    · rintro ⟨b, ⟨member, changed, other⟩, rfl⟩
      exact ⟨b, member, rfl, changed, other⟩
  rw [added]
  by_cases none : (e.state.write op).2 = []
  · simp [write, none, changesKey]
  · simp only [write, if_neg none, List.mem_append]

theorem mem_sourced_write {n : Nat} : n ∈ (e.write normcase op writer handler).sourced ↔
    n ∈ e.sourced ∨ ∃ b ∈ e.bound, b.subId = n ∧ ∃ c ∈ (e.state.write op).2, c.key = b.source := by
  have added : (∃ b ∈ e.bound, b.subId = n ∧ ∃ c ∈ (e.state.write op).2, c.key = b.source) ↔
      n ∈ (e.bound.filter fun b => changesKey (e.state.write op).2 b.source).map (·.subId) := by
    simp only [List.mem_map, List.mem_filter, changesKey, List.any_eq_true, decide_eq_true_eq]
    constructor
    · rintro ⟨b, member, rfl, changed⟩
      exact ⟨b, ⟨member, changed⟩, rfl⟩
    · rintro ⟨b, ⟨member, changed⟩, rfl⟩
      exact ⟨b, member, rfl, changed⟩
  rw [added]
  by_cases none : (e.state.write op).2 = []
  · simp [write, none, changesKey]
  · simp only [write, if_neg none, List.mem_append]

theorem subscribing_write {b : Binding} : (e.write normcase op writer handler).Subscribing b ↔ e.Subscribing b := by
  rw [Subscribing, write_rebinding, Subscribing]

theorem writing_write {b : Binding} (writing : (e.write normcase op writer handler).Writing b) :
    e.Writing b ∨ handler = some b := by
  obtain ⟨f, member, own⟩ := writing
  rcases @write_frames normcase e op writer handler with ⟨_, frames⟩ | ⟨_, frames⟩
  · rw [frames] at member
    exact Or.inl ⟨f, member, own⟩
  · rw [frames] at member
    rcases List.mem_cons.mp member with rfl | member
    · exact Or.inr own
    · exact Or.inl ⟨f, member, own⟩

/-- A write adds the calls for a change of the source, and no others. -/
theorem Registered.pendingOf_write (registered : e.Registered) {b : Binding} (member : b ∈ e.bound) {d : Delivery} :
    d ∈ (e.write normcase op writer handler).pendingOf b → d ∈ e.pendingOf b ∨
      ∃ c ∈ (e.state.write op).2, c.key = b.source ∧ d.changes = [c] := by
  intro there
  rcases @write_frames normcase e op writer handler with ⟨_, frames⟩ | ⟨some_, frames⟩
  · rw [pendingOf, frames] at there
    exact Or.inl there
  · rw [pendingOf, frames, List.flatMap_cons, callsOf_append] at there
    rcases List.mem_append.mp there with new | old
    · obtain ⟨new, same⟩ := List.mem_filter.mp new
      have same := of_decide_eq_true same
      rcases mem_bound.mp member with member' | next
      · obtain ⟨c, inside, here, rfl⟩ := (delivery_iff registered.filed registered.held (registered.subscribed b member')
          (registered.concrete b member) some_ d).mp ⟨new, same⟩
        exact Or.inr ⟨c, inside, here, rfl⟩
      · obtain ⟨sub, there, called⟩ := known_of_notifications registered.filed d new
        have below := registered.filed.known sub there
        have fresh := registered.fresh b next
        omega
    · exact Or.inl old

theorem Registered.called (registered : e.Registered) {b : Binding} (member : b ∈ e.bindings) {c : Change}
    (changed : c ∈ (e.state.write op).2) (here : c.key = b.source) :
    (e.write normcase op writer handler).pendingOf b ≠ [] := by
  rcases @write_frames normcase e op writer handler with ⟨none, _⟩ | ⟨some_, frames⟩
  · rw [none] at changed
    cases changed
  · have concrete := registered.concrete b (mem_bound.mpr (Or.inl member))
    have call : (⟨b.subId, [c]⟩ : Delivery) ∈ notifications normcase e.state.subs (e.state.write op).2 ∧ b.subId = b.subId :=
      (delivery_iff registered.filed registered.held (registered.subscribed b member) concrete some_ ⟨b.subId, [c]⟩).mpr
        ⟨c, changed, here, rfl⟩
    refine List.ne_nil_of_mem (a := ⟨b.subId, [c]⟩) ?_
    rw [pendingOf, frames, List.flatMap_cons, callsOf_append]
    exact List.mem_append_left _ (List.mem_filter.mpr ⟨call.1, decide_eq_true rfl⟩)

end Write

/-! ### A write and a binding -/

/-- A write by somebody else keeps a binding on its source: its variable is not written,
and while it waits its source changes to nothing else. -/
theorem Tracks.write (registered : e.Registered) {b : Binding} (member : b ∈ e.bound) (tracks : e.Tracks py b)
    {op : Op} (dict : op.isDict = true) {writer : Option Nat} {handler : Option Binding} (other : writer ≠ some b.subId)
    (foreign : handler ≠ some b) (untouched : b.subId ∉ (e.write normcase op writer handler).touched)
    (sourced : e.Subscribing b → b.subId ∈ e.sourced)
    (calm : e.Waiting b → ∀ c ∈ (e.state.write op).2, c.key = b.source → Alike (mapValue py b c.new) (mapValue py b c.old)) :
    (e.write normcase op writer handler).Tracks py b := by
  have get (k : Text) : (e.write normcase op writer handler).state.get k = (e.state.write op).1.get k := by
    rw [write_state]
  have kept : (e.state.write op).1.get b.key = e.state.get b.key := by
    rcases change_of_key e.state dict b.key with ⟨_, same⟩ | ⟨c, changed, here, _⟩
    · exact same
    · exact absurd ((mem_touched_write op writer handler).mpr (Or.inr ⟨b, member, rfl, ⟨c, changed, here⟩, other⟩)) untouched
  have wanted : e.Waiting b → Alike (e.wanted py b) ((e.write normcase op writer handler).wanted py b) := by
    intro waits
    rw [Engine.wanted, Engine.wanted, get]
    rcases change_of_key e.state dict b.source with ⟨_, same⟩ | ⟨c, changed, here, old, new, _⟩
    · rw [same]
      exact alike_refl _
    · have calm := calm waits c changed here
      rw [old, new] at calm
      exact calm.symm
  have follows (waits : e.Waiting b) (follows : e.Follows py b) : (e.write normcase op writer handler).Follows py b := by
    rw [Engine.Follows, get, kept]
    exact follows.trans (wanted waits)
  refine ⟨fun d there => ?_, fun none now => ?_, fun writing => ?_⟩
  · rcases registered.pendingOf_write op writer handler member there with old | ⟨c, changed, here, single⟩
    · obtain ⟨c, single, alike⟩ := tracks.pending d old
      exact ⟨c, single, alike.trans (wanted (Or.inr (Or.inl (List.ne_nil_of_mem old))))⟩
    · refine ⟨c, single, ?_⟩
      rcases change_of_key e.state dict b.source with ⟨absent, _⟩ | ⟨c', _, _, _, new, only⟩
      · exact absurd here (absent c changed)
      · rw [Engine.wanted, get, only c changed here, new]
        exact alike_refl _
  · have before : e.pendingOf b = [] := by
      refine List.eq_nil_iff_forall_not_mem.mpr fun d there => ?_
      have later : d ∈ (e.write normcase op writer handler).pendingOf b := by
        rcases @write_frames normcase e op writer handler with ⟨_, frames⟩ | ⟨_, frames⟩
        · rw [pendingOf, frames]
          exact there
        · rw [pendingOf, frames, List.flatMap_cons, callsOf_append]
          exact List.mem_append_right _ there
      rw [none] at later
      cases later
    by_cases next : e.Subscribing b
    · exact follows (Or.inl next) (tracks.settled before (sourced next))
    · have bound : b ∈ e.bindings := (mem_bound.mp member).resolve_right next
      have quiet : ∀ c ∈ (e.state.write op).2, c.key ≠ b.source := fun c changed here =>
        registered.called op writer handler bound changed here none
      have old : b.subId ∈ e.sourced := by
        rcases (mem_sourced_write op writer handler).mp now with old | ⟨b', member', same, c, changed, here⟩
        · exact old
        · rw [registered.inj member' member same] at here
          exact absurd here (quiet c changed)
      have same : (e.state.write op).1.get b.source = e.state.get b.source := by
        rcases change_of_key e.state dict b.source with ⟨_, same⟩ | ⟨c, changed, here, _⟩
        · exact same
        · exact absurd here (quiet c changed)
      rw [Engine.Follows, Engine.wanted, get, get, kept, same]
      exact tracks.settled before old
  · rcases writing_write op writer handler writing with writing | own
    · exact follows (Or.inr (Or.inr writing)) (tracks.writing writing)
    · exact absurd own foreign

/-- The write of a binding itself, of what the variable is to hold. -/
theorem Tracks.own (registered : e.Registered) {b : Binding} (member : b ∈ e.bound) (acyclic : ¬OnCycle e.bound b)
    (pending : ∀ d ∈ e.pendingOf b, ∃ c, d.changes = [c] ∧ Alike (mapValue py b c.new) (e.wanted py b))
    {value : Value} (alike : Alike value (e.wanted py b)) {source : Text} {writer : Option Nat} {handler : Option Binding} :
    (e.write normcase (.set b.key (.flat value) source) writer handler).Tracks py b := by
  have elsewhere := source_ne_key member acyclic
  have quiet := changes_set e.state b.key source (.flat value)
  have same : (e.state.write (.set b.key (.flat value) source)).1.get b.source = e.state.get b.source := by
    rcases @change_of_key e.state (.set b.key (.flat value) source) rfl b.source with ⟨_, same⟩ | ⟨c, changed, here, _⟩
    · exact same
    · exact absurd (here.symm.trans (quiet c changed)) elsewhere
  have wanted : (e.write normcase (.set b.key (.flat value) source) writer handler).wanted py b = e.wanted py b := by
    rw [Engine.wanted, write_state, same, Engine.wanted]
  have follows : (e.write normcase (.set b.key (.flat value) source) writer handler).Follows py b := by
    rw [Engine.Follows, wanted, write_state]
    exact (get_set e.state b.key source value).trans alike
  refine ⟨fun d there => ?_, fun _ _ => follows, fun _ => follows⟩
  rw [wanted]
  rcases registered.pendingOf_write _ writer handler member there with old | ⟨c, changed, here, _⟩
  · exact pending d old
  · exact absurd (here.symm.trans (quiet c changed)) elsewhere

/-! ### The steps -/

theorem idle_iff : e.idle = true ↔ e.frames = [] ∧ e.rebinding = none := by
  rw [idle, Bool.and_eq_true, List.isEmpty_iff, Option.isNone_iff_eq_none]

theorem Tracks.congr {e' : Engine} {b : Binding} (tracks : e.Tracks py b) (get : ∀ k, e'.state.get k = e.state.get k)
    (pending : e'.pendingOf b = e.pendingOf b) (sourced : b.subId ∈ e'.sourced → b.subId ∈ e.sourced)
    (writing : e'.Writing b → e.Writing b) : e'.Tracks py b := by
  have wanted : e'.wanted py b = e.wanted py b := by rw [Engine.wanted, get, Engine.wanted]
  have follows : e'.Follows py b ↔ e.Follows py b := by rw [Engine.Follows, get, wanted, Engine.Follows]
  refine ⟨fun d there => ?_, fun none now => ?_, fun now => ?_⟩
  · rw [pending] at there
    rw [wanted]
    exact tracks.pending d there
  · rw [pending] at none
    exact follows.mpr (tracks.settled none (sourced now))
  · exact follows.mpr (tracks.writing (writing now))

/-- What holds of the bindings together: whoever else writes a variable in progress has touched it,
and a binding whose source had no value has not written. -/
structure Sound (e : Engine) : Prop extends Registered e where
  handlers : ∀ f ∈ e.frames, ∀ b', f.handler = some b' → ∀ b ∈ e.bound, b ≠ b' → b.key = b'.key → b.subId ∈ e.touched
  started : ∀ b, e.Subscribing b → b.subId ∉ e.sourced → e.frames = []
  sourceless : ∀ b ∈ e.bound, b.subId ∉ e.sourced → e.state.get b.source = .none
  sources : ∀ n ∈ e.sourced, ∃ b ∈ e.bound, b.subId = n

structure Good (py : Python) (e : Engine) : Prop extends Sound e where
  tracks : ∀ b ∈ e.bound, ¬OnCycle e.bound b → b.subId ∉ e.touched → e.Tracks py b

theorem Sound.write (sound : e.Sound) {op : Op} (dict : op.isDict = true) {writer : Option Nat} {handler : Option Binding}
    (own : ∀ b', handler = some b' → b' ∈ e.bound ∧ writer = some b'.subId ∧ ∀ c ∈ (e.state.write op).2, c.key = b'.key)
    (started : ∀ b, e.Subscribing b → b.subId ∈ e.sourced) : (e.write normcase op writer handler).Sound where
  filed := by
    rw [write_state, (subs_write e.state op).1, (subs_write e.state op).2]
    exact sound.filed
  held := by
    rw [write_state, (subs_write e.state op).1]
    exact sound.held
  subscribed := by
    rw [write_state, (subs_write e.state op).1, write_bindings]
    exact sound.subscribed
  apart := by
    rw [write_bindings]
    exact sound.apart
  fresh b next := by
    rw [write_state, (subs_write e.state op).2]
    exact sound.fresh b ((subscribing_write op writer handler).mp next)
  concrete := by
    rw [write_bound]
    exact sound.concrete
  known f member d there := by
    rw [write_state, (subs_write e.state op).2]
    rcases @write_frames normcase e op writer handler with ⟨_, frames⟩ | ⟨_, frames⟩
    · rw [frames] at member
      exact sound.known f member d there
    · rw [frames] at member
      rcases List.mem_cons.mp member with rfl | member
      · obtain ⟨sub, inside, same⟩ := known_of_notifications sound.filed d there
        rw [← same]
        exact sound.filed.known sub inside
      · exact sound.known f member d there
  handlers f member b' here b inside differs same := by
    rw [write_bound] at inside
    rw [mem_touched_write]
    have old (member : f ∈ e.frames) : b.subId ∈ e.touched := sound.handlers f member b' here b inside differs same
    rcases @write_frames normcase e op writer handler with ⟨_, frames⟩ | ⟨some_, frames⟩
    · rw [frames] at member
      exact Or.inl (old member)
    · rw [frames] at member
      rcases List.mem_cons.mp member with rfl | member
      · -- the handler has just written the variable of both
        obtain ⟨inside', by_, keys⟩ := own b' here
        obtain ⟨c, rest, cons⟩ := List.exists_cons_of_ne_nil some_
        have changed : c ∈ (e.state.write op).2 := by
          rw [cons]
          exact List.mem_cons_self
        refine Or.inr ⟨b, inside, rfl, ⟨c, changed, (keys c changed).trans same.symm⟩, fun both => ?_⟩
        exact differs (sound.inj inside inside' (Option.some.inj (both.symm.trans by_)))
      · exact Or.inl (old member)
  started b next unsourced := by
    rw [mem_sourced_write, not_or] at unsourced
    exact absurd (started b ((subscribing_write op writer handler).mp next)) unsourced.1
  sourceless b inside unsourced := by
    rw [write_bound] at inside
    rw [mem_sourced_write, not_or] at unsourced
    rw [write_state]
    rcases change_of_key e.state dict b.source with ⟨_, same⟩ | ⟨c, changed, here, _⟩
    · rw [same]
      exact sound.sourceless b inside unsourced.1
    · exact absurd ⟨b, inside, rfl, c, changed, here⟩ unsourced.2
  sources n inside := by
    rw [write_bound]
    rcases (mem_sourced_write op writer handler).mp inside with old | ⟨b, member, same, _⟩
    · exact sound.sources n old
    · exact ⟨b, member, same⟩

/-- Some calls are over. -/
theorem Sound.fewer (sound : e.Sound) {frames : List Frame} (some_ : e.frames ≠ [])
    (within : ∀ f ∈ frames, ∃ f' ∈ e.frames, f.handler = f'.handler ∧ f.remaining ⊆ f'.remaining) :
    ({ e with frames := frames } : Engine).Sound where
  filed := sound.filed
  held := sound.held
  subscribed := sound.subscribed
  apart := sound.apart
  fresh := sound.fresh
  concrete := sound.concrete
  known f member d there := by
    obtain ⟨f', member', _, fewer⟩ := within f member
    exact sound.known f' member' d (fewer there)
  handlers f member b' here := by
    obtain ⟨f', member', same, _⟩ := within f member
    exact sound.handlers f' member' b' (same.symm.trans here)
  started b next unsourced := absurd (sound.started b next unsourced) some_
  sourceless := sound.sourceless
  sources := sound.sources

/-- A caller or a listener writes. -/
theorem Good.call (good : e.Good py) {op : Op} (dict : op.isDict = true) (turn : (e.idle || e.listening) = true)
    (calm : e.Undisturbed py op) : (e.write normcase op none none).Good py := by
  have started (b : Binding) (next : e.Subscribing b) : b.subId ∈ e.sourced := by
    by_contra unsourced
    have frames := good.started b next unsourced
    rcases Bool.or_eq_true _ _ |>.mp turn with idle | heard
    · rw [idle_iff] at idle
      rw [Subscribing, idle.2] at next
      cases next
    · rw [listening, frames] at heard
      cases heard
  refine ⟨good.toSound.write dict (fun b' none => by cases none) started, fun b member acyclic untouched => ?_⟩
  rw [write_bound] at member acyclic
  have before : b.subId ∉ e.touched := fun old => untouched ((mem_touched_write op none none).mpr (Or.inl old))
  exact (good.tracks b member acyclic before).write good.toRegistered member dict nofun nofun untouched (started b)
    (calm b member acyclic)

theorem pendingOf_cons {f : Frame} {outer : List Frame} (frames : e.frames = f :: outer) (b : Binding) :
    e.pendingOf b = callsOf b.subId f.remaining ++ callsOf b.subId (outer.flatMap Frame.remaining) := by
  rw [pendingOf, frames, List.flatMap_cons, callsOf_append]

/-- The innermost notification is over. -/
theorem Good.over (good : e.Good py) {calling : Bool} {handler : Option Binding} {outer : List Frame}
    (frames : e.frames = ⟨[], calling, handler⟩ :: outer) : ({ e with frames := outer } : Engine).Good py := by
  have some_ : e.frames ≠ [] := by
    rw [frames]
    exact List.cons_ne_nil _ _
  have inner (f : Frame) (member : f ∈ outer) : f ∈ e.frames := by
    rw [frames]
    exact List.mem_cons_of_mem _ member
  refine ⟨good.toSound.fewer some_ fun f member => ⟨f, inner f member, rfl, List.Subset.refl _⟩, ?_⟩
  intro b member acyclic untouched
  refine (good.tracks b member acyclic untouched).congr (fun _ => rfl) ?_ id ?_
  · rw [pendingOf_cons frames]
    rfl
  · rintro ⟨f, inside, own⟩
    exact ⟨f, inner f inside, own⟩

section Called

variable {d : Delivery} {remaining : List Delivery} {calling : Bool} {handler : Option Binding} {outer : List Frame}

/-- Somebody is called. -/
theorem Sound.called (sound : e.Sound) (frames : e.frames = ⟨d :: remaining, calling, handler⟩ :: outer) (calling' : Bool) :
    ({ e with frames := ⟨remaining, calling', handler⟩ :: outer } : Engine).Sound := by
  have some_ : e.frames ≠ [] := by
    rw [frames]
    exact List.cons_ne_nil _ _
  refine sound.fewer some_ fun f member => ?_
  rw [frames]
  rcases List.mem_cons.mp member with rfl | member
  · exact ⟨_, List.mem_cons_self, rfl, List.subset_cons_self _ _⟩
  · exact ⟨f, List.mem_cons_of_mem _ member, rfl, List.Subset.refl _⟩

theorem writing_called (frames : e.frames = ⟨d :: remaining, calling, handler⟩ :: outer) {calling' : Bool} {b : Binding}
    (writing : ({ e with frames := ⟨remaining, calling', handler⟩ :: outer } : Engine).Writing b) : e.Writing b := by
  obtain ⟨f, member, own⟩ := writing
  rw [Writing, frames]
  rcases List.mem_cons.mp member with rfl | member
  · exact ⟨_, List.mem_cons_self, own⟩
  · exact ⟨f, List.mem_cons_of_mem _ member, own⟩

/-- It is not the handler of this binding that is called. -/
theorem Tracks.passed {b : Binding} (tracks : e.Tracks py b) (frames : e.frames = ⟨d :: remaining, calling, handler⟩ :: outer)
    (other : d.subId ≠ b.subId) (calling' : Bool) :
    ({ e with frames := ⟨remaining, calling', handler⟩ :: outer } : Engine).Tracks py b := by
  refine tracks.congr (fun _ => rfl) ?_ id (writing_called frames)
  rw [pendingOf_cons frames, callsOf_cons, if_neg other]
  exact callsOf_append b.subId remaining _

/-- What is still to come for a binding that is called was to come before. -/
theorem Tracks.handed {b : Binding} (tracks : e.Tracks py b) (frames : e.frames = ⟨d :: remaining, calling, handler⟩ :: outer)
    (called : d.subId = b.subId) (calling' : Bool) : (∃ c, d.changes = [c] ∧ Alike (mapValue py b c.new) (e.wanted py b)) ∧
      ∀ d ∈ ({ e with frames := ⟨remaining, calling', handler⟩ :: outer } : Engine).pendingOf b,
        ∃ c, d.changes = [c] ∧ Alike (mapValue py b c.new) (e.wanted py b) := by
  have pending : e.pendingOf b = d :: ({ e with frames := ⟨remaining, calling', handler⟩ :: outer } : Engine).pendingOf b := by
    rw [pendingOf_cons frames, callsOf_cons, if_pos called, pendingOf_cons rfl b]
    rfl
  refine ⟨tracks.pending d ?_, fun d' there => tracks.pending d' ?_⟩
  · rw [pending]
    exact List.mem_cons_self
  · rw [pending]
    exact List.mem_cons_of_mem _ there

/-- A handler that finds its variable being written leaves it: it is being written by the handler itself. -/
theorem Good.suppressed (good : e.Good py) (frames : e.frames = ⟨d :: remaining, calling, handler⟩ :: outer)
    {b : Binding} (member : b ∈ e.bindings) (called : d.subId = b.subId)
    (active : b.key ∈ ({ e with frames := ⟨remaining, false, handler⟩ :: outer } : Engine).active) :
    ({ e with frames := ⟨remaining, false, handler⟩ :: outer } : Engine).Good py := by
  refine ⟨good.toSound.called frames false, fun b' member' acyclic untouched => ?_⟩
  have tracks := good.tracks b' member' acyclic untouched
  by_cases other : d.subId = b'.subId
  · obtain rfl := good.inj member' (mem_bound.mpr (Or.inl member)) (other.symm.trans called)
    obtain ⟨f, there, busy⟩ := List.mem_filterMap.mp active
    obtain ⟨writer, own, same⟩ := Option.map_eq_some_iff.mp busy
    obtain ⟨f', there', own'⟩ := writing_called frames ⟨f, there, own⟩
    have itself : b' = writer := by
      by_contra differs
      exact untouched (good.handlers f' there' writer own' b' member' differs same.symm)
    have follows : e.Follows py b' := tracks.writing ⟨f', there', itself ▸ own'⟩
    exact ⟨(tracks.handed frames other false).2, fun _ _ => follows, fun _ => follows⟩
  · exact tracks.passed frames other false

/-- The handler of a binding is called, and writes. -/
theorem Good.handled (good : e.Good py) (frames : e.frames = ⟨d :: remaining, calling, handler⟩ :: outer)
    {b : Binding} (member : b ∈ e.bindings) {c : Change} (called : d = ⟨b.subId, [c]⟩)
    (calm : ({ e with frames := ⟨remaining, false, handler⟩ :: outer } : Engine).Undisturbed py (handled py b c)) :
    (({ e with frames := ⟨remaining, false, handler⟩ :: outer } : Engine).write normcase (handled py b c)
      (some b.subId) (some b)).Good py := by
  have sound := good.toSound.called frames false
  have inside : b ∈ e.bound := mem_bound.mpr (Or.inl member)
  have started (b' : Binding) (next : e.Subscribing b') : b'.subId ∈ e.sourced := by
    by_contra unsourced
    have none := good.started b' next unsourced
    rw [none] at frames
    cases frames
  have keys := changes_set e.state b.key (text "variable_binding") (.flat (mapValue py b c.new))
  refine ⟨sound.write rfl ?_ started, fun b' member' acyclic untouched => ?_⟩
  · rintro _ ⟨⟩
    exact ⟨inside, rfl, keys⟩
  · rw [write_bound] at member' acyclic
    have before : b'.subId ∉ e.touched := fun old => untouched ((mem_touched_write _ _ _).mpr (Or.inl old))
    have tracks := good.tracks b' member' acyclic before
    by_cases same : d.subId = b'.subId
    · rw [called] at same
      obtain rfl := good.inj inside member' same
      obtain ⟨⟨c', single, alike⟩, pending⟩ := tracks.handed frames (congrArg Delivery.subId called) false
      rw [called] at single
      have first : c = c' := List.head_eq_of_cons_eq single
      subst first
      exact Tracks.own sound.toRegistered inside acyclic pending alike
    · have differs : b.subId ≠ b'.subId := fun both => same ((congrArg Delivery.subId called).trans both)
      have other : some b.subId ≠ some b'.subId := fun both => differs (Option.some.inj both)
      have foreign : some b ≠ some b' := fun both => differs (congrArg Binding.subId (Option.some.inj both))
      exact (tracks.passed frames same false).write sound.toRegistered member' rfl other foreign untouched (started b')
        (calm b' member' acyclic)

end Called

/-- The next listener is called, or a notification is over. -/
theorem Good.deliver (good : e.Good py) (calm : e.Calm py .deliver) {e' : Engine}
    (run : e.deliver py normcase = some e') : e'.Good py := by
  unfold Engine.deliver at run
  split at run
  · cases run
  · rename_i frames
    cases run
    exact good.over frames
  · rename_i d remaining calling handler outer frames
    have elsewhere (missing : ∀ b ∈ e.bindings, d.subId ≠ b.subId) (b : Binding) (member : b ∈ e.bound) : d.subId ≠ b.subId := by
      rcases mem_bound.mp member with member | next
      · exact missing b member
      · have known := good.known _ (frames ▸ List.mem_cons_self) d List.mem_cons_self
        have fresh := good.fresh b next
        omega
    split at run
    · rename_i missing
      cases run
      have missing (b : Binding) (member : b ∈ e.bindings) : d.subId ≠ b.subId := fun same =>
        List.find?_eq_none.mp missing b member (decide_eq_true same.symm)
      exact ⟨good.toSound.called frames true, fun b member acyclic untouched =>
        (good.tracks b member acyclic untouched).passed frames (elsewhere missing b member) true⟩
    · rename_i b found
      cases run
      have member := List.mem_of_find?_eq_some found
      have called : d.subId = b.subId := (by simpa using List.find?_some found : b.subId = d.subId).symm
      unfold handle
      split
      · rename_i c single
        have whole : d = ⟨b.subId, [c]⟩ := by
          rw [← called, ← single]
        split
        · rename_i active
          exact good.suppressed frames member called active
        · rename_i inactive
          simp only [Calm, frames] at calm
          refine good.handled frames member whole (calm b member c whole fun active => inactive ?_)
          rw [Engine.active, frames] at active
          exact active
      · rename_i several
        refine ⟨good.toSound.called frames false, fun b' member' acyclic untouched => ?_⟩
        have tracks := good.tracks b' member' acyclic untouched
        by_cases same : d.subId = b'.subId
        · obtain ⟨⟨c, single, _⟩, _⟩ := tracks.handed frames same false
          exact absurd single (several c)
        · exact tracks.passed frames same false

/-! ### Binding the variables again -/

/-- Nothing is in progress where there are no notifications. -/
theorem pendingOf_quiet (quiet : e.frames = []) (b : Binding) : e.pendingOf b = [] := by
  rw [pendingOf, quiet]
  rfl

theorem not_pending (quiet : e.frames = []) (b : Binding) (d : Delivery) : d ∉ e.pendingOf b := by
  rw [pendingOf_quiet quiet]
  exact List.not_mem_nil

theorem not_writing (quiet : e.frames = []) (b : Binding) : ¬e.Writing b := by
  rintro ⟨f, member, _⟩
  rw [quiet] at member
  cases member

/-- Other listeners come and go. -/
theorem Good.register (good : e.Good py) (idle : e.idle = true) {subs : Subscriptions} {nextSub : Nat}
    (filed : subs.Filed nextSub) (held : subs.Held)
    (subscribed : ∀ b ∈ e.bindings, ⟨b.subId, b.source, false⟩ ∈ subs.allSubs) :
    ({ e with state := { e.state with subs := subs, nextSub := nextSub } } : Engine).Good py := by
  obtain ⟨quiet, done⟩ := idle_iff.mp idle
  refine ⟨⟨⟨filed, held, subscribed, good.apart, fun b next => ?_, good.concrete, fun f member => ?_⟩, good.handlers,
    good.started, good.sourceless, good.sources⟩, fun b member acyclic untouched => ?_⟩
  · have next : e.Subscribing b := next
    rw [Subscribing, done] at next
    cases next
  · have member : f ∈ e.frames := member
    rw [quiet] at member
    cases member
  · exact (good.tracks b member acyclic untouched).congr (fun _ => rfl) rfl id id

theorem filed_unsubscribed {bindings : List Binding} {subs : Subscriptions} {nextSub : Nat} (filed : subs.Filed nextSub)
    (held : subs.Held) : (bindings.foldl (fun subs b => subs.unsubscribe b.subId) subs).Filed nextSub ∧
      (bindings.foldl (fun subs b => subs.unsubscribe b.subId) subs).Held := by
  induction bindings generalizing subs with
  | nil => exact ⟨filed, held⟩
  | cons b bindings ih => exact ih (filed.unsubscribe b.subId) (held.unsubscribe filed b.subId)

theorem Good.rebind (good : e.Good py) (idle : e.idle = true) (vars : List Variable) : (e.rebind vars).Good py := by
  obtain ⟨quiet, _⟩ := idle_iff.mp idle
  obtain ⟨filed, held⟩ := @filed_unsubscribed e.bindings _ _ good.filed good.held
  have none (b : Binding) : b ∉ (e.rebind vars).bound := by
    rw [mem_bound, not_or]
    exact ⟨nofun, nofun⟩
  have still : (e.rebind vars).frames = [] := quiet
  refine ⟨⟨⟨filed, held, nofun, List.nodup_nil, nofun, fun b member => absurd member (none b), fun f member => ?_⟩,
    fun f member => ?_, nofun, fun b member => absurd member (none b), nofun⟩, fun b member => absurd member (none b)⟩
  · rw [still] at member
    cases member
  · rw [still] at member
    cases member

/-- The list of the variables to bind goes on, or ends. -/
theorem Good.skip (good : e.Good py) (before : e.rebinding.bind (·.subscribing) = none)
    {rebinding : Option Rebinding} (after : rebinding.bind (·.subscribing) = none) :
    ({ e with rebinding := rebinding } : Engine).Good py := by
  have bound : ({ e with rebinding := rebinding } : Engine).bound = e.bound := by
    rw [Engine.bound, Engine.bound, before, after]
  have nobody (b : Binding) : ¬({ e with rebinding := rebinding } : Engine).Subscribing b := by
    rw [Subscribing, after]
    exact nofun
  refine ⟨⟨⟨good.filed, good.held, good.subscribed, good.apart, fun b next => absurd next (nobody b), ?_, good.known⟩, ?_,
    fun b next => absurd next (nobody b), ?_, ?_⟩, ?_⟩
  · rw [bound]
    exact good.concrete
  · rw [bound]
    exact good.handlers
  · rw [bound]
    exact good.sourceless
  · rw [bound]
    exact good.sources
  · rw [bound]
    intro b member acyclic untouched
    exact (good.tracks b member acyclic untouched).congr (fun _ => rfl) rfl id id

/-- The variable that was written is subscribed to its source. -/
theorem Good.subscribe (good : e.Good py) (quiet : e.frames = []) {b : Binding} {remaining : List Variable}
    (next : e.rebinding = some ⟨some b, remaining⟩) :
    ({ e with
      state := { e.state with subs := e.state.subs.addSub ⟨b.subId, b.source, false⟩, nextSub := e.state.nextSub + 1 }
      bindings := e.bindings ++ [b], rebinding := some { remaining := remaining } } : Engine).Good py := by
  have subscribing : e.Subscribing b := by
    rw [Subscribing, next]
    rfl
  have fresh := good.fresh b subscribing
  have bound : e.bound = e.bindings ++ [b] := by
    rw [Engine.bound, next]
    rfl
  have after : ({ e with
      state := { e.state with subs := e.state.subs.addSub ⟨b.subId, b.source, false⟩, nextSub := e.state.nextSub + 1 }
      bindings := e.bindings ++ [b], rebinding := some { remaining := remaining } } : Engine).bound = e.bound := by
    rw [bound]
    exact List.append_nil _
  refine ⟨⟨⟨?_, good.held.addSub _, fun b' member => ?_, ?_, nofun, ?_, fun f member => ?_⟩, ?_, nofun, ?_, ?_⟩, ?_⟩
  · rw [fresh]
    exact good.filed.addSub b.source false
  · rcases List.mem_append.mp member with member | new
    · exact List.mem_append_left _ (good.subscribed b' member)
    · rw [List.mem_singleton.mp new]
      exact List.mem_append_right _ List.mem_cons_self
  · rw [List.map_append]
    refine List.nodup_append'.mpr ⟨good.apart, List.nodup_singleton _, fun n old new => ?_⟩
    obtain ⟨b', member, same⟩ := List.mem_map.mp old
    have below := good.below member
    have here : n = b.subId := List.mem_singleton.mp new
    omega
  · rw [after]
    exact good.concrete
  · have member : f ∈ e.frames := member
    rw [quiet] at member
    cases member
  · rw [after]
    exact good.handlers
  · rw [after]
    exact good.sourceless
  · rw [after]
    exact good.sources
  · rw [after]
    intro b' member acyclic untouched
    exact (good.tracks b' member acyclic untouched).congr (fun _ => rfl) rfl id id

/-- The next variable with a source is to be written and subscribed. -/
def begun (e : Engine) (v : Variable) (remaining : List Variable) (sourced : List Nat) : Engine :=
  { e with rebinding := some { subscribing := some ⟨e.state.nextSub, v⟩, remaining := remaining }, sourced := sourced }

section Begun

variable {v : Variable} {remaining : List Variable} {sourced : List Nat}

theorem mem_bound_begun {b : Binding} :
    b ∈ (e.begun v remaining sourced).bound ↔ b ∈ e.bindings ∨ b = ⟨e.state.nextSub, v⟩ := by
  rw [mem_bound, or_congr_right]
  · rfl
  · rw [Subscribing]
    exact ⟨fun same => (Option.some.inj same).symm, fun same => congrArg some same.symm⟩

theorem bound_of_not_subscribing (before : e.rebinding.bind (·.subscribing) = none) : e.bound = e.bindings := by
  rw [Engine.bound, before]
  exact List.append_nil _

theorem Sound.begun (sound : e.Sound) (quiet : e.frames = []) (before : e.rebinding.bind (·.subscribing) = none)
    (concrete : v.sourceKey.any globChars.contains = false)
    (value : sourced = e.sourced ∧ e.state.get v.sourceKey = .none ∨ sourced = e.state.nextSub :: e.sourced) :
    (e.begun v remaining sourced).Sound := by
  have bound := bound_of_not_subscribing before
  have more (n : Nat) (inside : n ∈ e.sourced) : n ∈ sourced := by
    rcases value with ⟨same, _⟩ | same
    · rwa [same]
    · rw [same]
      exact List.mem_cons_of_mem _ inside
  refine ⟨⟨sound.filed, sound.held, sound.subscribed, sound.apart, ?_, fun b member => ?_, sound.known⟩, fun f member => ?_,
    fun _ _ _ => quiet, fun b member unsourced => ?_, fun n inside => ?_⟩
  · rintro _ ⟨⟩
    rfl
  · rcases mem_bound_begun.mp member with member | rfl
    · exact sound.concrete b (mem_bound.mpr (Or.inl member))
    · exact concrete
  · have member : f ∈ e.frames := member
    rw [quiet] at member
    cases member
  · rcases mem_bound_begun.mp member with member | rfl
    · exact sound.sourceless b (mem_bound.mpr (Or.inl member)) fun old => unsourced (more _ old)
    · rcases value with ⟨_, none⟩ | same
      · exact none
      · have unsourced : e.state.nextSub ∉ sourced := unsourced
        rw [same] at unsourced
        exact absurd List.mem_cons_self unsourced
  · have old (inside : n ∈ e.sourced) : ∃ b ∈ (e.begun v remaining sourced).bound, b.subId = n := by
      obtain ⟨b, member, same⟩ := sound.sources n inside
      rw [bound] at member
      exact ⟨b, mem_bound_begun.mpr (Or.inl member), same⟩
    rcases value with ⟨same, _⟩ | same
    · exact old (same ▸ inside)
    · have inside : n ∈ sourced := inside
      rw [same] at inside
      rcases List.mem_cons.mp inside with new | inside
      · exact ⟨_, mem_bound_begun.mpr (Or.inr rfl), new.symm⟩
      · exact old inside

/-- The bindings before it are as they were. -/
theorem Good.tracks_begun (good : e.Good py) (before : e.rebinding.bind (·.subscribing) = none) {b : Binding}
    (member : b ∈ e.bindings) (acyclic : ¬OnCycle (e.begun v remaining sourced).bound b) (untouched : b.subId ∉ e.touched)
    (same : b.subId ∈ sourced → b.subId ∈ e.sourced) : (e.begun v remaining sourced).Tracks py b := by
  have within : e.bound ⊆ (e.begun v remaining sourced).bound := by
    rw [bound_of_not_subscribing before]
    exact fun b member => mem_bound_begun.mpr (Or.inl member)
  have inside := mem_bound.mpr (Or.inl member)
  exact (good.tracks b inside (fun cycle => acyclic (cycle.mono within)) untouched).congr (fun _ => rfl) rfl same id

/-- A variable whose source has no value is left as it is. -/
theorem Good.begun (good : e.Good py) (quiet : e.frames = []) (before : e.rebinding.bind (·.subscribing) = none)
    (concrete : v.sourceKey.any globChars.contains = false) (none : e.state.get v.sourceKey = .none) :
    (e.begun v remaining e.sourced).Good py := by
  refine ⟨good.toSound.begun quiet before concrete (Or.inl ⟨rfl, none⟩), fun b member acyclic untouched => ?_⟩
  rcases mem_bound_begun.mp member with member | rfl
  · exact good.tracks_begun before member acyclic untouched id
  · refine ⟨fun d there => absurd there (not_pending quiet _ d), fun _ now => ?_,
      fun writing => absurd writing (not_writing quiet _)⟩
    obtain ⟨b, member, same⟩ := good.sources _ now
    rw [bound_of_not_subscribing before] at member
    have below := good.below member
    have same : b.subId = e.state.nextSub := same
    omega

/-- A variable is written before its binding is subscribed. -/
theorem Good.synced (good : e.Good py) (quiet : e.frames = []) (before : e.rebinding.bind (·.subscribing) = none)
    (concrete : v.sourceKey.any globChars.contains = false) :
    ((e.begun v remaining (e.state.nextSub :: e.sourced)).write normcase
      (synced py ⟨e.state.nextSub, v⟩ (e.state.get v.sourceKey)) (some e.state.nextSub) none).Good py := by
  have sound : (e.begun v remaining (e.state.nextSub :: e.sourced)).Sound := good.toSound.begun quiet before concrete (Or.inr rfl)
  refine ⟨sound.write rfl nofun ?_, fun b member acyclic untouched => ?_⟩
  · rintro _ ⟨⟩
    exact List.mem_cons_self
  · rw [write_bound] at member acyclic
    have old : b.subId ∉ e.touched := fun old => untouched ((mem_touched_write _ _ _).mpr (Or.inl old))
    rcases mem_bound_begun.mp member with member' | rfl
    · have below := good.below member'
      have earlier (now : b.subId ∈ e.state.nextSub :: e.sourced) : b.subId ∈ e.sourced :=
        (List.mem_cons.mp now).resolve_left below.ne
      have other : some e.state.nextSub ≠ some b.subId := fun same => below.ne (Option.some.inj same).symm
      have next (next : (e.begun v remaining (e.state.nextSub :: e.sourced)).Subscribing b) : False :=
        below.ne (sound.fresh b next)
      refine (good.tracks_begun before member' acyclic old earlier).write sound.toRegistered member rfl other nofun untouched
        (fun subscribing => (next subscribing).elim) fun waits => ?_
      rcases waits with subscribing | pending | writing
      · exact (next subscribing).elim
      · exact absurd (pendingOf_quiet quiet b) pending
      · exact absurd writing (not_writing quiet b)
    · exact Tracks.own sound.toRegistered member acyclic (fun d there => absurd there (not_pending quiet _ d)) (alike_refl _)

end Begun

theorem Good.bindNext (good : e.Good py) {e' : Engine} (run : e.bindNext py normcase = some e') : e'.Good py := by
  unfold Engine.bindNext at run
  split at run
  · rename_i b remaining quiet next
    cases run
    exact good.subscribe quiet next
  · rename_i v remaining quiet next
    have before : e.rebinding.bind (·.subscribing) = none := by
      rw [next]
      rfl
    split at run
    · cases run
      exact good.skip before rfl
    · rename_i concrete
      rw [not_or, Bool.not_eq_true] at concrete
      dsimp only at run
      split at run
      · rename_i none
        cases run
        exact good.begun quiet before concrete.2 none
      · cases run
        exact good.synced quiet before concrete.2
  · rename_i next
    cases run
    have before : e.rebinding.bind (·.subscribing) = none := by
      rw [next]
      rfl
    exact good.skip before rfl
  · cases run

theorem Good.next (good : e.Good py) {l : Label} (calm : e.Calm py l) {e' : Engine} (run : e.next py normcase l = some e') :
    e'.Good py := by
  cases l with
  | call op =>
    rw [Engine.next, Option.ite_none_right_eq_some, Bool.and_eq_true] at run
    obtain ⟨⟨turn, dict⟩, ⟨⟩⟩ := run
    exact good.call dict turn calm
  | deliver => exact good.deliver calm run
  | subscribe pattern bulk =>
    rw [Engine.next, Option.ite_none_right_eq_some] at run
    obtain ⟨idle, ⟨⟩⟩ := run
    exact good.register idle (good.filed.addSub pattern bulk) (good.held.addSub _) fun b member =>
      List.mem_append_left _ (good.subscribed b member)
  | unsubscribe subId =>
    rw [Engine.next, Option.ite_none_right_eq_some, Bool.and_eq_true] at run
    obtain ⟨⟨idle, others⟩, ⟨⟩⟩ := run
    refine good.register idle (good.filed.unsubscribe subId) (good.held.unsubscribe good.filed subId) fun b member => ?_
    rw [Subscriptions.allSubs_unsubscribe, Subscriptions.mem_without]
    exact ⟨good.subscribed b member, of_decide_eq_true (List.all_eq_true.mp others b member)⟩
  | rebind vars =>
    rw [Engine.next, Option.ite_none_right_eq_some] at run
    obtain ⟨idle, ⟨⟩⟩ := run
    exact good.rebind idle vars
  | bindNext => exact good.bindNext run

theorem Good.start : ({} : Engine).Good py where
  filed := .start
  held := nofun
  subscribed := nofun
  apart := List.nodup_nil
  fresh := nofun
  concrete := nofun
  known := nofun
  handlers := nofun
  started := nofun
  sourceless := nofun
  sources := nofun
  tracks := nofun

/-- In a calm run every state keeps its variables on their sources. -/
theorem good_of_reach (reach : Run.Reach (machine py normcase) (fun e l => e.Calm py l) e) : e.Good py := by
  refine Run.Reach.invariant (fun e start => ?_) (fun e l e' _ good calm run => good.next calm run) reach
  rw [show e = {} from start]
  exact Good.start

end Engine

end OpenAvc.State
