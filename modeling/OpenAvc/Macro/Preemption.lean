import OpenAvc.Macro.Registry

namespace OpenAvc.MacroEngine

variable {macros : MacroId → Option Macro} {fresh quiet : Prop} {t u : TaskId} {E E' : MacroEngine}
  {f g : Frame} {m n : MacroId} {i : RunId} {stack rest : List Frame}

/-- A start of one preempts the runs of the other. -/
def SameGroup (macros : MacroId → Option Macro) (m n : MacroId) : Prop :=
  ∃ group, group ≠ "" ∧ (macros m).bind Macro.cancelGroup = some group ∧
    (macros n).bind Macro.cancelGroup = some group

/-- The call numbered `j` was registered after the call numbered `i`. -/
def Later (E : MacroEngine) (y x : RunId × MacroId × TaskId) : Prop := [y, x].Sublist E.starts

theorem later_register {y x : RunId × MacroId × TaskId} :
    Later (E.register t f) y x ↔ Later E y x ∨ (y = (f.id, f.macroId, t) ∧ x ∈ E.starts) := by
  simp only [Later, register, List.sublist_cons_iff, List.cons.injEq]
  constructor
  · rintro (before | ⟨r, ⟨rfl, rfl⟩, found⟩)
    · exact Or.inl before
    · exact Or.inr ⟨rfl, List.singleton_sublist.mp found⟩
  · rintro (before | ⟨rfl, found⟩)
    · exact Or.inl before
    · exact Or.inr ⟨_, ⟨rfl, rfl⟩, List.singleton_sublist.mpr found⟩

theorem Later.started {y x : RunId × MacroId × TaskId} (later : Later E y x) : x ∈ E.starts :=
  later.subset (List.mem_cons_of_mem y (List.mem_singleton.mpr rfl))

/-- What the books say of one call on the stack of `t`. A registered call is in
`_running`, and every later start of its group by another task has struck it. -/
structure FrameBooked (macros : MacroId → Option Macro) (E : MacroEngine) (t : TaskId) (f : Frame) : Prop where
  loaded : macros f.macroId = some f.config
  numbered : f.id < E.nextRun
  held : f.pc.registered = true → Holds E t f.macroId
  unstarted : f.pc.unregistered = true → (f.id, f.macroId, t) ∉ E.starts
  overtaken : f.pc.registered = true → ∀ j n u, Later E (j, n, u) (f.id, f.macroId, t) → u ≠ t →
    SameGroup macros n f.macroId → (f.id, t) ∈ E.struck

/-- The books agree with the stack of `t`, which is inside no macro twice. -/
structure Booked (macros : MacroId → Option Macro) (E : MacroEngine) (t : TaskId) (stack : List Frame) :
    Prop where
  nodup : (stack.map Frame.macroId).Nodup
  frames : ∀ f ∈ stack, FrameBooked macros E t f
  started : ∀ i m, (i, m, t) ∈ E.starts → i < E.nextRun
  struck : ∀ i, (i, t) ∈ E.struck → i < E.nextRun

theorem FrameBooked.goOn (booked : FrameBooked macros E t f) (same : f.SameRun g)
    (registered : g.pc.registered = true → f.pc.registered = true)
    (unregistered : g.pc.unregistered = true → f.pc.unregistered = true) : FrameBooked macros E t g where
  loaded := by rw [same.macroId, same.config]; exact booked.loaded
  numbered := by rw [same.id]; exact booked.numbered
  held on := by rw [same.macroId]; exact booked.held (registered on)
  unstarted off := by rw [same.id, same.macroId]; exact booked.unstarted (unregistered off)
  overtaken on := by rw [same.id, same.macroId]; exact booked.overtaken (registered on)

theorem FrameBooked.release (booked : FrameBooked macros E t f)
    (apart : f.pc.registered = true → ¬ (f.macroId = m ∧ t = u)) : FrameBooked macros (E.release m u) t f where
  loaded := booked.loaded
  numbered := booked.numbered
  held on := holds_release.mpr ⟨booked.held on, apart on⟩
  unstarted := booked.unstarted
  overtaken := booked.overtaken

theorem FrameBooked.sameBooks (same : SameBooks E E') (booked : FrameBooked macros E t f) :
    FrameBooked macros E' t f where
  loaded := booked.loaded
  numbered := same.nextRun ▸ booked.numbered
  held on := by rw [Holds, same.running]; exact booked.held on
  unstarted off := by rw [same.starts]; exact booked.unstarted off
  overtaken on := by simp only [Later, same.starts, same.struck]; exact booked.overtaken on

theorem FrameBooked.cancelTasks {targets : List TaskId} (booked : FrameBooked macros E t f) :
    FrameBooked macros (E.cancelTasks targets) t f where
  loaded := booked.loaded
  numbered := booked.numbered
  held := booked.held
  unstarted := booked.unstarted
  overtaken on j n u later apart shared :=
    List.mem_append_right _ (booked.overtaken on j n u later apart shared)

theorem FrameBooked.tick (booked : FrameBooked macros E t f) :
    FrameBooked macros { E with nextRun := E.nextRun + 1 } t f :=
  { booked with numbered := Nat.lt_succ_of_lt booked.numbered }

theorem mem_struck_cancelTasks {targets : List TaskId} : (i, u) ∈ (E.cancelTasks targets).struck ↔
    (u ∈ targets ∧ ∃ f ∈ (E.tasks u).stack, f.id = i) ∨ (i, u) ∈ E.struck := by
  simp only [MacroEngine.cancelTasks, List.mem_append, List.mem_flatMap, List.mem_filter, List.mem_map,
    Prod.mk.injEq, decide_eq_true_eq]
  constructor
  · rintro (⟨v, ⟨target, _⟩, f, on, rfl, rfl⟩ | before)
    · exact Or.inl ⟨target, f, on, rfl⟩
    · exact Or.inr before
  · rintro (⟨target, f, on, rfl⟩ | before)
    · exact Or.inl ⟨u, ⟨target, List.ne_nil_of_mem on⟩, f, on, rfl, rfl⟩
    · exact Or.inr before

/-- A start spares the task it is made in. -/
theorem self_notMem_preempted (config : Macro) : t ∉ (E.preempted macros config t).map Prod.snd := by
  intro member
  obtain ⟨⟨n, v⟩, found, rfl⟩ := List.mem_map.mp member
  unfold preempted collectGroupTargets at found
  split at found
  · split at found
    · exact List.not_mem_nil found
    · simp at found
  · exact List.not_mem_nil found

theorem mem_preempted (holds : Holds E u n) (apart : u ≠ t) (loaded : macros m = some config)
    (shared : SameGroup macros m n) : u ∈ (E.preempted macros config t).map Prod.snd := by
  obtain ⟨group, named, ofM, ofN⟩ := shared
  have ofConfig : config.cancelGroup = some group := by rw [loaded] at ofM; exact ofM
  refine List.mem_map.mpr ⟨(n, u), ?_, rfl⟩
  simp only [preempted, ofConfig, if_neg named, collectGroupTargets, List.mem_filter, ofN, apart, ne_eq,
    not_false_eq_true, decide_true, Bool.and_self, and_true]
  exact holds

theorem Booked.pop (booked : Booked macros E t (f :: rest)) : Booked macros E t rest where
  nodup := (List.nodup_cons.mp booked.nodup).2
  frames g member := booked.frames g (List.mem_cons_of_mem f member)
  started := booked.started
  struck := booked.struck

theorem Booked.apart (booked : Booked macros E t (f :: rest)) (member : g ∈ rest) : g.macroId ≠ f.macroId :=
  fun same => (List.nodup_cons.mp booked.nodup).1 (List.mem_map.mpr ⟨g, member, same⟩)

theorem Booked.push (booked : Booked macros E t rest) (top : FrameBooked macros E t f)
    (apart : f.macroId ∉ rest.map Frame.macroId) : Booked macros E t (f :: rest) where
  nodup := List.nodup_cons.mpr ⟨apart, booked.nodup⟩
  frames := List.forall_mem_cons.mpr ⟨top, booked.frames⟩
  started := booked.started
  struck := booked.struck

theorem Booked.goOn (booked : Booked macros E t (f :: rest)) (same : f.SameRun g)
    (top : FrameBooked macros E t g) : Booked macros E t (g :: rest) :=
  booked.pop.push top (by rw [same.macroId]; exact (List.nodup_cons.mp booked.nodup).1)

theorem Booked.release (booked : Booked macros E t (f :: rest)) : Booked macros (E.release f.macroId t) t rest where
  nodup := booked.pop.nodup
  frames g member := (booked.pop.frames g member).release fun _ same => booked.apart member same.1
  started := booked.started
  struck := booked.struck

/-- Registering `f` in `t` books it, and leaves the calls under it booked. -/
theorem Booked.claim (booked : Booked macros E t (f :: rest)) (unregistered : f.pc.unregistered = true)
    (same : f.SameRun g) (registered : g.pc.registered = true) :
    Booked macros (E.register t f) t (g :: rest) := by
  have top := booked.frames f (List.mem_cons_self ..)
  refine ⟨?_, List.forall_mem_cons.mpr ⟨⟨?_, ?_, fun _ => ?_, fun off => ?_, ?_⟩, fun h member => ?_⟩, ?_,
    booked.struck⟩
  · rw [List.map_cons, same.macroId]
    exact booked.nodup
  · rw [same.macroId, same.config]; exact top.loaded
  · rw [same.id]; exact top.numbered
  · exact holds_register.mpr (Or.inl ⟨same.macroId, rfl⟩)
  · exact absurd registered (Await.not_registered off)
  · rw [same.id, same.macroId]
    intro _ j n u later apart _
    rcases later_register.mp later with before | ⟨itself, _⟩
    · exact absurd before.started (top.unstarted unregistered)
    · cases itself; exact absurd rfl apart
  · have below := booked.frames h (List.mem_cons_of_mem f member)
    refine ⟨below.loaded, below.numbered, fun on => holds_register.mpr (Or.inr (below.held on)),
      fun off => ?_, fun on j n u later apart shared => ?_⟩
    · intro start
      rcases List.mem_cons.mp start with entry | before
      · exact booked.apart member (congrArg (fun s => s.2.1) entry)
      · exact below.unstarted off before
    · rcases later_register.mp later with before | ⟨itself, _⟩
      · exact below.overtaken on j n u before apart shared
      · cases itself; exact absurd rfl apart
  · intro i n start
    rcases List.mem_cons.mp start with entry | before
    · cases entry; exact top.numbered
    · exact booked.started i n before

theorem Booked.cancelTasks_self {targets : List TaskId} (booked : Booked macros E t stack) (spared : t ∉ targets) :
    Booked macros (E.cancelTasks targets) t stack where
  nodup := booked.nodup
  frames f member := (booked.frames f member).cancelTasks
  started := booked.started
  struck i struck := by
    rcases mem_struck_cancelTasks.mp struck with ⟨target, _⟩ | before
    · exact absurd target spared
    · exact booked.struck i before

theorem Move.booked {c c' : Config} (once : fresh) (move : Move macros fresh quiet t c c')
    (booked : Booked macros c.1 t c.2) : Booked macros c'.1 t c'.2 := by
  cases move with
  | goOn before same after =>
    refine booked.goOn same ((booked.frames _ (List.mem_cons_self ..)).goOn same (fun _ => before) fun off => ?_)
    exact absurd after (Await.not_registered off)
  | @finish _ f g rest began same ended =>
    refine booked.release.push ?_ (by rw [same.macroId]; exact (List.nodup_cons.mp booked.nodup).1)
    have quit : ¬ g.pc.registered = true := Await.not_registered_of_released ended
    refine ((booked.frames f (List.mem_cons_self ..)).goOn same (fun on => absurd on quit) fun off => ?_).release
      fun on => absurd on quit
    simp only [Await.unregistered] at off
    split at off <;> simp_all [Await.released]
  | leave ended => exact booked.release
  | refused off => exact booked.pop
  | lose at_pc loud => exact booked.pop
  | @call _ f stack numbered off loaded waiting enters =>
    refine ⟨List.nodup_cons.mpr ⟨enters once, booked.nodup⟩,
      List.forall_mem_cons.mpr ⟨⟨loaded, ?_, fun on => ?_, fun _ start => ?_, fun on => ?_⟩,
        fun g member => (booked.frames g member).tick⟩,
      fun i m start => Nat.lt_succ_of_lt (booked.started i m start),
      fun i struck => Nat.lt_succ_of_lt (booked.struck i struck)⟩
    · rw [numbered]; exact Nat.lt_succ_self _
    · exact absurd on (Await.not_registered off)
    · exact Nat.lt_irrefl _ (numbered ▸ booked.started _ _ start)
    · exact absurd on (Await.not_registered off)
  | hold off same still =>
    refine booked.goOn same ((booked.frames _ (List.mem_cons_self ..)).goOn same (fun on => ?_) fun _ => off)
    exact absurd on (Await.not_registered still)
  | claim off same on => exact (booked.claim off same on).cancelTasks_self (self_notMem_preempted _)

/-- A claim of another task strikes what it overtakes. -/
theorem FrameBooked.claim_other (booked : FrameBooked macros E u g) (member : g ∈ (E.tasks u).stack) (apart : u ≠ t)
    (loaded : macros f.macroId = some f.config) :
    FrameBooked macros ((E.register t f).cancelTasks
      (((E.register t f).preempted macros f.config t).map Prod.snd)) u g where
  loaded := booked.loaded
  numbered := booked.numbered
  held on := holds_register.mpr (Or.inr (booked.held on))
  unstarted off start := by
    rcases List.mem_cons.mp start with entry | before
    · exact apart (congrArg (fun s => s.2.2) entry)
    · exact booked.unstarted off before
  overtaken on j n v later other shared := by
    refine mem_struck_cancelTasks.mpr ?_
    rcases later_register.mp later with before | ⟨itself, _⟩
    · exact Or.inr (booked.overtaken on j n v before other shared)
    · cases itself
      have holds : Holds (E.register t f) u g.macroId := holds_register.mpr (Or.inr (booked.held on))
      exact Or.inl ⟨mem_preempted holds apart loaded shared, g, member, rfl⟩

theorem Move.booked_other {c c' : Config} (apart : u ≠ t) (move : Move macros fresh quiet t c c')
    (own : Booked macros c.1 t c.2) (booked : Booked macros c.1 u (c.1.tasks u).stack) :
    Booked macros c'.1 u (c.1.tasks u).stack := by
  cases move with
  | goOn | refused | lose | hold => exact booked
  | finish | leave =>
    exact ⟨booked.nodup, fun g member => (booked.frames g member).release fun _ same => apart same.2,
      booked.started, booked.struck⟩
  | call =>
    exact ⟨booked.nodup, fun g member => (booked.frames g member).tick,
      fun i m start => Nat.lt_succ_of_lt (booked.started i m start),
      fun i struck => Nat.lt_succ_of_lt (booked.struck i struck)⟩
  | @claim E f g rest off same on =>
    refine ⟨booked.nodup, fun h member => (booked.frames h member).claim_other member apart
      (own.frames f (List.mem_cons_self ..)).loaded, fun i m start => ?_, fun i struck => ?_⟩
    · rcases List.mem_cons.mp start with entry | before
      · exact absurd (congrArg (fun s => s.2.2) entry) apart
      · exact booked.started i m before
    · rcases mem_struck_cancelTasks.mp struck with ⟨_, h, member, rfl⟩ | before
      · exact (booked.frames h member).numbered
      · exact booked.struck i before

theorem booked_kept (once : fresh) : Kept macros fresh quiet (Booked macros) where
  own := Move.booked once
  other := Move.booked_other
  cancelled targets booked := by
    refine ⟨booked.nodup, fun f member => (booked.frames f member).cancelTasks, booked.started,
      fun i struck => ?_⟩
    rcases mem_struck_cancelTasks.mp struck with ⟨_, f, member, rfl⟩ | before
    · exact (booked.frames f member).numbered
    · exact booked.struck i before
  books same booked :=
    ⟨booked.nodup, fun f member => (booked.frames f member).sameBooks same,
      by rw [same.starts, same.nextRun]; exact booked.started,
      by rw [same.struck, same.nextRun]; exact booked.struck⟩

/-- A cancellation of `t` is on its way, or is being announced. -/
def Doomed (E : MacroEngine) (t : TaskId) : Prop :=
  (E.tasks t).cancelRequested = true ∨ ∀ f ∈ (E.tasks t).stack.head?, f.pc = .cancelled

/-- A task that has been struck in a call it is still inside is doomed. -/
def StruckDown (E : MacroEngine) (t : TaskId) : Prop :=
  ∀ f ∈ (E.tasks t).stack, (f.id, t) ∈ E.struck → Doomed E t

def Spared (E : MacroEngine) (t : TaskId) (stack : List Frame) : Prop := ∀ f ∈ stack, (f.id, t) ∉ E.struck

theorem StruckDown.spared (down : StruckDown E t) (free : ¬ Doomed E t) : Spared E t (E.tasks t).stack :=
  fun f member struck => free (down f member struck)

theorem Spared.struckDown (spared : Spared E t (E.tasks t).stack) : StruckDown E t :=
  fun f member struck => absurd struck (spared f member)

theorem Doomed.cancelTasks {targets : List TaskId} (doomed : Doomed E u) : Doomed (E.cancelTasks targets) u := by
  rcases doomed with requested | announcing
  · refine Or.inl ?_
    simp only [MacroEngine.cancelTasks]
    split
    · rfl
    · exact requested
  · exact Or.inr (by rwa [stack_cancelTasks])

theorem StruckDown.cancelTasks {targets : List TaskId} (down : StruckDown E u) :
    StruckDown (E.cancelTasks targets) u := by
  intro f member struck
  rw [stack_cancelTasks] at member
  rcases mem_struck_cancelTasks.mp struck with ⟨target, _⟩ | before
  · have live : u ∈ targets.filter fun t => (E.tasks t).stack ≠ [] :=
      List.mem_filter.mpr ⟨target, decide_eq_true (List.ne_nil_of_mem member)⟩
    exact Or.inl (by simp only [MacroEngine.cancelTasks, if_pos live])
  · exact (down f member before).cancelTasks

theorem StruckDown.congr (down : StruckDown E u) (task : E'.tasks u = E.tasks u) (struck : E'.struck = E.struck) :
    StruckDown E' u := by
  simp only [StruckDown, Doomed, task, struck]
  exact down

theorem StruckDown.setStack (down : StruckDown E u) (apart : u ≠ t) : StruckDown (E.setStack t stack) u :=
  down.congr (by simp [MacroEngine.setStack, apart]) rfl

theorem Move.struckDown {c c' : Config} (move : Move macros fresh quiet t c c') (down : StruckDown c.1 u) :
    StruckDown c'.1 u := by
  cases move with
  | @claim E f g rest => exact (down.congr rfl rfl : StruckDown (E.register t f) u).cancelTasks
  | goOn | refused | lose | hold => exact down
  | finish | leave | call => exact down.congr rfl rfl

theorem Move.spared {c c' : Config} (move : Move macros fresh quiet t c c')
    (numbered : ∀ i, (i, t) ∈ c.1.struck → i < c.1.nextRun) (spared : Spared c.1 t c.2) : Spared c'.1 t c'.2 := by
  have pop {E : MacroEngine} {f : Frame} {rest : List Frame} (spared : Spared E t (f :: rest)) : Spared E t rest :=
    fun g member => spared g (List.mem_cons_of_mem f member)
  have goOn {E : MacroEngine} {f g : Frame} {rest : List Frame} (spared : Spared E t (f :: rest))
      (same : f.SameRun g) : Spared E t (g :: rest) :=
    List.forall_mem_cons.mpr ⟨same.id ▸ spared f (List.mem_cons_self ..), pop spared⟩
  cases move with
  | goOn _ same _ | hold _ same _ => exact goOn spared same
  | finish _ same _ => exact goOn (E := MacroEngine.release _ _ _) spared same
  | leave | refused | lose => exact pop spared
  | call atNext =>
    refine List.forall_mem_cons.mpr ⟨fun struck => ?_, spared⟩
    exact Nat.lt_irrefl _ (atNext ▸ numbered _ struck)
  | @claim E f g rest _ same _ =>
    intro h member struck
    rcases mem_struck_cancelTasks.mp struck with ⟨target, _⟩ | before
    · exact self_notMem_preempted _ target
    · exact goOn spared same h member before

/-- A segment that begins spared ends spared, and dooms what it strikes. -/
theorem Segment.struckDown (once : fresh) (segment : Segment macros fresh quiet t (E, stack) E')
    (booked : Booked macros E t stack) (spared : Spared E t stack) (down : ∀ u ≠ t, StruckDown E u) (u : TaskId) :
    StruckDown E' u := by
  obtain ⟨⟨last, top⟩, ⟨_, atEnd, elsewhere⟩, put⟩ := segment.along
    (I := fun c => Booked macros c.1 t c.2 ∧ Spared c.1 t c.2 ∧ ∀ v ≠ t, StruckDown c.1 v)
    (fun c c' move now => ⟨move.booked once now.1, move.spared now.1.struck now.2.1,
      fun v apart => move.struckDown (now.2.2 v apart)⟩) ⟨booked, spared, down⟩
  subst put
  by_cases same : u = t
  · subst same
    refine Spared.struckDown ?_
    rw [stack_setStack_self]
    exact atEnd
  · exact (elsewhere u same).setStack same

/-- A CancelledError that no drain catches ends the stack, or is announced on
top of what is left of it. Nothing else is touched but the registry. -/
theorem throwCancelled_doomed (caught : ∀ f ∈ stack, ∀ cancelled, f.pc ≠ .drain cancelled) :
    (∀ f ∈ ((E.throwCancelled t stack).tasks t).stack.head?, f.pc = .cancelled) ∧
    (E.throwCancelled t stack).struck = E.struck ∧
    ∀ u ≠ t, (E.throwCancelled t stack).tasks u = E.tasks u := by
  induction stack generalizing E with
  | nil =>
    refine ⟨?_, rfl, fun u apart => by simp [MacroEngine.throwCancelled, MacroEngine.setStack, apart]⟩
    simp only [MacroEngine.throwCancelled]
    rw [stack_setStack_self]
    exact fun f member => absurd member (by simp)
  | cons f rest ih =>
    have ih {E : MacroEngine} := ih (E := E) fun g member => caught g (List.mem_cons_of_mem f member)
    cases at_pc : f.pc with
    | drain cancelled => exact absurd at_pc (caught f (List.mem_cons_self ..) cancelled)
    | queue | skipped | started =>
      simp only [MacroEngine.throwCancelled, at_pc]
      exact ih
    | cancelled | error =>
      simp only [MacroEngine.throwCancelled, at_pc]
      exact ih
    | progress | leaf | plugin | nested | branch | stepError | completed =>
      simp only [MacroEngine.throwCancelled, at_pc, MacroEngine.suspend, Await.released, if_true]
      refine ⟨?_, rfl, fun u apart => by simp [MacroEngine.setStack, MacroEngine.release, apart]⟩
      rw [stack_setStack_self]
      exact fun g member => by simp at member; rw [← member]

/-- A CancelledError is caught where the run goes on: in the wait for the runs
a start has preempted, or by the handler of a plugin, whose own call of
`execute` returns "cancelled" to it. -/
def Absorbed (E : MacroEngine) : Label → Prop
  | .resume t wake =>
    match (E.tasks t).stack with
    | f :: rest => (wake = .cancelled ∧ f.pc.drains = true) ∨
        (wake ≠ .cancelled ∧ f.pc = .cancelled ∧ f.nestedCall = false ∧ rest ≠ [])
    | [] => False
  | _ => False

instance (E : MacroEngine) (l : Label) : Decidable (Absorbed E l) :=
  match l with
  | .resume t wake =>
    match at_stack : (E.tasks t).stack with
    | f :: rest => decidable_of_iff ((wake = .cancelled ∧ f.pc.drains = true) ∨
        (wake ≠ .cancelled ∧ f.pc = .cancelled ∧ f.nestedCall = false ∧ rest ≠ [])) (by simp only [Absorbed, at_stack])
    | [] => .isFalse (by simp only [Absorbed, at_stack, not_false_eq_true])
  | .call _ _ _ | .pluginCall _ _ | .cancel _ | .cancelAll | .tick _ => .isFalse id

theorem Stacked.caught (stacked : Stacked (f :: rest)) (top : f.pc.drains = false) :
    ∀ g ∈ f :: rest, ∀ cancelled, g.pc ≠ .drain cancelled := by
  intro g member cancelled at_pc
  rcases List.mem_cons.mp member with rfl | below
  · rw [at_pc] at top; cases top
  · rcases stacked g below with nested | plugin
    · rw [at_pc] at nested; cases nested
    · rw [at_pc] at plugin; cases plugin

/-- A doomed task that is resumed is still doomed, or inside no call. -/
theorem Doomed.resume {wake : Wake} (doomed : Doomed E t) (stacked : Stacked (E.tasks t).stack)
    (kept : ¬ Absorbed E (.resume t wake)) (run : E.next macros (.resume t wake) = some E') :
    Doomed E' t ∧ E'.struck = E.struck ∧ ∀ u ≠ t, E'.tasks u = E.tasks u := by
  simp only [MacroEngine.next] at run
  split at run
  · cases run
  · rename_i f rest at_stack
    rw [at_stack] at stacked
    simp only [Absorbed, at_stack, not_or, not_and] at kept
    split at run
    · split at run <;> cases run
      rename_i thrown
      have caught := stacked.caught (Bool.eq_false_iff.mpr (kept.1 thrown))
      obtain ⟨ended, struck, others⟩ := throwCancelled_doomed (E := E.deliver t) caught
      exact ⟨Or.inr ended, struck, fun u apart => by rw [others u apart]; simp [deliver, apart]⟩
    · rename_i unrequested
      have at_pc : f.pc = .cancelled := by
        rcases doomed with requested | announcing
        · exact absurd requested unrequested
        · exact announcing f (by rw [at_stack]; rfl)
      cases wake with
      | cancelled => cases run
      | fail | unreported => simp [MacroEngine.proceed, at_pc] at run
      | ok skip holds =>
        simp only [MacroEngine.proceed, at_pc] at run
        split at run <;> cases run
        · have caught : ∀ g ∈ rest, ∀ cancelled, g.pc ≠ .drain cancelled :=
            fun g member => stacked.caught (by rw [at_pc]; rfl) g (List.mem_cons_of_mem f member)
          obtain ⟨ended, struck, others⟩ := throwCancelled_doomed (E := E.release f.macroId t) caught
          exact ⟨Or.inr ended, struck, others⟩
        · rename_i outermost
          have alone : rest = [] := by
            by_contra below
            exact kept.2 (by simp) at_pc (Bool.eq_false_iff.mpr outermost) below
          subst alone
          refine ⟨Or.inr ?_, rfl, fun u apart => by
            simp [MacroEngine.leave, MacroEngine.setStack, MacroEngine.release, apart]⟩
          simp only [MacroEngine.leave]
          rw [stack_setStack_self]
          exact fun g member => absurd member (by simp)

/-- Steps after which preemption is still lawful: they let no CancelledError
be caught halfway, and make no task enter a macro it is inside. -/
def Lawful (macros : MacroId → Option Macro) (E : MacroEngine) (l : Label) : Prop :=
  ¬ Absorbed E l ∧ ¬ Reenters macros E l

instance (E : MacroEngine) (l : Label) : Decidable (Lawful macros E l) :=
  inferInstanceAs (Decidable (_ ∧ _))

theorem next_struckDown {l : Label} (stacked : ∀ t, Stacked (E.tasks t).stack)
    (booked : ∀ t, Booked macros E t (E.tasks t).stack) (down : ∀ t, StruckDown E t) (lawful : Lawful macros E l)
    (run : E.next macros l = some E') (u : TaskId) : StruckDown E' u := by
  have whole := run
  cases l with
  | cancel m => cases run; exact (down u).cancelTasks
  | cancelAll => cases run; exact (down u).cancelTasks
  | tick elapsed => cases run; exact (down u).congr rfl rfl
  | call t m chain =>
    simp only [MacroEngine.next] at run
    split at run <;> cases run
    rename_i empty
    cases entered : E.execute macros t m chain [] with
    | none => exact down u
    | some E' =>
      have segment : Segment macros True True t (E, []) E' := .execute (by simp) (by simp) entered
      exact segment.struckDown trivial (empty ▸ booked t) (fun f member => absurd member List.not_mem_nil)
        (fun v _ => down v) u
  | pluginCall t m =>
    simp only [MacroEngine.next] at run
    split at run
    · rename_i f rest at_stack
      split at run <;> cases run
      rename_i awaiting
      obtain ⟨at_pc, unrequested⟩ : f.pc = .plugin ∧ (E.tasks t).cancelRequested = false := by
        simpa using awaiting
      have free : ¬ Doomed E t := by
        rintro (requested | announcing)
        · rw [unrequested] at requested; cases requested
        · have announced := announcing f (by rw [at_stack]; rfl)
          rw [at_pc] at announced
          cases announced
      cases entered : E.execute macros t m ∅ (f :: rest) with
      | none => exact down u
      | some E' =>
        have segment : Segment macros (¬ Reenters macros E (.pluginCall t m)) True t (E, (E.tasks t).stack) E' := by
          rw [at_stack]
          refine .execute (by simp [Await.waits, at_pc]) (fun fresh => ?_) entered
          rwa [← at_stack]
        exact segment.struckDown lawful.2 (booked t) ((down t).spared free) (fun v _ => down v) u
    · cases run
  | resume t wake =>
    by_cases doomed : Doomed E t
    · obtain ⟨still, struck, others⟩ := doomed.resume (stacked t) lawful.1 whole
      by_cases same : u = t
      · subst same; exact fun _ _ _ => still
      · exact (down u).congr (others u same) struck
    · have unrequested : ¬ (E.tasks t).cancelRequested = true := fun requested => doomed (Or.inl requested)
      have segment : Segment macros (¬ Reenters macros E (.resume t wake)) True t (E, (E.tasks t).stack) E' :=
        .resume (stacked t) unrequested whole
      exact segment.struckDown lawful.2 (booked t) ((down t).spared doomed) (fun v _ => down v) u

/-- `l` begins the next step of the call `f`, on top of `t`. -/
def Begins (E : MacroEngine) (l : Label) (t : TaskId) (f : Frame) : Prop :=
  ∃ skip holds rest, l = .resume t (.ok skip holds) ∧ (E.tasks t).cancelRequested = false ∧
    (E.tasks t).stack = f :: rest ∧ f.pc = .progress

/-- A step that can be begun is one of a call that has not been cancelled, and
that no call of another task in its group has been registered after. -/
def PreemptionSafe (macros : MacroId → Option Macro) (E : MacroEngine) : Prop :=
  ∀ l E' t f, E.next macros l = some E' → Begins E l t f → (f.id, t) ∉ E.struck ∧
    ∀ j n u, Later E (j, n, u) (f.id, f.macroId, t) → u ≠ t → ¬ SameGroup macros n f.macroId

/-- Unless a CancelledError is caught halfway, or a task enters a macro it is
inside, every reached state is safe. -/
theorem preemption_safe (macros : MacroId → Option Macro)
    (reach : Run.Reach (macroMachine macros) (Lawful macros) E) : PreemptionSafe macros E := by
  have sound : ∀ t, Booked macros E t (E.tasks t).stack ∧ StruckDown E t := by
    induction reach with
    | init start =>
      cases start
      exact fun t => ⟨⟨List.nodup_nil, fun f member => absurd member List.not_mem_nil,
        fun i m start => absurd start List.not_mem_nil, fun i struck => absurd struck List.not_mem_nil⟩,
        fun f member => absurd member List.not_mem_nil⟩
    | step previous lawful run ih =>
      have effect := next_effect (stacked previous) run
      exact fun t => ⟨effect.keeps (booked_kept lawful.2) (fun u => (ih u).1) t,
        next_struckDown (stacked previous) (fun u => (ih u).1) (fun u => (ih u).2) lawful run t⟩
  rintro l E' t f _ ⟨skip, holds, rest, rfl, unrequested, at_stack, at_pc⟩
  have free : ¬ Doomed E t := by
    rintro (requested | announcing)
    · rw [unrequested] at requested; cases requested
    · have announced := announcing f (by rw [at_stack]; rfl)
      rw [at_pc] at announced
      cases announced
  have on : f ∈ (E.tasks t).stack := by rw [at_stack]; exact List.mem_cons_self ..
  have unstruck := (sound t).2.spared free f on
  refine ⟨unstruck, fun j n u later apart shared => unstruck ?_⟩
  exact ((sound t).1.frames f on).overtaken (by rw [at_pc]; rfl) j n u later apart shared

/-- Three macros of one group, of one step each. -/
def groupOfThree (m : MacroId) : Option Macro :=
  if m ∈ ["a", "b", "c"] then some { steps := [.leaf false], cancelGroup := some "power" } else none

/-- Two starts of the group: the older run is cancelled in its step. -/
theorem preemption_safe_of_two_starts :
    ∃ E, (macroMachine groupOfThree).run (Lawful groupOfThree) {}
        [.call 0 "a" ∅, .resume 0 (.ok false false), .resume 0 (.ok false false), .call 1 "b" ∅,
          .resume 0 .cancelled, .resume 1 (.ok false false), .resume 1 (.ok false false)] = some E ∧
      E.struck = [(0, 0)] ∧ PreemptionSafe groupOfThree E := by
  have reach : ∃ E, (macroMachine groupOfThree).run (Lawful groupOfThree) {}
      [.call 0 "a" ∅, .resume 0 (.ok false false), .resume 0 (.ok false false), .call 1 "b" ∅,
        .resume 0 .cancelled, .resume 1 (.ok false false), .resume 1 (.ok false false)] = some E ∧
      E.struck = [(0, 0)] := ⟨_, rfl, rfl⟩
  obtain ⟨E, run, struck⟩ := reach
  exact ⟨E, run, struck, preemption_safe groupOfThree (.run (.init rfl) run)⟩

/-- Three starts of one group: the second is cancelled while it waits for the
first to unwind, swallows the CancelledError there, and begins its step. -/
theorem preemption_unsafe :
    ¬ ∀ (macros : MacroId → Option Macro) (E : MacroEngine),
      Run.Reach (macroMachine macros) Run.always E → PreemptionSafe macros E := by
  intro safe
  have reach : ∃ E f, (macroMachine groupOfThree).run Run.always {}
      [.call 0 "a" ∅, .resume 0 (.ok false false), .resume 0 (.ok false false), .call 1 "b" ∅, .call 2 "c" ∅,
        .resume 1 .cancelled, .resume 1 (.ok false false)] = some E ∧
      (E.tasks 1).cancelRequested = false ∧ (E.tasks 1).stack = [f] ∧ f.pc = .progress ∧
      (f.id, 1) ∈ E.struck := ⟨_, _, rfl, rfl, rfl, rfl, by decide⟩
  obtain ⟨E, f, run, unrequested, at_stack, at_pc, struck⟩ := reach
  obtain ⟨E', next⟩ : ∃ E', E.next groupOfThree (.resume 1 (.ok false false)) = some E' := by
    simp [MacroEngine.next, at_stack, unrequested, MacroEngine.proceed, at_pc]
  have begins : Begins E (.resume 1 (.ok false false)) 1 f :=
    ⟨false, false, [], rfl, unrequested, at_stack, at_pc⟩
  exact (safe groupOfThree E (.run (.init rfl) run) _ E' 1 f next begins).1 struck

end OpenAvc.MacroEngine
