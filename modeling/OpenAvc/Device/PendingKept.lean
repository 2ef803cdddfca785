import Mathlib.Tactic.Common
import OpenAvc.Device.PendingSettings

namespace OpenAvc.Device.Pending

variable {κ σ ν : Type*} [DecidableEq κ] {k : κ} {e t : Entry ν}

theorem lookup_setEntry {d : List (κ × Entry ν)} (k' : κ) :
    (setEntry d k e).lookup k' = if k' = k then some e else d.lookup k' := by
  unfold setEntry
  split
  · rename_i present
    have moved := List.lookup_map_items Function.injective_id (fun key v => if key = k then e else v) k' d
    simp only [id] at moved
    rw [moved]
    by_cases same : k' = k
    · obtain ⟨v, found⟩ := List.exists_lookup_of_mem present
      rw [same, found, if_pos rfl]
      simp
    · simp only [if_neg same, Option.map_id']
  · rename_i absent
    rw [List.lookup_append]
    by_cases same : k' = k
    · have missing : d.lookup k' = none := List.lookup_eq_none_of_forall fun u member here =>
        absent (List.mem_map.mpr ⟨u, member, here.trans same⟩)
      rw [missing, if_pos same, same]
      simp
    · rw [if_neg same, List.lookup_cons, beq_eq_false_iff_ne.mpr same]
      simp

theorem keys_setEntry {d : List (κ × Entry ν)} (present : k ∈ d.map Prod.fst) :
    (setEntry d k e).map Prod.fst = d.map Prod.fst := by
  unfold setEntry
  rw [if_pos present, List.map_map]
  rfl

variable [BEq ν] {S : Schema κ σ ν} {s s' : Manager κ σ ν} {p : PassId} {P : Pass κ σ ν} {w : Watch κ σ ν}
  {applied : List κ} {queuedValues : List (κ × Entry ν)}

/-- The walk over the queue is at one of its awaits. -/
def Pass.walking (P : Pass κ σ ν) : Prop :=
  match P.pc with
  | .write .. | .error => True
  | .announce => False

/-- The pass has taken the queued value `t` of `k`, or is sending it. -/
def Pass.Takes (P : Pass κ σ ν) (k : κ) (t : Entry ν) : Prop :=
  (k, t) ∈ P.queuedValues ∨ ∃ sent, P.pc = .write k t sent

/-- A pass or a watcher that took `t` has not settled it yet. -/
def Unsettled (s : Manager κ σ ν) (k : κ) (t : Entry ν) : Prop :=
  (∃ p P, s.passes p = some P ∧ P.Takes k t) ∨ ∃ w, s.watch = some w ∧ (k, t) ∈ w.queuedValues

/-- A pass other than `except` is walking the queue. -/
def Walked (s : Manager κ σ ν) (except : Option PassId) : Prop :=
  ∃ p P, s.passes p = some P ∧ P.walking ∧ some p ≠ except

/-- The steps that the queue does not stand: a key comes or goes while a pass
walks the queue, a value is queued while a live set of its key waits for the
driver, or it equals one that a pass or its watcher has taken and not settled. -/
def Disturbs (S : Schema κ σ ν) (s : Manager κ σ ν) : Manager.Label κ σ ν → Prop
  | .store settings => ∃ validated, S.validated settings = some validated ∧ ∃ u ∈ validated,
      (Walked s none ∧ u.1 ∉ s.keys) ∨ (∃ n live, s.lives n = some live ∧ live.key = u.1) ∨
      ∃ t, Unsettled s u.1 t ∧ (u.2 == t.value) = true
  | .endLive n accepted => accepted = true ∧ ∃ live, s.lives n = some live ∧ live.key ∈ s.keys ∧ Walked s none
  | .stepPass p accepted _ => ∃ P P', s.passes p = some P ∧ P.resumed S accepted = some P' ∧ P'.todo = [] ∧
      s.clearable P'.applied P'.queuedValues ≠ [] ∧ Walked s (some p)
  | .stepWatch expired => ∃ w confirmed unreported, s.watch = some w ∧
      w.turn S s expired = .settles confirmed unreported ∧
      s.clearable (confirmed ++ unreported) w.queuedValues ≠ [] ∧ Walked s none
  | _ => False

/-- Why the queued value `e` of `k` may leave: a pass's write of it was
accepted and it read back as equal, has no read-back, or is not reported by a
device that reports others; or a live set of `k` began after it was queued. -/
def Justified (S : Schema κ σ ν) (s : Manager κ σ ν) (k : κ) (e : Entry ν) : Prop :=
  (e.id ∈ s.accepted ∧ (S.stateKey k = none ∨ e.id ∈ s.readBack ∨ e.id ∈ s.unreported)) ∨
  ∃ since, (k, since) ∈ s.liveSets ∧ e.id < since

/-- A step that lets no queued value go without reason, and makes no pass fail. -/
structure StepKeeps (S : Schema κ σ ν) (s s' : Manager κ σ ν) : Prop where
  kept : ∀ k e, s.entries.lookup k = some e → s'.entries.lookup k = none → Justified S s' k e
  passes : s'.failedConnects = s.failedConnects

/-- The only value equal to the one taken that `k` can hold is that one itself. -/
def OnlyMatch (s : Manager κ σ ν) (k : κ) (t : Entry ν) : Prop :=
  ∀ e, s.entries.lookup k = some e → (e.value == t.value) = true → e.id = t.id

/-- Each value a pass has taken was accepted, and is still told from others. -/
structure PassSound (S : Schema κ σ ν) (s : Manager κ σ ν) (P : Pass κ σ ν) : Prop where
  walking : P.walking → P.generation = s.generation ∧ P.keys = s.keys ∧ P.size = P.keys.length ∧
    ∀ k ∈ P.todo, k ∈ P.keys
  taken : ∀ k t, (k, t) ∈ P.queuedValues → t.id ∈ s.accepted
  matched : ∀ k t, P.Takes k t → OnlyMatch s k t
  applied : ∀ k ∈ P.applied, S.stateKey k = none ∧ ∃ t, P.queuedValues.lookup k = some t
  awaiting : ∀ a ∈ P.awaiting, ∃ t, P.queuedValues.lookup a.1 = some t

/-- The keys a watcher has yet to settle. -/
def Watch.open (w : Watch κ σ ν) : List κ :=
  w.outstanding.map Prod.fst ++ match w.pc with
    | .sleep => []
    | .error _ rest unreported => rest.map Prod.fst ++ unreported

structure WatchSound (s : Manager κ σ ν) (w : Watch κ σ ν) : Prop where
  taken : ∀ k t, (k, t) ∈ w.queuedValues → t.id ∈ s.accepted ∧ OnlyMatch s k t
  outstanding : ∀ k ∈ w.open, ∃ t, w.queuedValues.lookup k = some t
  confirmed : ∀ k ∈ w.confirmed, ∃ t, w.queuedValues.lookup k = some t ∧ t.id ∈ s.readBack

structure Sound (S : Schema κ σ ν) (s : Manager κ σ ν) : Prop where
  numbered : ∀ k e, s.entries.lookup k = some e → e.id < s.nextId
  lives : ∀ n live, s.lives n = some live →
    ∀ e, s.entries.lookup live.key = some e → e.id < live.since
  passes : ∀ p P, s.passes p = some P → PassSound S s P
  watch : ∀ w, s.watch = some w → WatchSound s w

/-- Nothing queued since, no number given, and every record kept. -/
structure Later (s s' : Manager κ σ ν) : Prop where
  entries : ∀ k e, s'.entries.lookup k = some e → s.entries.lookup k = some e
  nextId : s'.nextId = s.nextId
  accepted : ∀ i ∈ s.accepted, i ∈ s'.accepted
  readBack : ∀ i ∈ s.readBack, i ∈ s'.readBack

theorem OnlyMatch.later (later : Later s s') (only : OnlyMatch s k t) : OnlyMatch s' k t :=
  fun e found => only e (later.entries k e found)

theorem PassSound.later (later : Later s s') (sound : PassSound S s P)
    (still : P.walking → s'.generation = s.generation ∧ s'.keys = s.keys) : PassSound S s' P where
  walking on := by
    obtain ⟨generation, keys⟩ := still on
    rw [generation, keys]
    exact sound.walking on
  taken k t took := later.accepted _ (sound.taken k t took)
  matched k t takes := (sound.matched k t takes).later later
  applied := sound.applied
  awaiting := sound.awaiting

theorem WatchSound.later (later : Later s s') (sound : WatchSound s w) : WatchSound s' w where
  taken k t took := ⟨later.accepted _ (sound.taken k t took).1, (sound.taken k t took).2.later later⟩
  outstanding := sound.outstanding
  confirmed k member := by
    obtain ⟨t, found, read⟩ := sound.confirmed k member
    exact ⟨t, found, later.readBack _ read⟩

/-- A step that queues nothing keeps the state sound, if what it changed of the
passes, the watcher and the live sets is sound and no walk lost its keys. -/
theorem Sound.later (sound : Sound S s) (later : Later s s')
    (lives : ∀ n live, s'.lives n = some live → s.lives n = some live ∨ live.since = s'.nextId)
    (passes : ∀ p P, s'.passes p = some P → PassSound S s' P ∨
      (s.passes p = some P ∧ (P.walking → s'.generation = s.generation ∧ s'.keys = s.keys)))
    (watch : ∀ w, s'.watch = some w → s.watch = some w ∨ WatchSound s' w) : Sound S s' where
  numbered k e found := later.nextId ▸ sound.numbered k e (later.entries k e found)
  lives n live running e found := by
    have before := later.entries _ e found
    rcases lives n live running with old | new
    · exact sound.lives n live old e before
    · rw [new, later.nextId]
      exact sound.numbered _ e before
  passes p P running := by
    rcases passes p P running with new | ⟨old, still⟩
    · exact new
    · exact (sound.passes p P old).later later still
  watch w running := by
    rcases watch w running with old | new
    · exact (sound.watch w old).later later
    · exact new

theorem keys_clear_nil (none : s.clearable applied queuedValues = []) :
    s.clearAppliedPending applied queuedValues = s := by
  simp only [Manager.clearAppliedPending, none, if_true]

theorem clear_eq : s.clearAppliedPending applied queuedValues =
    { s with
      queue := (s.clearAppliedPending applied queuedValues).queue
      generation := (s.clearAppliedPending applied queuedValues).generation } := by
  unfold Manager.clearAppliedPending
  simp only
  split
  · rfl
  · split <;> rfl

theorem lookup_clear (k : κ) : (s.clearAppliedPending applied queuedValues).entries.lookup k =
    if k ∈ s.clearable applied queuedValues then none else s.entries.lookup k := by
  have left := List.lookup_filter_keys (fun k => decide (k ∉ s.clearable applied queuedValues)) k s.entries
  unfold Manager.clearAppliedPending
  simp only
  split
  · rename_i none
    rw [none, if_neg List.not_mem_nil]
  · split
    · rename_i empty
      rw [empty] at left
      by_cases cleared : k ∈ s.clearable applied queuedValues
      · rw [if_pos cleared]; rfl
      · have kept : none = s.entries.lookup k := by simpa [cleared] using left
        rw [if_neg cleared]
        exact kept
    · by_cases cleared : k ∈ s.clearable applied queuedValues
      · rw [if_pos cleared]
        simpa [cleared, Manager.entries] using left
      · rw [if_neg cleared]
        simpa [cleared, Manager.entries] using left

theorem mem_clearable : k ∈ s.clearable applied queuedValues ↔ k ∈ applied ∧
    ∃ e, s.entries.lookup k = some e ∧ (e.value == ((queuedValues.lookup k).getD e).value) = true := by
  simp only [Manager.clearable, List.mem_filter, and_congr_right_iff]
  intro _
  cases found : s.entries.lookup k with
  | none => simp
  | some e => simp

theorem Later.clear : Later s (s.clearAppliedPending applied queuedValues) := by
  refine ⟨fun k e found => ?_, ?_, ?_, ?_⟩
  · rw [lookup_clear] at found
    split at found
    · cases found
    · exact found
  · rw [clear_eq]
  · rw [clear_eq]; exact fun _ member => member
  · rw [clear_eq]; exact fun _ member => member

/-- What leaves in a clear was clearable. -/
theorem gone_clear (found : s.entries.lookup k = some e)
    (gone : (s.clearAppliedPending applied queuedValues).entries.lookup k = none) :
    k ∈ applied ∧ (e.value == ((queuedValues.lookup k).getD e).value) = true := by
  rw [lookup_clear] at gone
  split at gone
  · rename_i cleared
    obtain ⟨member, e', found', same⟩ := mem_clearable.mp cleared
    rw [found] at found'
    cases found'
    exact ⟨member, same⟩
  · rw [found] at gone; cases gone

theorem clearable_congr (same : s'.entries = s.entries) :
    s'.clearable applied queuedValues = s.clearable applied queuedValues := by
  simp only [Manager.clearable, same]

/-- A clear leaves the state sound, unless it takes a key from under a walk. -/
theorem Sound.clear (sound : Sound S s) (alone : s.clearable applied queuedValues ≠ [] → ¬ Walked s none) :
    Sound S (s.clearAppliedPending applied queuedValues) := by
  refine sound.later Later.clear (fun n live running => Or.inl ?_) (fun p P running => Or.inr ?_)
    (fun w running => Or.inl ?_)
  · rw [clear_eq] at running; exact running
  · have before : s.passes p = some P := by rw [clear_eq] at running; exact running
    refine ⟨before, fun walking => ?_⟩
    by_cases clears : s.clearable applied queuedValues = []
    · rw [keys_clear_nil clears]
      exact ⟨rfl, rfl⟩
    · exact absurd ⟨p, P, before, walking, nofun⟩ (alone clears)
  · rw [clear_eq] at running; exact running

omit [DecidableEq κ] [BEq ν] in
theorem finishPass_eq : s.finishPass p P =
    { s with passes := Function.update s.passes p none, watch := (s.finishPass p P).watch } := by
  unfold Manager.finishPass
  simp only
  split <;> rfl

omit [DecidableEq κ] [BEq ν] in
theorem finishPass_watch (running : (s.finishPass p P).watch = some w) : s.watch = some w ∨
    w = { outstanding := P.awaiting, queuedValues := P.queuedValues } := by
  unfold Manager.finishPass at running
  simp only at running
  split at running
  · exact Or.inl running
  · exact Or.inr (Option.some.inj running).symm

theorem PassSound.announce (own : PassSound S s P) : PassSound S s { P with pc := .announce } where
  walking on := on.elim
  taken := own.taken
  matched k t takes := by
    rcases takes with took | ⟨sent, writing⟩
    · exact own.matched k t (Or.inl took)
    · cases writing
  applied := own.applied
  awaiting := own.awaiting

/-- What a pass hands to its watcher is sound there. -/
theorem Sound.finishPass (sound : Sound S s) (own : PassSound S s { P with pc := .announce }) :
    Sound S (s.finishPass p P) ∧ StepKeeps S s (s.finishPass p P) := by
  have entries : (s.finishPass p P).entries = s.entries := by rw [finishPass_eq]; rfl
  have later : Later s (s.finishPass p P) := by
    rw [finishPass_eq]
    exact ⟨fun _ _ found => found, rfl, fun _ member => member, fun _ member => member⟩
  refine ⟨sound.later later (fun n live running => Or.inl ?_) (fun p' Q running => Or.inr ?_) fun w running => ?_,
    ⟨fun k e found gone => ?_, by rw [finishPass_eq]⟩⟩
  · rw [finishPass_eq] at running; exact running
  · rw [finishPass_eq] at running ⊢
    by_cases same : p' = p
    · subst same; simp at running
    · simp only [Function.update_of_ne same] at running
      exact ⟨running, fun _ => ⟨rfl, rfl⟩⟩
  · rcases finishPass_watch running with before | made
    · exact Or.inl before
    · subst made
      refine Or.inr (WatchSound.later later ⟨fun k t took => ⟨own.taken k t took, own.matched k t (Or.inl took)⟩,
        fun k member => ?_, fun k member => absurd member List.not_mem_nil⟩)
      simp only [Watch.open, List.append_nil] at member
      obtain ⟨a, awaited, rfl⟩ := List.mem_map.mp member
      exact own.awaiting a awaited
  · rw [entries, found] at gone; cases gone

/-- A pass leaves the walk: what it settles is justified, and no other walk
loses a key. -/
theorem Sound.endWalk (sound : Sound S s) (own : PassSound S s { P with pc := .error })
    (alone : s.clearable P.applied P.queuedValues ≠ [] → ¬ Walked s (some p)) :
    Sound S (s.endWalk p P) ∧ StepKeeps S s (s.endWalk p P) := by
  unfold Manager.endWalk
  split
  · exact sound.finishPass own.announce
  · rename_i clears
    have cleared : Later s (s.clearAppliedPending P.applied P.queuedValues) := .clear
    have later : Later s ((s.clearAppliedPending P.applied P.queuedValues).setPass p
        (some { P with pc := .announce })) := ⟨cleared.entries, cleared.nextId, cleared.accepted, cleared.readBack⟩
    refine ⟨sound.later later (fun n live running => Or.inl ?_) (fun p' Q running => ?_)
      (fun w running => Or.inl ?_), ⟨fun k e found gone => ?_, ?_⟩⟩
    · rw [clear_eq] at running; exact running
    · by_cases same : p' = p
      · subst same
        simp only [Manager.setPass, Function.update_self, Option.some.injEq] at running
        subst running
        refine Or.inl ⟨fun walking => walking.elim, fun k t took => later.accepted _ (own.taken k t took),
          fun k t takes => ?_, own.applied, own.awaiting⟩
        rcases takes with took | ⟨sent, writing⟩
        · exact (own.matched k t (Or.inl took)).later later
        · cases writing
      · rw [clear_eq] at running
        simp only [Manager.setPass, Function.update_of_ne same] at running
        refine Or.inr ⟨running, fun walking => absurd ⟨p', Q, running, walking, ?_⟩ (alone clears)⟩
        simpa using same
    · rw [clear_eq] at running; exact running
    · obtain ⟨member, equal⟩ := gone_clear found gone
      obtain ⟨unread, t, taken⟩ := own.applied k member
      rw [taken] at equal
      have took := List.mem_of_lookup_eq_some taken
      have same : e.id = t.id := own.matched k t (Or.inl took) e found equal
      refine Or.inl ⟨?_, Or.inl unread⟩
      rw [same]
      exact later.accepted _ (own.taken k t took)
    · rw [clear_eq]; rfl

/-- The pass is put at an await that its walk goes on from. -/
theorem Sound.setPass (sound : Sound S s) (own : PassSound S s P) :
    Sound S (s.setPass p (some P)) ∧ StepKeeps S s (s.setPass p (some P)) := by
  have later : Later s (s.setPass p (some P)) :=
    ⟨fun _ _ found => found, rfl, fun _ member => member, fun _ member => member⟩
  refine ⟨sound.later later (fun n live running => Or.inl running) (fun p' Q running => ?_)
    (fun w running => Or.inl running), ⟨fun k e found gone => ?_, rfl⟩⟩
  · by_cases same : p' = p
    · subst same
      simp only [Manager.setPass, Function.update_self, Option.some.injEq] at running
      subst running
      exact Or.inl (own.later later fun _ => ⟨rfl, rfl⟩)
    · simp only [Manager.setPass, Function.update_of_ne same] at running
      exact Or.inr ⟨running, fun _ => ⟨rfl, rfl⟩⟩
  · exact absurd (found.symm.trans gone) (by simp)

/-- A walk that has kept its keys goes on to the next one, or ends. -/
theorem Sound.walk (surprise : Surprise κ) (sound : Sound S s) (own : PassSound S s { P with pc := .error })
    (alone : P.todo = [] → s.clearable P.applied P.queuedValues ≠ [] → ¬ Walked s (some p)) :
    Sound S (s.walk S p P surprise) ∧ StepKeeps S s (s.walk S p P surprise) := by
  obtain ⟨generation, keys, size, todo⟩ := own.walking trivial
  have pending : s.pendingOf P = s.entries := if_pos generation
  have whole : (s.pendingOf P).length = P.size := by
    rw [pending, size, keys, Manager.keys, List.length_map]
  have same : (s.pendingOf P).map Prod.fst = P.keys := by rw [pending, keys, Manager.keys]
  simp only [Manager.walk, ne_eq, whole, not_true_eq_false, if_false, same, if_true]
  cases at_todo : P.todo with
  | nil => exact sound.endWalk own (alone at_todo)
  | cons k rest =>
    have present : k ∈ s.entries.map Prod.fst := by
      have member := todo k (by rw [at_todo]; exact List.mem_cons_self)
      rwa [keys] at member
    obtain ⟨e, found⟩ := List.exists_lookup_of_mem present
    have pending' : s.pendingOf { P with todo := rest } = s.entries := pending
    simp only [Manager.beginWrite, pending', found]
    have onward : ∀ k' ∈ rest, k' ∈ P.keys := fun k' member =>
      todo k' (by rw [at_todo]; exact List.mem_cons_of_mem k member)
    cases valid : S.validate k e.value with
    | none =>
      refine sound.setPass ⟨fun _ => ⟨generation, keys, size, onward⟩, own.taken, fun k t takes => ?_,
        own.applied, own.awaiting⟩
      rcases takes with took | ⟨sent, writing⟩
      · exact own.matched k t (Or.inl took)
      · cases writing
    | some sent =>
      refine sound.setPass ⟨fun _ => ⟨generation, keys, size, onward⟩, own.taken, fun k t takes => ?_,
        own.applied, own.awaiting⟩
      rcases takes with took | ⟨sent, writing⟩
      · exact own.matched k t (Or.inl took)
      · cases writing
        intro e' found' _
        rw [found] at found'
        rw [Option.some.inj found']

omit [BEq ν] in
theorem entries_storeEntry (u : κ × ν) :
    (s.storeEntry u).entries = setEntry s.entries u.1 ⟨s.nextId, u.2⟩ := rfl

/-- A value is queued that no live set, pass or watcher is to be confused by. -/
theorem Sound.storeEntry {u : κ × ν} (sound : Sound S s) (queued : Walked s none → u.1 ∈ s.keys)
    (free : ∀ n live, s.lives n = some live → live.key ≠ u.1)
    (apart : ∀ t, Unsettled s u.1 t → ¬ (u.2 == t.value) = true) : Sound S (s.storeEntry u) := by
  have only (k : κ) (t : Entry ν) (unsettled : Unsettled s k t) (exact_one : OnlyMatch s k t) :
      OnlyMatch (s.storeEntry u) k t := by
    intro e found equal
    rw [entries_storeEntry, lookup_setEntry] at found
    split at found
    · rename_i same
      subst same
      cases found
      exact absurd equal (apart t unsettled)
    · exact exact_one e found equal
  refine ⟨fun k e found => ?_, fun n live running e found => ?_, fun p P running => ?_, fun w running => ?_⟩
  · rw [entries_storeEntry, lookup_setEntry] at found
    split at found
    · cases found; exact Nat.lt_succ_self _
    · exact Nat.lt_succ_of_lt (sound.numbered k e found)
  · rw [entries_storeEntry, lookup_setEntry, if_neg (free n live running)] at found
    exact sound.lives n live running e found
  · have own := sound.passes p P running
    refine ⟨fun walking => ?_, own.taken, fun k t takes => ?_, own.applied, own.awaiting⟩
    · have kept : (s.storeEntry u).keys = s.keys :=
        keys_setEntry (queued ⟨p, P, running, walking, nofun⟩)
      rw [kept]
      exact own.walking walking
    · exact only k t (Or.inl ⟨p, P, running, takes⟩) (own.matched k t takes)
  · have own := sound.watch w running
    refine ⟨fun k t took => ⟨(own.taken k t took).1, ?_⟩, own.outstanding, own.confirmed⟩
    exact only k t (Or.inr ⟨w, running, took⟩) (own.taken k t took).2

theorem Sound.storeAll {us : List (κ × ν)} (sound : Sound S s)
    (queued : ∀ u ∈ us, Walked s none → u.1 ∈ s.keys)
    (free : ∀ u ∈ us, ∀ n live, s.lives n = some live → live.key ≠ u.1)
    (apart : ∀ u ∈ us, ∀ t, Unsettled s u.1 t → ¬ (u.2 == t.value) = true) :
    Sound S (us.foldl Manager.storeEntry s) := by
  induction us generalizing s with
  | nil => exact sound
  | cons u us ih =>
    have first := sound.storeEntry (queued u List.mem_cons_self) (free u List.mem_cons_self)
      (apart u List.mem_cons_self)
    refine ih first (fun v member walked => ?_) (fun v member => free v (List.mem_cons_of_mem u member))
      (fun v member => apart v (List.mem_cons_of_mem u member))
    have kept : (s.storeEntry u).keys = s.keys := keys_setEntry (queued u List.mem_cons_self walked)
    rw [kept]
    exact queued v (List.mem_cons_of_mem u member) walked

omit [BEq ν] in
theorem storeAll_keeps {us : List (κ × ν)} (found : s.entries.lookup k = some e) :
    (us.foldl Manager.storeEntry s).entries.lookup k ≠ none := by
  induction us generalizing s e with
  | nil => rw [List.foldl_nil, found]; simp
  | cons u us ih =>
    have still : ∃ e', (s.storeEntry u).entries.lookup k = some e' := by
      rw [entries_storeEntry, lookup_setEntry]
      split
      · exact ⟨_, rfl⟩
      · exact ⟨e, found⟩
    obtain ⟨e', found'⟩ := still
    exact ih found'

omit [BEq ν] in
theorem failedConnects_storeAll {us : List (κ × ν)} :
    (us.foldl Manager.storeEntry s).failedConnects = s.failedConnects := by
  induction us generalizing s with
  | nil => rfl
  | cons u us ih => exact ih

theorem Sound.store {settings : List (κ × ν)} (sound : Sound S s) (lawful : ¬ Disturbs S s (.store settings)) :
    Sound S (s.storePendingSettings S settings) ∧ StepKeeps S s (s.storePendingSettings S settings) := by
  unfold Manager.storePendingSettings
  cases valid : S.validated settings with
  | none => exact ⟨sound, ⟨fun k e found gone => absurd (found.symm.trans gone) (by simp), rfl⟩⟩
  | some us =>
    have quiet : ∀ u ∈ us, ¬ ((Walked s none ∧ u.1 ∉ s.keys) ∨ (∃ n live, s.lives n = some live ∧ live.key = u.1) ∨
        ∃ t, Unsettled s u.1 t ∧ (u.2 == t.value) = true) :=
      fun u member disturbs => lawful ⟨us, valid, u, member, disturbs⟩
    have start : Sound S { s with queue := some s.entries } :=
      sound.later ⟨fun _ _ found => found, rfl, fun _ member => member, fun _ member => member⟩
        (fun _ _ running => Or.inl running) (fun _ _ running => Or.inr ⟨running, fun _ => ⟨rfl, rfl⟩⟩)
        fun _ running => Or.inl running
    refine ⟨start.storeAll (fun u member walked => ?_) (fun u member n live running same => ?_)
      (fun u member t unsettled equal => ?_), ⟨fun k e found gone => absurd gone (storeAll_keeps found), ?_⟩⟩
    · by_contra absent
      exact quiet u member (Or.inl ⟨walked, absent⟩)
    · exact quiet u member (Or.inr (Or.inl ⟨n, live, running, same⟩))
    · exact quiet u member (Or.inr (Or.inr ⟨t, unsettled, equal⟩))
    · exact failedConnects_storeAll

theorem Sound.endLive {n : LiveId} {accepted : Bool} (sound : Sound S s)
    (lawful : ¬ Disturbs S s (.endLive n accepted)) (run : s.endLive n accepted = some s') :
    Sound S s' ∧ StepKeeps S s s' := by
  obtain ⟨live, running, result⟩ := Option.map_eq_some_iff.mp run
  have others (n' : LiveId) (live' : Live κ) (still : Function.update s.lives n none n' = some live') :
      s.lives n' = some live' := by
    by_cases same : n' = n
    · subst same; simp at still
    · rwa [Function.update_of_ne same] at still
  cases accepted with
  | false =>
    subst result
    exact ⟨sound.later ⟨fun _ _ found => found, rfl, fun _ member => member, fun _ member => member⟩
      (fun n' live' still => Or.inl (others n' live' still))
      (fun _ _ running => Or.inr ⟨running, fun _ => ⟨rfl, rfl⟩⟩) fun _ running => Or.inl running,
      ⟨fun k e found gone => absurd (found.symm.trans gone) (by simp), rfl⟩⟩
  | true =>
    simp only [if_true] at result
    subst result
    have ended : Sound S { s with
        lives := Function.update s.lives n none, liveSets := (live.key, live.since) :: s.liveSets } :=
      sound.later ⟨fun _ _ found => found, rfl, fun _ member => member, fun _ member => member⟩
        (fun n' live' still => Or.inl (others n' live' still))
        (fun _ _ running => Or.inr ⟨running, fun _ => ⟨rfl, rfl⟩⟩) fun _ running => Or.inl running
    refine ⟨ended.clear fun clears walked => ?_, ⟨fun k e found gone => ?_, by rw [clear_eq]⟩⟩
    · obtain ⟨k, cleared⟩ := List.exists_mem_of_ne_nil _ clears
      obtain ⟨own, e, found, _⟩ := mem_clearable.mp cleared
      cases List.mem_singleton.mp own
      exact lawful ⟨rfl, live, running, List.mem_keys_of_lookup found, walked⟩
    · obtain ⟨own, _⟩ := gone_clear (s := { s with
        lives := Function.update s.lives n none, liveSets := (live.key, live.since) :: s.liveSets }) found gone
      cases List.mem_singleton.mp own
      refine Or.inr ⟨live.since, ?_, sound.lives n live running e found⟩
      rw [clear_eq]
      exact List.mem_cons_self

theorem PassSound.new : PassSound S s
    { generation := s.generation, size := s.entries.length, keys := s.keys, todo := s.keys } where
  walking _ := ⟨rfl, rfl, (List.length_map _).symm, fun _ member => member⟩
  taken k t took := absurd took List.not_mem_nil
  matched k t takes := by
    rcases takes with took | ⟨_, writing⟩
    · exact absurd took List.not_mem_nil
    · cases writing
  applied k member := absurd member List.not_mem_nil
  awaiting a member := absurd member List.not_mem_nil

theorem Sound.beginPass (sound : Sound S s) : Sound S (s.beginPass S) ∧ StepKeeps S s (s.beginPass S) := by
  unfold Manager.beginPass
  split
  · exact ⟨sound, ⟨fun k e found gone => absurd (found.symm.trans gone) (by simp), rfl⟩⟩
  · have start : Sound S { s with nextPass := s.nextPass + 1 } :=
      sound.later ⟨fun _ _ found => found, rfl, fun _ member => member, fun _ member => member⟩
        (fun _ _ running => Or.inl running) (fun _ _ running => Or.inr ⟨running, fun _ => ⟨rfl, rfl⟩⟩)
        fun _ running => Or.inl running
    let P : Pass κ σ ν :=
      { generation := s.generation, size := s.entries.length, keys := s.keys, todo := s.keys }
    have own : PassSound S { s with nextPass := s.nextPass + 1 } P :=
      PassSound.new (s := { s with nextPass := s.nextPass + 1 })
    have walk := start.walk (p := s.nextPass) (P := P) .stops own fun _ clears => (clears rfl).elim
    exact ⟨walk.1, ⟨walk.2.kept, walk.2.passes⟩⟩

/-- The write that the pass was at has been accepted. -/
theorem PassSound.took {sent : ν} (own : PassSound S s P) (writing : P.pc = .write k e sent) :
    PassSound S { s with accepted := e.id :: s.accepted } { P.took S k e sent with pc := .error } := by
  have walking : P.walking := by simp [Pass.walking, writing]
  have taken (k' : κ) (t : Entry ν) (took : (k', t) ∈ (k, e) :: P.queuedValues) :
      t.id ∈ e.id :: s.accepted ∧ OnlyMatch s k' t := by
    rcases List.mem_cons.mp took with same | before
    · cases same
      exact ⟨List.mem_cons_self, own.matched k e (Or.inr ⟨sent, writing⟩)⟩
    · exact ⟨List.mem_cons_of_mem _ (own.taken k' t before), own.matched k' t (Or.inl before)⟩
  have known (k' : κ) (before : ∃ t, P.queuedValues.lookup k' = some t) :
      ∃ t, ((k, e) :: P.queuedValues).lookup k' = some t := by
    rw [List.lookup_cons]
    split
    · exact ⟨e, rfl⟩
    · exact before
  unfold Pass.took
  cases at_key : S.stateKey k with
  | some stateKey =>
    refine ⟨fun _ => own.walking walking, fun k' t took => (taken k' t took).1, fun k' t takes => ?_,
      fun k' member => ⟨(own.applied k' member).1, known k' (own.applied k' member).2⟩, fun a member => ?_⟩
    · rcases takes with took | ⟨_, again⟩
      · exact (taken k' t took).2
      · cases again
    · rcases List.mem_append.mp member with before | new
      · exact known a.1 (own.awaiting a (List.mem_filter.mp before).1)
      · cases List.mem_singleton.mp new
        exact ⟨e, by simp⟩
  | none =>
    refine ⟨fun _ => own.walking walking, fun k' t took => (taken k' t took).1, fun k' t takes => ?_,
      fun k' member => ?_, fun a member => known a.1 (own.awaiting a member)⟩
    · rcases takes with took | ⟨_, again⟩
      · exact (taken k' t took).2
      · cases again
    · rcases List.mem_append.mp member with before | new
      · exact ⟨(own.applied k' before).1, known k' (own.applied k' before).2⟩
      · cases List.mem_singleton.mp new
        exact ⟨at_key, e, by simp⟩

theorem Sound.stepPass {accepted : Bool} {surprise : Surprise κ} (sound : Sound S s)
    (lawful : ¬ Disturbs S s (.stepPass p accepted surprise)) (run : s.stepPass S p accepted surprise = some s') :
    Sound S s' ∧ StepKeeps S s s' := by
  obtain ⟨P, running, result⟩ := Option.map_eq_some_iff.mp run
  have own := sound.passes p P running
  have alone (P' : Pass κ σ ν) (resumed : P.resumed S accepted = some P') (done : P'.todo = [])
      (clears : s.clearable P'.applied P'.queuedValues ≠ []) : ¬ Walked s (some p) :=
    fun walked => lawful ⟨P, P', running, resumed, done, clears, walked⟩
  cases at_pc : P.pc with
  | announce =>
    simp only [at_pc] at result
    subst result
    exact sound.finishPass own.announce
  | error =>
    simp only [at_pc] at result
    subst result
    have here : { P with pc := .error } = P := by rw [← at_pc]
    exact sound.walk surprise (here ▸ own) (alone P (by rw [Pass.resumed, at_pc]))
  | write k e sent =>
    simp only [at_pc] at result
    cases accepted with
    | false =>
      simp only [Bool.false_eq_true, if_false] at result
      subst result
      refine sound.setPass ⟨fun _ => own.walking (by simp [Pass.walking, at_pc]), own.taken, fun k' t takes => ?_,
        own.applied, own.awaiting⟩
      rcases takes with took | ⟨_, writing⟩
      · exact own.matched k' t (Or.inl took)
      · cases writing
    | true =>
      simp only [if_true] at result
      subst result
      have start : Sound S { s with accepted := e.id :: s.accepted } :=
        sound.later ⟨fun _ _ found => found, rfl, fun _ member => List.mem_cons_of_mem _ member,
          fun _ member => member⟩ (fun _ _ running => Or.inl running)
          (fun _ _ running => Or.inr ⟨running, fun _ => ⟨rfl, rfl⟩⟩) fun _ running => Or.inl running
      have walk := start.walk (p := p) surprise (own.took at_pc)
        (alone (P.took S k e sent) (by rw [Pass.resumed, at_pc]; rfl))
      exact ⟨walk.1, ⟨walk.2.kept, walk.2.passes⟩⟩

/-- A turn leaves a sound watcher, or settles keys that it has cause to settle. -/
def TurnSound (s : Manager κ σ ν) (queuedValues : List (κ × Entry ν)) : WatchTurn κ σ ν → Prop
  | .waits w => WatchSound s w
  | .settles confirmed unreported =>
    (∀ k ∈ confirmed, ∃ t, queuedValues.lookup k = some t ∧ t.id ∈ s.readBack) ∧
    ∀ k ∈ unreported, ∃ t, queuedValues.lookup k = some t

theorem WatchSound.report {reporting : Bool} {rest : List (Awaiting κ σ ν)} {unreported : List κ}
    (own : WatchSound s' { w with pc := .sleep }) (rests : ∀ a ∈ rest, ∃ t, w.queuedValues.lookup a.1 = some t)
    (unreports : ∀ k ∈ unreported, ∃ t, w.queuedValues.lookup k = some t) :
    TurnSound s' w.queuedValues (w.report s reporting rest unreported) := by
  induction rest generalizing unreported with
  | nil => exact ⟨own.confirmed, unreports⟩
  | cons a rest ih =>
    have onward : ∀ b ∈ rest, ∃ t, w.queuedValues.lookup b.1 = some t :=
      fun b member => rests b (List.mem_cons_of_mem a member)
    simp only [Watch.report]
    split
    · refine ih onward fun k member => ?_
      rcases List.mem_append.mp member with before | new
      · exact unreports k before
      · cases List.mem_singleton.mp new
        exact rests a List.mem_cons_self
    · refine ⟨own.taken, fun k member => ?_, own.confirmed⟩
      simp only [Watch.open, List.mem_append] at member
      rcases member with before | awaited | settled
      · exact own.outstanding k (List.mem_append_left _ before)
      · obtain ⟨b, awaiting, rfl⟩ := List.mem_map.mp awaited
        exact onward b awaiting
      · exact unreports k settled

omit [BEq ν] in
theorem mem_idsOf {keys : List κ} (member : k ∈ keys) (found : w.queuedValues.lookup k = some t) :
    t.id ∈ w.idsOf keys :=
  List.mem_filterMap.mpr ⟨k, member, by rw [found]; rfl⟩

theorem withReadBack_eq : s.withReadBack S w = { s with readBack := (s.withReadBack S w).readBack } := by
  unfold Manager.withReadBack
  split <;> rfl

theorem Later.withReadBack : Later s (s.withReadBack S w) := by
  unfold Manager.withReadBack
  split
  · exact ⟨fun _ _ found => found, rfl, fun _ member => member, fun _ member => List.mem_append_right _ member⟩
  · exact ⟨fun _ _ found => found, rfl, fun _ member => member, fun _ member => member⟩

theorem WatchSound.asleep (own : WatchSound s w) : WatchSound s { w with pc := .sleep } where
  taken := own.taken
  outstanding k member := own.outstanding k (by
    simp only [Watch.open, List.append_nil] at member
    exact List.mem_append_left _ member)
  confirmed := own.confirmed

theorem WatchSound.known (own : WatchSound s w) :
    ∀ a ∈ w.outstanding, ∃ t, w.queuedValues.lookup a.1 = some t :=
  fun a member => own.outstanding a.1 (List.mem_append_left _ (List.mem_map.mpr ⟨a, member, rfl⟩))

theorem WatchSound.check (own : WatchSound s w) (asleep : w.pc = .sleep) :
    WatchSound (s.withReadBack S w) (w.check S s) := by
  refine ⟨(own.later Later.withReadBack).taken, fun k member => ?_, fun k member => ?_⟩
  · simp only [Watch.open, Watch.check, asleep, List.append_nil] at member
    obtain ⟨a, awaiting, rfl⟩ := List.mem_map.mp member
    exact own.known a (List.mem_filter.mp awaiting).1
  · rcases List.mem_append.mp member with before | new
    · obtain ⟨t, found, read⟩ := own.confirmed k before
      exact ⟨t, found, Later.withReadBack.readBack _ read⟩
    · obtain ⟨a, awaiting, rfl⟩ := List.mem_map.mp new
      obtain ⟨t, found⟩ := own.known a (List.mem_filter.mp awaiting).1
      refine ⟨t, found, ?_⟩
      simp only [Manager.withReadBack, asleep]
      exact List.mem_append_left _ (mem_idsOf new found)

theorem WatchSound.turn {expired : Bool} (own : WatchSound s w) :
    TurnSound (s.withReadBack S w) w.queuedValues (w.turn S s expired) := by
  cases at_pc : w.pc with
  | error reporting rest unreported =>
    have known : ∀ k ∈ rest.map Prod.fst ++ unreported, ∃ t, w.queuedValues.lookup k = some t :=
      fun k member => own.outstanding k (by
        simp only [Watch.open, at_pc, List.mem_append] at member ⊢
        exact Or.inr member)
    simp only [Watch.turn, at_pc]
    exact WatchSound.report (WatchSound.later Later.withReadBack own).asleep
      (fun a member => known a.1 (List.mem_append_left _ (List.mem_map.mpr ⟨a, member, rfl⟩)))
      fun k member => known k (List.mem_append_right _ member)
  | sleep =>
    have checked : WatchSound (s.withReadBack S w) (w.check S s) := own.check at_pc
    simp only [Watch.turn, at_pc]
    split
    · exact WatchSound.report checked.asleep checked.known fun k member => absurd member List.not_mem_nil
    · split
      · exact WatchSound.report checked.asleep (fun a member => absurd member List.not_mem_nil)
          fun k member => absurd member List.not_mem_nil
      · exact checked

theorem Sound.stepWatch {expired : Bool} (sound : Sound S s) (lawful : ¬ Disturbs S s (.stepWatch expired))
    (run : s.stepWatch S expired = some s') : Sound S s' ∧ StepKeeps S s s' := by
  obtain ⟨w, running, result⟩ := Option.map_eq_some_iff.mp run
  have own := sound.watch w running
  have turn : TurnSound (s.withReadBack S w) w.queuedValues (w.turn S s expired) := own.turn
  have before : Later s (s.withReadBack S w) := .withReadBack
  cases outcome : w.turn S s expired with
  | waits w' =>
    rw [outcome] at turn result
    simp only at result
    subst result
    rw [withReadBack_eq] at before turn ⊢
    refine ⟨sound.later ⟨before.entries, rfl, before.accepted, before.readBack⟩
      (fun _ _ running => Or.inl running) (fun _ _ running => Or.inr ⟨running, fun _ => ⟨rfl, rfl⟩⟩)
      fun w'' watching => Or.inr ?_, ⟨fun k e found gone => absurd (found.symm.trans gone) (by simp), rfl⟩⟩
    cases watching
    exact ⟨turn.taken, turn.outstanding, turn.confirmed⟩
  | settles confirmed unreported =>
    rw [outcome] at turn result
    simp only at result
    subst result
    obtain ⟨confirms, unreports⟩ := turn
    have entries : ({ s.withReadBack S w with
        watch := none, unreported := w.idsOf unreported ++ s.unreported } : Manager κ σ ν).entries = s.entries := by
      rw [withReadBack_eq]
      rfl
    have ended : Sound S { s.withReadBack S w with
        watch := none, unreported := w.idsOf unreported ++ s.unreported } := by
      rw [withReadBack_eq] at before ⊢
      exact sound.later ⟨before.entries, rfl, before.accepted, before.readBack⟩ (fun _ _ running => Or.inl running)
        (fun _ _ running => Or.inr ⟨running, fun _ => ⟨rfl, rfl⟩⟩) nofun
    refine ⟨ended.clear fun clears walked => ?_, ⟨fun k e found gone => ?_, ?_⟩⟩
    · rw [clearable_congr entries] at clears
      refine lawful ⟨w, confirmed, unreported, running, outcome, clears, ?_⟩
      rw [withReadBack_eq] at walked
      exact walked
    · have found' := found
      rw [← entries] at found'
      obtain ⟨member, equal⟩ := gone_clear found' gone
      have settle (t : Entry ν) (taken : w.queuedValues.lookup k = some t) :
          e.id = t.id ∧ t.id ∈ (s.withReadBack S w).accepted := by
        rw [taken] at equal
        obtain ⟨accepted, only⟩ := own.taken k t (List.mem_of_lookup_eq_some taken)
        exact ⟨only e found equal, before.accepted _ accepted⟩
      rw [clear_eq]
      rcases List.mem_append.mp member with byValue | bySilence
      · obtain ⟨t, taken, read⟩ := confirms k byValue
        obtain ⟨same, accepted⟩ := settle t taken
        exact Or.inl ⟨same ▸ accepted, Or.inr (Or.inl (same ▸ read))⟩
      · obtain ⟨t, taken⟩ := unreports k bySilence
        obtain ⟨same, accepted⟩ := settle t taken
        refine Or.inl ⟨same ▸ accepted, Or.inr (Or.inr ?_)⟩
        rw [same]
        exact List.mem_append_left _ (mem_idsOf bySilence taken)
    · rw [clear_eq, withReadBack_eq]

theorem Sound.next {l : Manager.Label κ σ ν} (sound : Sound S s) (lawful : ¬ Disturbs S s l)
    (run : s.next S l = some s') : Sound S s' ∧ StepKeeps S s s' := by
  have unchanged {k : κ} {e : Entry ν} (found : s.entries.lookup k = some e) :
      ¬ s.entries.lookup k = none := by rw [found]; exact nofun
  cases l with
  | store settings => cases run; exact sound.store lawful
  | endLive n accepted => exact sound.endLive lawful run
  | beginPass => cases run; exact sound.beginPass
  | stepPass p accepted surprise => exact sound.stepPass lawful run
  | stepWatch expired => exact sound.stepWatch lawful run
  | beginLive k v =>
    cases run
    unfold Manager.beginLive
    split
    · refine ⟨sound.later ⟨fun _ _ found => found, rfl, fun _ member => member, fun _ member => member⟩
        (fun n live running => ?_) (fun _ _ running => Or.inr ⟨running, fun _ => ⟨rfl, rfl⟩⟩)
        (fun _ running => Or.inl running), ⟨fun k e found gone => absurd gone (unchanged found), rfl⟩⟩
      by_cases same : n = s.nextLive
      · subst same
        simp only [Function.update_self, Option.some.injEq] at running
        subst running
        exact Or.inr rfl
      · simp only [Function.update_of_ne same] at running
        exact Or.inl running
    · exact ⟨sound, ⟨fun k e found gone => absurd gone (unchanged found), rfl⟩⟩
  | cancelPass p =>
    cases run
    refine ⟨sound.later ⟨fun _ _ found => found, rfl, fun _ member => member, fun _ member => member⟩
      (fun _ _ running => Or.inl running) (fun p' P running => Or.inr ?_)
      (fun _ running => Or.inl running), ⟨fun k e found gone => absurd gone (unchanged found), rfl⟩⟩
    by_cases same : p' = p
    · subst same; simp [Manager.setPass] at running
    · simp only [Manager.setPass, Function.update_of_ne same] at running
      exact ⟨running, fun _ => ⟨rfl, rfl⟩⟩
  | sense readings connected =>
    cases run
    exact ⟨sound.later ⟨fun _ _ found => found, rfl, fun _ member => member, fun _ member => member⟩
      (fun _ _ running => Or.inl running) (fun _ _ running => Or.inr ⟨running, fun _ => ⟨rfl, rfl⟩⟩)
      (fun _ running => Or.inl running), ⟨fun k e found gone => absurd gone (unchanged found), rfl⟩⟩

/-- In a run that does not disturb the queue, no step lets a queued value go
without reason, or makes a pass fail. -/
theorem pending_settings_kept (S : Schema κ σ ν) {l : Manager.Label κ σ ν}
    (reach : Run.Reach (queueMachine S) (fun s l => ¬ Disturbs S s l) s) (lawful : ¬ Disturbs S s l)
    (run : s.next S l = some s') : StepKeeps S s s' := by
  have sound : Sound S s := by
    refine reach.invariant (fun s start => ?_) fun s l s' _ sound lawful run => (sound.next lawful run).1
    obtain ⟨queue, nextId, readings, connected, rfl, numbered⟩ := start
    exact ⟨fun k e found => numbered _ (List.mem_of_lookup_eq_some found), nofun, nofun, nofun⟩
  exact (sound.next lawful run).2

/-- A driver whose settings take any number; `gain` reads back. -/
def amplifier : Schema String String Nat where
  declared k := k ∈ ["gain", "mode", "input"]
  coerce _ v := some v
  stateKey k := if k = "gain" then some "gain" else none
  stateVars := ["gain"]
  text v := toString v

/-- A queued setting with no read-back, applied on a connect. -/
theorem pending_settings_kept_of_applied :
    ∃ s s' : Manager String String Nat, s.entries.lookup "mode" = some ⟨0, 1⟩ ∧
      s'.entries.lookup "mode" = none ∧ StepKeeps amplifier s s' := by
  have start : Run.Reach (queueMachine amplifier) (fun s l => ¬ Disturbs amplifier s l)
      { queue := some [("mode", ⟨0, 1⟩)], nextId := 1 } :=
    .init ⟨_, _, _, _, rfl, by simp [Manager.entries]⟩
  have begun := Run.Reach.step (l := .beginPass) start id rfl
  refine ⟨_, _, rfl, ?_, pending_settings_kept amplifier (l := .stepPass 0 true .stops) begun ?_ rfl⟩
  · decide
  · rintro ⟨P, P', _, _, _, _, p, Q, running, _, other⟩
    by_cases same : p = 0
    · exact other (congrArg some same)
    · simp [Manager.beginPass, Manager.walk, Manager.beginWrite, Manager.setPass, Manager.pendingOf,
        Manager.entries, Manager.keys, Schema.validate, amplifier, same] at running

/-- Queueing one more setting while a pass waits for the driver makes the pass
fail, and the connect it is part of. -/
theorem pending_settings_not_kept :
    ¬ ∀ (S : Schema String String Nat) (s s' : Manager String String Nat) (l : Manager.Label String String Nat),
      Run.Reach (queueMachine S) Run.always s → s.next S l = some s' → StepKeeps S s s' := by
  intro keeps
  have reach : ∃ s s', (queueMachine amplifier).run Run.always
      { queue := some [("mode", ⟨0, 1⟩), ("gain", ⟨1, 5⟩)], nextId := 2 } [.beginPass, .store [("input", 3)]] = some s ∧
      s.next amplifier (.stepPass 0 true .stops) = some s' ∧ s.failedConnects = 0 ∧ s'.failedConnects = 1 :=
    ⟨_, _, rfl, rfl, rfl, rfl⟩
  obtain ⟨s, s', run, step, before, after⟩ := reach
  have start : Run.Reach (queueMachine amplifier) Run.always
      { queue := some [("mode", ⟨0, 1⟩), ("gain", ⟨1, 5⟩)], nextId := 2 } :=
    .init ⟨_, _, _, _, rfl, by simp [Manager.entries]⟩
  have same := (keeps amplifier s s' _ (start.run run) step).passes
  rw [before, after] at same
  cases same

end OpenAvc.Device.Pending
