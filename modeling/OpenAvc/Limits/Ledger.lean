import OpenAvc.Limits.Buckets

/-! What the rate limiter answers a client, told from that client's own requests alone. -/

namespace OpenAvc.Limits

open SlidingLog

/-- The entries of one client. -/
def entriesOf (clientIp : Text) (trace : List Entry) : List Entry :=
  trace.filter (·.clientIp = clientIp)

/-- When a window's answers were given, as the entries tell it. -/
def answeredAt (lane : Lane) (entries : List Entry) : List ℚ :=
  entries.filterMap fun entry =>
    match entry.act, entry.outcome with
    | .answer _ _ now, .recorded lane' => if lane' = lane then some now else none
    | _, _ => none

theorem answeredAt_append (lane : Lane) (entries later : List Entry) :
    answeredAt lane (entries ++ later) = answeredAt lane entries ++ answeredAt lane later :=
  List.filterMap_append

theorem entriesOf_append (clientIp : Text) (entries later : List Entry) :
    entriesOf clientIp (entries ++ later) = entriesOf clientIp entries ++ entriesOf clientIp later :=
  List.filter_append ..

/-- A client's account: every answer it ever got, and the requests it waits for. -/
structure Ledger where
  log : List (Lane × ℚ) := []
  flights : List (Nat × Tier) := []

namespace Ledger

variable (config : Config)

/-- When the answers that a window counts were given. -/
def times (l : Ledger) (lane : Lane) : List ℚ :=
  (l.log.filter (·.1 = lane)).map Prod.snd

/-- A window is closed where the last minute has its limit of answers, until the first of them
is a minute old. -/
def gate (times : Lane → List ℚ) (lane : Lane) (now : ℚ) : Option (Option ℚ) :=
  let recent := since (now - windowSeconds) (times lane)
  if config.maxCount lane ≤ recent.length then some (recent.head?.map (· + windowSeconds - now)) else none

def refusal (lane : Lane) : Option ℚ → Outcome
  | none => .failed
  | some retry => .refused lane (make429 retry)

/-- What becomes of a request, told from the answers in each window. -/
def verdict (times : Lane → List ℚ) (tier : Tier) (now : ℚ) : Outcome :=
  match gate config times .authFail now, gate config times (.tier tier) now with
  | some retry, _ => refusal .authFail retry
  | none, some retry => refusal (.tier tier) retry
  | none, none => .admitted

def act (l : Ledger) : Act → Option (Ledger × Outcome)
  | .arrive rid tier now =>
    let outcome := verdict config l.times tier now
    some ({ l with flights := if outcome = .admitted then l.flights ++ [(rid, tier)] else l.flights }, outcome)
  | .answer rid status now =>
    (l.flights.lookup rid).map fun tier =>
      ({ log := l.log ++ [(Limiter.laneOf tier status, now)], flights := l.flights.filter (·.1 ≠ rid) },
        .recorded (Limiter.laneOf tier status))
  | .abort rid =>
    (l.flights.lookup rid).map fun _ => ({ l with flights := l.flights.filter (·.1 ≠ rid) }, .dropped)

/-- The account opened over what the client does, with what it says to each act. -/
def replay (acts : List Act) : Option (Ledger × List Outcome) :=
  acts.foldlM (fun run act => (run.1.act config act).map fun next => (next.1, run.2 ++ [next.2])) ({}, [])

variable {config}

theorem replay_snoc {acts : List Act} {l l' : Ledger} {outcomes : List Outcome} {act : Act} {outcome : Outcome}
    (run : replay config acts = some (l, outcomes)) (last : l.act config act = some (l', outcome)) :
    replay config (acts ++ [act]) = some (l', outcomes ++ [outcome]) := by
  unfold replay at run ⊢
  rw [List.foldlM_append, run]
  simp [last]

@[simp] theorem times_log_append (l : Ledger) (lane lane' : Lane) (now : ℚ) (flights : List (Nat × Tier)) :
    times { log := l.log ++ [(lane', now)], flights } lane =
      l.times lane ++ if lane' = lane then [now] else [] := by
  by_cases same : lane' = lane <;> simp [times, same]

theorem times_act {l : Ledger} {clientIp : Text} {act : Act} {l' : Ledger} {outcome : Outcome} (said : l.act config act = some (l', outcome))
    (lane : Lane) : l'.times lane = l.times lane ++ answeredAt lane [⟨clientIp, act, outcome⟩] := by
  cases act with
  | arrive rid tier now =>
    cases said
    simp [answeredAt, times]
  | answer rid status now =>
    obtain ⟨tier, -, shape⟩ := Option.map_eq_some_iff.mp said
    cases shape
    rw [times_log_append]
    by_cases same : Limiter.laneOf tier status = lane <;> simp [answeredAt, same]
  | abort rid =>
    obtain ⟨tier, -, shape⟩ := Option.map_eq_some_iff.mp said
    cases shape
    simp [answeredAt, times]

theorem act_refused {l : Ledger} {now : ℚ} {rid : Nat} {tier : Tier} {outcome : Outcome} (said : verdict config l.times tier now = outcome)
    (refused : outcome ≠ .admitted) : l.act config (.arrive rid tier now) = some (l, outcome) := by
  rw [act, said]
  simp [refused]

theorem refusal_ne_admitted (lane : Lane) (retry : Option ℚ) : refusal lane retry ≠ .admitted := by
  cases retry <;> simp [refusal]

end Ledger

namespace SlidingWindow

variable {w : SlidingWindow} {now : ℚ}

theorem prune_timestamps (sorted : w.timestamps.Pairwise (· ≤ ·)) :
    (w.prune now).timestamps = since (now - windowSeconds) w.timestamps :=
  dropWhile_eq_since sorted _

theorem prune_prune (sorted : w.timestamps.Pairwise (· ≤ ·)) : (w.prune now).prune now = w.prune now := by
  have again : ((w.prune now).prune now).timestamps = (w.prune now).timestamps := by
    have still : (w.prune now).timestamps.Pairwise (· ≤ ·) := by
      rw [prune_timestamps sorted]
      exact pairwise_since sorted _
    rw [prune_timestamps still, prune_timestamps sorted, since_since le_rfl]
  exact congrArg (fun timestamps => { w with timestamps }) again

/-- A gate reads the recent times only, and leaves them. -/
theorem gate_eq (sorted : w.timestamps.Pairwise (· ≤ ·)) :
    w.gate now =
      (if w.maxCount ≤ (since (now - windowSeconds) w.timestamps).length then
        some ((since (now - windowSeconds) w.timestamps).head?.map (· + windowSeconds - now)) else none,
        w.prune now) := by
  have kept : (w.prune now).timestamps = since (now - windowSeconds) w.timestamps := prune_timestamps sorted
  have limit : (w.prune now).maxCount = w.maxCount := rfl
  simp only [gate, isExceeded, timeUntilOpen, prune_prune sorted, kept, limit]
  by_cases full : w.maxCount ≤ (since (now - windowSeconds) w.timestamps).length
  · simp [full, not_lt.mpr full]
  · simp [full]

end SlidingWindow

namespace Limiter

variable (config : Config)

/-- The buckets of the limiter are in order, each the client's own. -/
structure Sound (s : Limiter) : Prop where
  keys : (s.ipBuckets.map Prod.fst).Nodup
  made : ∀ k i, s.ipBuckets.lookup k = some i → i < s.objects.length
  owner : ∀ k k' i, s.ipBuckets.lookup k = some i → s.ipBuckets.lookup k' = some i → k = k'
  flight : ∀ f ∈ s.flights, f.buckets < s.objects.length ∧ f.now ≤ s.clock ∧
    ∀ k, s.ipBuckets.lookup k = some f.buckets → k = f.clientIp
  rids : (s.flights.map Flight.rid).Nodup
  seen : ∀ b ∈ s.objects, b.lastSeen ≤ s.clock
  limit : ∀ b ∈ s.objects, ∀ lane, (b.window lane).maxCount = config.maxCount lane
  sorted : ∀ b ∈ s.objects, ∀ lane, (b.window lane).timestamps.Pairwise (· ≤ ·)
  past : ∀ b ∈ s.objects, ∀ lane, ∀ t ∈ (b.window lane).timestamps, t ≤ s.clock

/-- How long an answer may take for its bucket to be there still. -/
def patience : ℚ := staleThreshold - windowSeconds

/-- An account agrees with the client's buckets on what the last minute holds. Where they are
gone it holds nothing, and nothing that could be answered in time is under way. -/
structure Agrees (s : Limiter) (clientIp : Text) (l : Ledger) : Prop where
  flights : (s.flights.filter (·.clientIp = clientIp)).map (fun f => (f.rid, f.tier)) = l.flights
  past : ∀ u ∈ l.log, u.2 ≤ s.clock
  recent : ∀ i b, s.ipBuckets.lookup clientIp = some i → s.objects[i]? = some b → ∀ lane cutoff,
    s.clock - windowSeconds ≤ cutoff → since cutoff (b.window lane).timestamps = since cutoff (l.times lane)
  seen : ∀ i b, s.ipBuckets.lookup clientIp = some i → s.objects[i]? = some b →
    (∀ u ∈ l.log, u.2 ≤ b.lastSeen + patience) ∧
      ∀ f ∈ s.flights, f.clientIp = clientIp →
        f.buckets = i ∧ f.now ≤ b.lastSeen ∨ f.now + patience < s.clock
  gone : s.ipBuckets.lookup clientIp = none →
    (∀ u ∈ l.log, u.2 < s.clock - windowSeconds) ∧
      ∀ f ∈ s.flights, f.clientIp = clientIp → f.now + patience < s.clock

theorem sound_initial (now : ℚ) : Sound config (initial now) where
  keys := List.nodup_nil
  made := by simp [initial]
  owner := by simp [initial]
  flight := by simp [initial]
  rids := List.nodup_nil
  seen := by simp [initial]
  limit := by simp [initial]
  sorted := by simp [initial]
  past := by simp [initial]

theorem agrees_initial (now : ℚ) (clientIp : Text) : Agrees (initial now) clientIp {} where
  flights := rfl
  past := by simp
  recent := by simp [initial]
  seen := by simp [initial]
  gone := by simp [initial]

variable {config} {s : Limiter} {clientIp : Text} {l : Ledger}

/-! ### Time goes by -/

theorem Sound.tick (sound : Sound config s) {now : ℚ} (later : s.clock ≤ now) :
    Sound config { s with clock := now } where
  keys := sound.keys
  made := sound.made
  owner := sound.owner
  flight := by
    intro f member
    obtain ⟨made, before, own⟩ := sound.flight f member
    exact ⟨made, before.trans later, own⟩
  rids := sound.rids
  seen := fun b member => (sound.seen b member).trans later
  limit := sound.limit
  sorted := sound.sorted
  past := fun b member lane t there => (sound.past b member lane t there).trans later

theorem Agrees.tick (agrees : Agrees s clientIp l) {now : ℚ} (later : s.clock ≤ now) :
    Agrees { s with clock := now } clientIp l where
  flights := agrees.flights
  past := fun u member => (agrees.past u member).trans later
  recent := fun i b found object lane cutoff order =>
    agrees.recent i b found object lane cutoff ((sub_le_sub_right later _).trans order)
  seen := by
    intro i b found object
    obtain ⟨log, flights⟩ := agrees.seen i b found object
    exact ⟨log, fun f member own => (flights f member own).imp_right fun late => late.trans_le later⟩
  gone := by
    intro absent
    obtain ⟨log, flights⟩ := agrees.gone absent
    exact ⟨fun u member => (log u member).trans_le (sub_le_sub_right later _),
      fun f member own => (flights f member own).trans_le later⟩

/-! ### Buckets that are only tidied -/

/-- A bucket that was seen again and had windows pruned. -/
structure Buckets.Tidied (now : ℚ) (b b' : Buckets) : Prop where
  seen : b'.lastSeen = b.lastSeen ∨ b'.lastSeen = now
  window : ∀ lane, b'.window lane = b.window lane ∨ b'.window lane = (b.window lane).prune now

/-- A state that differs in its bookkeeping and in one bucket that was tidied. -/
structure Tidied (s s' : Limiter) : Prop where
  ipBuckets : s'.ipBuckets = s.ipBuckets
  flights : s'.flights = s.flights
  clock : s'.clock = s.clock
  objects : ∃ i f, s'.objects = s.objects.modify i f ∧ ∀ b, s.objects[i]? = some b → Buckets.Tidied s.clock b (f b)

theorem Buckets.Tidied.refl (now : ℚ) (b : Buckets) : Buckets.Tidied now b b :=
  ⟨Or.inl rfl, fun _ => Or.inl rfl⟩

/-- Every bucket after a tidying comes from one before it. -/
theorem Tidied.origin {s' : Limiter} (tidied : Tidied s s') {j : Nat} {b' : Buckets} (object : s'.objects[j]? = some b') :
    ∃ b, s.objects[j]? = some b ∧ Buckets.Tidied s.clock b b' := by
  obtain ⟨i, f, shape, tidy⟩ := tidied.objects
  rw [shape, List.getElem?_modify] at object
  obtain ⟨b, here, rfl⟩ := Option.map_eq_some_iff.mp object
  refine ⟨b, here, ?_⟩
  split
  · rename_i same
    subst same
    exact tidy b here
  · exact Buckets.Tidied.refl _ b

theorem Tidied.length {s' : Limiter} (tidied : Tidied s s') : s'.objects.length = s.objects.length := by
  obtain ⟨i, f, shape, -⟩ := tidied.objects
  rw [shape, List.length_modify]

theorem Sound.tidied {s' : Limiter} (sound : Sound config s) (tidied : Tidied s s') : Sound config s' := by
  have origin : ∀ b' ∈ s'.objects, ∃ b ∈ s.objects, Buckets.Tidied s.clock b b' := by
    intro b' member
    obtain ⟨j, object⟩ := List.getElem?_of_mem member
    obtain ⟨b, here, tidy⟩ := tidied.origin object
    exact ⟨b, List.mem_of_getElem? here, tidy⟩
  constructor
  · rw [tidied.ipBuckets]
    exact sound.keys
  · rw [tidied.ipBuckets, tidied.length]
    exact sound.made
  · rw [tidied.ipBuckets]
    exact sound.owner
  · rw [tidied.ipBuckets, tidied.length, tidied.flights, tidied.clock]
    exact sound.flight
  · rw [tidied.flights]
    exact sound.rids
  · intro b' member
    obtain ⟨b, there, tidy⟩ := origin b' member
    rw [tidied.clock]
    rcases tidy.seen with same | now
    · rw [same]
      exact sound.seen b there
    · exact now.le
  · intro b' member lane
    obtain ⟨b, there, tidy⟩ := origin b' member
    rcases tidy.window lane with same | pruned
    · rw [same, sound.limit b there lane]
    · rw [pruned, ← sound.limit b there lane]
      rfl
  · intro b' member lane
    obtain ⟨b, there, tidy⟩ := origin b' member
    rcases tidy.window lane with same | pruned
    · rw [same]
      exact sound.sorted b there lane
    · rw [pruned, SlidingWindow.prune_timestamps (sound.sorted b there lane)]
      exact pairwise_since (sound.sorted b there lane) _
  · intro b' member lane t inside
    obtain ⟨b, there, tidy⟩ := origin b' member
    rw [tidied.clock]
    rcases tidy.window lane with same | pruned
    · rw [same] at inside
      exact sound.past b there lane t inside
    · rw [pruned, SlidingWindow.prune_timestamps (sound.sorted b there lane)] at inside
      exact sound.past b there lane t (mem_since.mp inside).1

theorem Agrees.tidied {s' : Limiter} (sound : Sound config s) (agrees : Agrees s clientIp l) (tidied : Tidied s s') :
    Agrees s' clientIp l where
  flights := by rw [tidied.flights]; exact agrees.flights
  past := by rw [tidied.clock]; exact agrees.past
  recent := by
    rw [tidied.ipBuckets, tidied.clock]
    intro i b' found object lane cutoff order
    obtain ⟨b, here, tidy⟩ := tidied.origin object
    rw [← agrees.recent i b found here lane cutoff order]
    rcases tidy.window lane with same | pruned
    · rw [same]
    · rw [pruned, SlidingWindow.prune_timestamps (sound.sorted b (List.mem_of_getElem? here) lane), since_since order]
  seen := by
    rw [tidied.ipBuckets, tidied.clock, tidied.flights]
    intro i b' found object
    obtain ⟨b, here, tidy⟩ := tidied.origin object
    obtain ⟨log, flights⟩ := agrees.seen i b found here
    have seen : b.lastSeen ≤ b'.lastSeen := by
      rcases tidy.seen with same | now
      · exact same.ge
      · rw [now]
        exact sound.seen b (List.mem_of_getElem? here)
    refine ⟨fun u member => (log u member).trans (add_le_add_left seen patience), fun f member own => ?_⟩
    exact (flights f member own).imp_left fun held => ⟨held.1, held.2.trans seen⟩
  gone := by
    rw [tidied.ipBuckets, tidied.clock, tidied.flights]
    exact agrees.gone

/-! ### Stale buckets are dropped -/

theorem lookup_cleanup {k : Text} {i : Nat} (keys : (s.ipBuckets.map Prod.fst).Nodup) {now : ℚ}
    (found : (s.cleanup now).ipBuckets.lookup k = some i) : s.ipBuckets.lookup k = some i := by
  unfold cleanup at found
  split at found
  · exact found
  · rw [List.lookup_filter_items keys] at found
    exact (Option.filter_eq_some_iff.mp found).1

/-- A client whose buckets are dropped was not seen for the stale time. -/
theorem stale_of_cleanup {k : Text} (keys : (s.ipBuckets.map Prod.fst).Nodup) {now : ℚ}
    (dropped : (s.cleanup now).ipBuckets.lookup k = none) : s.ipBuckets.lookup k = none ∨
      ∃ i b, s.ipBuckets.lookup k = some i ∧ s.objects[i]? = some b ∧ staleThreshold < now - b.lastSeen := by
  unfold cleanup at dropped
  split at dropped
  · exact Or.inl dropped
  · rw [List.lookup_filter_items keys] at dropped
    cases found : s.ipBuckets.lookup k with
    | none => exact Or.inl rfl
    | some i =>
      rw [found] at dropped
      have stale : (s.objects[i]?).any (fun b => staleThreshold < now - b.lastSeen) = true := by
        simpa [Option.filter] using dropped
      obtain ⟨b, here, old⟩ := (Option.any_eq_true _ _).mp stale
      exact Or.inr ⟨i, b, rfl, here, by simpa using old⟩

@[simp] theorem objects_cleanup (now : ℚ) : (s.cleanup now).objects = s.objects := by
  unfold cleanup
  split <;> rfl

@[simp] theorem flights_cleanup (now : ℚ) : (s.cleanup now).flights = s.flights := by
  unfold cleanup
  split <;> rfl

@[simp] theorem clock_cleanup (now : ℚ) : (s.cleanup now).clock = s.clock := by
  unfold cleanup
  split <;> rfl

theorem Sound.cleanup (sound : Sound config s) (now : ℚ) : Sound config (s.cleanup now) := by
  have former : ∀ {k i}, (s.cleanup now).ipBuckets.lookup k = some i → s.ipBuckets.lookup k = some i :=
    fun found => lookup_cleanup sound.keys found
  constructor
  · have part : (s.cleanup now).ipBuckets.Sublist s.ipBuckets := by
      unfold Limiter.cleanup
      split
      · exact List.Sublist.refl _
      · exact List.filter_sublist
    exact (part.map Prod.fst).nodup sound.keys
  · rw [objects_cleanup]
    exact fun k i found => sound.made k i (former found)
  · exact fun k k' i found found' => sound.owner k k' i (former found) (former found')
  · rw [flights_cleanup, objects_cleanup, clock_cleanup]
    intro f member
    obtain ⟨made, before, own⟩ := sound.flight f member
    exact ⟨made, before, fun k found => own k (former found)⟩
  · rw [flights_cleanup]
    exact sound.rids
  · rw [objects_cleanup, clock_cleanup]
    exact sound.seen
  · rw [objects_cleanup]
    exact sound.limit
  · rw [objects_cleanup]
    exact sound.sorted
  · rw [objects_cleanup, clock_cleanup]
    exact sound.past

theorem Agrees.cleanup (sound : Sound config s) (agrees : Agrees s clientIp l) :
    Agrees (s.cleanup s.clock) clientIp l where
  flights := by rw [flights_cleanup]; exact agrees.flights
  past := by rw [clock_cleanup]; exact agrees.past
  recent := by
    rw [objects_cleanup, clock_cleanup]
    exact fun i b found => agrees.recent i b (lookup_cleanup sound.keys found)
  seen := by
    rw [objects_cleanup, clock_cleanup, flights_cleanup]
    exact fun i b found => agrees.seen i b (lookup_cleanup sound.keys found)
  gone := by
    rw [clock_cleanup, flights_cleanup]
    intro dropped
    rcases stale_of_cleanup sound.keys dropped with absent | ⟨i, b, found, here, stale⟩
    · exact agrees.gone absent
    · -- what was answered in time is over a minute old by now
      obtain ⟨log, flights⟩ := agrees.seen i b found here
      have margin : b.lastSeen + patience < s.clock - windowSeconds := by
        unfold patience
        linarith
      refine ⟨fun u member => (log u member).trans_lt margin, fun f member own => ?_⟩
      rcases flights f member own with ⟨-, before⟩ | late
      · have window : 0 ≤ windowSeconds := by norm_num [windowSeconds]
        linarith
      · exact late

/-! ### A client gets its buckets -/

/-- The state in which a client without buckets has new ones. -/
def opened (config : Config) (s : Limiter) (clientIp : Text) : Limiter :=
  { s with
    objects := s.objects ++ [Buckets.new config s.clock]
    ipBuckets := Dict.set s.ipBuckets clientIp s.objects.length }

theorem Sound.opened (sound : Sound config s) (clientIp : Text) :
    Sound config (s.opened config clientIp) := by
  have lookup : ∀ k, (s.opened config clientIp).ipBuckets.lookup k =
      if k = clientIp then some s.objects.length else s.ipBuckets.lookup k :=
    fun k => Dict.lookup_set s.ipBuckets clientIp k s.objects.length
  have objects : ∀ b ∈ (s.opened config clientIp).objects, b ∈ s.objects ∨ b = Buckets.new config s.clock :=
    fun b member => by simpa [Limiter.opened] using member
  have length : (s.opened config clientIp).objects.length = s.objects.length + 1 := by simp [Limiter.opened]
  constructor
  · exact Dict.nodup_set sound.keys clientIp s.objects.length
  · intro k i found
    rw [lookup] at found
    split at found
    · cases found
      omega
    · have old := sound.made k i found
      omega
  · intro k k' i found found'
    rw [lookup] at found found'
    split at found <;> split at found'
    · simp_all
    · cases found
      exact absurd (sound.made k' _ found') (lt_irrefl _)
    · cases found'
      exact absurd (sound.made k _ found) (lt_irrefl _)
    · exact sound.owner k k' i found found'
  · intro f member
    obtain ⟨made, before, own⟩ := sound.flight f member
    refine ⟨by omega, before, fun k found => ?_⟩
    rw [lookup] at found
    split at found
    · have same := Option.some.inj found
      omega
    · exact own k found
  · exact sound.rids
  · intro b member
    rcases objects b member with old | rfl
    · exact sound.seen b old
    · exact le_rfl
  · intro b member lane
    rcases objects b member with old | rfl
    · exact sound.limit b old lane
    · rw [Buckets.window_new]
  · intro b member lane
    rcases objects b member with old | rfl
    · exact sound.sorted b old lane
    · rw [Buckets.window_new]
      exact List.Pairwise.nil
  · intro b member lane t inside
    rcases objects b member with old | rfl
    · exact sound.past b old lane t inside
    · rw [Buckets.window_new] at inside
      exact absurd inside List.not_mem_nil

theorem Agrees.opened (sound : Sound config s) (agrees : Agrees s clientIp l) {k : Text}
    (absent : s.ipBuckets.lookup k = none) : Agrees (s.opened config k) clientIp l := by
  have lookup : (s.opened config k).ipBuckets.lookup clientIp =
      if clientIp = k then some s.objects.length else s.ipBuckets.lookup clientIp :=
    Dict.lookup_set s.ipBuckets k clientIp s.objects.length
  by_cases own : clientIp = k
  · subst own
    rw [if_pos rfl] at lookup
    obtain ⟨log, flights⟩ := agrees.gone absent
    have object : ∀ i b, (s.opened config clientIp).ipBuckets.lookup clientIp = some i →
        (s.opened config clientIp).objects[i]? = some b → b = Buckets.new config s.clock := by
      intro i b found here
      rw [lookup] at found
      cases found
      simpa [Limiter.opened] using here.symm
    refine ⟨agrees.flights, agrees.past, fun i b found here lane cutoff order => ?_, fun i b found here => ?_, fun none => ?_⟩
    · -- all that was recorded is too old to count
      rw [object i b found here, Buckets.window_new]
      refine (since_eq_nil.mpr fun t member => ?_).symm
      obtain ⟨u, inside, rfl⟩ := List.mem_map.mp member
      exact (log u (List.mem_filter.mp inside).1).trans_le order
    · rw [object i b found here]
      have patient : 0 ≤ patience := by norm_num [patience, staleThreshold, windowSeconds]
      exact ⟨fun u member => (agrees.past u member).trans (le_add_of_nonneg_right patient),
        fun f member mine => Or.inr (flights f member mine)⟩
    · rw [lookup] at none
      cases none
  · rw [if_neg own] at lookup
    have object : ∀ i, s.ipBuckets.lookup clientIp = some i → (s.opened config k).objects[i]? = s.objects[i]? :=
      fun i found => List.getElem?_append_left (sound.made clientIp i found)
    refine ⟨agrees.flights, agrees.past, fun i b found here => ?_, fun i b found here => ?_, fun none => ?_⟩
    · rw [lookup] at found
      rw [object i found] at here
      exact agrees.recent i b found here
    · rw [lookup] at found
      rw [object i found] at here
      exact agrees.seen i b found here
    · rw [lookup] at none
      exact agrees.gone none

/-- A client has its buckets, and they are all there is to it. -/
theorem bucketsOf_spec (sound : Sound config s) (clientIp : Text) : ∃ i s',
    s.bucketsOf config clientIp s.clock = (i, s') ∧ s'.ipBuckets.lookup clientIp = some i ∧ s'.clock = s.clock ∧
      s'.flights = s.flights ∧ Sound config s' ∧ ∀ k l, Agrees s k l → Agrees s' k l := by
  cases found : s.ipBuckets.lookup clientIp with
  | some i =>
    refine ⟨i, s, ?_, found, rfl, rfl, sound, fun _ _ agrees => agrees⟩
    rw [bucketsOf, found]
  | none =>
    refine ⟨s.objects.length, s.opened config clientIp, ?_, ?_, rfl, rfl, sound.opened clientIp,
      fun _ _ agrees => agrees.opened sound found⟩
    · rw [bucketsOf, found]
      rfl
    · exact Dict.lookup_set_self ..

/-! ### A request at the gates -/

theorem tidied_modify {i : Nat} {f : Buckets → Buckets}
    (tidy : ∀ b, s.objects[i]? = some b → Buckets.Tidied s.clock b (f b)) : Tidied s (s.modify i f) :=
  ⟨rfl, rfl, rfl, i, f, rfl, tidy⟩

theorem tidied_touch (i : Nat) : Tidied s (s.modify i fun b => { b with lastSeen := s.clock }) :=
  tidied_modify fun _ _ => ⟨Or.inr rfl, fun lane => Or.inl (by rcases lane with (_ | _ | _ | _ | _) | _ <;> rfl)⟩

theorem tidied_prune {i : Nat} {b : Buckets} (object : s.objects[i]? = some b) {lane : Lane} {w : SlidingWindow}
    (pruned : w = (b.window lane).prune s.clock) : Tidied s (s.modify i (·.setWindow w lane)) := by
  refine tidied_modify fun b' here => ⟨Or.inl (Buckets.lastSeen_setWindow ..), fun lane' => ?_⟩
  obtain rfl : b = b' := Option.some.inj (object.symm.trans here)
  rw [Buckets.window_setWindow]
  split
  · rename_i same
    rw [same]
    exact Or.inr pruned
  · exact Or.inl rfl

theorem tidied_refuse (ip : Text) (lane : Lane) (now : ℚ) (retry : Option ℚ) :
    Tidied s (s.refuse ip lane now retry).2 := by
  have still : s.objects = s.objects.modify 0 id := (List.modify_id 0 s.objects).symm
  have tidy : ∀ b, s.objects[0]? = some b → Buckets.Tidied s.clock b (id b) := fun b _ => Buckets.Tidied.refl _ b
  cases retry with
  | none => exact ⟨rfl, rfl, rfl, 0, id, still, tidy⟩
  | some retry =>
    have logged : Tidied s (s.logLimited ip lane now) := by
      unfold logLimited
      split
      · exact ⟨rfl, rfl, rfl, 0, id, still, tidy⟩
      · exact ⟨rfl, rfl, rfl, 0, id, still, tidy⟩
    exact logged

theorem outcome_refuse (ip : Text) (lane : Lane) (now : ℚ) (retry : Option ℚ) :
    (s.refuse ip lane now retry).1 = Ledger.refusal lane retry := by
  cases retry <;> rfl

/-- The gate of a window is the one that the account knows. -/
theorem gate_eq_ledger (sound : Sound config s) (agrees : Agrees s clientIp l) {i : Nat} {b : Buckets}
    (found : s.ipBuckets.lookup clientIp = some i) (object : s.objects[i]? = some b) (lane : Lane) :
    (b.window lane).gate s.clock = (Ledger.gate config l.times lane s.clock, (b.window lane).prune s.clock) := by
  have member := List.mem_of_getElem? object
  rw [SlidingWindow.gate_eq (sound.sorted b member lane), agrees.recent i b found object lane _ le_rfl,
    sound.limit b member lane]
  rfl

theorem Sound.admit (sound : Sound config s) {i : Nat} (found : s.ipBuckets.lookup clientIp = some i) {rid : Nat}
    (fresh : ∀ f ∈ s.flights, f.rid ≠ rid) (tier : Tier) :
    Sound config { s with flights := s.flights ++ [⟨rid, clientIp, i, tier, s.clock⟩] } where
  keys := sound.keys
  made := sound.made
  owner := sound.owner
  flight := by
    intro f member
    rcases List.mem_append.mp member with old | new
    · exact sound.flight f old
    · rw [List.mem_singleton.mp new]
      exact ⟨sound.made clientIp i found, le_rfl, fun k here => sound.owner k clientIp i here found⟩
  rids := by
    rw [List.map_append]
    refine List.nodup_append.mpr ⟨sound.rids, List.nodup_singleton _, fun r old r' new same => ?_⟩
    obtain ⟨f, member, rfl⟩ := List.mem_map.mp old
    exact fresh f member (same.trans (List.mem_singleton.mp new))
  seen := sound.seen
  limit := sound.limit
  sorted := sound.sorted
  past := sound.past

theorem Agrees.admit (agrees : Agrees s clientIp l) {i : Nat} {b : Buckets}
    (found : s.ipBuckets.lookup clientIp = some i) (object : s.objects[i]? = some b) (seen : s.clock ≤ b.lastSeen)
    (rid : Nat) (tier : Tier) :
    Agrees { s with flights := s.flights ++ [⟨rid, clientIp, i, tier, s.clock⟩] } clientIp
      { l with flights := l.flights ++ [(rid, tier)] } where
  flights := by simp [List.filter_append, agrees.flights]
  past := agrees.past
  recent := agrees.recent
  seen := by
    intro j b' found' object'
    obtain rfl : i = j := Option.some.inj (found.symm.trans found')
    obtain rfl : b = b' := Option.some.inj (object.symm.trans object')
    obtain ⟨log, flights⟩ := agrees.seen i b found object
    refine ⟨log, fun f member own => ?_⟩
    rcases List.mem_append.mp member with old | new
    · exact flights f old own
    · rw [List.mem_singleton.mp new]
      exact Or.inl ⟨rfl, seen⟩
  gone := fun absent => absurd (found.symm.trans absent) (by simp)

theorem Agrees.admit_other (agrees : Agrees s clientIp l) {k : Text} (other : k ≠ clientIp) (rid i : Nat) (tier : Tier) :
    Agrees { s with flights := s.flights ++ [⟨rid, k, i, tier, s.clock⟩] } clientIp l where
  flights := by simp [List.filter_append, agrees.flights, other]
  past := agrees.past
  recent := agrees.recent
  seen := by
    intro j b found object
    obtain ⟨log, flights⟩ := agrees.seen j b found object
    refine ⟨log, fun f member own => ?_⟩
    rcases List.mem_append.mp member with old | new
    · exact flights f old own
    · rw [List.mem_singleton.mp new] at own
      exact absurd own other
  gone := by
    intro absent
    obtain ⟨log, flights⟩ := agrees.gone absent
    refine ⟨log, fun f member own => ?_⟩
    rcases List.mem_append.mp member with old | new
    · exact flights f old own
    · rw [List.mem_singleton.mp new] at own
      exact absurd own other

/-- What a step on behalf of `clientIp` leaves: its own account moved on, and all others as they were. -/
structure Moved (config : Config) (s s' : Limiter) (clientIp : Text) (l' : Ledger) : Prop where
  clock : s'.clock = s.clock
  sound : Sound config s'
  own : Agrees s' clientIp l'
  others : ∀ k ≠ clientIp, ∀ m, Agrees s k m → Agrees s' k m

theorem Moved.of_tidied {s' : Limiter} (sound : Sound config s) (agrees : Agrees s clientIp l)
    (tidied : Tidied s s') : Moved config s s' clientIp l :=
  ⟨tidied.clock, sound.tidied tidied, agrees.tidied sound tidied, fun _ _ _ old => old.tidied sound tidied⟩

theorem Moved.trans {s' s'' : Limiter} {l' l'' : Ledger} (first : Moved config s s' clientIp l')
    (second : Moved config s' s'' clientIp l'') : Moved config s s'' clientIp l'' :=
  ⟨second.clock.trans first.clock, second.sound, second.own,
    fun k other m old => second.others k other m (first.others k other m old)⟩

theorem gates_spec (sound : Sound config s) (agrees : Agrees s clientIp l) {i : Nat} {b : Buckets}
    (found : s.ipBuckets.lookup clientIp = some i) (object : s.objects[i]? = some b) (seen : b.lastSeen = s.clock)
    {rid : Nat} (fresh : ∀ f ∈ s.flights, f.rid ≠ rid) (tier : Tier) : ∃ l' outcome s',
      s.gates rid clientIp i tier s.clock = (outcome, s') ∧
        l.act config (.arrive rid tier s.clock) = some (l', outcome) ∧ Moved config s s' clientIp l' := by
  have auth := gate_eq_ledger sound agrees found object .authFail
  have own := gate_eq_ledger sound agrees found object (.tier tier)
  obtain ⟨s₁, shape₁⟩ : ∃ s₁, s₁ = s.modify i (·.setWindow ((b.window .authFail).prune s.clock) .authFail) := ⟨_, rfl⟩
  have moved₁ : Moved config s s₁ clientIp l := Moved.of_tidied sound agrees (shape₁ ▸ tidied_prune object rfl)
  obtain ⟨b₁, object₁, window₁, seen₁⟩ : ∃ b₁, s₁.objects[i]? = some b₁ ∧
      b₁.window (.tier tier) = b.window (.tier tier) ∧ b₁.lastSeen = s.clock := by
    refine ⟨b.setWindow ((b.window .authFail).prune s.clock) .authFail, ?_, ?_, ?_⟩
    · rw [shape₁, modify, List.getElem?_modify, object]
      simp
    · rw [Buckets.window_setWindow, if_neg (by simp)]
    · rw [Buckets.lastSeen_setWindow, seen]
  simp only [gates, object, auth, own, ← shape₁]
  cases first : Ledger.gate config l.times .authFail s.clock with
  | some retry =>
    have verdict : Ledger.verdict config l.times tier s.clock = Ledger.refusal .authFail retry := by simp only [Ledger.verdict, first]
    refine ⟨l, Ledger.refusal .authFail retry, (s₁.refuse clientIp .authFail s.clock retry).2, ?_,
      Ledger.act_refused verdict (Ledger.refusal_ne_admitted _ _), ?_⟩
    · exact Prod.ext (outcome_refuse ..) rfl
    · exact moved₁.trans (Moved.of_tidied moved₁.sound moved₁.own (tidied_refuse ..))
  | none =>
    obtain ⟨s₂, shape₂⟩ : ∃ s₂, s₂ = s₁.modify i (·.setWindow ((b.window (.tier tier)).prune s.clock) (.tier tier)) :=
      ⟨_, rfl⟩
    have prune : Tidied s₁ s₂ := by
      rw [shape₂]
      exact tidied_prune object₁ (by rw [window₁, moved₁.clock])
    have moved₂ := moved₁.trans (Moved.of_tidied moved₁.sound moved₁.own prune)
    simp only [← shape₂]
    cases second : Ledger.gate config l.times (.tier tier) s.clock with
    | some retry =>
      have verdict : Ledger.verdict config l.times tier s.clock = Ledger.refusal (.tier tier) retry := by
        simp only [Ledger.verdict, first, second]
      refine ⟨l, Ledger.refusal (.tier tier) retry, (s₂.refuse clientIp (.tier tier) s.clock retry).2, ?_,
        Ledger.act_refused verdict (Ledger.refusal_ne_admitted _ _), ?_⟩
      · exact Prod.ext (outcome_refuse ..) rfl
      · exact moved₂.trans (Moved.of_tidied moved₂.sound moved₂.own (tidied_refuse ..))
    | none =>
      have verdict : Ledger.verdict config l.times tier s.clock = .admitted := by simp only [Ledger.verdict, first, second]
      refine ⟨{ l with flights := l.flights ++ [(rid, tier)] }, .admitted, _, rfl, ?_, ?_⟩
      · rw [Ledger.act, verdict]
        simp
      · have found₂ : s₂.ipBuckets.lookup clientIp = some i := by
          rw [shape₂, shape₁]
          exact found
        obtain ⟨b₂, object₂, seen₂⟩ : ∃ b₂, s₂.objects[i]? = some b₂ ∧ b₂.lastSeen = s.clock := by
          refine ⟨b₁.setWindow ((b.window (.tier tier)).prune s.clock) (.tier tier), ?_, ?_⟩
          · rw [shape₂, modify, List.getElem?_modify, object₁]
            simp
          · rw [Buckets.lastSeen_setWindow, seen₁]
        have fresh₂ : ∀ f ∈ s₂.flights, f.rid ≠ rid := by
          rw [shape₂, shape₁]
          exact fresh
        have clock₂ := moved₂.clock
        rw [← clock₂]
        refine moved₂.trans ⟨rfl, moved₂.sound.admit found₂ fresh₂ tier, ?_, fun k other m old => ?_⟩
        · exact moved₂.own.admit found₂ object₂ (by rw [seen₂, clock₂]) rid tier
        · exact old.admit_other (Ne.symm other) rid i tier

/-- A metered request gets what the client's account says. -/
theorem meter_spec (sound : Sound config s) (agrees : Agrees s clientIp l) {rid : Nat}
    (fresh : ∀ f ∈ s.flights, f.rid ≠ rid) (tier : Tier) : ∃ l' outcome s',
    s.meter config rid clientIp tier s.clock = (outcome, s') ∧
      l.act config (.arrive rid tier s.clock) = some (l', outcome) ∧ Moved config s s' clientIp l' := by
  obtain ⟨i, s₁, got, found, clock, flights, sound₁, kept⟩ := bucketsOf_spec sound clientIp
  have moved₁ : Moved config s s₁ clientIp l := ⟨clock, sound₁, kept clientIp l agrees, fun k _ m old => kept k m old⟩
  obtain ⟨b, object⟩ : ∃ b, s₁.objects[i]? = some b := ⟨_, List.getElem?_eq_getElem (sound₁.made clientIp i found)⟩
  have moved₂ := moved₁.trans (Moved.of_tidied sound₁ moved₁.own (tidied_touch i))
  have seen : (s₁.modify i fun b => { b with lastSeen := s₁.clock }).objects[i]? =
      some { b with lastSeen := s₁.clock } := by
    rw [modify, List.getElem?_modify, object]
    simp
  obtain ⟨l', outcome, s', passed, said, moved₃⟩ := gates_spec moved₂.sound moved₂.own found seen rfl
    (flights ▸ fresh) tier
  refine ⟨l', outcome, s', ?_, ?_, moved₂.trans moved₃⟩
  · simp only [meter, got]
    rw [← clock]
    exact passed
  · rw [← clock]
    exact said

/-! ### The response -/

theorem Sound.land (sound : Sound config s) (rid : Nat) :
    Sound config { s with flights := s.flights.filter (·.rid ≠ rid) } where
  keys := sound.keys
  made := sound.made
  owner := sound.owner
  flight := fun f member => sound.flight f (List.mem_filter.mp member).1
  rids := (List.filter_sublist.map Flight.rid).nodup sound.rids
  seen := sound.seen
  limit := sound.limit
  sorted := sound.sorted
  past := sound.past

theorem Agrees.land (agrees : Agrees s clientIp l) (rid : Nat) :
    Agrees { s with flights := s.flights.filter (·.rid ≠ rid) } clientIp
      { l with flights := l.flights.filter (·.1 ≠ rid) } where
  flights := by
    rw [← agrees.flights, List.filter_map, List.filter_filter, List.filter_filter]
    refine congrArg _ (List.filter_congr fun f _ => ?_)
    exact Bool.and_comm ..
  past := agrees.past
  recent := agrees.recent
  seen := by
    intro i b found object
    obtain ⟨log, flights⟩ := agrees.seen i b found object
    exact ⟨log, fun f member => flights f (List.mem_filter.mp member).1⟩
  gone := by
    intro absent
    obtain ⟨log, flights⟩ := agrees.gone absent
    exact ⟨log, fun f member => flights f (List.mem_filter.mp member).1⟩

/-- The flight that a response is for, as its client's account has it. -/
theorem Agrees.lookup_flight (agrees : Agrees s clientIp l) {f : Flight} {rid : Nat}
    (waits : s.flights.find? (·.rid = rid) = some f) (own : f.clientIp = clientIp) : l.flights.lookup rid = some f.tier := by
  rw [← agrees.flights]
  generalize s.flights = flights at waits ⊢
  induction flights with
  | nil => cases waits
  | cons g flights ih =>
    by_cases here : g.rid = rid
    · rw [List.find?_cons_of_pos (by simpa using here)] at waits
      cases waits
      simp [own, here]
    · rw [List.find?_cons_of_neg (by simpa using here)] at waits
      have later := ih waits
      by_cases mine : g.clientIp = clientIp
      · simp only [mine, List.filter_cons, decide_true, if_true, List.map_cons, List.lookup_cons]
        rw [beq_eq_false_iff_ne.mpr (Ne.symm here)]
        exact later
      · simp only [mine, List.filter_cons, decide_false, Bool.false_eq_true, if_false]
        exact later

/-- Nobody else waits for the response of a flight. -/
theorem Agrees.flights_other (sound : Sound config s) (agrees : Agrees s clientIp l) {f : Flight} (member : f ∈ s.flights)
    (other : f.clientIp ≠ clientIp) : l.flights.filter (·.1 ≠ f.rid) = l.flights := by
  refine List.filter_eq_self.mpr fun u inside => ?_
  rw [← agrees.flights] at inside
  obtain ⟨g, there, rfl⟩ := List.mem_map.mp inside
  obtain ⟨flying, own⟩ := List.mem_filter.mp there
  have apart : g.rid ≠ f.rid := by
    intro same
    rw [List.inj_on_of_nodup_map sound.rids flying member same] at own
    exact other (by simpa using own)
  simpa using apart

/-- The answer of a flight stands in the buckets that it holds. -/
def answered (s : Limiter) (f : Flight) (lane : Lane) : Limiter :=
  s.modify f.buckets fun b => b.setWindow ((b.window lane).record s.clock) lane

theorem Sound.answered (sound : Sound config s) (f : Flight) (lane : Lane) : Sound config (s.answered f lane) := by
  have origin : ∀ b' ∈ (s.answered f lane).objects, ∃ b ∈ s.objects,
      b' = b ∨ b' = b.setWindow ((b.window lane).record s.clock) lane := by
    intro b' member
    obtain ⟨j, here⟩ := List.getElem?_of_mem member
    rw [Limiter.answered, modify, List.getElem?_modify] at here
    obtain ⟨b, old, shape⟩ := Option.map_eq_some_iff.mp here
    refine ⟨b, List.mem_of_getElem? old, ?_⟩
    split at shape
    · exact Or.inr shape.symm
    · exact Or.inl shape.symm
  have length : (s.answered f lane).objects.length = s.objects.length := List.length_modify ..
  have window : ∀ b' ∈ (s.answered f lane).objects, ∀ lane', ∃ b ∈ s.objects,
      b'.window lane' = b.window lane' ∨ b'.window lane' = (b.window lane').record s.clock := by
    intro b' member lane'
    obtain ⟨b, there, rfl | rfl⟩ := origin b' member
    · exact ⟨b', there, Or.inl rfl⟩
    · refine ⟨b, there, ?_⟩
      rw [Buckets.window_setWindow]
      split
      · rename_i same
        exact Or.inr (by rw [same])
      · exact Or.inl rfl
  refine ⟨sound.keys, ?_, sound.owner, ?_, sound.rids, fun b' member => ?_, fun b' member lane' => ?_,
    fun b' member lane' => ?_, fun b' member lane' t inside => ?_⟩
  · rw [length]
    exact sound.made
  · rw [length]
    exact sound.flight
  · obtain ⟨b, there, rfl | rfl⟩ := origin b' member
    · exact sound.seen b' there
    · rw [Buckets.lastSeen_setWindow]
      exact sound.seen b there
  · obtain ⟨b, there, same | recorded⟩ := window b' member lane'
    · rw [same, sound.limit b there]
    · rw [recorded, ← sound.limit b there]
      rfl
  · obtain ⟨b, there, same | recorded⟩ := window b' member lane'
    · rw [same]
      exact sound.sorted b there lane'
    · rw [recorded]
      exact pairwise_snoc (sound.sorted b there lane') (sound.past b there lane')
  · obtain ⟨b, there, same | recorded⟩ := window b' member lane'
    · rw [same] at inside
      exact sound.past b there lane' t inside
    · rw [recorded] at inside
      rcases List.mem_append.mp inside with old | new
      · exact sound.past b there lane' t old
      · exact (List.mem_singleton.mp new).le

/-- An answer in time finds the buckets of its client where they were. -/
theorem Agrees.answered (agrees : Agrees s clientIp l) {f : Flight} (member : f ∈ s.flights)
    (own : f.clientIp = clientIp) (prompt : s.clock ≤ f.now + patience) (lane : Lane) :
    Agrees (s.answered f lane) clientIp { l with log := l.log ++ [(lane, s.clock)] } := by
  cases found : s.ipBuckets.lookup clientIp with
  | none => exact absurd prompt (not_le.mpr ((agrees.gone found).2 f member own))
  | some i =>
    have held : ∀ j b', (s.answered f lane).ipBuckets.lookup clientIp = some j →
        (s.answered f lane).objects[j]? = some b' → ∃ b, s.objects[i]? = some b ∧ f.now ≤ b.lastSeen ∧ j = i ∧
          b' = b.setWindow ((b.window lane).record s.clock) lane := by
      intro j b' found' object
      obtain rfl : i = j := Option.some.inj (found.symm.trans found')
      rw [Limiter.answered, modify, List.getElem?_modify] at object
      obtain ⟨b, old, shape⟩ := Option.map_eq_some_iff.mp object
      rcases (agrees.seen i b found old).2 f member own with ⟨same, before⟩ | late
      · rw [if_pos same] at shape
        exact ⟨b, old, before, rfl, shape.symm⟩
      · exact absurd prompt (not_le.mpr late)
    refine ⟨agrees.flights, fun u inside => ?_, fun j b' found' object lane' cutoff order => ?_, fun j b' found' object => ?_,
      fun absent => ?_⟩
    · rcases List.mem_append.mp inside with old | new
      · exact agrees.past u old
      · rw [List.mem_singleton.mp new]
        exact le_rfl
    · obtain ⟨b, old, -, rfl, rfl⟩ := held j b' found' object
      have before := agrees.recent j b found old lane' cutoff order
      rw [Buckets.window_setWindow, Ledger.times_log_append]
      by_cases same : lane' = lane
      · subst same
        rw [if_pos rfl, if_pos rfl, SlidingWindow.record, since_append, since_append, before]
      · rw [if_neg same, if_neg (Ne.symm same), List.append_nil, before]
    · obtain ⟨b, old, before, rfl, rfl⟩ := held j b' found' object
      obtain ⟨log, flights⟩ := agrees.seen j b found old
      rw [Buckets.lastSeen_setWindow]
      refine ⟨fun u inside => ?_, flights⟩
      rcases List.mem_append.mp inside with old | new
      · exact log u old
      · rw [List.mem_singleton.mp new]
        exact prompt.trans (add_le_add_left before patience)
    · rw [show (s.answered f lane).ipBuckets = s.ipBuckets from rfl, found] at absent
      cases absent

theorem Agrees.answered_other (sound : Sound config s) (agrees : Agrees s clientIp l) {f : Flight}
    (member : f ∈ s.flights) (other : f.clientIp ≠ clientIp) (lane : Lane) : Agrees (s.answered f lane) clientIp l := by
  have object : ∀ i, s.ipBuckets.lookup clientIp = some i → (s.answered f lane).objects[i]? = s.objects[i]? := by
    intro i found
    have apart : f.buckets ≠ i := by
      rintro rfl
      exact other ((sound.flight f member).2.2 clientIp found).symm
    rw [Limiter.answered, modify, List.getElem?_modify]
    simp [apart]
  refine ⟨agrees.flights, agrees.past, fun i b found here => ?_, fun i b found here => ?_, agrees.gone⟩
  · rw [object i found] at here
    exact agrees.recent i b found here
  · rw [object i found] at here
    exact agrees.seen i b found here

/-! ### Whole runs -/

/-- An answer comes while its client's buckets cannot have been dropped. -/
def Prompt (s : Limiter) : Event → Prop
  | .response rid now _ => ∀ f ∈ s.flights, f.rid = rid → now ≤ f.now + patience
  | _ => True

instance (s : Limiter) : DecidablePred (Prompt s)
  | .response rid now _ => inferInstanceAs (Decidable (∀ f ∈ s.flights, f.rid = rid → now ≤ f.now + patience))
  | .request .. | .raised .. | .registerMediaPatterns .. | .unregisterMediaPatterns .. | .registerStandardPrefix ..
  | .unregisterStandardPrefix .. => .isTrue trivial

variable {ip : Panels.IpAddress} {proxies : Panels.Proxies ip}

/-- Every client has its account. -/
structure Accounts (config : Config) (s : Limiter) (ledgers : Text → Ledger) : Prop where
  sound : Sound config s
  agrees : ∀ k, Agrees s k (ledgers k)

/-- The accounts after a step: moved on by what was done to the client, if a client it was. -/
def Booked (config : Config) (s' : Limiter) (ledgers : Text → Ledger) : Option Entry → Prop
  | none => Accounts config s' ledgers
  | some entry => ∃ l', (ledgers entry.clientIp).act config entry.act = some (l', entry.outcome) ∧
      Accounts config s' (Function.update ledgers entry.clientIp l')

variable {ledgers : Text → Ledger}

theorem Accounts.moved {s' : Limiter} {l' : Ledger} (sound : Sound config s') (own : Agrees s' clientIp l')
    (others : ∀ k ≠ clientIp, Agrees s' k (ledgers k)) : Accounts config s' (Function.update ledgers clientIp l') := by
  refine ⟨sound, fun k => ?_⟩
  by_cases same : k = clientIp
  · subst same
    rw [Function.update_self]
    exact own
  · rw [Function.update_of_ne same]
    exact others k same

theorem Accounts.dispatch (accounts : Accounts config s ledgers) {now : ℚ} (later : s.clock ≤ now) {rid : Nat}
    (fresh : ∀ f ∈ s.flights, f.rid ≠ rid) (request : Request) :
    Booked config (s.dispatch config proxies rid now request).1 ledgers (s.dispatch config proxies rid now request).2 := by
  have ticked : Accounts config { s with clock := now } ledgers :=
    ⟨accounts.sound.tick later, fun k => (accounts.agrees k).tick later⟩
  have cleaned : Accounts config ({ s with clock := now }.cleanup now) ledgers :=
    ⟨ticked.sound.cleanup now, fun k => (ticked.agrees k).cleanup ticked.sound⟩
  unfold Limiter.dispatch
  by_cases enabled : config.enabled
  · by_cases options : request.method = text "OPTIONS"
    · simpa [Booked, enabled, options] using ticked
    · cases tier : s.registry.classify request.method request.path with
      | none => simpa [Booked, enabled, options, tier] using ticked
      | some tier' =>
        cases client : clientKey proxies request.origin with
        | mk clientIp exempt =>
          cases exempt with
          | true => simpa [Booked, enabled, options, tier, client] using cleaned
          | false =>
            have waiting : ∀ f ∈ ({ s with clock := now }.cleanup now).flights, f.rid ≠ rid := by
              rw [flights_cleanup]
              exact fresh
            obtain ⟨l', outcome, s', passed, said, moved⟩ :=
              meter_spec cleaned.sound (cleaned.agrees clientIp) waiting tier'
            rw [clock_cleanup] at passed said
            have booked : ∃ l', (ledgers clientIp).act config (.arrive rid tier' now) = some (l', outcome) ∧
                Accounts config s' (Function.update ledgers clientIp l') :=
              ⟨l', said, Accounts.moved moved.sound moved.own fun k other => moved.others k other _ (cleaned.agrees k)⟩
            simpa [Booked, enabled, options, tier, client, passed] using booked
  · simpa [Booked, enabled] using ticked

theorem Accounts.response (accounts : Accounts config s ledgers) {now : ℚ} (later : s.clock ≤ now) {rid : Nat} {f : Flight}
    (waits : s.flights.find? (·.rid = rid) = some f) (prompt : now ≤ f.now + patience) (status : Nat) :
    Booked config { s.record f status now with clock := now } ledgers
      (some ⟨f.clientIp, .answer rid status now, .recorded (laneOf f.tier status)⟩) := by
  have member : f ∈ s.flights := List.mem_of_find?_eq_some waits
  have same : f.rid = rid := by simpa using List.find?_some waits
  have sound := accounts.sound.tick later
  have agrees := fun k => (accounts.agrees k).tick later
  have shape : { s.record f status now with clock := now } =
      { answered { s with clock := now } f (laneOf f.tier status) with
        flights := s.flights.filter (·.rid ≠ rid) } := by
    rw [← same]
    rfl
  refine ⟨_, by rw [Ledger.act, (accounts.agrees f.clientIp).lookup_flight waits rfl]; rfl, ?_⟩
  rw [shape]
  refine Accounts.moved ((sound.answered f _).land rid) ?_ fun k other => ?_
  · exact ((agrees f.clientIp).answered member rfl prompt _).land rid
  · have away := Ne.symm other
    have apart : (ledgers k).flights.filter (·.1 ≠ rid) = (ledgers k).flights :=
      same ▸ (agrees k).flights_other sound member away
    have landed := ((agrees k).answered_other sound member away (laneOf f.tier status)).land rid
    rw [apart] at landed
    exact landed

theorem Accounts.raised (accounts : Accounts config s ledgers) {rid : Nat} {f : Flight}
    (waits : s.flights.find? (·.rid = rid) = some f) :
    Booked config { s with flights := s.flights.filter (·.rid ≠ f.rid) } ledgers (some ⟨f.clientIp, .abort rid, .dropped⟩) := by
  have member : f ∈ s.flights := List.mem_of_find?_eq_some waits
  have same : f.rid = rid := by simpa using List.find?_some waits
  refine ⟨_, by rw [Ledger.act, (accounts.agrees f.clientIp).lookup_flight waits rfl]; rfl, ?_⟩
  rw [same]
  refine Accounts.moved (accounts.sound.land rid) ((accounts.agrees _).land rid) fun k other => ?_
  have apart : (ledgers k).flights.filter (·.1 ≠ rid) = (ledgers k).flights :=
    same ▸ (accounts.agrees k).flights_other accounts.sound member (Ne.symm other)
  have landed := (accounts.agrees k).land rid
  rw [apart] at landed
  exact landed

/-- Plugins may register what they like in between. -/
theorem Accounts.register (accounts : Accounts config s ledgers) (registry : Registry) :
    Accounts config { s with registry } ledgers :=
  ⟨⟨accounts.sound.keys, accounts.sound.made, accounts.sound.owner, accounts.sound.flight, accounts.sound.rids,
      accounts.sound.seen, accounts.sound.limit, accounts.sound.sorted, accounts.sound.past⟩,
    fun k => ⟨(accounts.agrees k).flights, (accounts.agrees k).past, (accounts.agrees k).recent,
      (accounts.agrees k).seen, (accounts.agrees k).gone⟩⟩

theorem Accounts.step (accounts : Accounts config s ledgers) {event : Event} (prompt : Prompt s event) {s' : Limiter}
    {entry : Option Entry} (stepped : s.step config proxies event = some (s', entry)) : Booked config s' ledgers entry := by
  cases event with
  | request rid now request =>
    simp only [Limiter.step] at stepped
    split at stepped
    · cases stepped
    · rename_i open'
      obtain ⟨later, fresh⟩ := not_or.mp open'
      have dispatched : Booked config (s.dispatch config proxies rid now request).1 ledgers
          (s.dispatch config proxies rid now request).2 := accounts.dispatch (not_lt.mp later)
        (fun f member same => fresh ⟨f, member, same⟩) request
      rw [Option.some.inj stepped] at dispatched
      exact dispatched
  | response rid now status =>
    simp only [Limiter.step] at stepped
    split at stepped
    · cases stepped
    · rename_i later
      obtain ⟨f, waits, shape⟩ := Option.map_eq_some_iff.mp stepped
      have member : f ∈ s.flights := List.mem_of_find?_eq_some waits
      have same : f.rid = rid := by simpa using List.find?_some waits
      cases shape
      exact accounts.response (not_lt.mp later) waits (prompt f member same) status
  | raised rid =>
    obtain ⟨f, waits, shape⟩ := Option.map_eq_some_iff.mp stepped
    cases shape
    exact accounts.raised waits
  | registerMediaPatterns mount patterns =>
    cases stepped
    exact accounts.register _
  | unregisterMediaPatterns mount =>
    cases stepped
    exact accounts.register _
  | registerStandardPrefix mount =>
    cases stepped
    exact accounts.register _
  | unregisterStandardPrefix mount =>
    cases stepped
    exact accounts.register _

variable {fits : Limiter → Event → Prop} {trace : List Entry}

/-- The accounts that a run opens, one for each client over its own entries. -/
theorem Run.accounts (prompt : ∀ s event, fits s event → Prompt s event) (run : Run config proxies fits s trace) :
    ∃ ledgers, Accounts config s ledgers ∧ ∀ k, Ledger.replay config ((entriesOf k trace).map Entry.act) =
        some (ledgers k, (entriesOf k trace).map Entry.outcome) ∧
      ∀ lane, (ledgers k).times lane = answeredAt lane (entriesOf k trace) := by
  induction run with
  | start now => exact ⟨fun _ => {}, ⟨sound_initial config now, agrees_initial now⟩, fun _ => ⟨rfl, fun _ => rfl⟩⟩
  | @next s s' trace event entry run fit stepped ih =>
    obtain ⟨ledgers, accounts, replayed⟩ := ih
    have booked := accounts.step (prompt s event fit) stepped
    cases entry with
    | none =>
      refine ⟨ledgers, booked, ?_⟩
      simpa using replayed
    | some entry =>
      obtain ⟨l', said, accounts'⟩ := booked
      refine ⟨_, accounts', fun k => ?_⟩
      obtain ⟨run', times⟩ := replayed k
      rw [Option.toList_some, entriesOf_append]
      by_cases own : entry.clientIp = k
      · subst own
        have last : entriesOf entry.clientIp [entry] = [entry] := by simp [entriesOf]
        rw [last, List.map_append, List.map_append, Function.update_self]
        refine ⟨Ledger.replay_snoc run' said, fun lane => ?_⟩
        rw [answeredAt_append, ← times lane]
        exact Ledger.times_act said lane
      · have last : entriesOf k [entry] = [] := by simp [entriesOf, own]
        rw [last, List.append_nil, Function.update_of_ne (Ne.symm own)]
        exact ⟨run', times⟩

/-- The run up to one of its entries. -/
theorem Run.cut (run : Run config proxies fits s trace) {before after : List Entry} {entry : Entry}
    (split : trace = before ++ entry :: after) : ∃ s₀ event s₁, Run config proxies fits s₀ before ∧ fits s₀ event ∧
      s₀.step config proxies event = some (s₁, some entry) := by
  induction run generalizing after with
  | start now => exact absurd split.symm (by simp)
  | @next s s' trace event last run fit stepped ih =>
    cases last with
    | none => exact ih (by simpa using split)
    | some last =>
      rw [Option.toList_some] at split
      rcases List.eq_nil_or_concat after with rfl | ⟨after', last', rfl⟩
      · obtain ⟨same, ends⟩ := List.append_inj' split rfl
        cases ends
        subst same
        exact ⟨s, event, s', run, fit, stepped⟩
      · have longer : trace ++ [last] = (before ++ entry :: after') ++ [last'] := by simpa using split
        exact ih (List.append_inj' longer rfl).1

theorem verdict_of_act {l l' : Ledger} {rid : Nat} {tier : Tier} {now : ℚ} {outcome : Outcome}
    (said : l.act config (.arrive rid tier now) = some (l', outcome)) : Ledger.verdict config l.times tier now = outcome :=
  congrArg Prod.snd (Option.some.inj said)

/-- What the client was told at an entry is what its ledger, kept whole, tells it there. -/
theorem Run.said_at (prompt : ∀ s event, fits s event → Prompt s event) {before after : List Entry} {entry : Entry}
    (run : Run config proxies fits s (before ++ entry :: after)) :
    ∃ l l' : Ledger, l.act config entry.act = some (l', entry.outcome) ∧
      l.times = fun lane => answeredAt lane (entriesOf entry.clientIp before) := by
  obtain ⟨s₀, event, s₁, earlier, fit, stepped⟩ := run.cut rfl
  obtain ⟨ledgers, accounts, replayed⟩ := earlier.accounts prompt
  obtain ⟨l', said, -⟩ := accounts.step (prompt s₀ event fit) stepped
  exact ⟨_, l', said, funext (replayed entry.clientIp).2⟩

/-- Whatever else the limiter has been asked, and whatever it has forgotten: a request gets what
all the answers that its client was ever given in each window come to. -/
theorem Run.outcome_eq (prompt : ∀ s event, fits s event → Prompt s event) {before after : List Entry} {clientIp : Text}
    {rid : Nat} {tier : Tier} {now : ℚ} {outcome : Outcome}
    (run : Run config proxies fits s (before ++ ⟨clientIp, .arrive rid tier now, outcome⟩ :: after)) :
    outcome = Ledger.verdict config (fun lane => answeredAt lane (entriesOf clientIp before)) tier now := by
  obtain ⟨l, l', said, times⟩ := run.said_at prompt
  rw [← times]
  exact (verdict_of_act said).symm

def oneAMinute : Config where
  perMinute _ := 1

/-- A command for a device, sent from this address. -/
def command (host : String) : Request where
  method := text "POST"
  path := text "/api/devices/amp/command"
  origin := ⟨some (text host), none, false⟩

/-- A client sends a command, and two more; another client sends one as well. -/
def commands : List Event :=
  [.request 0 1 (command "10.0.0.5"), .request 9 1 (command "10.0.0.6"), .response 0 2 200,
    .request 1 3 (command "10.0.0.5"), .request 2 63 (command "10.0.0.5")]

def commandsBegun : List Entry :=
  [⟨text "10.0.0.5", .arrive 0 .control 1, .admitted⟩, ⟨text "10.0.0.6", .arrive 9 .control 1, .admitted⟩,
    ⟨text "10.0.0.5", .answer 0 200 2, .recorded (.tier .control)⟩]

def commandsTrace : List Entry :=
  commandsBegun ++ ⟨text "10.0.0.5", .arrive 1 .control 3, .refused (.tier .control) 59⟩ ::
    ([] ++ [⟨text "10.0.0.5", .arrive 2 .control 63, .admitted⟩])

theorem Run.outcome_eq_commands : .refused (.tier .control) 59 =
    Ledger.verdict oneAMinute (fun lane => answeredAt lane (entriesOf (text "10.0.0.5") commandsBegun)) .control 3 := by
  have played : (Limiter.play oneAMinute Panels.unproxied Prompt (initial 0) [] commands).map Prod.snd = some commandsTrace := by
    decide +kernel
  obtain ⟨_, run⟩ := Run.of_play played
  unfold commandsTrace at run
  exact run.outcome_eq fun _ _ fit => fit

end Limiter

end OpenAvc.Limits
