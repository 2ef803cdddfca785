import OpenAvc.Limits.Ledger

/-! What the rate limiter lets through in a minute, and what it tells those it turns away. -/

namespace OpenAvc.Limits

open SlidingLog

/-- Could the answer to a request of the tier stand in the window? -/
def Lane.counts : Lane → Tier → Bool
  | .tier own, asked => asked = own
  | .authFail, _ => true

namespace Ledger

variable {config : Config} {times : Lane → List ℚ} {now : ℚ} {tier : Tier}

/-- A request is admitted where every window that its answer may stand in has room. -/
theorem gates_open (admitted : verdict config times tier now = .admitted) : ∀ lane, lane.counts tier = true →
    ((since (now - windowSeconds) (times lane)).length : Int) < config.maxCount lane := by
  have closed : ∀ lane retry, refusal lane retry ≠ .admitted := refusal_ne_admitted
  have both : gate config times .authFail now = none ∧ gate config times (.tier tier) now = none := by
    unfold verdict at admitted
    split at admitted
    · exact absurd admitted (closed _ _)
    · exact absurd admitted (closed _ _)
    · rename_i auth own
      exact ⟨auth, own⟩
  have reads : ∀ lane, gate config times lane now = none →
      ((since (now - windowSeconds) (times lane)).length : Int) < config.maxCount lane := by
    intro lane none
    unfold gate at none
    by_contra full
    simp [not_lt.mp full] at none
  intro lane counts
  cases lane with
  | authFail => exact reads _ both.1
  | tier own =>
    obtain rfl : tier = own := by simpa [Lane.counts] using counts
    exact reads _ both.2

theorem gate_of_refusal {lane lane' : Lane} {retry : Option ℚ} {seconds : Nat}
    (closed : gate config times lane now = some retry) (refused : refusal lane retry = .refused lane' seconds) :
    lane = lane' ∧ config.maxCount lane ≤ (since (now - windowSeconds) (times lane)).length ∧
      ∃ first, (since (now - windowSeconds) (times lane)).head? = some first ∧
        seconds = make429 (first + windowSeconds - now) := by
  dsimp only [gate] at closed
  split at closed
  · rename_i full
    cases head : (since (now - windowSeconds) (times lane)).head? with
    | none =>
      rw [head] at closed
      cases closed
      cases refused
    | some first =>
      rw [head] at closed
      cases closed
      cases refused
      exact ⟨rfl, full, first, rfl, rfl⟩
  · cases closed

/-- A request is refused by a window that has its limit of answers, until the first of them goes. -/
theorem window_of_refused {lane : Lane} {seconds : Nat} (refused : verdict config times tier now = .refused lane seconds) :
    config.maxCount lane ≤ (since (now - windowSeconds) (times lane)).length ∧
      ∃ first, (since (now - windowSeconds) (times lane)).head? = some first ∧
        seconds = make429 (first + windowSeconds - now) := by
  cases auth : gate config times .authFail now with
  | some retry =>
    simp only [verdict, auth] at refused
    obtain ⟨rfl, window⟩ := gate_of_refusal auth refused
    exact window
  | none =>
    cases own : gate config times (.tier tier) now with
    | some retry =>
      simp only [verdict, auth, own] at refused
      obtain ⟨rfl, window⟩ := gate_of_refusal own refused
      exact window
    | none =>
      simp only [verdict, auth, own] at refused
      cases refused

end Ledger

namespace Limiter

variable {config : Config} {ip : Panels.IpAddress} {proxies : Panels.Proxies ip} {s s' : Limiter} {clientIp : Text}
variable {fits : Limiter → Event → Prop}

/-- The requests under way whose answers the window may come to hold. -/
def waiting (l : Ledger) (lane : Lane) : Nat :=
  l.flights.countP fun u => Lane.counts lane u.2

/-- What keeps a client with at most `c` requests under way within its budgets: what is in a
window, with what may still come into it, is never more than `c - 1` above the limit. -/
structure Budget (config : Config) (c : Nat) (l : Ledger) (now : ℚ) : Prop where
  few : l.flights.length ≤ c
  sorted : ∀ lane, (l.times lane).Pairwise (· ≤ ·)
  past : ∀ lane, ∀ t ∈ l.times lane, t ≤ now
  room : ∀ lane, (since (now - windowSeconds) (l.times lane)).length + waiting l lane ≤
    (config.maxCount lane).toNat + (c - 1)
  bound : ∀ lane, ∀ t ∈ l.times lane, (within windowSeconds t (l.times lane)).length ≤
    (config.maxCount lane).toNat + (c - 1)

variable {c : Nat} {l l' : Ledger} {now : ℚ}

theorem Budget.empty (config : Config) (c : Nat) (now : ℚ) : Budget config c {} now where
  few := Nat.zero_le c
  sorted := fun _ => List.Pairwise.nil
  past := by simp [Ledger.times]
  room := by simp [Ledger.times, waiting]
  bound := by simp [Ledger.times]

theorem Budget.tick (budget : Budget config c l now) {now' : ℚ} (later : now ≤ now') : Budget config c l now' where
  few := budget.few
  sorted := budget.sorted
  past := fun lane t member => (budget.past lane t member).trans later
  room := by
    intro lane
    have shorter := length_since_mono (sub_le_sub_right later windowSeconds) (l.times lane)
    have before := budget.room lane
    omega
  bound := budget.bound

/-- A request that is admitted found room in every window that its answer may stand in. -/
theorem Budget.admit (budget : Budget config c l now) {tier : Tier} {rid : Nat} (few : l.flights.length < c)
    (admitted : Ledger.verdict config l.times tier now = .admitted) :
    Budget config c { l with flights := l.flights ++ [(rid, tier)] } now where
  few := by
    rw [List.length_append]
    exact few
  sorted := budget.sorted
  past := budget.past
  room := by
    intro lane
    have before := budget.room lane
    have same : Ledger.times { l with flights := l.flights ++ [(rid, tier)] } lane = l.times lane := rfl
    have flying : waiting l lane ≤ l.flights.length := List.countP_le_length
    rw [same]
    by_cases counts : Lane.counts lane tier = true
    · have space := Ledger.gates_open admitted lane counts
      have more : waiting { l with flights := l.flights ++ [(rid, tier)] } lane = waiting l lane + 1 := by
        simp [waiting, counts]
      omega
    · have still : waiting { l with flights := l.flights ++ [(rid, tier)] } lane = waiting l lane := by
        simp [waiting, counts]
      omega
  bound := budget.bound

/-- A request that has ended does not wait any more. -/
theorem waiting_land {rid : Nat} {tier : Tier} (waits : l.flights.lookup rid = some tier) (log : List (Lane × ℚ)) (lane : Lane) :
    waiting { log, flights := l.flights.filter (·.1 ≠ rid) } lane + (if Lane.counts lane tier then 1 else 0) ≤
      waiting l lane := by
  have member := List.mem_of_lookup_eq_some waits
  have parts := List.countP_eq_countP_filter_add l.flights (fun u => Lane.counts lane u.2) (·.1 ≠ rid)
  have split : waiting l lane = waiting { log, flights := l.flights.filter (·.1 ≠ rid) } lane +
      (l.flights.filter fun u => !decide (u.1 ≠ rid)).countP fun u => Lane.counts lane u.2 := parts
  by_cases counts : Lane.counts lane tier = true
  · have here : 0 < (l.flights.filter fun u => !decide (u.1 ≠ rid)).countP fun u => Lane.counts lane u.2 := by
      refine List.countP_pos_iff.mpr ⟨(rid, tier), List.mem_filter.mpr ⟨member, by simp⟩, counts⟩
    rw [if_pos counts]
    omega
  · rw [if_neg counts]
    omega

theorem Budget.land (budget : Budget config c l now) {rid : Nat} {tier : Tier} (waits : l.flights.lookup rid = some tier) :
    Budget config c { l with flights := l.flights.filter (·.1 ≠ rid) } now where
  few := (List.length_filter_le ..).trans budget.few
  sorted := budget.sorted
  past := budget.past
  room := by
    intro lane
    have before := budget.room lane
    have fewer := waiting_land waits l.log lane
    have same : Ledger.times { l with flights := l.flights.filter (·.1 ≠ rid) } lane = l.times lane := rfl
    rw [same]
    omega
  bound := budget.bound

/-- An answer takes the room that its request held. -/
theorem Budget.answer (budget : Budget config c l now) {rid : Nat} {tier : Tier} (waits : l.flights.lookup rid = some tier)
    {lane : Lane} (counts : Lane.counts lane tier = true) :
    Budget config c { log := l.log ++ [(lane, now)], flights := l.flights.filter (·.1 ≠ rid) } now := by
  have landed := budget.land waits
  have times : ∀ lane', Ledger.times { log := l.log ++ [(lane, now)], flights := l.flights.filter (·.1 ≠ rid) } lane' =
      l.times lane' ++ if lane = lane' then [now] else [] := fun lane' => Ledger.times_log_append ..
  have past : ∀ lane', ∀ t ∈ l.times lane' ++ (if lane = lane' then [now] else []), t ≤ now := by
    intro lane' t member
    rcases List.mem_append.mp member with old | new
    · exact budget.past lane' t old
    · split at new
      · exact (List.mem_singleton.mp new).le
      · exact absurd new List.not_mem_nil
  have room : ∀ lane', (since (now - windowSeconds) (l.times lane' ++ if lane = lane' then [now] else [])).length +
      waiting { log := l.log ++ [(lane, now)], flights := l.flights.filter (·.1 ≠ rid) } lane' ≤
        (config.maxCount lane').toNat + (c - 1) := by
    intro lane'
    have before := budget.room lane'
    have fewer := waiting_land waits (l.log ++ [(lane, now)]) lane'
    rw [since_append, List.length_append]
    split
    · rename_i same
      subst same
      have one : (since (now - windowSeconds) [now]).length ≤ 1 := List.length_filter_le ..
      rw [if_pos counts] at fewer
      omega
    · simp only [since_nil, List.length_nil]
      omega
  refine ⟨landed.few, fun lane' => ?_, fun lane' => ?_, fun lane' => ?_, fun lane' t member => ?_⟩
  · rw [times]
    split
    · exact pairwise_snoc (budget.sorted lane') (budget.past lane')
    · rw [List.append_nil]
      exact budget.sorted lane'
  · rw [times]
    exact past lane'
  · rw [times]
    exact room lane'
  · rw [times] at member ⊢
    by_cases last : t = now
    · subst last
      have all := room lane'
      rw [within_eq_since (past lane')]
      omega
    · have before : t < now := lt_of_le_of_ne (past lane' t member) last
      by_cases same : lane = lane'
      · rw [if_pos same] at member ⊢
        have old : t ∈ l.times lane' := by
          rcases List.mem_append.mp member with old | new
          · exact old
          · exact absurd (List.mem_singleton.mp new) last
        have apart : within windowSeconds t (l.times lane' ++ [now]) = within windowSeconds t (l.times lane') := by
          simp [within, List.filter_append, not_le.mpr before]
        rw [apart]
        exact budget.bound lane' t old
      · rw [if_neg same, List.append_nil] at member ⊢
        exact budget.bound lane' t member

/-- A client's requests come only while fewer than `c` of them are under way. -/
def AtMost (proxies : Panels.Proxies ip) (c : Nat) (clientIp : Text) (s : Limiter) : Event → Prop
  | .request _ _ request => (clientKey proxies request.origin).1 = clientIp →
      (s.flights.filter (·.clientIp = clientIp)).length < c
  | _ => True

instance (c : Nat) (clientIp : Text) (s : Limiter) : DecidablePred (AtMost proxies c clientIp s)
  | .request _ _ request => inferInstanceAs (Decidable ((clientKey proxies request.origin).1 = clientIp →
      (s.flights.filter (·.clientIp = clientIp)).length < c))
  | .response .. | .raised .. | .registerMediaPatterns .. | .unregisterMediaPatterns .. | .registerStandardPrefix ..
  | .unregisterStandardPrefix .. => .isTrue trivial

theorem clock_refuse (ip : Text) (lane : Lane) (retry : Option ℚ) : (s.refuse ip lane now retry).2.clock = s.clock := by
  exact (tidied_refuse ip lane now retry).clock

theorem clock_gates (rid i : Nat) (tier : Tier) : (s.gates rid clientIp i tier now).2.clock = s.clock := by
  unfold gates
  split
  · rfl
  · dsimp only
    split
    · exact clock_refuse ..
    · split
      · exact clock_refuse ..
      · rfl

theorem clock_meter (rid : Nat) (tier : Tier) : (s.meter config rid clientIp tier now).2.clock = s.clock := by
  unfold meter bucketsOf
  split
  · rename_i found
    split at found <;> cases found <;> exact clock_gates ..

theorem clock_dispatch (rid : Nat) (request : Request) : (s.dispatch config proxies rid now request).1.clock = now := by
  unfold dispatch
  split
  · rfl
  · split
    · rfl
    · dsimp only
      split
      · rfl
      · split
        · rw [clock_cleanup]
        · rw [clock_meter, clock_cleanup]

/-- A metered request comes from its client, at the time that it comes. -/
theorem dispatch_entry {rid : Nat} {request : Request} {entry : Entry}
    (metered : (s.dispatch config proxies rid now request).2 = some entry) :
    entry.clientIp = (clientKey proxies request.origin).1 ∧ ∃ tier, entry.act = .arrive rid tier now := by
  unfold dispatch at metered
  by_cases enabled : config.enabled
  · by_cases options : request.method = text "OPTIONS"
    · simp [enabled, options] at metered
    · cases tier : s.registry.classify request.method request.path with
      | none => simp [enabled, options, tier] at metered
      | some tier' =>
        cases client : clientKey proxies request.origin with
        | mk clientIp exempt =>
          cases exempt with
          | true => simp [enabled, options, tier, client] at metered
          | false =>
            simp only [enabled, options, tier, client, Bool.not_true, Bool.false_eq_true, if_false,
              Option.some.injEq] at metered
            subst metered
            exact ⟨rfl, tier', rfl⟩
  · simp [enabled] at metered

variable {event : Event} {entry : Option Entry}

theorem clock_step (stepped : s.step config proxies event = some (s', entry)) : s.clock ≤ s'.clock := by
  cases event with
  | request rid now request =>
    simp only [step] at stepped
    split at stepped
    · cases stepped
    · rename_i later
      have ends := congrArg (fun r => r.1.clock) (Option.some.inj stepped)
      rw [clock_dispatch] at ends
      exact (not_lt.mp (not_or.mp later).1).trans_eq ends
  | response rid now status =>
    simp only [step] at stepped
    split at stepped
    · cases stepped
    · rename_i later
      obtain ⟨f, -, shape⟩ := Option.map_eq_some_iff.mp stepped
      cases shape
      exact not_lt.mp later
  | raised rid =>
    obtain ⟨f, -, shape⟩ := Option.map_eq_some_iff.mp stepped
    cases shape
    exact le_rfl
  | registerMediaPatterns mount patterns => cases stepped; exact le_rfl
  | unregisterMediaPatterns mount => cases stepped; exact le_rfl
  | registerStandardPrefix mount => cases stepped; exact le_rfl
  | unregisterStandardPrefix mount => cases stepped; exact le_rfl

/-- A request is metered at the time that the clock then has. -/
theorem clock_arrive {clientIp : Text} {rid : Nat} {tier : Tier} {outcome : Outcome}
    (stepped : s.step config proxies event = some (s', some ⟨clientIp, .arrive rid tier now, outcome⟩)) :
    s'.clock = now := by
  cases event with
  | request rid' now' request =>
    simp only [step] at stepped
    split at stepped
    · cases stepped
    · have parts := Option.some.inj stepped
      have ends := congrArg (fun r => r.1.clock) parts
      rw [clock_dispatch] at ends
      obtain ⟨-, tier', arrive⟩ := dispatch_entry (congrArg Prod.snd parts)
      cases arrive
      exact ends.symm
  | response rid' now' status =>
    simp only [step] at stepped
    split at stepped
    · cases stepped
    · obtain ⟨f, -, shape⟩ := Option.map_eq_some_iff.mp stepped
      cases shape
  | raised rid' =>
    obtain ⟨f, -, shape⟩ := Option.map_eq_some_iff.mp stepped
    cases shape
  | registerMediaPatterns mount patterns => cases stepped
  | unregisterMediaPatterns mount => cases stepped
  | registerStandardPrefix mount => cases stepped
  | unregisterStandardPrefix mount => cases stepped

theorem counts_laneOf (tier : Tier) (status : Nat) : Lane.counts (laneOf tier status) tier = true := by
  unfold laneOf
  split <;> simp [Lane.counts]

variable {ledgers : Text → Ledger}

/-- A step of the client's own keeps it within its budgets. -/
theorem Budget.step (accounts : Accounts config s ledgers) (budget : Budget config c (ledgers clientIp) s.clock)
    (few : AtMost proxies c clientIp s event) {entry : Entry} (own : entry.clientIp = clientIp)
    (stepped : s.step config proxies event = some (s', some entry))
    (said : (ledgers clientIp).act config entry.act = some (l', entry.outcome)) : Budget config c l' s'.clock := by
  have ticked := budget.tick (clock_step stepped)
  cases event with
  | request rid now request =>
    simp only [Limiter.step] at stepped
    split at stepped
    · cases stepped
    · have parts := Option.some.inj stepped
      have clock : s'.clock = now := by
        have ends := congrArg (fun r => r.1.clock) parts
        rw [clock_dispatch] at ends
        exact ends.symm
      obtain ⟨client, tier, arrive⟩ := dispatch_entry (congrArg Prod.snd parts)
      rw [arrive] at said
      obtain ⟨shape, -⟩ := Prod.mk.inj (Option.some.inj said)
      rw [← shape]
      split
      · rename_i admitted
        refine ticked.admit ?_ (clock ▸ admitted)
        rw [← (accounts.agrees clientIp).flights, List.length_map]
        exact few (client.symm.trans own)
      · exact ticked
  | response rid now status =>
    simp only [Limiter.step] at stepped
    split at stepped
    · cases stepped
    · obtain ⟨f, -, shape⟩ := Option.map_eq_some_iff.mp stepped
      cases shape
      obtain ⟨tier, waits, booked⟩ := Option.map_eq_some_iff.mp said
      rw [← (Prod.mk.inj booked).1]
      exact ticked.answer waits (counts_laneOf tier status)
  | raised rid =>
    obtain ⟨f, -, shape⟩ := Option.map_eq_some_iff.mp stepped
    cases shape
    obtain ⟨tier, waits, booked⟩ := Option.map_eq_some_iff.mp said
    cases booked
    exact ticked.land waits
  | registerMediaPatterns mount patterns => cases stepped
  | unregisterMediaPatterns mount => cases stepped
  | registerStandardPrefix mount => cases stepped
  | unregisterStandardPrefix mount => cases stepped

/-- The runs in which answers come in time, and a client has at most `c` requests under way. -/
def Orderly (proxies : Panels.Proxies ip) (c : Nat) (clientIp : Text) (s : Limiter) (event : Event) : Prop :=
  Prompt s event ∧ AtMost proxies c clientIp s event

instance (c : Nat) (clientIp : Text) (s : Limiter) : DecidablePred (Orderly proxies c clientIp s) :=
  fun _ => inferInstanceAs (Decidable (_ ∧ _))

theorem Run.budget {trace : List Entry} (run : Run config proxies (Orderly proxies c clientIp) s trace) :
    ∃ l, (∀ lane, l.times lane = answeredAt lane (entriesOf clientIp trace)) ∧ Budget config c l s.clock := by
  have joint : ∃ ledgers, Accounts config s ledgers ∧
      (∀ lane, (ledgers clientIp).times lane = answeredAt lane (entriesOf clientIp trace)) ∧
      Budget config c (ledgers clientIp) s.clock := by
    induction run with
    | start now => exact ⟨fun _ => {}, ⟨sound_initial config now, agrees_initial now⟩, fun _ => rfl, Budget.empty ..⟩
    | @next s s' trace event entry run fit stepped ih =>
      obtain ⟨ledgers, accounts, times, budget⟩ := ih
      have booked := accounts.step fit.1 stepped
      have ticked := budget.tick (clock_step stepped)
      cases entry with
      | none => exact ⟨ledgers, booked, by simpa using times, ticked⟩
      | some entry =>
        obtain ⟨l', said, accounts'⟩ := booked
        refine ⟨_, accounts', ?_⟩
        rw [Option.toList_some, entriesOf_append]
        by_cases own : entry.clientIp = clientIp
        · have last : entriesOf clientIp [entry] = [entry] := by simp [entriesOf, own]
          rw [own] at said ⊢
          rw [last, Function.update_self]
          refine ⟨fun lane => ?_, budget.step accounts fit.2 own stepped said⟩
          rw [answeredAt_append, ← times lane]
          exact Ledger.times_act said lane
        · have last : entriesOf clientIp [entry] = [] := by simp [entriesOf, own]
          rw [last, List.append_nil, Function.update_of_ne (Ne.symm own)]
          exact ⟨times, ticked⟩
  obtain ⟨ledgers, -, rest⟩ := joint
  exact ⟨ledgers clientIp, rest⟩

theorem commands_orderly :
    ∃ s, Run oneAMinute Panels.unproxied (Orderly Panels.unproxied 1 (text "10.0.0.5")) s commandsTrace := by
  have played : (Limiter.play oneAMinute Panels.unproxied (Orderly Panels.unproxied 1 (text "10.0.0.5")) (initial 0) [] commands).map
      Prod.snd = some commandsTrace := by decide +kernel
  exact Run.of_play played

theorem le_make429 (retry : ℚ) : retry ≤ make429 retry := by
  have whole : ((make429 retry : ℤ) : ℚ) = (max 1 ⌈retry⌉ : ℤ) := by
    rw [make429, Int.toNat_of_nonneg (by omega)]
  have above : (⌈retry⌉ : ℚ) ≤ (max 1 ⌈retry⌉ : ℤ) := by exact_mod_cast le_max_right ..
  rw [← Int.cast_natCast, whole]
  exact (Int.le_ceil retry).trans above

theorem make429_lt {retry : ℚ} (more : 1 < make429 retry) : (make429 retry : ℚ) < retry + 1 := by
  have same : ((make429 retry : ℤ) : ℚ) = (⌈retry⌉ : ℤ) := by
    unfold make429 at more ⊢
    have positive : (max 1 ⌈retry⌉).toNat = ⌈retry⌉ := by omega
    exact_mod_cast positive
  rw [← Int.cast_natCast, same]
  exact Int.ceil_lt_add_one retry

end Limiter

end OpenAvc.Limits
