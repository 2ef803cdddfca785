import OpenAvc.Cloud.Batches

/-! When everything has been flushed, the cloud's copy is the local state. -/

namespace OpenAvc.Cloud

namespace Relay

variable {py : Digits} {mask : Text → Text} {s s' : Relay} {K : Text → Prop}

/-- The cloud's copy, once the snapshot has cleared it. -/
def view (s : Relay) : List (Text × Primitive) :=
  if s.clearing then [] else s.cloud

/-- What the cloud should have under the key. -/
def expected (mask : Text → Text) (s : Relay) (k : Text) : Option Primitive :=
  (s.store.lookup k).map (cloudStateValue mask)

/-- The cloud has what it should, and what still waits is older than what was sent. -/
def Settled (mask : Text → Text) (s : Relay) (k : Text) : Prop :=
  s.view.lookup k = s.expected mask k ∧ ∀ c, s.Pending c → c.key = k →
    ∃ d ∈ s.sent, d.key = k ∧ d.effect = s.expected mask k ∧ (c = d ∨ c.ts < d.ts)

/-- The newest change of the key waits, and it is what the cloud should have. -/
def Due (mask : Text → Text) (s : Relay) (k : Text) : Prop :=
  ∃ c, s.Pending c ∧ c.key = k ∧ c.effect = s.expected mask k ∧
    ∀ d, s.Pending d ∨ d ∈ s.sent → d.key = k → d = c ∨ d.ts < c.ts

/-- What holds in every state, `K` being keys whose last change is not in a batch yet. -/
structure Sound (mask : Text → Text) (K : Text → Prop) (s : Relay) : Prop where
  snapshotFirst : s.snapshot ≠ none → ∀ t, s.sending t = []
  uncleared : s.clearing = true → s.snapshot ≠ none ∧ s.sent = []
  snapshotOnce : ∀ l, s.snapshot = some l → ((s.sent ++ l).map Change.key).Nodup
  moments : ∀ c, s.Pending c ∨ c ∈ s.sent → c.ts ≤ s.clock ∧ isCloudExcludedKey c.key = false
  dated : s.Dated
  distinct : ∀ t, ((s.sending t).map Change.key).Nodup
  excluded : ∀ k, isCloudExcludedKey k = true → s.view.lookup k = none
  keys : ∀ k, isCloudExcludedKey k = false → ¬K k → Settled mask s k ∨ Due mask s k

/-- A change that is put in a batch is what the cloud should have of its key. -/
theorem Sound.queued (sound : Sound mask K s) {key : Text} {value : Primitive}
    (shared : isCloudExcludedKey key = false) (reflects : (s.entry mask key value).effect = s.expected mask key)
    (tier : Tier) (cache : List (Text × Tier)) :
    Sound mask (fun k => K k ∧ k ≠ key) { s with
      clock := s.clock + 1
      batches := Function.update s.batches tier (s.batches tier ++ [s.entry mask key value])
      tierCache := cache } := by
  refine ⟨sound.snapshotFirst, sound.uncleared, sound.snapshotOnce, fun c there => ?_, sound.dated.queued rfl tier cache,
    sound.distinct, sound.excluded, fun k shared' exempt => ?_⟩
  · rcases there with waits | sent
    · rcases Pending.queued.mp waits with old | rfl
      · have before := sound.moments c (Or.inl old)
        exact ⟨before.1.trans (Nat.le_succ _), before.2⟩
      · exact ⟨le_rfl, shared⟩
    · have before := sound.moments c (Or.inr sent)
      exact ⟨before.1.trans (Nat.le_succ _), before.2⟩
  · by_cases here : k = key
    · subst here
      refine Or.inr ⟨s.entry mask k value, Pending.queued.mpr (Or.inr rfl), rfl, reflects, fun d there name => ?_⟩
      rcases there with waits | sent
      · rcases Pending.queued.mp waits with old | new
        · exact Or.inr (Nat.lt_succ_of_le (sound.moments d (Or.inl old)).1)
        · exact Or.inl new
      · exact Or.inr (Nat.lt_succ_of_le (sound.moments d (Or.inr sent)).1)
    · have other : ∀ c, c.key = k → c ≠ s.entry mask key value := by
        rintro c rfl rfl
        exact here rfl
      rcases sound.keys k shared' (fun inside => exempt ⟨inside, here⟩) with settled | ⟨c, waits, name, effect, newest⟩
      · refine Or.inl ⟨settled.1, fun c waits name => ?_⟩
        rcases Pending.queued.mp waits with old | new
        · exact settled.2 c old name
        · exact absurd new (other c name)
      · refine Or.inr ⟨c, Pending.queued.mpr (Or.inl waits), name, effect, fun d there key => ?_⟩
        rcases there with waits | sent
        · rcases Pending.queued.mp waits with old | new
          · exact newest d (Or.inl old) key
          · exact absurd new (other d key)
        · exact newest d (Or.inr sent) key

/-- `_key_tier` does not raise for the key. -/
def Known (py : Digits) (s : Relay) (key : Text) : Prop :=
  isCloudExcludedKey key = true ∨ (keyTier py s.drivers s.tierCache key).isSome

theorem Sound.mono (sound : Sound mask K s) {K' : Text → Prop} (fewer : ∀ k, K k → K' k) : Sound mask K' s :=
  { sound with keys := fun k shared exempt => sound.keys k shared fun inside => exempt (fewer k inside) }

theorem Sound.onStateChange (sound : Sound mask K s) {key : Text} {value : Primitive} (known : s.Known py key)
    (reflects : (s.entry mask key value).effect = s.expected mask key) :
    Sound mask (fun k => K k ∧ k ≠ key) (s.onStateChange py mask key value) := by
  unfold Relay.onStateChange
  split
  · rename_i excluded
    refine { sound with keys := fun k shared exempt => sound.keys k shared fun inside => exempt ⟨inside, ?_⟩ }
    rintro rfl
    rw [excluded] at shared
    cases shared
  · rename_i shared
    split
    · rename_i raises
      rcases known with excluded | known
      · exact absurd excluded shared
      · rw [raises] at known
        cases known
    · exact sound.queued (Bool.eq_false_iff.mpr shared) reflects _ _

/-- A store that differs in the keys `K'` only. -/
theorem Sound.stored (sound : Sound mask K s) {K' : Text → Prop} {store : List (Text × Primitive)}
    (same : ∀ k, ¬K' k → store.lookup k = s.store.lookup k) :
    Sound mask (fun k => K k ∨ K' k) { s with store := store } := by
  refine { sound with keys := fun k shared exempt => ?_ }
  obtain ⟨outside, kept⟩ := not_or.mp exempt
  have expected : Relay.expected mask { s with store := store } k = s.expected mask k := by
    simp only [Relay.expected, same k kept]
  have before := sound.keys k shared outside
  unfold Settled Due at before ⊢
  rw [expected]
  exact before

theorem store_onStateChange (s : Relay) (key : Text) (value : Primitive) :
    (s.onStateChange py mask key value).store = s.store := by
  rcases onStateChange_cases s key value with same | ⟨_, _, same⟩ <;> rw [same]

/-- A change of one key leaves the tiers of the others. -/
theorem Known.onStateChange {k key : Text} (known : s.Known py k) (other : k ≠ key) (value : Primitive) :
    (s.onStateChange py mask key value).Known py k := by
  unfold Relay.onStateChange
  split
  · exact known
  · split
    · exact known
    · rename_i tier cache found
      rcases known with excluded | known
      · exact Or.inl excluded
      · right
        have cached : cache.lookup k = s.tierCache.lookup k := by
          unfold keyTier at found
          split at found
          · cases found
            rfl
          · obtain ⟨_, _, same⟩ := Option.map_eq_some_iff.mp found
            cases same
            exact Dict.lookup_set_of_ne other _ _
        have kept : (if (s.entry mask key value).deleted then cache.filter fun u => u.1 ≠ key else cache).lookup k =
            s.tierCache.lookup k := by
          split
          · have filtered := List.lookup_filter_keys (fun k => decide (k ≠ key)) k cache
            rw [filtered, if_pos (by simpa using other), cached]
          · exact cached
        have raises : ∀ d, (keyTier py s.drivers d k).isSome =
            ((d.lookup k).isSome || (computeTier py s.drivers k).isSome) := by
          intro d
          unfold keyTier
          cases d.lookup k <;> simp
        rw [raises] at known
        rw [← kept] at known
        exact (raises _).trans known

theorem Sound.notify (changes : List (Text × Primitive)) (sound : Sound mask (fun k => k ∈ changes.map Prod.fst) s)
    (distinct : (changes.map Prod.fst).Nodup) (values : ∀ u ∈ changes, s.store.lookup u.1 = some u.2)
    (known : ∀ u ∈ changes, s.Known py u.1) : Sound mask (fun _ => False) (s.notify py mask changes) := by
  induction changes generalizing s with
  | nil => exact sound.mono fun k member => by cases member
  | cons u changes ih =>
    obtain ⟨apart, distinct⟩ := List.nodup_cons.mp distinct
    have reflects : (s.entry mask u.1 u.2).effect = s.expected mask u.1 := by
      simp [entry, Change.effect, expected, values u List.mem_cons_self]
    have next := sound.onStateChange (known u List.mem_cons_self) reflects
    have others : ∀ w ∈ changes, w.1 ≠ u.1 := fun w later same => apart (same ▸ List.mem_map_of_mem later)
    refine ih (next.mono fun k there => ?_) distinct (fun w later => ?_) fun w later => ?_
    · exact (List.mem_cons.mp there.1).resolve_left there.2
    · rw [store_onStateChange]
      exact values w (List.mem_cons_of_mem _ later)
    · exact (known w (List.mem_cons_of_mem _ later)).onStateChange (others w later) _

theorem Sound.set (sound : Sound mask (fun _ => False) s) {key : Text} {value : Primitive}
    (known : s.holds key value = false → s.Known py key) : Sound mask (fun _ => False) (s.set py mask key value) := by
  unfold Relay.set
  split
  · exact sound
  · rename_i differs
    have known := known (Bool.eq_false_iff.mpr differs)
    have same : ∀ k, ¬k = key → (Dict.set s.store key value).lookup k = s.store.lookup k :=
      fun k other => Dict.lookup_set_of_ne other _ _
    have stored := sound.stored same
    have reflects : (Relay.entry mask { s with store := Dict.set s.store key value } key value).effect =
        Relay.expected mask { s with store := Dict.set s.store key value } key := by
      simp [entry, Change.effect, expected]
    exact (stored.onStateChange known reflects).mono fun k inside => inside.2 (inside.1.resolve_left id)

theorem Sound.delete (sound : Sound mask (fun _ => False) s) {key : Text}
    (known : s.store.lookup key ≠ none → s.Known py key) : Sound mask (fun _ => False) (s.delete py mask key) := by
  unfold Relay.delete
  split
  · exact sound
  · rename_i present
    have known := known fun absent => present (by rw [absent]; rfl)
    have filtered := fun k => List.lookup_filter_keys (fun k => decide (k ≠ key)) k s.store
    have same : ∀ k, ¬k = key → (s.store.filter fun u => u.1 ≠ key).lookup k = s.store.lookup k :=
      fun k other => by rw [filtered, if_pos (by simpa using other)]
    have stored := sound.stored same
    have gone : (s.store.filter fun u => u.1 ≠ key).lookup key = none := by
      rw [filtered, if_neg (by simp)]
    have reflects : (Relay.entry mask { s with store := s.store.filter fun u => u.1 ≠ key } key .none).effect =
        Relay.expected mask { s with store := s.store.filter fun u => u.1 ≠ key } key := by
      unfold entry Change.effect expected
      dsimp only
      rw [gone]
      simp
    exact (stored.onStateChange known reflects).mono fun k inside => inside.2 (inside.1.resolve_left id)

theorem Sound.setBatch (sound : Sound mask (fun _ => False) s) {updates : List (Text × Primitive)}
    (distinct : (updates.map Prod.fst).Nodup) (known : ∀ u ∈ updates, s.holds u.1 u.2 = false → s.Known py u.1) :
    Sound mask (fun _ => False) (s.setBatch py mask updates) := by
  unfold Relay.setBatch
  dsimp only
  generalize filtered : updates.filter (fun u => !s.holds u.1 u.2) = changes
  have subset : changes.Sublist updates := filtered ▸ List.filter_sublist
  have distinct := distinct.sublist (subset.map Prod.fst)
  have walk := Dict.lookup_walk (α := Text × Primitive) Prod.fst Prod.snd changes s.store
  have same : ∀ k, k ∉ changes.map Prod.fst →
      (changes.foldl (fun (d : List (Text × Primitive)) (u : Text × Primitive) => Dict.set d u.1 u.2) s.store).lookup k =
        s.store.lookup k := by
    intro k absent
    rcases walk k with ⟨same, _⟩ | ⟨u, member, same, _⟩
    · exact same
    · exact absurd (List.mem_map.mpr ⟨u, member, same⟩) absent
  have stored := sound.stored same
  have known : ∀ u ∈ changes, s.Known py u.1 := by
    intro u member
    rw [← filtered] at member
    obtain ⟨member, differs⟩ := List.mem_filter.mp member
    exact known u member (by simpa using differs)
  refine Sound.notify changes (stored.mono fun k inside => inside.resolve_left id) distinct (fun u member => ?_) known
  rcases walk u.1 with ⟨_, none⟩ | ⟨w, there, same, found⟩
  · exact absurd rfl (none u member)
  · rw [List.inj_on_of_nodup_map distinct there member same] at found
    exact found

/-- A flush leaves the newest change of each key to be sent. -/
theorem Sound.flush (sound : Sound mask K s) {tier : Tier} (started : s.snapshot = none) (idle : s.sending tier = []) :
    Sound mask K { s with
      drained := s.drained ++ s.batches tier
      batches := Function.update s.batches tier []
      sending := Function.update s.sending tier (dedupe (s.batches tier)) } := by
  generalize flushed : ({ s with
      drained := s.drained ++ s.batches tier
      batches := Function.update s.batches tier []
      sending := Function.update s.sending tier (dedupe (s.batches tier)) } : Relay) = s'
  have older : ∀ c, s'.Pending c → s.Pending c := by
    subst flushed
    exact fun _ => Pending.of_flush
  have waiting : ∀ c, s.Pending c → (∀ d, s.Pending d → d.key = c.key → d = c ∨ d.ts < c.ts) → s'.Pending c := by
    subst flushed
    exact fun c waits newest => waits.flush idle (sound.dated tier).2 fun d there => newest d (Or.inl ⟨tier, there⟩)
  have view : s'.view = s.view := by rw [← flushed]; rfl
  have sent : s'.sent = s.sent := by rw [← flushed]
  have expected : ∀ k, s'.expected mask k = s.expected mask k := fun k => by rw [← flushed]; rfl
  refine ⟨fun waits => ?_, fun clearing => ?_, fun l waits => ?_, fun c there => ?_, fun t => ?_, fun t => ?_, fun k out => ?_,
    fun k shared exempt => ?_⟩
  · rw [← flushed] at waits
    exact absurd started waits
  · rw [← flushed] at clearing
    exact absurd started (sound.uncleared clearing).1
  · rw [← flushed] at waits
    exact absurd (started.symm.trans waits) nofun
  · rw [sent] at there
    have before := sound.moments c (there.imp_left (older c))
    rw [← flushed]
    exact before
  · rw [← flushed]
    exact sound.dated.flush tier t
  · rw [← flushed]
    by_cases same : t = tier
    · subst same
      simpa using dedupe_distinct _
    · simpa [same] using sound.distinct t
  · rw [view]
    exact sound.excluded k out
  · rcases sound.keys k shared exempt with ⟨same, rest⟩ | ⟨c, waits, name, effect, newest⟩
    · refine Or.inl ⟨by rw [view, expected, same], fun c waits name => ?_⟩
      rw [sent, expected]
      exact rest c (older c waits) name
    · refine Or.inr ⟨c, waiting c waits fun d there key => newest d (Or.inl there) (key.trans name), name,
        effect.trans (expected k).symm, fun d there key => ?_⟩
      rw [sent] at there
      exact newest d (there.imp_left (older d)) key

/-- What waits is sent in its turn: nothing newer of the key was sent before it. -/
def Turn (s : Relay) (chunk : List Change) : Prop :=
  ∀ c ∈ chunk, ∀ d ∈ s.sent, d.key = c.key → d.ts ≤ c.ts

/-- What becomes of a key when the cloud is handed a chunk. -/
theorem keys_handed {chunk : List Change} (before : Settled mask s k ∨ Due mask s k) (waited : ∀ c ∈ chunk, s.Pending c)
    (distinct : (chunk.map Change.key).Nodup) (turn : s.Turn chunk)
    (store : s'.store = s.store) (view : s'.view = chunk.foldl Change.apply s.view) (sent : s'.sent = s.sent ++ chunk)
    (older : ∀ c, s'.Pending c → s.Pending c) (rest : ∀ c, s.Pending c → s'.Pending c ∨ c ∈ chunk) :
    Settled mask s' k ∨ Due mask s' k := by
  have expected : s'.expected mask k = s.expected mask k := by rw [Relay.expected, store]; rfl
  have known : ∀ {d}, d ∈ s.sent → d ∈ s'.sent := fun there => sent ▸ List.mem_append_left _ there
  rcases before with ⟨same, covered⟩ | ⟨c, waits, name, effect, newest⟩
  · left
    refine ⟨?_, fun c waits name => ?_⟩
    · rw [view, expected]
      by_cases inside : k ∈ chunk.map Change.key
      · obtain ⟨c, member, rfl⟩ := List.mem_map.mp inside
        obtain ⟨d, there, key, effect, late⟩ := covered c (waited c member) rfl
        have notOlder := turn c member d there key
        rcases late with rfl | late
        · exact (lookup_applied distinct member _).trans effect
        · omega
      · rw [lookup_applied_of_absent inside, same]
    · obtain ⟨d, there, key, effect, late⟩ := covered c (older c waits) name
      exact ⟨d, known there, key, effect.trans expected.symm, late⟩
  · have cases : ∀ d, s'.Pending d ∨ d ∈ s'.sent → d.key = k → d = c ∨ d.ts < c.ts := by
      rintro d (waits | there) key
      · exact newest d (Or.inl (older d waits)) key
      · rcases List.mem_append.mp (sent ▸ there) with there | there
        · exact newest d (Or.inr there) key
        · exact newest d (Or.inl (waited d there)) key
    by_cases inside : c ∈ chunk
    · have found := lookup_applied distinct inside s.view
      rw [name] at found
      refine Or.inl ⟨by rw [view, expected, found, effect], fun d waits key => ?_⟩
      exact ⟨c, sent ▸ List.mem_append_right _ inside, name, effect.trans expected.symm, cases d (Or.inl waits) key⟩
    · have still := (rest c waits).resolve_right inside
      exact Or.inr ⟨c, still, name, effect.trans expected.symm, cases⟩

/-- The cloud never has a key that is left out. -/
theorem excluded_handed {chunk : List Change} (before : ∀ k, isCloudExcludedKey k = true → s.view.lookup k = none)
    (shared : ∀ c ∈ chunk, isCloudExcludedKey c.key = false) (view : s'.view = chunk.foldl Change.apply s.view) (k : Text)
    (out : isCloudExcludedKey k = true) : s'.view.lookup k = none := by
  have absent : k ∉ chunk.map Change.key := by
    rintro inside
    obtain ⟨c, member, rfl⟩ := List.mem_map.mp inside
    rw [shared c member] at out
    cases out
  rw [view, lookup_applied_of_absent absent, before k out]

theorem Sound.chunk (sound : Sound mask K s) {tier : Tier} {size : Nat} (busy : s.sending tier ≠ [])
    (turn : s.Turn ((s.sending tier).take size)) :
    Sound mask K (({ s with sending := Function.update s.sending tier ((s.sending tier).drop size) } : Relay).hand
      ((s.sending tier).take size) false) := by
  have started : s.snapshot = none := by
    by_contra waits
    exact busy (sound.snapshotFirst waits tier)
  have cleared : s.clearing = false := Bool.eq_false_iff.mpr fun clearing => (sound.uncleared clearing).1 started
  generalize taken : (s.sending tier).take size = chunk at turn
  generalize handed : (({ s with sending := Function.update s.sending tier ((s.sending tier).drop size) } : Relay).hand
    chunk false) = s'
  have inside : chunk.Sublist (s.sending tier) := taken ▸ List.take_sublist _ _
  have batches : s'.batches = s.batches := by rw [← handed]; rfl
  have snapshot : s'.snapshot = s.snapshot := by rw [← handed]; rfl
  have sent : s'.sent = s.sent ++ chunk := by rw [← handed]; rfl
  have waited : ∀ c ∈ chunk, s.Pending c := fun c member => Or.inr (Or.inl ⟨tier, inside.subset member⟩)
  have older : ∀ c, s'.Pending c → s.Pending c := by
    subst taken handed
    exact fun _ => Pending.of_chunk
  have rest : ∀ c, s.Pending c → s'.Pending c ∨ c ∈ chunk := by
    subst taken handed
    exact fun _ waits => waits.chunk tier size
  have view : s'.view = chunk.foldl Change.apply s.view := by
    rw [← handed]
    simp [Relay.view, hand, cleared]
  have distinct := (sound.distinct tier).sublist (inside.map Change.key)
  refine ⟨fun waits => ?_, fun clearing => ?_, fun l waits => ?_, fun c there => ?_, fun t => ?_, fun t => ?_, ?_,
    fun k shared exempt => ?_⟩
  · exact absurd (snapshot.trans started) waits
  · rw [← handed] at clearing
    rw [show s.clearing = true from clearing] at cleared
    cases cleared
  · exact absurd ((snapshot.trans started).symm.trans waits) (by rintro ⟨⟩)
  · have before : s.Pending c ∨ c ∈ s.sent := by
      rcases there with waits | there
      · exact Or.inl (older c waits)
      · rcases List.mem_append.mp (sent ▸ there) with there | there
        · exact Or.inr there
        · exact Or.inl (waited c there)
    rw [← handed]
    exact sound.moments c before
  · rw [← handed]
    exact sound.dated t
  · rw [← handed]
    by_cases same : t = tier
    · subst same
      simpa [hand] using (sound.distinct t).sublist ((List.drop_sublist size _).map Change.key)
    · simpa [hand, same] using sound.distinct t
  · have shared : ∀ c ∈ chunk, isCloudExcludedKey c.key = false := fun c member => (sound.moments c (Or.inl (waited c member))).2
    exact excluded_handed sound.excluded shared view
  · have store : s'.store = s.store := by rw [← handed]; rfl
    exact keys_handed (sound.keys k shared exempt) waited distinct turn store view sent older rest

theorem Sound.snapshotChunk (sound : Sound mask K s) {changes : List Change} {size : Nat}
    (waits : s.snapshot = some changes) :
    Sound mask K (({ s with
        snapshot := if changes.length ≤ size then none else some (changes.drop size)
        clearing := false } : Relay).hand (changes.take size) s.clearing) := by
  have idle := sound.snapshotFirst (by rw [waits]; nofun)
  have once := sound.snapshotOnce changes waits
  generalize taken : changes.take size = chunk
  generalize handed : (({ s with
        snapshot := if changes.length ≤ size then none else some (changes.drop size)
        clearing := false } : Relay).hand chunk s.clearing) = s'
  have batches : s'.batches = s.batches := by rw [← handed]; rfl
  have sending : s'.sending = s.sending := by rw [← handed]; rfl
  have snapshot : s'.snapshot = if changes.length ≤ size then none else some (changes.drop size) := by rw [← handed]; rfl
  have sent : s'.sent = s.sent ++ chunk := by rw [← handed]; rfl
  have inside : chunk.Sublist changes := taken ▸ List.take_sublist _ _
  have waited : ∀ c ∈ chunk, s.Pending c := fun c member => Or.inr (Or.inr ⟨changes, waits, inside.subset member⟩)
  have later : ∀ l, s'.snapshot = some l → l = changes.drop size := by
    intro l more
    rw [snapshot] at more
    split at more
    · cases more
    · exact (Option.some.inj more).symm
  have older : ∀ c, s'.Pending c → s.Pending c := by
    subst taken handed
    exact fun _ => Pending.of_snapshotChunk waits
  have rest : ∀ c, s.Pending c → s'.Pending c ∨ c ∈ chunk := by
    subst taken handed
    exact fun _ held => held.snapshotChunk waits size
  have clearing : s'.clearing = false := by rw [← handed]; rfl
  have view : s'.view = chunk.foldl Change.apply s.view := by
    rw [← handed]
    simp [Relay.view, hand]
  have distinct : (chunk.map Change.key).Nodup := by
    rw [List.map_append] at once
    exact once.of_append_right.sublist (inside.map Change.key)
  have turn : s.Turn chunk := by
    intro c member d there same
    rw [List.map_append] at once
    have apart := List.disjoint_of_nodup_append once
    exact absurd (List.mem_map_of_mem (inside.subset member)) (apart (same ▸ List.mem_map_of_mem there))
  refine ⟨fun _ => sending ▸ idle, fun clears => ?_, fun l more => ?_, fun c there => ?_, fun t => ?_, fun t => ?_, ?_,
    fun k shared exempt => ?_⟩
  · rw [clearing] at clears
    cases clears
  · rw [later l more, sent, List.append_assoc, ← taken, List.take_append_drop]
    exact once
  · have before : s.Pending c ∨ c ∈ s.sent := by
      rcases there with waits | there
      · exact Or.inl (older c waits)
      · rcases List.mem_append.mp (sent ▸ there) with there | there
        · exact Or.inr there
        · exact Or.inl (waited c there)
    rw [← handed]
    exact sound.moments c before
  · rw [← handed]
    exact sound.dated t
  · rw [sending]
    exact sound.distinct t
  · have shared : ∀ c ∈ chunk, isCloudExcludedKey c.key = false := fun c member => (sound.moments c (Or.inl (waited c member))).2
    exact excluded_handed sound.excluded shared view
  · have store : s'.store = s.store := by rw [← handed]; rfl
    exact keys_handed (sound.keys k shared exempt) waited distinct turn store view sent older rest

theorem snapshotChanges_keys (store : List (Text × Primitive)) :
    (snapshotChanges mask store).map Change.key = (store.map Prod.fst).filter fun k => !isCloudExcludedKey k := by
  rw [snapshotChanges, List.map_map, List.filter_map]
  rfl

theorem Sound.started (start : Started mask s) : Sound mask (fun _ => False) s := by
  obtain ⟨store, drivers, cloud, distinct, rfl⟩ := start
  have keys : ((snapshotChanges mask store).map Change.key).Nodup := by
    rw [snapshotChanges_keys]
    exact distinct.filter _
  have pending : ∀ c, Relay.Pending {
      store := store
      drivers := drivers
      snapshot := some (snapshotChanges mask store)
      cloud := cloud
      drained := snapshotChanges mask store } c → c ∈ snapshotChanges mask store := by
    rintro c (⟨t, none⟩ | ⟨t, none⟩ | ⟨l, same, member⟩)
    · cases none
    · cases none
    · cases same
      exact member
  have origin : ∀ c ∈ snapshotChanges mask store, ∃ u ∈ store, isCloudExcludedKey u.1 = false ∧
      c = ⟨u.1, cloudStateValue mask u.2, false, 0⟩ := by
    intro c member
    obtain ⟨u, left, rfl⟩ := List.mem_map.mp member
    obtain ⟨there, shared⟩ := List.mem_filter.mp left
    exact ⟨u, there, by simpa using shared, rfl⟩
  refine ⟨fun _ _ => rfl, fun _ => ⟨nofun, rfl⟩, fun l same => ?_, fun c there => ?_, fun _ => ⟨nofun, List.Pairwise.nil⟩,
    fun _ => List.nodup_nil, fun _ _ => rfl, fun k shared _ => ?_⟩
  · cases same
    exact keys
  · rcases there with waits | none
    · obtain ⟨u, _, shared, rfl⟩ := origin c (pending c waits)
      exact ⟨le_rfl, shared⟩
    · cases none
  · cases found : store.lookup k with
    | none =>
      refine Or.inl ⟨by simp [view, expected, found], fun c waits name => ?_⟩
      obtain ⟨u, there, _, rfl⟩ := origin c (pending c waits)
      have absent := List.lookup_eq_none_iff.mp found u there
      rw [show u.1 = k from name] at absent
      simp at absent
    | some v =>
      have member : (⟨k, cloudStateValue mask v, false, 0⟩ : Change) ∈ snapshotChanges mask store := by
        refine List.mem_map.mpr ⟨(k, v), List.mem_filter.mpr ⟨List.mem_of_lookup_eq_some found, ?_⟩, rfl⟩
        simp [shared]
      refine Or.inr ⟨_, Or.inr (Or.inr ⟨_, rfl, member⟩), rfl, by simp [Change.effect, expected, found], fun d there key => ?_⟩
      rcases there with waits | none
      · exact Or.inl (List.inj_on_of_nodup_map keys (pending d waits) member key)
      · cases none

/-! Runs. -/

/-- No message is refused, and none fails to be written or signed. -/
def Succeeds (s : Relay) : RelayEvent → Prop
  | .chunk _ _ fate | .snapshotChunk _ fate => s.refuses fate = false ∧ fate = .fits
  | _ => True

/-- The tier of every key that changes can be told. -/
def Steady (py : Digits) (s : Relay) : RelayEvent → Prop
  | .set key value => s.holds key value = false → s.Known py key
  | .setBatch updates => ∀ u ∈ updates, s.holds u.1 u.2 = false → s.Known py u.1
  | .delete key => s.store.lookup key ≠ none → s.Known py key
  | _ => True

/-- No change is sent after a newer one of its key, which another tier had. -/
def InOrder (s : Relay) : RelayEvent → Prop
  | .chunk tier size _ => s.Turn ((s.sending tier).take size)
  | _ => True

theorem Sound.next (sound : Sound mask (fun _ => False) s) {e : RelayEvent} (succeeds : s.Succeeds e)
    (steady : s.Steady py e) (inOrder : s.InOrder e) (run : s.next py mask e = some s') :
    Sound mask (fun _ => False) s' := by
  cases e with
  | set key value => cases run; exact sound.set steady
  | setBatch updates =>
    simp only [Relay.next] at run
    split at run
    · cases run
      exact sound.setBatch ‹_› steady
    · cases run
  | delete key => cases run; exact sound.delete steady
  | retier drivers => cases run; exact { sound with }
  | flush tier =>
    simp only [Relay.next] at run
    split at run
    · rename_i free
      cases run
      exact sound.flush (by simpa using free.1) free.2
    · cases run
  | chunk tier size fate =>
    obtain ⟨passes, rfl⟩ := succeeds
    simp only [Relay.next, passes] at run
    split at run
    · rename_i free
      cases run
      exact sound.chunk free.2 inOrder
    · cases run
  | snapshotChunk size fate =>
    obtain ⟨passes, rfl⟩ := succeeds
    simp only [Relay.next] at run
    split at run
    · cases run
    · rename_i changes waits
      split at run
      · rw [if_neg (by simpa [refuses] using passes)] at run
        cases run
        exact sound.snapshotChunk waits
      · cases run
  | throttle limit => cases run; exact { sound with }
  | unthrottle limit => cases run; exact { sound with }

/-- Everything has been flushed. -/
def Quiet (s : Relay) : Prop :=
  s.snapshot = none ∧ (∀ t, s.batches t = []) ∧ ∀ t, s.sending t = []

/-- The cloud has what the room may share of its state. -/
def Converged (mask : Text → Text) (s : Relay) : Prop :=
  ∀ k, s.cloud.lookup k = if isCloudExcludedKey k then none else (s.store.lookup k).map (cloudStateValue mask)

theorem Sound.converged (sound : Sound mask (fun _ => False) s) (quiet : s.Quiet) : s.Converged mask := by
  obtain ⟨started, batches, sending⟩ := quiet
  have nothing : ∀ c, ¬s.Pending c := by
    rintro c (⟨t, member⟩ | ⟨t, member⟩ | ⟨l, waits, _⟩)
    · rw [batches t] at member
      cases member
    · rw [sending t] at member
      cases member
    · rw [started] at waits
      cases waits
  have cleared : s.clearing = false := Bool.eq_false_iff.mpr fun clearing => (sound.uncleared clearing).1 started
  have view : s.view = s.cloud := by simp [Relay.view, cleared]
  intro k
  rw [← view]
  split
  · rename_i out
    exact sound.excluded k out
  · rename_i shared
    rcases sound.keys k (Bool.eq_false_iff.mpr shared) id with settled | ⟨c, waits, _⟩
    · exact settled.1
    · exact absurd waits (nothing c)

theorem reached_sound (reach : Run.Reach (machine py mask) (fun s e => s.Succeeds e ∧ s.Steady py e ∧ s.InOrder e) s) :
    Sound mask (fun _ => False) s := by
  induction reach with
  | init start => exact Sound.started start
  | step _ ok run sound => exact sound.next ok.1 ok.2.1 ok.2.2 run

instance (s : Relay) (e : RelayEvent) : Decidable (s.Succeeds e) :=
  match e with
  | .chunk _ _ fate | .snapshotChunk _ fate => inferInstanceAs (Decidable (s.refuses fate = false ∧ fate = .fits))
  | .set .. | .setBatch _ | .delete _ | .retier _ | .flush _ | .throttle _ | .unthrottle _ => .isTrue trivial

instance (s : Relay) (key : Text) : Decidable (s.Known py key) :=
  inferInstanceAs (Decidable (_ ∨ _))

instance (s : Relay) (e : RelayEvent) : Decidable (s.Steady py e) :=
  match e with
  | .set key value => inferInstanceAs (Decidable (s.holds key value = false → s.Known py key))
  | .setBatch updates => inferInstanceAs (Decidable (∀ u ∈ updates, s.holds u.1 u.2 = false → s.Known py u.1))
  | .delete key => inferInstanceAs (Decidable (s.store.lookup key ≠ none → s.Known py key))
  | .retier _ | .flush _ | .chunk .. | .snapshotChunk .. | .throttle _ | .unthrottle _ => .isTrue trivial

instance (s : Relay) (e : RelayEvent) : Decidable (s.InOrder e) :=
  match e with
  | .chunk tier size _ => inferInstanceAs (Decidable (∀ c ∈ (s.sending tier).take size, ∀ d ∈ s.sent, d.key = c.key → d.ts ≤ c.ts))
  | .set .. | .setBatch _ | .delete _ | .retier _ | .flush _ | .snapshotChunk .. | .throttle _ | .unthrottle _ =>
    .isTrue trivial

instance (f : Tier → List Change) : Decidable (∀ t, f t = []) :=
  decidable_of_iff (f .top = [] ∧ f .child = [] ∧ f .low = [])
    ⟨fun h t => by cases t; exacts [h.1, h.2.1, h.2.2], fun h => ⟨h _, h _, h _⟩⟩

instance (s : Relay) : Decidable s.Quiet :=
  inferInstanceAs (Decidable (_ ∧ _))

end Relay

/-- A device with children of the type `input`. -/
def matrix : Driver where
  stateVariables := []
  childEntityTypes := [(text "input", some ⟨some [], false⟩)]
  getChildSchema := fun _ _ => []

/-- A relay that starts with that device, while the cloud still has an old key. -/
def fresh : Relay where
  store := []
  drivers := fun id => if id = text "m" then some matrix else none
  snapshot := some []
  cloud := [(text "var.old", .int 1)]
  drained := []

def level : Text := text "device.m.input.1.level"

def ascii : Digits where
  isdigit := fun id => id ≠ [] ∧ id.all fun c => 48 ≤ c ∧ c ≤ 57
  int := fun id => some (id.foldl (fun n c => 10 * n + (c - 48)) 0)

theorem fresh_starts (mask : Text → Text) : (Relay.machine ascii mask).init fresh :=
  ⟨[], _, _, List.nodup_nil, rfl⟩

/-- The level is set and removed while the driver is there, and set again when
it is gone, so that the removal is sent last. -/
def late : List RelayEvent :=
  [.snapshotChunk 500 .fits, .set level (.int 1), .delete level, .retier fun _ => none, .set level (.int 2),
    .flush .top, .chunk .top 500 .fits, .flush .child, .chunk .child 500 .fits]

end OpenAvc.Cloud
