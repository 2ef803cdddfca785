import OpenAvc.Cloud.StateRelay
import OpenAvc.Data.Lookup

/-! Where the changes are that a relay has taken in, and what the cloud makes of them. -/

namespace OpenAvc.Cloud

/-! What the cloud makes of changes. -/

/-- What the cloud has under the key after the change. -/
def Change.effect (c : Change) : Option Primitive :=
  if c.deleted then none else some c.value

theorem Change.lookup_apply (cloud : List (Text × Primitive)) (c : Change) (k : Text) :
    (c.apply cloud).lookup k = if k = c.key then c.effect else cloud.lookup k := by
  unfold Change.apply Change.effect
  by_cases deleted : c.deleted = true
  · have kept := List.lookup_filter_keys (fun k => decide (k ≠ c.key)) k cloud
    rw [if_pos deleted, if_pos deleted, kept]
    by_cases same : k = c.key <;> simp [same]
  · rw [if_neg deleted, if_neg deleted, Dict.lookup_set]

theorem lookup_applied_of_absent {chunk : List Change} {k : Text} (absent : k ∉ chunk.map Change.key)
    (cloud : List (Text × Primitive)) : (chunk.foldl Change.apply cloud).lookup k = cloud.lookup k := by
  induction chunk generalizing cloud with
  | nil => rfl
  | cons c chunk ih =>
    obtain ⟨other, rest⟩ := not_or.mp (mt List.mem_cons.mpr absent)
    rw [List.foldl_cons, ih rest, Change.lookup_apply, if_neg other]

theorem lookup_applied {chunk : List Change} (distinct : (chunk.map Change.key).Nodup) {c : Change} (member : c ∈ chunk)
    (cloud : List (Text × Primitive)) : (chunk.foldl Change.apply cloud).lookup c.key = c.effect := by
  induction chunk generalizing cloud with
  | nil => cases member
  | cons d chunk ih =>
    obtain ⟨apart, distinct⟩ := List.nodup_cons.mp distinct
    rw [List.foldl_cons]
    rcases List.mem_cons.mp member with rfl | later
    · rw [lookup_applied_of_absent apart, Change.lookup_apply, if_pos rfl]
    · exact ih distinct later _

/-! What is left of a batch. -/

theorem dedupe_walk (entries : List Change) (d : List (Text × Change)) (named : ∀ u ∈ d, u.2.key = u.1)
    (distinct : (d.map Prod.fst).Nodup) :
    (∀ u ∈ entries.foldl (fun (d : List (Text × Change)) e => Dict.set d e.key e) d, u.2.key = u.1 ∧ (u ∈ d ∨ u.2 ∈ entries)) ∧
      ((entries.foldl (fun (d : List (Text × Change)) e => Dict.set d e.key e) d).map Prod.fst).Nodup := by
  induction entries generalizing d with
  | nil => exact ⟨fun u member => ⟨named u member, Or.inl member⟩, distinct⟩
  | cons e entries ih =>
    have named' : ∀ u ∈ Dict.set d e.key e, u.2.key = u.1 := by
      intro u member
      rcases Dict.mem_set member with rfl | old
      · rfl
      · exact named u old
    obtain ⟨from', distinct'⟩ := ih (Dict.set d e.key e) named' (Dict.nodup_set distinct _ _)
    refine ⟨fun u member => ?_, distinct'⟩
    obtain ⟨name, old | later⟩ := from' u member
    · rcases Dict.mem_set old with rfl | old
      · exact ⟨name, Or.inr List.mem_cons_self⟩
      · exact ⟨name, Or.inl old⟩
    · exact ⟨name, Or.inr (List.mem_cons_of_mem _ later)⟩

theorem dedupe_subset {entries : List Change} {c : Change} (member : c ∈ dedupe entries) : c ∈ entries := by
  obtain ⟨u, there, rfl⟩ := List.mem_map.mp member
  rcases ((dedupe_walk entries [] nofun List.nodup_nil).1 u there).2 with none | here
  · cases none
  · exact here

theorem dedupe_distinct (entries : List Change) : ((dedupe entries).map Change.key).Nodup := by
  obtain ⟨named, distinct⟩ := dedupe_walk entries [] nofun List.nodup_nil
  have same : (dedupe entries).map Change.key =
      (entries.foldl (fun (d : List (Text × Change)) e => Dict.set d e.key e) []).map Prod.fst := by
    rw [dedupe, List.map_map]
    exact List.map_congr_left fun u member => (named u member).1
  rw [same]
  exact distinct

/-- Of the entries of a key the newest one is kept. -/
theorem mem_dedupe {entries : List Change} (ordered : entries.Pairwise fun a b => a.ts < b.ts) {c : Change}
    (member : c ∈ entries) (newest : ∀ d ∈ entries, d.key = c.key → d = c ∨ d.ts < c.ts) : c ∈ dedupe entries := by
  obtain ⟨before, after, rfl⟩ := List.append_of_mem member
  have later : ∀ d ∈ after, d.key ≠ c.key := by
    intro d there same
    have above := (List.pairwise_append.mp ordered).2.1
    have above := (List.pairwise_cons.mp above).1 d there
    rcases newest d (List.mem_append_right _ (List.mem_cons_of_mem _ there)) same with rfl | below
    · omega
    · omega
  have found : ((before ++ c :: after).foldl (fun (d : List (Text × Change)) e => Dict.set d e.key e) []).lookup c.key =
      some c := by
    rw [List.foldl_append, List.foldl_cons]
    rcases Dict.lookup_walk Change.key id after (Dict.set (before.foldl (fun d e => Dict.set d e.key e) []) c.key c) c.key
      with ⟨same, _⟩ | ⟨d, there, same, _⟩
    · exact same.trans (Dict.lookup_set_self _ _ _)
    · exact absurd same (later d there)
  exact List.mem_map.mpr ⟨_, List.mem_of_lookup_eq_some found, rfl⟩

/-- The newest entry of a key. -/
theorem exists_newest {entries : List Change} (ordered : entries.Pairwise fun a b => a.ts < b.ts) {e : Change}
    (member : e ∈ entries) : ∃ c ∈ entries, c.key = e.key ∧ e.ts ≤ c.ts ∧
      ∀ d ∈ entries, d.key = c.key → d = c ∨ d.ts < c.ts := by
  induction entries generalizing e with
  | nil => cases member
  | cons a entries ih =>
    obtain ⟨above, ordered⟩ := List.pairwise_cons.mp ordered
    by_cases further : ∃ b ∈ entries, b.key = e.key
    · have later : ∃ b ∈ entries, b.key = e.key ∧ e.ts ≤ b.ts := by
        rcases List.mem_cons.mp member with rfl | there
        · obtain ⟨b, there, same⟩ := further
          exact ⟨b, there, same, (above b there).le⟩
        · exact ⟨e, there, rfl, le_rfl⟩
      obtain ⟨b, there, same, after⟩ := later
      obtain ⟨c, inside, name, late, newest⟩ := ih ordered there
      refine ⟨c, List.mem_cons_of_mem _ inside, name.trans same, after.trans late, fun d within key => ?_⟩
      rcases List.mem_cons.mp within with rfl | within
      · exact Or.inr (above c inside)
      · exact newest d within key
    · have here : e = a := by
        rcases List.mem_cons.mp member with same | there
        · exact same
        · exact absurd ⟨e, there, rfl⟩ further
      refine ⟨a, List.mem_cons_self, by rw [here], by rw [here], fun d within key => ?_⟩
      rcases List.mem_cons.mp within with same | within
      · exact Or.inl same
      · exact absurd ⟨d, within, by rw [key, here]⟩ further

/-! Where changes are, and what the cloud will make of them. -/

namespace Relay

variable {py : Digits} {mask : Text → Text} {s : Relay}

/-- The change waits in a batch, in a flush or in the snapshot. -/
def Pending (s : Relay) (c : Change) : Prop :=
  (∃ t, c ∈ s.batches t) ∨ (∃ t, c ∈ s.sending t) ∨ ∃ l, s.snapshot = some l ∧ c ∈ l

/-- A change that is taken in goes to the end of a batch. -/
theorem onStateChange_cases (s : Relay) (key : Text) (value : Primitive) :
    s.onStateChange py mask key value = s ∨ ∃ tier cache, s.onStateChange py mask key value = { s with
      clock := s.clock + 1
      batches := Function.update s.batches tier (s.batches tier ++ [s.entry mask key value])
      tierCache := cache } := by
  unfold Relay.onStateChange
  split
  · exact Or.inl rfl
  · split
    · exact Or.inl rfl
    · exact Or.inr ⟨_, _, rfl⟩

theorem Pending.queued {c e : Change} {tier : Tier} {cache : List (Text × Tier)} :
    Relay.Pending { s with
      clock := s.clock + 1
      batches := Function.update s.batches tier (s.batches tier ++ [e])
      tierCache := cache } c ↔ s.Pending c ∨ c = e := by
  have batch : ∀ t, c ∈ Function.update s.batches tier (s.batches tier ++ [e]) t ↔ c ∈ s.batches t ∨ t = tier ∧ c = e := by
    intro t
    by_cases same : t = tier
    · subst same
      simp
    · simp [same]
  simp only [Pending, batch]
  constructor
  · rintro (⟨t, old | ⟨_, new⟩⟩ | sending | snapshot)
    · exact Or.inl (Or.inl ⟨t, old⟩)
    · exact Or.inr new
    · exact Or.inl (Or.inr (Or.inl sending))
    · exact Or.inl (Or.inr (Or.inr snapshot))
  · rintro ((⟨t, old⟩ | rest) | new)
    · exact Or.inl ⟨t, Or.inl old⟩
    · exact Or.inr rest
    · exact Or.inl ⟨tier, Or.inr ⟨rfl, new⟩⟩

/-- In every batch the changes are in their order, and none is from the future. -/
def Dated (s : Relay) : Prop :=
  ∀ t, (∀ c ∈ s.batches t, c.ts ≤ s.clock) ∧ (s.batches t).Pairwise fun a b => a.ts < b.ts

theorem Dated.queued (dated : s.Dated) {e : Change} (now : e.ts = s.clock + 1) (tier : Tier) (cache : List (Text × Tier)) :
    Dated { s with
      clock := s.clock + 1
      batches := Function.update s.batches tier (s.batches tier ++ [e])
      tierCache := cache } := by
  intro t
  obtain ⟨past, ordered⟩ := dated t
  by_cases same : t = tier
  · subst same
    simp only [Function.update_self]
    refine ⟨fun c member => ?_, List.pairwise_append.mpr ⟨ordered, List.pairwise_singleton _ _, fun a old b new => ?_⟩⟩
    · rcases List.mem_append.mp member with old | new
      · exact (past c old).trans (Nat.le_succ _)
      · rw [List.mem_singleton.mp new, now]
    · rw [List.mem_singleton.mp new, now]
      exact Nat.lt_succ_of_le (past a old)
  · simp only [Function.update_of_ne same]
    exact ⟨fun c member => (past c member).trans (Nat.le_succ _), ordered⟩

/-- A flush takes all changes from a batch and keeps the newest of each key. -/
theorem Pending.flush {tier : Tier} (idle : s.sending tier = []) (ordered : (s.batches tier).Pairwise fun a b => a.ts < b.ts)
    {c : Change} (waits : s.Pending c) (newest : ∀ d ∈ s.batches tier, d.key = c.key → d = c ∨ d.ts < c.ts) :
    Relay.Pending { s with
      drained := s.drained ++ s.batches tier
      batches := Function.update s.batches tier []
      sending := Function.update s.sending tier (dedupe (s.batches tier)) } c := by
  rcases waits with ⟨t, batch⟩ | ⟨t, sending⟩ | snapshot
  · by_cases same : t = tier
    · subst same
      have left := mem_dedupe ordered batch newest
      exact Or.inr (Or.inl ⟨t, by simpa using left⟩)
    · exact Or.inl ⟨t, by simpa [same] using batch⟩
  · have other : t ≠ tier := by
      rintro rfl
      rw [idle] at sending
      cases sending
    exact Or.inr (Or.inl ⟨t, by simpa [other] using sending⟩)
  · exact Or.inr (Or.inr snapshot)

theorem Pending.of_flush {tier : Tier} {c : Change} (waits : Relay.Pending { s with
      drained := s.drained ++ s.batches tier
      batches := Function.update s.batches tier []
      sending := Function.update s.sending tier (dedupe (s.batches tier)) } c) : s.Pending c := by
  rcases waits with ⟨t, batch⟩ | ⟨t, sending⟩ | snapshot
  · by_cases same : t = tier
    · subst same
      simp at batch
    · exact Or.inl ⟨t, by simpa [same] using batch⟩
  · by_cases same : t = tier
    · subst same
      exact Or.inl ⟨t, dedupe_subset (by simpa using sending)⟩
    · exact Or.inr (Or.inl ⟨t, by simpa [same] using sending⟩)
  · exact Or.inr (Or.inr snapshot)

theorem Dated.flush (dated : s.Dated) (tier : Tier) : Dated { s with
      drained := s.drained ++ s.batches tier
      batches := Function.update s.batches tier []
      sending := Function.update s.sending tier (dedupe (s.batches tier)) } := by
  intro t
  by_cases same : t = tier
  · subst same
    simp
  · simpa [same] using dated t

/-- What waits is sent with the chunk or waits further. -/
theorem Pending.chunk {c : Change} (waits : s.Pending c) (tier : Tier) (size : Nat) :
    (({ s with sending := Function.update s.sending tier ((s.sending tier).drop size) } : Relay).hand
      ((s.sending tier).take size) false).Pending c ∨ c ∈ (s.sending tier).take size := by
  rcases waits with batch | ⟨t, member⟩ | snapshot
  · exact Or.inl (Or.inl batch)
  · by_cases same : t = tier
    · subst same
      rw [← List.take_append_drop size (s.sending t), List.mem_append] at member
      rcases member with first | later
      · exact Or.inr first
      · exact Or.inl (Or.inr (Or.inl ⟨t, by simpa [hand] using later⟩))
    · exact Or.inl (Or.inr (Or.inl ⟨t, by simpa [hand, same] using member⟩))
  · exact Or.inl (Or.inr (Or.inr snapshot))

theorem Pending.of_chunk {c : Change} {tier : Tier} {size : Nat}
    (waits : (({ s with sending := Function.update s.sending tier ((s.sending tier).drop size) } : Relay).hand
      ((s.sending tier).take size) false).Pending c) : s.Pending c := by
  rcases waits with batch | ⟨t, member⟩ | snapshot
  · exact Or.inl batch
  · by_cases same : t = tier
    · subst same
      have left : c ∈ (s.sending t).drop size := by simpa [hand] using member
      exact Or.inr (Or.inl ⟨t, List.mem_of_mem_drop left⟩)
    · exact Or.inr (Or.inl ⟨t, by simpa [hand, same] using member⟩)
  · exact Or.inr (Or.inr snapshot)

theorem Pending.snapshotChunk {changes : List Change} (snapshot : s.snapshot = some changes) {c : Change}
    (waits : s.Pending c) (size : Nat) :
    (({ s with
        snapshot := if changes.length ≤ size then none else some (changes.drop size)
        clearing := false } : Relay).hand (changes.take size) s.clearing).Pending c ∨ c ∈ changes.take size := by
  rcases waits with batch | sending | ⟨l, more, member⟩
  · exact Or.inl (Or.inl batch)
  · exact Or.inl (Or.inr (Or.inl sending))
  · rw [← Option.some.inj (snapshot.symm.trans more), ← List.take_append_drop size changes, List.mem_append] at member
    rcases member with first | last
    · exact Or.inr first
    · have long : ¬changes.length ≤ size := by
        intro short
        rw [List.drop_eq_nil_of_le short] at last
        cases last
      exact Or.inl (Or.inr (Or.inr ⟨_, if_neg long, last⟩))

theorem Pending.of_snapshotChunk {changes : List Change} (snapshot : s.snapshot = some changes) {c : Change} {size : Nat}
    (waits : (({ s with
        snapshot := if changes.length ≤ size then none else some (changes.drop size)
        clearing := false } : Relay).hand (changes.take size) s.clearing).Pending c) : s.Pending c := by
  rcases waits with batch | sending | ⟨l, more, member⟩
  · exact Or.inl batch
  · exact Or.inr (Or.inl sending)
  · have same : (if changes.length ≤ size then none else some (changes.drop size)) = some l := more
    split at same
    · cases same
    · cases same
      exact Or.inr (Or.inr ⟨changes, snapshot, List.mem_of_mem_drop member⟩)

end Relay

end OpenAvc.Cloud
