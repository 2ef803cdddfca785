import OpenAvc.Cloud.Convergence

/-! What was drained is sent or waits, unless a message was refused. -/

namespace OpenAvc.Cloud

namespace Relay

variable {py : Digits} {mask : Text → Text} {s s' : Relay}

/-- The change, or a newer one of its key, was sent or still waits. -/
def Carries (s : Relay) (e : Change) : Prop :=
  ∃ c, c.key = e.key ∧ e.ts ≤ c.ts ∧ (c ∈ s.sent ∨ s.Pending c)

theorem Carries.mono {e : Change} (carries : s.Carries e) (kept : ∀ c, c ∈ s.sent ∨ s.Pending c → c ∈ s'.sent ∨ s'.Pending c) :
    s'.Carries e := by
  obtain ⟨c, key, late, there⟩ := carries
  exact ⟨c, key, late, kept c there⟩

/-- What holds in every state. -/
structure Carried (s : Relay) : Prop where
  dated : s.Dated
  carries : ∀ e ∈ s.drained, s.Carries e

theorem Carried.onStateChange (carried : s.Carried) (key : Text) (value : Primitive) :
    (s.onStateChange py mask key value).Carried := by
  rcases onStateChange_cases s key value with same | ⟨tier, cache, same⟩
  · rw [same]
    exact carried
  · rw [same]
    refine ⟨carried.dated.queued rfl tier cache, fun e there => ?_⟩
    exact (carried.carries e there).mono fun c found => found.imp_right fun waits => Pending.queued.mpr (Or.inl waits)

theorem Carried.notify (carried : s.Carried) (changes : List (Text × Primitive)) : (s.notify py mask changes).Carried := by
  induction changes generalizing s with
  | nil => exact carried
  | cons u changes ih => exact ih (carried.onStateChange u.1 u.2)

theorem Carried.stored (carried : s.Carried) (store : List (Text × Primitive)) : Carried { s with store := store } :=
  { carried with }

/-- The newest change of a drained one's key is about to be sent. -/
theorem Carried.flush (carried : s.Carried) {tier : Tier} (idle : s.sending tier = []) : Carried { s with
      drained := s.drained ++ s.batches tier
      batches := Function.update s.batches tier []
      sending := Function.update s.sending tier (dedupe (s.batches tier)) } := by
  refine ⟨carried.dated.flush tier, fun e there => ?_⟩
  have ordered := (carried.dated tier).2
  have source : s.Carries e := by
    rcases List.mem_append.mp there with before | now
    · exact carried.carries e before
    · exact ⟨e, rfl, le_rfl, Or.inr (Or.inl ⟨tier, now⟩)⟩
  obtain ⟨c, key, late, sent | waits⟩ := source
  · exact ⟨c, key, late, Or.inl sent⟩
  · by_cases further : ∃ d ∈ s.batches tier, d.key = c.key ∧ c.ts ≤ d.ts
    · obtain ⟨d, member, same, after⟩ := further
      obtain ⟨newest, inside, name, last, above⟩ := exists_newest ordered member
      refine ⟨newest, name.trans (same.trans key), late.trans (after.trans last), Or.inr ?_⟩
      exact Pending.flush idle ordered (Or.inl ⟨tier, inside⟩) above
    · refine ⟨c, key, late, Or.inr (waits.flush idle ordered fun d member same => ?_)⟩
      by_cases above : c.ts ≤ d.ts
      · exact absurd ⟨d, member, same, above⟩ further
      · exact Or.inr (by omega)

theorem Carried.next (carried : s.Carried) {e : RelayEvent} (succeeds : s.Succeeds e)
    (run : s.next py mask e = some s') : s'.Carried := by
  cases e with
  | set key value =>
    cases run
    unfold Relay.set
    split
    · exact carried
    · exact (carried.stored _).onStateChange key value
  | setBatch updates =>
    simp only [Relay.next] at run
    split at run
    · cases run
      exact (carried.stored _).notify _
    · cases run
  | delete key =>
    cases run
    unfold Relay.delete
    split
    · exact carried
    · exact (carried.stored _).onStateChange key .none
  | retier drivers => cases run; exact { carried with }
  | flush tier =>
    simp only [Relay.next] at run
    split at run
    · rename_i free
      cases run
      exact carried.flush free.2
    · cases run
  | chunk tier size fate =>
    obtain ⟨passes, rfl⟩ := succeeds
    simp only [Relay.next, passes] at run
    split at run
    · cases run
      refine ⟨carried.dated, fun e there => (carried.carries e there).mono fun c found => ?_⟩
      rcases found with sent | waits
      · exact Or.inl (List.mem_append_left _ sent)
      · rcases waits.chunk tier size with later | now
        · exact Or.inr later
        · exact Or.inl (List.mem_append_right _ now)
    · cases run
  | snapshotChunk size fate =>
    obtain ⟨passes, rfl⟩ := succeeds
    simp only [Relay.next] at run
    split at run
    · cases run
    · rename_i changes snapshot
      split at run
      · rw [if_neg (by simpa [refuses] using passes)] at run
        cases run
        refine ⟨carried.dated, fun e there => (carried.carries e there).mono fun c found => ?_⟩
        rcases found with sent | waits
        · exact Or.inl (List.mem_append_left _ sent)
        · rcases waits.snapshotChunk snapshot size with later | now
          · exact Or.inr later
          · exact Or.inl (List.mem_append_right _ now)
      · cases run
  | throttle limit => cases run; exact { carried with }
  | unthrottle limit => cases run; exact { carried with }

theorem Carried.started (start : Started mask s) : s.Carried := by
  obtain ⟨store, drivers, cloud, distinct, rfl⟩ := start
  exact ⟨fun _ => ⟨nofun, List.Pairwise.nil⟩, fun e there => ⟨e, rfl, le_rfl, Or.inr (Or.inr (Or.inr ⟨_, rfl, there⟩))⟩⟩

theorem reached_carried (reach : Run.Reach (machine py mask) Succeeds s) : s.Carried := by
  induction reach with
  | init start => exact Carried.started start
  | step _ ok run carried => exact carried.next ok run

end Relay

/-- The level is set and its batch drained while the cloud holds batches back. -/
def refused : List RelayEvent :=
  [.snapshotChunk 500 .fits, .set level (.int 1), .throttle (text "state_batch"), .flush .child, .chunk .child 500 .fits,
    .unthrottle (text "state_batch"), .flush .child]

/-- The level is set while everything is held back, and flushed afterwards. -/
def heldBack : List RelayEvent :=
  [.snapshotChunk 500 .fits, .throttle (text "global"), .set level (.int 1), .flush .child, .unthrottle (text "global"),
    .chunk .child 500 .fits]

end OpenAvc.Cloud
