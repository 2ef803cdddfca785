import Mathlib.Data.Finset.Card
import OpenAvc.Traffic.Readers

/-! Each device's ring holds its newest traffic; the ring of a device in use does not go. -/

namespace OpenAvc.Traffic

open Newest

theorem size_le {x l : List TrafficEntry} (inner : x.Sublist l) : size x ≤ size l := by
  induction inner with
  | slnil => exact le_refl _
  | cons entry _ ih =>
    exact ih.trans (by simp [size])
  | cons_cons entry _ ih =>
    rw [size, size, List.map_cons, List.map_cons, List.sum_cons, List.sum_cons]
    exact Nat.add_le_add_left ih _

namespace Bounds

variable {bounds : Bounds}

theorem fits_nil : bounds.fits [] = true := by
  simp [fits, size]

theorem fits_shrinks : Shrinks bounds.fits := by
  intro x l inner fit
  have length := inner.length_le
  have bytes := size_le inner
  simp only [fits, Bool.and_eq_true, decide_eq_true_eq] at fit ⊢
  omega

end Bounds

/-- The entries of a device that are kept, which raw chunks are not. -/
def kept (deviceId : Text) (log : List (TrafficEntry × Bool)) : List TrafficEntry :=
  (log.map Prod.fst).filter fun entry => entry.deviceId = deviceId && !entry.chunk

theorem kept_concat (deviceId : Text) (log : List (TrafficEntry × Bool)) (entry : TrafficEntry) (held : Bool) :
    kept deviceId (log ++ [(entry, held)]) =
      kept deviceId log ++ if entry.deviceId = deviceId ∧ entry.chunk = false then [entry] else [] := by
  rw [kept, List.map_append, List.filter_append, kept]
  by_cases own : entry.deviceId = deviceId <;> cases chunk : entry.chunk <;> simp [own, chunk]

/-- The rings have one name each, they fit, and hold the end of what their device did. -/
structure Rings (bounds : Bounds) (log : List (TrafficEntry × Bool)) (rings : List (Text × Ring)) : Prop where
  names : (rings.map Prod.fst).Nodup
  fit : ∀ u ∈ rings, bounds.fits u.2.entries = true
  ends : ∀ u ∈ rings, u.2.entries <:+ kept u.1 log

namespace Recorder

variable {bounds : Bounds} {r : Recorder} {log : List (TrafficEntry × Bool)} {entry : TrafficEntry} {held : Bool}

theorem evict_sublist (bounds : Bounds) (r : Recorder) (rings : List (Text × Ring)) : (r.evict bounds rings).Sublist rings := by
  unfold evict
  induction rings.length - bounds.maxDevices generalizing rings with
  | zero => exact List.Sublist.refl _
  | succ n ih =>
    rw [Function.iterate_succ_apply]
    exact (ih _).trans List.eraseP_sublist

end Recorder

namespace Rings

variable {bounds : Bounds} {rings rings' : List (Text × Ring)} {log : List (TrafficEntry × Bool)} {entry : TrafficEntry}
  {held : Bool}

theorem sublist (good : Rings bounds log rings) (fewer : rings'.Sublist rings) : Rings bounds log rings' :=
  ⟨good.names.sublist (fewer.map _), fun u member => good.fit u (fewer.subset member),
    fun u member => good.ends u (fewer.subset member)⟩

/-- An entry that is for other rings, or for none. -/
theorem other (good : Rings bounds log rings) (foreign : ∀ u ∈ rings, ¬(entry.deviceId = u.1 ∧ entry.chunk = false)) :
    Rings bounds (log ++ [(entry, held)]) rings := by
  refine ⟨good.names, good.fit, fun u member => ?_⟩
  rw [kept_concat, if_neg (foreign u member), List.append_nil]
  exact good.ends u member

theorem append_end {ring : Ring} (ends : ring.entries <:+ kept entry.deviceId log) (kind : entry.chunk = false) :
    (ring.append bounds entry).entries <:+ kept entry.deviceId (log ++ [(entry, held)]) := by
  rw [Ring.entries_append, kept_concat, if_pos ⟨rfl, kind⟩]
  obtain ⟨front, whole⟩ := ends
  exact (newest_suffix _).trans ⟨front, by rw [← List.append_assoc, whole]⟩

theorem append (r : Recorder) (good : Rings bounds log r.rings) (kind : entry.chunk = false) :
    Rings bounds (log ++ [(entry, held)]) (r.append bounds entry).rings := by
  unfold Recorder.append
  split
  · rename_i ring found
    have others := good.sublist (List.filter_sublist (p := fun u => decide (u.1 ≠ entry.deviceId)))
    have apart : ∀ u ∈ r.rings.filter fun u => decide (u.1 ≠ entry.deviceId), u.1 ≠ entry.deviceId :=
      fun u member => of_decide_eq_true (List.mem_filter.mp member).2
    have still : Rings bounds (log ++ [(entry, held)]) (r.rings.filter fun u => u.1 ≠ entry.deviceId) :=
      others.other fun u member own => apart u member own.1.symm
    refine ⟨?_, ?_, ?_⟩
    · rw [List.map_append]
      refine List.Nodup.append still.names (List.nodup_singleton _) ?_
      rintro name front last
      obtain ⟨u, member, rfl⟩ := List.mem_map.mp front
      exact apart u member (List.mem_singleton.mp last)
    · refine List.forall_mem_append.mpr ⟨still.fit, ?_⟩
      rintro u member
      rw [List.mem_singleton.mp member, Ring.entries_append]
      exact fits_newest Bounds.fits_nil _
    · refine List.forall_mem_append.mpr ⟨still.ends, ?_⟩
      rintro u member
      rw [List.mem_singleton.mp member]
      exact append_end (good.ends _ (List.mem_of_lookup_eq_some found)) kind
  · rename_i missing
    have fresh : ∀ u ∈ r.rings, u.1 ≠ entry.deviceId := by
      intro u member same
      obtain ⟨ring, found⟩ := List.exists_lookup_of_mem (List.mem_map.mpr ⟨u, member, same⟩)
      rw [missing] at found
      cases found
    have added : Rings bounds log (r.rings ++ [(entry.deviceId, .empty)]) := by
      refine ⟨?_, ?_, ?_⟩
      · rw [List.map_append]
        refine List.Nodup.append good.names (List.nodup_singleton _) ?_
        rintro name front last
        obtain ⟨u, member, rfl⟩ := List.mem_map.mp front
        exact fresh u member (List.mem_singleton.mp last)
      · refine List.forall_mem_append.mpr ⟨good.fit, ?_⟩
        rintro u member
        rw [List.mem_singleton.mp member]
        exact Bounds.fits_nil
      · refine List.forall_mem_append.mpr ⟨good.ends, ?_⟩
        rintro u member
        rw [List.mem_singleton.mp member]
        exact List.nil_suffix
    have left := added.sublist (Recorder.evict_sublist bounds r _)
    refine ⟨?_, ?_, ?_⟩
    · rw [List.map_map]
      refine (List.map_congr_left fun u _ => ?_) ▸ left.names
      dsimp only [Function.comp_apply, filed]
      split <;> rfl
    · intro u member
      obtain ⟨v, there, rfl⟩ := List.mem_map.mp member
      unfold filed
      split
      · rw [Ring.entries_append]
        exact fits_newest Bounds.fits_nil _
      · exact left.fit v there
    · intro u member
      obtain ⟨v, there, rfl⟩ := List.mem_map.mp member
      unfold filed
      split
      · rename_i own
        have ends := left.ends v there
        rw [own] at ends ⊢
        exact append_end ends kind
      · rename_i foreign
        rw [kept_concat, if_neg fun own => foreign own.1.symm, List.append_nil]
        exact left.ends v there

end Rings

/-! ### A stretch of a run -/

/-- What was recorded in a stretch of a run is kept in the rings used last, which are those of `S`. -/
def KeptIn (bounds : Bounds) (S : Finset Text) (new : List (TrafficEntry × Bool)) (rings : List (Text × Ring)) : Prop :=
  ∃ back recent, rings = back ++ recent ∧ (∀ u ∈ recent, u.1 ∈ S) ∧
    ∀ deviceId, kept deviceId new ≠ [] → ∃ ring, (deviceId, ring) ∈ recent ∧ newest bounds.fits (kept deviceId new) <:+ ring.entries

section

variable {bounds : Bounds} {S : Finset Text} {r : Recorder} {new : List (TrafficEntry × Bool)} {entry : TrafficEntry}
  {held : Bool} {back recent : List (Text × Ring)}

/-- Where the rings used last, and those with a reader, are of few devices, the ring that goes is
another one. -/
theorem evict_recent (room : S.card ≤ bounds.maxDevices) (unread : ∀ u ∈ back, u.1 ∉ S → r.unread u = true)
    (inside : ∀ u ∈ recent, u.1 ∈ S) (names : ((back ++ recent).map Prod.fst).Nodup) :
    ∃ back', back'.Sublist back ∧ r.evict bounds (back ++ recent) = back' ++ recent := by
  unfold Recorder.evict
  generalize excess : (back ++ recent).length - bounds.maxDevices = n
  induction n generalizing back with
  | zero => exact ⟨back, List.Sublist.refl back, rfl⟩
  | succ n ih =>
    have outside : ∃ u ∈ back, u.1 ∉ S := by
      by_contra all
      push Not at all
      have within : ((back ++ recent).map Prod.fst).toFinset ⊆ S := by
        intro name member
        obtain ⟨u, there, rfl⟩ := List.mem_map.mp (List.mem_toFinset.mp member)
        exact (List.mem_append.mp there).elim (all u) (inside u)
      have few := Finset.card_le_card within
      rw [List.toFinset_card_of_nodup names, List.length_map] at few
      omega
    obtain ⟨u, member, foreign⟩ := outside
    have free := unread u member foreign
    have cut : (back ++ recent).eraseP r.unread = back.eraseP r.unread ++ recent := List.eraseP_append_left free recent member
    have fewer : (back.eraseP r.unread).Sublist back := List.eraseP_sublist
    have less : (back.eraseP r.unread ++ recent).length - bounds.maxDevices = n := by
      rw [List.length_append, List.length_eraseP_of_mem member free]
      rw [List.length_append] at excess
      have present := List.length_pos_of_mem member
      omega
    obtain ⟨back', inner, rest⟩ := ih (fun v there => unread v (fewer.subset there))
      (names.sublist ((fewer.append_right recent).map _)) less
    refine ⟨back', inner.trans fewer, ?_⟩
    rw [Function.iterate_succ_apply, cut, rest]

theorem KeptIn.append (keeps : KeptIn bounds S new r.rings) (room : S.card ≤ bounds.maxDevices)
    (names : (r.rings.map Prod.fst).Nodup) (unread : ∀ u, u.1 ∉ S → r.unread u = true) (own : entry.deviceId ∈ S)
    (kind : entry.chunk = false) : KeptIn bounds S (new ++ [(entry, held)]) (r.append bounds entry).rings := by
  obtain ⟨back, recent, whole, inside, has⟩ := keeps
  have known {deviceId : Text} {ring : Ring} (member : (deviceId, ring) ∈ recent) : r.rings.lookup deviceId = some ring :=
    List.lookup_of_mem names (whole ▸ List.mem_append_right back member)
  -- The device's ring holds what was kept of it so far, and then the entry too.
  have grows {ring : Ring} (holds : newest bounds.fits (kept entry.deviceId new) <:+ ring.entries) :
      newest bounds.fits (kept entry.deviceId (new ++ [(entry, held)])) <:+ (ring.append bounds entry).entries := by
    rw [kept_concat, if_pos ⟨rfl, kind⟩, Ring.entries_append]
    exact newest_concat_suffix Bounds.fits_shrinks Bounds.fits_nil holds
  have still {deviceId : Text} (other : deviceId ≠ entry.deviceId) :
      kept deviceId (new ++ [(entry, held)]) = kept deviceId new := by
    rw [kept_concat, if_neg fun same => other same.1.symm, List.append_nil]
  unfold Recorder.append
  split
  · rename_i ring found
    refine ⟨back.filter fun u => u.1 ≠ entry.deviceId,
      (recent.filter fun u => u.1 ≠ entry.deviceId) ++ [(entry.deviceId, ring.append bounds entry)], ?_, ?_, ?_⟩
    · dsimp only
      rw [whole, List.filter_append, List.append_assoc]
    · refine List.forall_mem_append.mpr ⟨fun u member => inside u (List.mem_of_mem_filter member), ?_⟩
      intro u member
      rw [List.mem_singleton.mp member]
      exact own
    · intro deviceId heard
      by_cases here : deviceId = entry.deviceId
      · subst here
        refine ⟨_, List.mem_append_right _ (List.mem_singleton_self _), grows ?_⟩
        by_cases silent : kept entry.deviceId new = []
        · rw [silent]
          exact List.nil_suffix
        · obtain ⟨ring', member, ends⟩ := has entry.deviceId silent
          rw [known member] at found
          exact Option.some.inj found ▸ ends
      · rw [still here] at heard ⊢
        obtain ⟨ring', member, ends⟩ := has deviceId heard
        exact ⟨ring', List.mem_append_left _ (List.mem_filter.mpr ⟨member, decide_eq_true here⟩), ends⟩
  · rename_i missing
    have silent : kept entry.deviceId new = [] := by
      by_contra heard
      obtain ⟨ring, member, _⟩ := has entry.deviceId heard
      rw [known member] at missing
      cases missing
    have fresh : entry.deviceId ∉ r.rings.map Prod.fst := by
      intro member
      obtain ⟨ring, found⟩ := List.exists_lookup_of_mem member
      rw [missing] at found
      cases found
    have names' : ((back ++ (recent ++ [(entry.deviceId, Ring.empty)])).map Prod.fst).Nodup := by
      rw [← List.append_assoc, ← whole, List.map_append]
      refine List.Nodup.append names (List.nodup_singleton _) ?_
      rintro name front last
      rw [List.map_singleton, List.mem_singleton] at last
      obtain rfl : name = entry.deviceId := last
      exact fresh front
    have inside' : ∀ u ∈ recent ++ [(entry.deviceId, Ring.empty)], u.1 ∈ S := by
      refine List.forall_mem_append.mpr ⟨inside, ?_⟩
      intro u member
      rw [List.mem_singleton.mp member]
      exact own
    obtain ⟨back', _, left⟩ := evict_recent room (fun u _ => unread u) inside' names'
    refine ⟨back'.map (filed bounds entry), (recent ++ [(entry.deviceId, Ring.empty)]).map (filed bounds entry), ?_, ?_, ?_⟩
    · dsimp only
      rw [whole, List.append_assoc, left, List.map_append]
    · intro u member
      obtain ⟨v, there, rfl⟩ := List.mem_map.mp member
      unfold filed
      split <;> exact inside' v there
    · intro deviceId heard
      by_cases here : deviceId = entry.deviceId
      · subst here
        refine ⟨Ring.empty.append bounds entry, ?_, grows ?_⟩
        · refine List.mem_map.mpr ⟨_, List.mem_append_right _ (List.mem_singleton_self _), ?_⟩
          exact if_pos rfl
        · rw [silent]
          exact List.nil_suffix
      · rw [still here] at heard ⊢
        obtain ⟨ring', member, ends⟩ := has deviceId heard
        refine ⟨ring', List.mem_map.mpr ⟨_, List.mem_append_left _ member, ?_⟩, ends⟩
        exact if_neg here

end

namespace System

variable {bounds : Bounds} {s s' : System}

theorem rings_of_reach {ok : System → Label → Prop} (reach : Run.Reach (machine bounds) ok s) :
    Rings bounds s.log s.recorder.rings := by
  refine reach.invariant (I := fun s => Rings bounds s.log s.recorder.rings) (fun s start => ?_)
    fun s l s' _ good _ next => ?_
  · rw [start]
    exact ⟨.nil, by simp, by simp⟩
  · cases step_of_next next with
    | keep kind => exact good.append s.recorder kind
    | chunk raw => exact good.other fun u _ own => by simp [raw] at own
    | forget => exact good.sublist List.filter_sublist
    | idle | hold | release | subscribe | unsubscribe | read => exact good

/-- The devices that traffic is recorded of, or that have a reader, are of `S`, and none of these is forgotten. -/
def within (S : Finset Text) (s : System) (l : Label) : Prop :=
  (∀ u ∈ s.recorder.subs, u.2.isEmpty = false → u.1 ∈ S) ∧ l.recordsFor.all (· ∈ S) ∧ l.forgets.all (· ∉ S)

instance (S : Finset Text) (s : System) (l : Label) : Decidable (within S s l) :=
  inferInstanceAs (Decidable (_ ∧ _))

/-- The recorder of the running program, from some state on. -/
def machineFrom (bounds : Bounds) (start : System) : Run.Machine System Label where
  init s := s = start
  next s l := s.next bounds l

theorem unread_of_within {S : Finset Text} (read : ∀ u ∈ s.recorder.subs, u.2.isEmpty = false → u.1 ∈ S)
    (u : Text × Ring) (outside : u.1 ∉ S) : s.recorder.unread u = true := by
  unfold Recorder.unread Recorder.readers
  cases found : s.recorder.subs.lookup u.1 with
  | none => rfl
  | some subs =>
    by_contra busy
    exact outside (read _ (List.mem_of_lookup_eq_some found) (Bool.eq_false_iff.mpr busy))

theorem keptIn_next {S : Finset Text} {new : List (TrafficEntry × Bool)} {l : Label} (room : S.card ≤ bounds.maxDevices)
    (good : Rings bounds s.log s.recorder.rings) (keeps : KeptIn bounds S new s.recorder.rings) (meets : within S s l)
    (next : s.next bounds l = some s') :
    ∃ more, s'.log = s.log ++ more ∧ KeptIn bounds S (new ++ more) s'.recorder.rings := by
  have still : s.log = s.log ++ [] ∧ KeptIn bounds S (new ++ []) s.recorder.rings := by
    rw [List.append_nil, List.append_nil]
    exact ⟨rfl, keeps⟩
  obtain ⟨read, records, forgets⟩ := meets
  cases step_of_next next with
  | keep kind _ own _ =>
    rw [own] at records
    exact ⟨_, rfl, keeps.append room good.names (unread_of_within read) (by simpa using records) kind⟩
  | chunk raw =>
    obtain ⟨back, recent, whole, inside, has⟩ := keeps
    refine ⟨_, rfl, back, recent, whole, inside, fun deviceId heard => ?_⟩
    rw [kept_concat, if_neg fun own => by simp [raw] at own, List.append_nil] at heard ⊢
    exact has deviceId heard
  | forget deviceId =>
    obtain ⟨back, recent, whole, inside, has⟩ := keeps
    have outside : deviceId ∉ S := by simpa [Label.forgets] using forgets
    refine ⟨[], still.1, back.filter fun u => u.1 ≠ deviceId, recent.filter fun u => u.1 ≠ deviceId, ?_, ?_, ?_⟩
    · rw [Recorder.forget, whole, List.filter_append]
    · exact fun u member => inside u (List.mem_of_mem_filter member)
    · intro other heard
      rw [List.append_nil] at heard ⊢
      obtain ⟨ring, member, ends⟩ := has other heard
      refine ⟨ring, List.mem_filter.mpr ⟨member, decide_eq_true fun same => outside ?_⟩, ends⟩
      exact same ▸ inside _ member
  | idle | hold | release | subscribe | unsubscribe | read => exact ⟨[], still⟩

/-- From any reached state on, and as long as no more devices are in use than there are rings, a
device's newest entries since then are kept, as many as fit, whatever else was in the rings. -/
theorem ring_kept {ok : System → Label → Prop} {S : Finset Text} {start : System} (room : S.card ≤ bounds.maxDevices)
    (reach : Run.Reach (machine bounds) ok start) (stretch : Run.Reach (machineFrom bounds start) (within S) s)
    (deviceId : Text) :
    newest bounds.fits (kept deviceId (s.log.drop start.log.length)) <:+ s.recorder.getRecent deviceId 0 := by
  have along : Run.Reach (machine bounds) Run.always s ∧
      ∃ new, s.log = start.log ++ new ∧ KeptIn bounds S new s.recorder.rings := by
    induction stretch with
    | init same =>
      obtain rfl := same
      refine ⟨reach.mono fun _ _ _ => trivial, [], (List.append_nil _).symm, _, [], (List.append_nil _).symm, by simp, ?_⟩
      intro deviceId heard
      exact absurd rfl heard
    | step _ meets run ih =>
      obtain ⟨reach, new, log, keeps⟩ := ih
      obtain ⟨more, log', keeps'⟩ := keptIn_next room (rings_of_reach reach) keeps meets run
      refine ⟨.step reach trivial run, new ++ more, ?_, keeps'⟩
      rw [log', log, List.append_assoc]
  obtain ⟨reach, new, log, back, recent, whole, _, has⟩ := along
  rw [log, List.drop_left]
  by_cases silent : kept deviceId new = []
  · rw [silent]
    exact List.nil_suffix
  · obtain ⟨ring, member, ends⟩ := has deviceId silent
    have found : s.recorder.rings.lookup deviceId = some ring :=
      List.lookup_of_mem (rings_of_reach reach).names (whole ▸ List.mem_append_right back member)
    rw [Recorder.getRecent, found, if_pos rfl]
    exact ends

def twoRings : Bounds where
  maxDevices := 2

/-- Two devices are in use after a third was. -/
def inUse : List Label :=
  [.record 2 (text "projector", .tx) [2] (text "tcp") none, .record 3 (text "display", .rx) [3] (text "tcp") none,
    .record 4 (text "projector", .rx) [4] (text "tcp") none]

theorem inUse_run : ((machine twoRings).run Run.always {} [.record 1 (text "camera", .tx) [1] (text "udp") none]).bind
    (fun start => ((machineFrom twoRings start).run (within {text "projector", text "display"}) start inUse).map
      fun s => ((s.recorder.getRecent (text "camera") 0).length,
        (s.recorder.getRecent (text "projector") 0).map TrafficEntry.seq)) = some (0, [2, 4]) := by
  decide +kernel

theorem ring_kept_inUse :
    ∃ start s, (machineFrom twoRings start).run (within {text "projector", text "display"}) start inUse = some s ∧
      (s.recorder.getRecent (text "camera") 0).length = 0 ∧
      (s.recorder.getRecent (text "projector") 0).map TrafficEntry.seq = [2, 4] ∧
      newest twoRings.fits (kept (text "projector") (s.log.drop start.log.length)) <:+
        s.recorder.getRecent (text "projector") 0 := by
  obtain ⟨start, first, rest⟩ := Option.bind_eq_some_iff.mp inUse_run
  obtain ⟨s, run, has⟩ := Option.map_eq_some_iff.mp rest
  obtain ⟨camera, projector⟩ := Prod.mk.inj has
  have empty : (machine twoRings).init {} := rfl
  have again : (machineFrom twoRings start).init start := rfl
  have reach := (Run.Reach.init empty).run first
  exact ⟨start, s, run, camera, projector, ring_kept (by decide) reach ((Run.Reach.init again).run run) (text "projector")⟩

/-! ### Files -/

/-- The entry is in a ring, or with a reader. -/
def Shown (r : Recorder) (entry : TrafficEntry) : Prop :=
  (∃ u ∈ r.rings, entry ∈ u.2.entries) ∨ ∃ u ∈ r.subs, ∃ sub ∈ u.2, entry ∈ sub.got

theorem logged_of_shown {ok : System → Label → Prop} (reach : Run.Reach (machine bounds) ok s) {entry : TrafficEntry}
    (shown : Shown s.recorder entry) : ∃ held, (entry, held) ∈ s.log := by
  have inLog : entry ∈ s.log.map Prod.fst := by
    rcases shown with ⟨u, member, here⟩ | ⟨u, member, sub, there, here⟩
    · exact List.mem_of_mem_filter (((rings_of_reach reach).ends u member).subset here)
    · have offered := (served_of_reach reach u member sub there).2.order.subset here
      obtain ⟨made, since, same⟩ := List.mem_map.mp (List.mem_of_mem_filter offered)
      exact List.mem_map.mpr ⟨made, List.mem_of_mem_drop since, same⟩
  obtain ⟨made, member, rfl⟩ := List.mem_map.mp inLog
  exact ⟨made.2, member⟩

/-- In every run, an entry that was made while a block of a file transfer held its way has none of
the bytes, in whichever ring it is kept and whichever reader has it. -/
theorem file_withheld {ok : System → Label → Prop} (reach : Run.Reach (machine bounds) ok s) {entry : TrafficEntry}
    (shown : Shown s.recorder entry) :
    ∃ held, (entry, held) ∈ s.log ∧ (∀ made ∈ s.log, made.1.seq = entry.seq → made = (entry, held)) ∧
      (held = true → entry.data = []) := by
  obtain ⟨held, logged⟩ := logged_of_shown reach shown
  refine ⟨held, logged, fun made member same => ?_, withheld_of_reach reach (entry, held) logged⟩
  have distinct : (s.log.map fun made => made.1.seq).Nodup := seqs_of_reach reach ▸ List.nodup_range'
  exact List.inj_on_of_nodup_map distinct member logged same

/-- A file goes to a projector, which is then asked something. -/
def fileSent : List Label :=
  [.hold (text "projector") true false, .record 1 (text "projector", .tx) [80, 75, 3, 4] (text "tcp") none, .release 0,
    .record 2 (text "projector", .tx) [63] (text "tcp") none]

theorem fileSent_run : ((machine {}).run Run.always {} fileSent).map (fun s =>
    (s.recorder.rings.flatMap fun u => u.2.entries.map TrafficEntry.seq, s.log.map fun made => (made.1.seq, made.2, made.1.data))) =
      some ([1, 2], [(1, true, []), (2, false, [63])]) := by
  decide +kernel

theorem file_withheld_fileSent :
    ∃ s entry, (machine {}).run Run.always {} fileSent = some s ∧ Shown s.recorder entry ∧ entry.seq = 1 ∧ entry.data = [] := by
  obtain ⟨s, run, facts⟩ := Option.map_eq_some_iff.mp fileSent_run
  obtain ⟨rings, log⟩ := Prod.mk.inj facts
  have first : 1 ∈ s.recorder.rings.flatMap fun u => u.2.entries.map TrafficEntry.seq := by simp [rings]
  obtain ⟨u, member, inside⟩ := List.mem_flatMap.mp first
  obtain ⟨entry, here, number⟩ := List.mem_map.mp inside
  have shown : Shown s.recorder entry := .inl ⟨u, member, here⟩
  have start : (machine {}).init {} := rfl
  obtain ⟨held, logged, _, withheld⟩ := file_withheld ((Run.Reach.init start).run run) shown
  have row : (entry.seq, held, entry.data) ∈ s.log.map fun made => (made.1.seq, made.2, made.1.data) :=
    List.mem_map_of_mem logged
  rw [log, number] at row
  refine ⟨s, entry, run, shown, number, withheld ?_⟩
  rcases List.mem_cons.mp row with same | later
  · exact (Prod.mk.inj (Prod.mk.inj same).2).1
  · exact absurd (Prod.mk.inj (List.mem_singleton.mp later)).1 (by decide)

end System

end OpenAvc.Traffic
