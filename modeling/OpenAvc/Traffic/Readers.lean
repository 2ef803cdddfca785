import OpenAvc.Traffic.Holds

/-! Each reader of a device is handed its traffic in order, and the entries that it misses are counted. -/

namespace OpenAvc.Traffic

namespace Subscription

/-- What its reader was given, and what waits for it. -/
def got (sub : Subscription) : List TrafficEntry :=
  sub.given ++ sub.queue.getD []

/-- The entry is for it. -/
def takes (sub : Subscription) (entry : TrafficEntry) : Bool :=
  entry.deviceId = sub.deviceId && (!entry.chunk || sub.chunks)

/-- The entries for it that were made since it was there. -/
def offered (sub : Subscription) (log : List (TrafficEntry × Bool)) : List TrafficEntry :=
  ((log.drop sub.since).map Prod.fst).filter sub.takes

/-- It has the entries for it in order, and counts those that it misses. -/
structure Served (sub : Subscription) (log : List (TrafficEntry × Bool)) : Prop where
  since : sub.since ≤ log.length
  order : sub.got.Sublist (sub.offered log)
  counted : sub.got.length + sub.dropped = (sub.offered log).length

variable {sub : Subscription} {log : List (TrafficEntry × Bool)} {entry : TrafficEntry} {held : Bool}

theorem offered_concat (since : sub.since ≤ log.length) :
    sub.offered (log ++ [(entry, held)]) = sub.offered log ++ [entry].filter sub.takes := by
  rw [offered, List.drop_append_of_le_length since, List.map_append, List.filter_append]
  rfl

theorem Served.other (served : Served sub log) (foreign : sub.takes entry = false) :
    Served sub (log ++ [(entry, held)]) := by
  have same : sub.offered (log ++ [(entry, held)]) = sub.offered log := by
    rw [offered_concat served.since, List.filter_singleton, foreign]
    exact List.append_nil _
  refine ⟨by simpa using Nat.le_succ_of_le served.since, ?_, ?_⟩
  · rw [same]
    exact served.order
  · rw [same]
    exact served.counted

theorem got_deliver (sub : Subscription) (entry : TrafficEntry) :
    ((sub.deliver entry).got = sub.got ++ [entry] ∧ (sub.deliver entry).dropped = sub.dropped) ∨
      ((sub.deliver entry).got = sub.got ∧ (sub.deliver entry).dropped = sub.dropped + 1) := by
  unfold deliver
  split
  · rename_i callback
    exact .inl ⟨by simp [got, callback], rfl⟩
  · rename_i queue waits
    split
    · exact .inl ⟨by simp [got, waits], rfl⟩
    · exact .inr ⟨rfl, rfl⟩

theorem deliver_same (sub : Subscription) (entry : TrafficEntry) :
    (sub.deliver entry).deviceId = sub.deviceId ∧ (sub.deliver entry).chunks = sub.chunks ∧
      (sub.deliver entry).since = sub.since := by
  unfold deliver
  split
  · exact ⟨rfl, rfl, rfl⟩
  · split <;> exact ⟨rfl, rfl, rfl⟩

theorem Served.deliver (served : Served sub log) (own : sub.takes entry = true) :
    Served (sub.deliver entry) (log ++ [(entry, held)]) := by
  obtain ⟨device, chunks, since⟩ := deliver_same sub entry
  have grown : (sub.deliver entry).offered (log ++ [(entry, held)]) = sub.offered log ++ [entry] := by
    have alike : (sub.deliver entry).takes = sub.takes := by
      funext e
      rw [takes, takes, device, chunks]
    rw [offered, since, alike, ← offered, offered_concat served.since, List.filter_singleton, own]
    rfl
  have room : (sub.deliver entry).since ≤ (log ++ [(entry, held)]).length := by
    rw [since, List.length_append]
    exact Nat.le_add_right_of_le served.since
  have counted := served.counted
  rcases got_deliver sub entry with ⟨got, dropped⟩ | ⟨got, dropped⟩
  · refine ⟨room, ?_, ?_⟩
    · rw [grown, got]
      exact served.order.append (List.Sublist.refl _)
    · rw [grown, got, dropped, List.length_append, List.length_append]
      omega
  · refine ⟨room, ?_, ?_⟩
    · rw [grown, got]
      exact served.order.trans (List.sublist_append_left _ _)
    · rw [grown, got, dropped, List.length_append, List.length_singleton]
      omega

theorem read_same (sub : Subscription) : sub.read.deviceId = sub.deviceId := by
  unfold Subscription.read
  split <;> rfl

theorem Served.read (served : Served sub log) : Served sub.read log := by
  unfold Subscription.read
  split
  · rename_i entry queue waits
    have same : got { sub with queue := some queue, given := sub.given ++ [entry] } = sub.got := by
      simp [got, waits]
    refine ⟨served.since, ?_, ?_⟩
    · rw [same]
      exact served.order
    · rw [same]
      exact served.counted
  · exact served

end Subscription

namespace System

variable {bounds : Bounds} {s s' : System}

/-- Each reader stands under its device, and is served. -/
def AllServed (s : System) : Prop :=
  ∀ u ∈ s.recorder.subs, ∀ sub ∈ u.2, sub.deviceId = u.1 ∧ sub.Served s.log

@[simp] theorem subs_append (r : Recorder) (entry : TrafficEntry) : (r.append bounds entry).subs = r.subs := by
  unfold Recorder.append
  split <;> rfl

theorem AllServed.readers (served : AllServed s) {deviceId : Text} {sub : Subscription}
    (member : sub ∈ s.recorder.readers deviceId) : sub.deviceId = deviceId ∧ sub.Served s.log := by
  unfold Recorder.readers at member
  cases found : s.recorder.subs.lookup deviceId with
  | none => simp [found] at member
  | some subs =>
    rw [found] at member
    exact served _ (List.mem_of_lookup_eq_some found) sub member

theorem AllServed.deliver (served : AllServed s) (entry : TrafficEntry) (held : Bool) :
    ∀ u ∈ (s.recorder.deliver entry).subs, ∀ sub ∈ u.2, sub.deviceId = u.1 ∧ sub.Served (s.log ++ [(entry, held)]) := by
  intro u member sub here
  obtain ⟨v, there, rfl⟩ := List.mem_map.mp member
  by_cases own : v.1 = entry.deviceId
  · rw [if_pos own] at here ⊢
    obtain ⟨before, inside, rfl⟩ := List.mem_map.mp here
    obtain ⟨device, served⟩ := served v there before inside
    by_cases refuses : entry.chunk = true ∧ (!before.chunks) = true
    · rw [if_pos refuses]
      refine ⟨device, served.other ?_⟩
      simp [Subscription.takes, refuses.1, (Bool.not_eq_true' _).mp refuses.2]
    · rw [if_neg refuses]
      refine ⟨(Subscription.deliver_same before entry).1.trans device, served.deliver ?_⟩
      rw [Subscription.takes, device, own, decide_eq_true rfl, Bool.true_and]
      cases chunk : entry.chunk <;> cases chunks : before.chunks <;> simp_all
  · rw [if_neg own] at here ⊢
    obtain ⟨device, served⟩ := served v there sub here
    refine ⟨device, served.other ?_⟩
    rw [Subscription.takes, device, decide_eq_false (Ne.symm own), Bool.false_and]

theorem AllServed.next {l : Label} (served : AllServed s) (next : s.next bounds l = some s') : AllServed s' := by
  cases step_of_next next with
  | idle => exact served
  | @keep _ entry =>
    have same : (s.keep bounds entry).recorder.subs = (s.recorder.deliver entry).subs := by
      simp [System.keep, Recorder.keep, Recorder.deliver]
    intro u member
    exact served.deliver entry _ u (same ▸ member)
  | chunk => exact served.deliver _ _
  | hold | release => exact served
  | subscribe deviceId chunks callback queueSize =>
    intro u member sub here
    rcases Dict.mem_set member with rfl | old
    · rcases List.mem_append.mp here with earlier | new
      · exact served.readers earlier
      · rw [List.mem_singleton.mp new]
        refine ⟨rfl, le_refl _, ?_, ?_⟩
        · cases callback <;> simp [Subscription.got]
        · cases callback <;> simp [Subscription.got, Subscription.offered]
    · exact served u old sub here
  | unsubscribe gone =>
    intro u member sub here
    dsimp only [Recorder.unsubscribe] at member
    split at member
    · exact served u (List.mem_of_mem_filter member) sub here
    · rcases Dict.mem_set member with rfl | old
      · exact served.readers (List.mem_of_mem_filter here)
      · exact served u old sub here
  | read deviceId number =>
    intro u member sub here
    obtain ⟨v, there, rfl⟩ := List.mem_map.mp member
    by_cases own : v.1 = deviceId
    · rw [if_pos own] at here ⊢
      obtain ⟨before, inside, rfl⟩ := List.mem_map.mp here
      obtain ⟨device, served⟩ := served v there before inside
      by_cases one : before.number = number
      · rw [if_pos one]
        exact ⟨before.read_same.trans device, served.read⟩
      · rw [if_neg one]
        exact ⟨device, served⟩
    · rw [if_neg own] at here ⊢
      exact served v there sub here
  | forget => exact served

theorem served_of_reach {ok : System → Label → Prop} (reach : Run.Reach (machine bounds) ok s) : AllServed s := by
  refine reach.invariant (fun s start => ?_) fun s l s' _ served _ step => served.next step
  rw [start]
  intro u member
  cases member

theorem seqs_offered {ok : System → Label → Prop} (reach : Run.Reach (machine bounds) ok s) (sub : Subscription) :
    ((sub.offered s.log).map TrafficEntry.seq).Pairwise (· < ·) := by
  have all : (s.log.map fun made => made.1.seq).Pairwise (· < ·) := by
    rw [seqs_of_reach reach]
    exact List.pairwise_lt_range'
  have part : (sub.offered s.log).Sublist (s.log.map Prod.fst) :=
    List.filter_sublist.trans ((List.drop_sublist _ _).map _)
  have seqs := part.map TrafficEntry.seq
  rw [List.map_map] at seqs
  exact all.sublist seqs

/-- In every run, a reader has of the entries made for it since it subscribed some in their order,
none of them twice, and has counted the others. -/
theorem reader_in_order {ok : System → Label → Prop} (reach : Run.Reach (machine bounds) ok s) :
    ∀ u ∈ s.recorder.subs, ∀ sub ∈ u.2, sub.deviceId = u.1 ∧ sub.got.Sublist (sub.offered s.log) ∧
      (sub.got.map TrafficEntry.seq).Pairwise (· < ·) ∧ sub.got.length + sub.dropped = (sub.offered s.log).length := by
  intro u member sub here
  obtain ⟨device, served⟩ := served_of_reach reach u member sub here
  exact ⟨device, served.order, (seqs_offered reach sub).sublist (served.order.map _), served.counted⟩

/-- A reader that is slow, and has room for one entry. -/
def slowReader : List Label :=
  [.subscribe (text "projector") false false 1, .record 1 (text "projector", .rx) [80] (text "tcp") none,
    .record 2 (text "projector", .rx) [87] (text "tcp") none, .read (text "projector") 0,
    .record 3 (text "projector", .rx) [82] (text "tcp") none]

theorem slowReader_run : ((machine {}).run Run.always {} slowReader).map (fun s => s.recorder.subs.map fun u =>
    u.2.map fun sub => (sub.got.map TrafficEntry.seq, sub.dropped)) = some [[([1, 3], 1)]] := by
  decide +kernel

theorem reader_in_order_slow :
    ∃ s, (machine {}).run Run.always {} slowReader = some s ∧
      (s.recorder.subs.map fun u => u.2.map fun sub => (sub.got.map TrafficEntry.seq, sub.dropped)) = [[([1, 3], 1)]] ∧
      ∀ u ∈ s.recorder.subs, ∀ sub ∈ u.2, sub.got.length + sub.dropped = (sub.offered s.log).length := by
  obtain ⟨s, run, has⟩ := Option.map_eq_some_iff.mp slowReader_run
  have start : (machine {}).init {} := rfl
  have order := reader_in_order ((Run.Reach.init start).run run)
  exact ⟨s, run, has, fun u member sub here => (order u member sub here).2.2.2⟩

end System

end OpenAvc.Traffic
