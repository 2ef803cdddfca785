import OpenAvc.Data.Lookup
import OpenAvc.Traffic.Recorder

/-! The holds that the blocks of file transfers put on a device's traffic, and the entries made under them. -/

namespace OpenAvc.Traffic

/-- How many holds are open on a way. -/
def heldCount (holds : List (Way × Nat)) (way : Way) : Nat :=
  (holds.lookup way).getD 0

theorem heldCount_hold (s : Recorder) (ways : List Way) (way : Way) :
    heldCount (s.hold ways).holds way = heldCount s.holds way + ways.count way := by
  unfold Recorder.hold
  dsimp only
  generalize s.holds = holds
  induction ways generalizing holds with
  | nil => simp
  | cons first ways ih =>
    rw [List.foldl_cons, ih, heldCount, Dict.lookup_set, List.count_cons]
    by_cases here : way = first
    · subst here
      simp [heldCount]
      omega
    · simp [here, Ne.symm here, heldCount]

theorem heldCount_drop (holds : List (Way × Nat)) (first way : Way) :
    heldCount (if 0 < (holds.lookup first).getD 0 - 1 then Dict.set holds first ((holds.lookup first).getD 0 - 1)
      else holds.filter fun u => u.1 ≠ first) way = heldCount holds way - if first = way then 1 else 0 := by
  have left := List.lookup_filter_keys (fun w => decide (w ≠ first)) way holds
  by_cases here : first = way
  · subst here
    rw [if_pos rfl]
    split_ifs with more
    · simp [heldCount]
    · rw [heldCount, left]
      simp only [ne_eq, not_true_eq_false, decide_false, Bool.false_eq_true, if_false, Option.getD_none, heldCount]
      omega
  · rw [if_neg here]
    split_ifs
    · rw [heldCount, Dict.lookup_set, if_neg (Ne.symm here)]
      rfl
    · rw [heldCount, left, if_pos (decide_eq_true (Ne.symm here))]
      rfl

theorem heldCount_release (s : Recorder) (ways : List Way) (way : Way) :
    heldCount (s.release ways).holds way = heldCount s.holds way - ways.count way := by
  unfold Recorder.release
  dsimp only
  generalize s.holds = holds
  induction ways generalizing holds with
  | nil => simp
  | cons first ways ih =>
    rw [List.foldl_cons, ih, heldCount_drop, List.count_cons, Nat.sub_sub, Nat.add_comm]
    simp only [beq_iff_eq]

namespace System

variable {bounds : Bounds} {s s' : System}

/-- The recorder counts the blocks that hold a way. -/
def Counted (s : System) : Prop :=
  ∀ way, heldCount s.recorder.holds way = s.blocks.flatten.count way

theorem Counted.isHeld (counted : Counted s) (way : Way) : s.recorder.isHeld way = s.holding way := by
  have count := counted way
  rw [Bool.eq_iff_iff]
  have held : s.recorder.isHeld way = true ↔ heldCount s.recorder.holds way ≠ 0 := by
    unfold Recorder.isHeld heldCount
    cases s.recorder.holds.lookup way <;> simp
  have holding : s.holding way = true ↔ way ∈ s.blocks.flatten := by
    simp [System.holding]
  rw [held, holding, count, ← Nat.pos_iff_ne_zero, List.count_pos_iff]

@[simp] theorem holds_append (r : Recorder) (entry : TrafficEntry) : (r.append bounds entry).holds = r.holds := by
  unfold Recorder.append
  split <;> rfl

theorem Counted.next {l : Label} (counted : Counted s) (next : s.next bounds l = some s') : Counted s' := by
  cases step_of_next next with
  | idle => exact counted
  | @keep _ entry =>
    intro way
    change heldCount (s.recorder.append bounds entry).holds way = _
    rw [holds_append]
    exact counted way
  | chunk => exact counted
  | hold ways =>
    intro way
    dsimp only
    rw [heldCount_hold, counted way, List.flatten_append, List.count_append]
    simp
  | @release _ block ways found =>
    intro way
    dsimp only
    have cut : s.blocks.flatten.count way = (s.blocks.eraseIdx block).flatten.count way + ways.count way := by
      obtain ⟨inside, here⟩ := List.getElem?_eq_some_iff.mp found
      have split : s.blocks = s.blocks.take block ++ ways :: s.blocks.drop (block + 1) := by
        rw [← here, List.getElem_cons_drop, List.take_append_drop]
      rw [List.eraseIdx_eq_take_drop_succ]
      conv_lhs => rw [split]
      simp only [List.flatten_append, List.flatten_cons, List.count_append]
      omega
    rw [heldCount_release, counted way]
    omega
  | subscribe | unsubscribe | read | forget => exact counted

theorem counted_of_reach {ok : System → Label → Prop} (reach : Run.Reach (machine bounds) ok s) : Counted s := by
  refine reach.invariant (fun s start => ?_) fun s l s' _ counted _ step => counted.next step
  rw [start]
  intro way
  rfl

/-- What a step adds to the log. -/
theorem log_next {l : Label} (counted : Counted s) (next : s.next bounds l = some s') :
    s'.log = s.log ∨ ∃ entry, s'.log = s.logged entry ∧ entry.seq = s.seq ∧
      (s.holding (entry.deviceId, entry.direction) = true → entry.data = []) := by
  cases step_of_next next with
  | keep _ number _ empty =>
    rw [counted.isHeld] at empty
    exact .inr ⟨_, rfl, number, empty⟩
  | chunk _ number free =>
    rw [counted.isHeld] at free
    exact .inr ⟨_, rfl, number, fun held => absurd (free.symm.trans held) (by simp)⟩
  | idle | hold | release | subscribe | unsubscribe | read | forget => exact .inl rfl

theorem withheld_of_reach {ok : System → Label → Prop} (reach : Run.Reach (machine bounds) ok s) :
    ∀ made ∈ s.log, made.2 = true → made.1.data = [] := by
  refine reach.invariant (I := fun s => ∀ made ∈ s.log, made.2 = true → made.1.data = []) (fun s start => ?_)
    fun s l s' before kept _ step => ?_
  · rw [start]
    simp
  · rcases log_next (counted_of_reach before) step with same | ⟨entry, added, _, empty⟩
    · rw [same]
      exact kept
    · rw [added]
      refine List.forall_mem_append.mpr ⟨kept, ?_⟩
      simpa using empty

/-- The entries are numbered as they are made. -/
theorem seqs_of_reach {ok : System → Label → Prop} (reach : Run.Reach (machine bounds) ok s) :
    s.log.map (fun made => made.1.seq) = List.range' 1 s.log.length := by
  refine reach.invariant (I := fun s => s.log.map (fun made => made.1.seq) = List.range' 1 s.log.length)
    (fun s start => ?_) fun s l s' before numbered _ step => ?_
  · rw [start]
    rfl
  · rcases log_next (counted_of_reach before) step with same | ⟨entry, added, number, _⟩
    · rw [same]
      exact numbered
    · rw [added, System.logged, List.map_append, numbered, List.length_append, List.length_singleton, List.range'_1_concat]
      rw [List.map_singleton, number, System.seq, Nat.add_comm]

end System

end OpenAvc.Traffic
