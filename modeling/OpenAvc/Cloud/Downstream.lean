import Mathlib.Data.List.Count
import Mathlib.Tactic.SplitIfs

/-! The downstream half of `Sequencer`: what the agent accepts, and which gaps it reports. -/

namespace OpenAvc.Cloud

/-- The fields that `validate_downstream_seq` and `pop_gap` share. -/
structure Downstream where
  lastDownstreamSeq : Int := 0
  lastGap : Option (Int × Int) := none

namespace Downstream

/-- `validate_downstream_seq` -/
def validateDownstreamSeq (d : Downstream) (seq : Int) : Bool × Downstream :=
  if seq ≤ d.lastDownstreamSeq then (false, d)
  else
    let expected := d.lastDownstreamSeq + 1
    (true, { lastDownstreamSeq := seq, lastGap := if seq ≠ expected then some (expected, seq - 1) else d.lastGap })

/-- `pop_gap` -/
def popGap (d : Downstream) : Option (Int × Int) × Downstream :=
  (d.lastGap, { d with lastGap := none })

/-- What `_handle_message` does about a message's number: the number if the message is accepted, and the gap it
reports. A message without a number is not looked at. -/
def handleMessage (d : Downstream) : Option Int → Option Int × Option (Int × Int) × Downstream
  | none => (none, none, d)
  | some seq =>
    match d.validateDownstreamSeq seq with
    | (false, d) => (none, none, d)
    | (true, d) => (some seq, d.popGap)

/-- The numbers accepted, the gaps reported, and the fields at the end. -/
structure Heard where
  accepted : List Int
  gaps : List (Int × Int)
  last : Downstream

/-- One message after the other. -/
def run : Downstream → List (Option Int) → Heard
  | d, [] => ⟨[], [], d⟩
  | d, seq :: seqs =>
    let (accepted, gap, d) := d.handleMessage seq
    ⟨accepted.toList ++ (run d seqs).accepted, gap.toList ++ (run d seqs).gaps, (run d seqs).last⟩

/-- A number is among the missing ones. -/
def missing (n : Int) (gap : Int × Int) : Bool :=
  gap.1 ≤ n ∧ n ≤ gap.2

variable {d : Downstream}

/-- Every gap is reported with the message that shows it. -/
theorem handleMessage_spec (popped : d.lastGap = none) (seq : Option Int) :
    d.handleMessage seq = (none, none, d) ∨
      ∃ n, seq = some n ∧ d.lastDownstreamSeq < n ∧
        d.handleMessage seq =
          (some n, if n ≠ d.lastDownstreamSeq + 1 then some (d.lastDownstreamSeq + 1, n - 1) else none, ⟨n, none⟩) := by
  cases seq with
  | none => exact Or.inl rfl
  | some n =>
    by_cases old : n ≤ d.lastDownstreamSeq
    · refine Or.inl ?_
      rw [handleMessage, validateDownstreamSeq, if_pos old]
    · refine Or.inr ⟨n, rfl, by omega, ?_⟩
      rw [handleMessage, validateDownstreamSeq, if_neg old, popped]
      rfl

/-- The gap before a number holds what lies between it and the last one. -/
theorem countP_gap (last m n : Int) :
    ((if m ≠ last + 1 then some (last + 1, m - 1) else none).toList).countP (missing n) = if last < n ∧ n < m then 1 else 0 := by
  by_cases next : m = last + 1
  · rw [if_neg (not_not.mpr next), if_neg (by omega)]
    rfl
  · rw [if_pos next]
    by_cases inside : last < n ∧ n < m
    · have within : missing n (last + 1, m - 1) = true := decide_eq_true ⟨by omega, by omega⟩
      rw [if_pos inside, Option.toList_some, List.countP_singleton, if_pos within]
    · have outside : ¬missing n (last + 1, m - 1) = true := fun within => by
        have bounds := of_decide_eq_true within
        exact inside ⟨by omega, by omega⟩
      rw [if_neg inside, Option.toList_some, List.countP_singleton, if_neg outside]

/-- From the last number on, each one is accepted or missing, and once. -/
theorem run_spec (popped : d.lastGap = none) (seqs : List (Option Int)) :
    d.lastDownstreamSeq ≤ (run d seqs).last.lastDownstreamSeq ∧
      (run d seqs).last.lastDownstreamSeq = (run d seqs).accepted.getLast?.getD d.lastDownstreamSeq ∧
      (run d seqs).accepted.Pairwise (· < ·) ∧ (∀ n ∈ (run d seqs).accepted, d.lastDownstreamSeq < n) ∧
      ∀ n, (run d seqs).accepted.count n + (run d seqs).gaps.countP (missing n) =
        if d.lastDownstreamSeq < n ∧ n ≤ (run d seqs).last.lastDownstreamSeq then 1 else 0 := by
  induction seqs generalizing d with
  | nil =>
    refine ⟨Int.le_refl _, rfl, .nil, fun n member => absurd member List.not_mem_nil, fun n => ?_⟩
    rw [if_neg (by simp only [run]; omega)]
    rfl
  | cons seq seqs ih =>
    rcases handleMessage_spec popped seq with old | ⟨m, _, new, taken⟩
    · rw [run, old]
      exact ih popped
    · obtain ⟨grows, last, increasing, above, each⟩ := ih (d := ⟨m, none⟩) rfl
      rw [run, taken]
      dsimp only at grows last above each ⊢
      refine ⟨by omega, ?_, ?_, ?_, fun n => ?_⟩
      · rw [last]
        show _ = (m :: (run ⟨m, none⟩ seqs).accepted).getLast?.getD d.lastDownstreamSeq
        rw [List.getLast?_cons]
        rfl
      · exact List.pairwise_cons.mpr ⟨above, increasing⟩
      · intro n member
        rcases List.mem_cons.mp member with rfl | later
        · exact new
        · have beyond := above n later
          omega
      · have counted := each n
        show (m :: (run ⟨m, none⟩ seqs).accepted).count n + _ = _
        rw [List.count_cons, List.countP_append]
        rw [countP_gap]
        -- the number itself, those skipped before it, and those after it
        by_cases same : m = n
        · have later : (run ⟨m, none⟩ seqs).accepted.count n + (run ⟨m, none⟩ seqs).gaps.countP (missing n) = 0 := by
            rw [counted, if_neg (by omega)]
          rw [if_pos (beq_iff_eq.mpr same), if_neg (by omega), if_pos (by omega)]
          omega
        · rw [if_neg (mt beq_iff_eq.mp same)]
          by_cases skipped : d.lastDownstreamSeq < n ∧ n < m
          · have later : (run ⟨m, none⟩ seqs).accepted.count n + (run ⟨m, none⟩ seqs).gaps.countP (missing n) = 0 := by
              rw [counted, if_neg (by omega)]
            rw [if_pos skipped, if_pos (by omega)]
            omega
          · have here : (d.lastDownstreamSeq < n ∧ n ≤ (run ⟨m, none⟩ seqs).last.lastDownstreamSeq) ↔
                (m < n ∧ n ≤ (run ⟨m, none⟩ seqs).last.lastDownstreamSeq) := by omega
            rw [if_neg skipped, if_congr here rfl rfl, ← counted]
            omega

/-- The accepted numbers go up, and with the reported gaps they are all from one to the last, each accepted once or
reported once. -/
def Heard.Partitioned (heard : Heard) : Prop :=
  heard.accepted.Pairwise (· < ·) ∧ heard.last.lastDownstreamSeq = heard.accepted.getLast?.getD 0 ∧
    ∀ n, heard.accepted.count n + heard.gaps.countP (missing n) =
      if 1 ≤ n ∧ n ≤ heard.last.lastDownstreamSeq then 1 else 0

/-- In a session nothing is lost and not reported, whatever comes in which order. -/
theorem partitioned_run (seqs : List (Option Int)) : (Downstream.run {} seqs).Partitioned := by
  obtain ⟨_, last, increasing, _, each⟩ := run_spec (d := {}) rfl seqs
  refine ⟨increasing, last, fun n => ?_⟩
  have from1 : (1 ≤ n ∧ n ≤ (run {} seqs).last.lastDownstreamSeq) ↔ (0 < n ∧ n ≤ (run {} seqs).last.lastDownstreamSeq) := by
    omega
  rw [if_congr from1 rfl rfl]
  exact each n

example : run {} [some 1, some 4, some 4, none, some 2, some 6] = ⟨[1, 4, 6], [(2, 3), (5, 5)], ⟨6, none⟩⟩ := rfl

end Downstream

end OpenAvc.Cloud
