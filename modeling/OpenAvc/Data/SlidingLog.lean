import Mathlib.Algebra.Order.Group.Defs
import Mathlib.Algebra.Order.Monoid.Unbundled.Basic
import Mathlib.Data.List.Basic
import Mathlib.Data.List.Induction
import Mathlib.Order.Lattice

/-! A log of times of which only the recent ones count. -/

namespace SlidingLog

variable {α : Type*} [LinearOrder α]

/-- The entries of a log that are still there at a cutoff. -/
def since (cutoff : α) (log : List α) : List α :=
  log.filter (cutoff ≤ ·)

@[simp] theorem since_nil (cutoff : α) : since cutoff [] = [] := rfl

@[simp] theorem mem_since {cutoff t : α} {log : List α} : t ∈ since cutoff log ↔ t ∈ log ∧ cutoff ≤ t := by
  simp [since]

theorem since_append (cutoff : α) (log later : List α) :
    since cutoff (log ++ later) = since cutoff log ++ since cutoff later :=
  List.filter_append ..

/-- What an earlier cutoff has dropped is not missed at a later one. -/
theorem since_since {earlier later : α} (order : earlier ≤ later) (log : List α) :
    since later (since earlier log) = since later log := by
  unfold since
  rw [List.filter_filter]
  refine List.filter_congr fun t _ => ?_
  by_cases recent : later ≤ t
  · simp [recent, order.trans recent]
  · simp [recent]

theorem since_eq_nil {cutoff : α} {log : List α} : since cutoff log = [] ↔ ∀ t ∈ log, t < cutoff := by
  simp [since, List.filter_eq_nil_iff]

/-- In a log kept in order, dropping from the front leaves the recent entries. -/
theorem dropWhile_eq_since {log : List α} (sorted : log.Pairwise (· ≤ ·)) (cutoff : α) :
    log.dropWhile (· < cutoff) = since cutoff log := by
  induction log with
  | nil => rfl
  | cons t log ih =>
    obtain ⟨first, rest⟩ := List.pairwise_cons.mp sorted
    by_cases old : t < cutoff
    · rw [List.dropWhile_cons_of_pos (by simpa using old), ih rest]
      simp [since, old]
    · have all : since cutoff (t :: log) = t :: log := by
        refine List.filter_eq_self.mpr fun s member => ?_
        rcases List.mem_cons.mp member with rfl | later
        · simpa using old
        · simpa using (not_lt.mp old).trans (first s later)
      rw [List.dropWhile_cons_of_neg (by simpa using old), all]

theorem pairwise_since {log : List α} (sorted : log.Pairwise (· ≤ ·)) (cutoff : α) :
    (since cutoff log).Pairwise (· ≤ ·) := sorted.filter _

theorem pairwise_snoc {log : List α} {now : α} (sorted : log.Pairwise (· ≤ ·)) (past : ∀ t ∈ log, t ≤ now) :
    (log ++ [now]).Pairwise (· ≤ ·) := by
  refine List.pairwise_append.mpr ⟨sorted, List.pairwise_singleton .., fun t member s last => ?_⟩
  rw [List.mem_singleton.mp last]
  exact past t member

theorem head_le {first : α} {log : List α} (sorted : log.Pairwise (· ≤ ·)) (head : log.head? = some first) :
    ∀ t ∈ log, first ≤ t := by
  cases log with
  | nil => cases head
  | cons u log =>
    cases head
    intro t member
    rcases List.mem_cons.mp member with rfl | later
    · exact le_rfl
    · exact (List.pairwise_cons.mp sorted).1 t later

theorem length_since_mono {earlier later : α} (order : earlier ≤ later) (log : List α) :
    (since later log).length ≤ (since earlier log).length := by
  rw [← since_since order]
  exact List.length_filter_le ..

/-- Past its first recent entry, a log has fewer recent ones. -/
theorem length_since_lt {earlier later first : α} {log : List α} (head : (since earlier log).head? = some first)
    (past : first < later) : (since later log).length < (since earlier log).length := by
  have member : first ∈ since earlier log := List.mem_of_head? head
  have order : earlier ≤ later := ((mem_since.mp member).2.trans_lt past).le
  rw [← since_since order]
  exact List.length_filter_lt_length_iff_exists.mpr ⟨first, member, by simpa using past⟩

/-- Up to its first recent entry, a log has all of them still. -/
theorem length_since_eq {earlier later first : α} {log : List α} (sorted : log.Pairwise (· ≤ ·))
    (head : (since earlier log).head? = some first) (order : earlier ≤ later) (before : later ≤ first) :
    (since later log).length = (since earlier log).length := by
  have all : since later (since earlier log) = since earlier log :=
    List.filter_eq_self.mpr fun t member => by
      simpa using before.trans (head_le (pairwise_since sorted earlier) head t member)
  rw [← since_since order, all]

section Windows

variable [AddCommGroup α]

/-- The entries in the closed window of length `width` that ends at `t`. -/
def within (width t : α) (log : List α) : List α :=
  log.filter fun s => t - width ≤ s ∧ s ≤ t

theorem within_eq_since {width t : α} {log : List α} (past : ∀ s ∈ log, s ≤ t) :
    within width t log = since (t - width) log :=
  List.filter_congr fun s member => by simp [past s member]

theorem length_within_mono {width t t' : α} {log log' : List α} (part : log.Sublist log')
    (inside : ∀ s ∈ log', t - width ≤ s → s ≤ t → t' - width ≤ s ∧ s ≤ t') :
    (within width t log).length ≤ (within width t' log').length := by
  have shorter : (within width t log).length ≤ (within width t log').length := (part.filter _).length_le
  refine shorter.trans ?_
  unfold within
  rw [← List.countP_eq_length_filter, ← List.countP_eq_length_filter]
  refine List.countP_mono_left fun s member held => ?_
  rw [decide_eq_true_eq] at held ⊢
  exact inside s member held.1 held.2

variable [IsOrderedAddMonoid α]

/-- A bound on the windows that end at an entry bounds every window. -/
theorem length_within_le {width : α} {log : List α} {n : Nat} (sorted : log.Pairwise (· ≤ ·))
    (bound : ∀ s ∈ log, (within width s log).length ≤ n) (t : α) : (within width t log).length ≤ n := by
  induction log using List.reverseRecOn with
  | nil => exact Nat.zero_le n
  | append_singleton log last ih =>
    obtain ⟨earlier, -, past⟩ := List.pairwise_append.mp sorted
    have latest : ∀ s ∈ log ++ [last], s ≤ last := by
      intro s member
      rcases List.mem_append.mp member with old | new
      · exact past s old last List.mem_cons_self
      · exact (List.mem_singleton.mp new).le
    by_cases inside : last ≤ t
    · -- the window that ends at the last entry reaches back further
      refine le_trans (length_within_mono (List.Sublist.refl _) fun s member recent _ => ?_)
        (bound last (List.mem_append_right _ List.mem_cons_self))
      exact ⟨(sub_le_sub_right inside width).trans recent, latest s member⟩
    · have outside : within width t (log ++ [last]) = within width t log := by
        simp [within, List.filter_append, inside]
      rw [outside]
      refine ih earlier fun s member => ?_
      have before := bound s (List.mem_append_left _ member)
      exact (length_within_mono (List.sublist_append_left log [last]) fun _ _ low high => ⟨low, high⟩).trans before

end Windows

end SlidingLog
