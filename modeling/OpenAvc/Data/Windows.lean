import Mathlib.Algebra.Order.Group.Defs
import Mathlib.Algebra.Order.Monoid.Unbundled.Basic
import Mathlib.Data.List.Nodup
import Mathlib.Data.List.Perm.Subperm
import Mathlib.Order.Lattice

/-! Points covered by windows of one length, and the sweep that needs the fewest. -/

namespace Windows

variable {α : Type*} [AddCommGroup α] [LinearOrder α]

/-- In the window of length `n` that starts at `s`. -/
def Within (n s i : α) : Prop :=
  s ≤ i ∧ i < s + n

/-- Every point is in some window. -/
def Covers (n : α) (starts points : List α) : Prop :=
  ∀ i ∈ points, ∃ s ∈ starts, Within n s i

/-- A window starts at the first point, and then at the first one at or past the
end of the window before it. -/
def sweep (n : α) (next : Option α) : List α → List α
  | [] => []
  | i :: points => if ∀ e ∈ next, e ≤ i then i :: sweep n (some (i + n)) points else sweep n next points

theorem sweep_sublist (n : α) (next : Option α) (points : List α) : (sweep n next points).Sublist points := by
  induction points generalizing next with
  | nil => exact List.Sublist.slnil
  | cons i points ih =>
    rw [sweep]
    split
    · exact (ih _).cons_cons i
    · exact (ih next).cons i

variable [IsOrderedAddMonoid α]

theorem le_of_mem_sweep {n e i : α} {points : List α} (start : i ∈ sweep n (some e) points)
    (positive : 0 < n) : e ≤ i := by
  induction points generalizing e with
  | nil => exact absurd start List.not_mem_nil
  | cons j points ih =>
    rw [sweep] at start
    split at start
    · rename_i past
      have later : e ≤ j := past e rfl
      rcases List.mem_cons.mp start with rfl | start
      · exact later
      · exact later.trans ((le_add_of_nonneg_right positive.le).trans (ih start))
    · exact ih start

/-- No two windows of a sweep overlap. -/
theorem apart_sweep {n : α} (positive : 0 < n) (next : Option α) (points : List α) :
    (sweep n next points).Pairwise fun s t => s + n ≤ t := by
  induction points generalizing next with
  | nil => exact List.Pairwise.nil
  | cons i points ih =>
    rw [sweep]
    split
    · exact List.pairwise_cons.mpr ⟨fun t start => le_of_mem_sweep start positive, ih _⟩
    · exact ih next

/-- What a sweep has passed by is in the window before. -/
theorem covers_sweep {n : α} (positive : 0 < n) {next : Option α} {points : List α} (sorted : points.Pairwise (· ≤ ·))
    {i : α} (point : i ∈ points) (past : ∀ e ∈ next, e ≤ i) : ∃ s ∈ sweep n next points, Within n s i := by
  induction points generalizing next with
  | nil => exact absurd point List.not_mem_nil
  | cons j points ih =>
    obtain ⟨least, sorted⟩ := List.pairwise_cons.mp sorted
    rw [sweep]
    by_cases first : ∀ e ∈ next, e ≤ j
    · rw [if_pos first]
      have low : j ≤ i := by
        rcases List.mem_cons.mp point with rfl | later
        · exact le_rfl
        · exact least i later
      by_cases inside : i < j + n
      · exact ⟨j, List.mem_cons_self, low, inside⟩
      · have other : i ≠ j := by
          rintro rfl
          exact inside (lt_add_of_pos_right i positive)
        have later := (List.mem_cons.mp point).resolve_left other
        have beyond : ∀ e ∈ some (j + n), e ≤ i := by
          intro e held
          rw [← Option.some.inj held]
          exact not_lt.mp inside
        obtain ⟨s, start, within⟩ := ih sorted later beyond
        exact ⟨s, List.mem_cons_of_mem _ start, within⟩
    · rw [if_neg first]
      have other : i ≠ j := by
        rintro rfl
        exact first past
      exact ih sorted ((List.mem_cons.mp point).resolve_left other) past

omit [IsOrderedAddMonoid α] in
/-- Windows that do not overlap share no point. -/
theorem within_unique {n : α} {starts : List α} (apart : starts.Pairwise fun s t => s + n ≤ t) {s t i : α}
    (first : s ∈ starts) (second : t ∈ starts) (inFirst : Within n s i) (inSecond : Within n t i) : s = t := by
  have either : s = t ∨ s + n ≤ t ∨ t + n ≤ s := by
    induction apart with
    | nil => exact absurd first List.not_mem_nil
    | cons beyond _ ih =>
      rcases List.mem_cons.mp first with rfl | first' <;> rcases List.mem_cons.mp second with rfl | second'
      · exact Or.inl rfl
      · exact Or.inr (Or.inl (beyond t second'))
      · exact Or.inr (Or.inr (beyond s first'))
      · exact ih first' second'
  rcases either with same | bound | bound
  · exact same
  · exact absurd (inFirst.2.trans_le bound) (not_lt.mpr inSecond.1)
  · exact absurd (inSecond.2.trans_le bound) (not_lt.mpr inFirst.1)

/-- Points that are a window's length apart need a window each. -/
theorem length_le_of_covers {n : α} {points starts : List α}
    (apart : points.Pairwise fun s t => s + n ≤ t) (covers : Covers n starts points) : points.length ≤ starts.length := by
  choose! window held within using covers
  have distinct : (points.map window).Nodup := by
    refine List.pairwise_map.mpr (apart.imp_of_mem fun {s t} first second bound same => ?_)
    have low := (within s first).1
    have high := (within t second).2
    rw [← same] at high
    exact absurd (high.trans_le (add_le_add_left low n)) (not_lt.mpr bound)
  have inside : points.map window ⊆ starts := by
    intro w member
    obtain ⟨i, point, rfl⟩ := List.mem_map.mp member
    exact held i point
  have shorter := (distinct.subperm inside).length_le
  rwa [List.length_map] at shorter

end Windows
