import OpenAvc.Data.StableSort
import OpenAvc.Data.Windows
import OpenAvc.Driver.Gates

/-! Which children a query goes out for, where one answer reports a page of them. -/

namespace OpenAvc.Device

open OpenAvc.Driver (Arg)

/-- `l[::step]`, where so many elements are still to be skipped. -/
def everyFrom (step : Nat) : Nat → List α → List α
  | _, [] => []
  | 0, a :: l => a :: everyFrom step (step - 1) l
  | skip + 1, _ :: l => everyFrom step skip l

/-- `isinstance(i, int) and not isinstance(i, bool)` -/
def wholeNumber? : Arg → Option Int
  | .int n => some n
  | _ => none

/-- `page_starts` -/
def pageStarts (ids : List Arg) (pageSize : Arg) : List Arg :=
  match wholeNumber? pageSize with
  | none => ids
  | some size =>
    if size < 2 then ids
    else match ids, ids.mapM wholeNumber? with
      | _ :: _, some numbers => (Windows.sweep size none (StableSort.sortedBy id numbers)).map .int
      | _, _ => everyFrom size.toNat 0 ids

theorem mapM_wholeNumber (numbers : List Int) : (numbers.map Arg.int).mapM wholeNumber? = some numbers := by
  induction numbers with
  | nil => rfl
  | cons n numbers ih => simp [wholeNumber?, ih]

/-- On whole numbers it is the sweep over the sorted roster. -/
theorem pageStarts_ints (numbers : List Int) {size : Int} (large : 2 ≤ size) :
    pageStarts (numbers.map .int) (.int size) = (Windows.sweep size none (StableSort.sortedBy id numbers)).map .int := by
  have enough : ¬size < 2 := by omega
  have paged : wholeNumber? (.int size) = some size := rfl
  have whole := mapM_wholeNumber numbers
  unfold pageStarts
  simp only [paged, if_neg enough]
  cases numbers with
  | nil => rfl
  | cons n numbers =>
    rw [List.map_cons] at whole ⊢
    rw [whole]

/-- The pages begin at ids of the roster, in rising order; every id is in one page and in
no other, and no pages of that size are fewer. -/
theorem page_starts_cover (ids : List Int) (size : Int) (large : 2 ≤ size) :
    ∃ starts : List Int, pageStarts (ids.map .int) (.int size) = starts.map .int ∧
      starts.Pairwise (· < ·) ∧ starts.Sublist (StableSort.sortedBy id ids) ∧ starts.Subperm ids ∧
      (∀ i ∈ ids, ∃! s, s ∈ starts ∧ s ≤ i ∧ i < s + size) ∧
      ∀ cover : List Int, (∀ i ∈ ids, ∃ s ∈ cover, s ≤ i ∧ i < s + size) → starts.length ≤ cover.length := by
  have positive : 0 < size := by omega
  have sorted := StableSort.pairwise_sortedBy id ids
  have arranged := StableSort.perm_sortedBy id ids
  have apart := Windows.apart_sweep positive none (StableSort.sortedBy id ids)
  have kept := Windows.sweep_sublist size none (StableSort.sortedBy id ids)
  have ofRoster := (kept.subperm).trans arranged.subperm
  refine ⟨_, pageStarts_ints ids large, apart.imp fun bound => by omega, kept, ofRoster, fun i member => ?_, fun cover covers => ?_⟩
  · have point := (StableSort.mem_sortedBy id).mpr member
    obtain ⟨s, start, within⟩ := Windows.covers_sweep positive sorted point fun e held => absurd held (Option.not_mem_none e)
    refine ⟨s, ⟨start, within⟩, fun t other => ?_⟩
    exact Windows.within_unique apart other.1 start other.2 within
  · exact Windows.length_le_of_covers apart fun s start => covers s (ofRoster.subset start)

/-- Sixteen outputs a page. -/
theorem page_starts_cover_gaps :
    ∃ starts : List Int, pageStarts ([40, 1, 2, 5, -3, 20, 21].map .int) (.int 16) = starts.map .int ∧
      starts.Pairwise (· < ·) ∧ starts.Sublist (StableSort.sortedBy id [40, 1, 2, 5, -3, 20, 21]) ∧
      starts.Subperm [40, 1, 2, 5, -3, 20, 21] ∧
      (∀ i ∈ ([40, 1, 2, 5, -3, 20, 21] : List Int), ∃! s, s ∈ starts ∧ s ≤ i ∧ i < s + 16) ∧
      ∀ cover : List Int, (∀ i ∈ ([40, 1, 2, 5, -3, 20, 21] : List Int), ∃ s ∈ cover, s ≤ i ∧ i < s + 16) →
        starts.length ≤ cover.length :=
  page_starts_cover [40, 1, 2, 5, -3, 20, 21] 16 (by decide)

end OpenAvc.Device
