import Mathlib.Data.List.Infix

/-! The newest entries of a log, as many as fit. -/

namespace Newest

variable {ε : Type*} (fits : List ε → Bool)

/-- What is left when entries go from the front until the rest fits. -/
def newest : List ε → List ε
  | [] => []
  | e :: rest => if fits (e :: rest) then e :: rest else newest rest

variable {fits} {l x kept : List ε} {e : ε}

theorem newest_suffix (l : List ε) : newest fits l <:+ l := by
  induction l with
  | nil => exact List.suffix_refl _
  | cons e rest ih =>
    unfold newest
    split
    · exact List.suffix_refl _
    · exact ih.trans (List.suffix_cons e rest)

theorem fits_newest (empty : fits [] = true) (l : List ε) : fits (newest fits l) = true := by
  induction l with
  | nil => exact empty
  | cons e rest ih =>
    unfold newest
    split
    · assumption
    · exact ih

/-- It is the longest end of the log that fits. -/
theorem suffix_newest (ends : x <:+ l) (fit : fits x = true) : x <:+ newest fits l := by
  induction l with
  | nil => exact ends
  | cons e rest ih =>
    unfold newest
    split
    · exact ends
    · rename_i large
      rcases List.suffix_cons_iff.mp ends with rfl | later
      · exact absurd fit large
      · exact ih later

/-- What fits on its own still does with less in it. -/
def Shrinks (fits : List ε → Bool) : Prop :=
  ∀ x l, x.Sublist l → fits l = true → fits x = true

/-- An end that was kept is kept when an entry is added and the log is cut again. -/
theorem newest_concat_suffix (shrinks : Shrinks fits) (empty : fits [] = true) (ends : newest fits l <:+ kept) :
    newest fits (l ++ [e]) <:+ newest fits (kept ++ [e]) := by
  have fit := fits_newest empty (l ++ [e])
  refine suffix_newest ?_ fit
  rcases List.eq_nil_or_concat (newest fits (l ++ [e])) with none | ⟨init, last, whole⟩
  · rw [none]
    exact List.nil_suffix
  · rw [List.concat_eq_append] at whole
    obtain ⟨front, split⟩ := whole ▸ newest_suffix (l ++ [e])
    rw [← List.append_assoc] at split
    obtain ⟨same, final⟩ := List.append_inj' split rfl
    have inner : init <:+ newest fits l := by
      refine suffix_newest ⟨front, same⟩ (shrinks init (init ++ [last]) (List.sublist_append_left _ _) ?_)
      exact whole ▸ fit
    rw [whole, final]
    obtain ⟨more, grown⟩ := inner.trans ends
    exact ⟨more, by rw [← List.append_assoc, grown]⟩

end Newest
