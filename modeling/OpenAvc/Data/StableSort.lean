import Mathlib.Data.List.Sort

/-! Sorting by a key, where equal keys keep their order, and keeping the first of each kind. -/

namespace StableSort

variable {α β κ : Type*}

section Sorted

variable [LinearOrder κ] (key : α → κ)

/-- `sorted(l, key=key)` -/
def sortedBy (l : List α) : List α :=
  l.insertionSort fun a b => key a ≤ key b

@[simp] theorem mem_sortedBy {l : List α} {a : α} : a ∈ sortedBy key l ↔ a ∈ l :=
  List.mem_insertionSort _

theorem pairwise_sortedBy (l : List α) : (sortedBy key l).Pairwise fun a b => key a ≤ key b :=
  haveI : Std.Total fun a b : α => key a ≤ key b := ⟨fun a b => le_total (key a) (key b)⟩
  haveI : IsTrans α fun a b => key a ≤ key b := ⟨fun _ _ _ => le_trans⟩
  List.pairwise_insertionSort _ l

theorem perm_sortedBy (l : List α) : (sortedBy key l).Perm l :=
  List.perm_insertionSort _ l

theorem sortedBy_eq_nil {l : List α} : sortedBy key l = [] ↔ l = [] := by
  rw [← List.length_eq_zero_iff, (perm_sortedBy key l).length_eq, List.length_eq_zero_iff]

theorem map_sortedBy (l : List α) : (sortedBy key l).map key = (l.map key).insertionSort (· ≤ ·) :=
  List.map_insertionSort _ _ _ _ fun _ _ _ _ => Iff.rfl

/-- The keys come out the same, however the elements are arranged. -/
theorem keys_sortedBy {l l' : List α} (same : l'.Perm l) : (sortedBy key l').map key = (sortedBy key l).map key := by
  rw [map_sortedBy, map_sortedBy]
  exact List.Perm.eq_of_sortedLE List.sortedLE_insertionSort List.sortedLE_insertionSort
    (((List.perm_insertionSort _ _).trans (same.map key)).trans (List.perm_insertionSort _ _).symm)

/-- Where no two elements have one key, so do the elements. -/
theorem sortedBy_congr {l l' : List α} (same : l'.Perm l) (apart : ∀ a ∈ l, ∀ b ∈ l, key a = key b → a = b) :
    sortedBy key l' = sortedBy key l := by
  have arranged : (sortedBy key l').Perm (sortedBy key l) := ((perm_sortedBy key l').trans same).trans (perm_sortedBy key l).symm
  refine arranged.eq_of_pairwise (fun a b inside inside' first second => ?_) (pairwise_sortedBy key l') (pairwise_sortedBy key l)
  rw [mem_sortedBy] at inside inside'
  exact apart a (same.subset inside) b inside' (le_antisymm first second)

/-- The first of the elements that have the least key comes first. -/
theorem sortedBy_middle {a : α} {before after : List α} (above : ∀ b ∈ before, key a < key b)
    (least : ∀ b ∈ after, key a ≤ key b) :
    sortedBy key (before ++ a :: after) = a :: sortedBy key (before ++ after) := by
  induction before with
  | nil => exact List.insertionSort_cons_of_forall_rel _ least
  | cons b before ih =>
    have rest := ih fun b inside => above b (List.mem_cons_of_mem _ inside)
    have later : ¬key b ≤ key a := not_le.mpr (above b List.mem_cons_self)
    rw [List.cons_append, List.cons_append, sortedBy, List.insertionSort_cons]
    rw [sortedBy] at rest
    rw [rest, List.orderedInsert, if_neg later]
    rfl

/-- What comes first has the least key. -/
theorem least_of_sortedBy {l rest : List α} {a : α} (sorted : sortedBy key l = a :: rest) :
    a ∈ l ∧ ∀ b ∈ l, key a ≤ key b := by
  have pairwise := pairwise_sortedBy key l
  rw [sorted, List.pairwise_cons] at pairwise
  have perm := perm_sortedBy key l
  rw [sorted] at perm
  refine ⟨perm.subset List.mem_cons_self, fun b inside => ?_⟩
  rcases List.mem_cons.mp (perm.symm.subset inside) with rfl | inside
  · exact le_refl _
  · exact pairwise.1 b inside

end Sorted

section OnceEach

variable [DecidableEq β] (kind : α → β)

/-- The first element of every kind that has not been seen. -/
def onceEach : List β → List α → List α
  | _, [] => []
  | seen, a :: l => if kind a ∈ seen then onceEach seen l else a :: onceEach (kind a :: seen) l

theorem onceEach_sublist (seen : List β) (l : List α) : (onceEach kind seen l).Sublist l := by
  induction l generalizing seen with
  | nil => exact List.Sublist.refl _
  | cons a l ih =>
    rw [onceEach]
    split
    · exact (ih seen).cons a
    · exact (ih _).cons_cons a

theorem kinds_onceEach (seen : List β) (l : List α) :
    (onceEach kind seen l).map kind = onceEach id seen (l.map kind) := by
  induction l generalizing seen with
  | nil => rfl
  | cons a l ih =>
    rw [onceEach, List.map_cons, onceEach, id]
    split
    · exact ih seen
    · rw [List.map_cons, ih]

theorem mem_kinds_onceEach {seen : List β} {l : List α} {k : β} :
    k ∈ (onceEach kind seen l).map kind ↔ k ∈ l.map kind ∧ k ∉ seen := by
  induction l generalizing seen with
  | nil => simp [onceEach]
  | cons a l ih =>
    rw [onceEach, List.map_cons, List.mem_cons]
    split
    · rename_i known
      rw [ih]
      constructor
      · exact fun later => ⟨Or.inr later.1, later.2⟩
      · rintro ⟨rfl | later, fresh⟩
        · exact absurd known fresh
        · exact ⟨later, fresh⟩
    · rename_i fresh
      rw [List.map_cons, List.mem_cons, ih, List.mem_cons]
      constructor
      · rintro (rfl | later)
        · exact ⟨Or.inl rfl, fresh⟩
        · exact ⟨Or.inr later.1, fun known => later.2 (Or.inr known)⟩
      · rintro ⟨rfl | later, fresh'⟩
        · exact Or.inl rfl
        · by_cases same : k = kind a
          · exact Or.inl same
          · exact Or.inr ⟨later, fun known => known.elim same fresh'⟩

theorem nodup_kinds_onceEach (seen : List β) (l : List α) : ((onceEach kind seen l).map kind).Nodup := by
  induction l generalizing seen with
  | nil => exact List.nodup_nil
  | cons a l ih =>
    rw [onceEach]
    split
    · exact ih seen
    · rw [List.map_cons, List.nodup_cons]
      refine ⟨fun again => ?_, ih _⟩
      exact ((mem_kinds_onceEach kind).mp again).2 List.mem_cons_self

/-- What is kept of a kind stands before everything else of that kind. -/
theorem first_of_onceEach {seen : List β} {l : List α} {a : α} (kept : a ∈ onceEach kind seen l) :
    ∃ before after, l = before ++ a :: after ∧ ∀ b ∈ before, kind b ≠ kind a := by
  induction l generalizing seen with
  | nil => cases kept
  | cons c l ih =>
    rw [onceEach] at kept
    split at kept
    · rename_i known
      obtain ⟨before, after, rfl, other⟩ := ih kept
      refine ⟨c :: before, after, rfl, fun b inside => ?_⟩
      rcases List.mem_cons.mp inside with rfl | inside
      · intro same
        have fresh := ((mem_kinds_onceEach kind).mp (List.mem_map_of_mem kept)).2
        exact fresh (same ▸ known)
      · exact other b inside
    · rcases List.mem_cons.mp kept with rfl | kept
      · exact ⟨[], l, rfl, fun b inside => by cases inside⟩
      · have fresh := ((mem_kinds_onceEach kind).mp (List.mem_map_of_mem kept)).2
        obtain ⟨before, after, rfl, other⟩ := ih kept
        refine ⟨c :: before, after, rfl, fun b inside => ?_⟩
        rcases List.mem_cons.mp inside with rfl | inside
        · exact fun same => fresh (same ▸ List.mem_cons_self)
        · exact other b inside

end OnceEach

end StableSort
