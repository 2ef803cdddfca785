import Mathlib.Data.List.Basic

namespace List

variable {κ κ' α β : Type*} [BEq κ] [LawfulBEq κ] [BEq κ'] [LawfulBEq κ']

/-- The items of a dict moved under other keys, each value by its key. -/
theorem lookup_map_items {f : κ → κ'} (inj : Function.Injective f) (g : κ → α → β) (k : κ) (l : List (κ × α)) :
    (l.map fun u => (f u.1, g u.1 u.2)).lookup (f k) = (l.lookup k).map (g k) := by
  induction l with
  | nil => rfl
  | cons u l ih =>
    obtain ⟨key, value⟩ := u
    by_cases here : k = key
    · subst here
      simp
    · have elsewhere : (f k == f key) = false := beq_eq_false_iff_ne.mpr fun same => here (inj same)
      simp only [map_cons, lookup_cons, elsewhere, ih, beq_eq_false_iff_ne.mpr here]

theorem lookup_eq_none_of_forall {k : κ} {l : List (κ × α)} (absent : ∀ u ∈ l, u.1 ≠ k) : l.lookup k = none := by
  induction l with
  | nil => rfl
  | cons u l ih =>
    obtain ⟨key, value⟩ := u
    have elsewhere : (k == key) = false := beq_eq_false_iff_ne.mpr fun same => absent _ mem_cons_self same.symm
    rw [lookup_cons, elsewhere]
    exact ih fun v member => absent v (mem_cons_of_mem _ member)

theorem mem_of_lookup_eq_some {k : κ} {a : α} {l : List (κ × α)} (found : l.lookup k = some a) : (k, a) ∈ l := by
  induction l with
  | nil => cases found
  | cons u l ih =>
    obtain ⟨key, value⟩ := u
    rw [lookup_cons] at found
    split at found
    · rename_i here
      cases found
      rw [eq_of_beq here]
      exact mem_cons_self
    · exact mem_cons_of_mem _ (ih found)

omit [LawfulBEq κ] in
/-- The items gathered over `l` that concern `k` all come from one member of it. -/
theorem lookup_flatMap_of_owner {γ : Type*} [DecidableEq γ] {items : γ → List (κ × α)} {k : κ} {c : γ}
    (foreign : ∀ e, e ≠ c → (items e).lookup k = none) (l : List γ) :
    (l.flatMap items).lookup k = if c ∈ l then (items c).lookup k else none := by
  induction l with
  | nil => rfl
  | cons e l ih =>
    rw [flatMap_cons, lookup_append, ih]
    by_cases here : e = c
    · subst here
      cases found : (items e).lookup k <;> simp
    · rw [foreign e here]
      simp [Ne.symm here]

theorem exists_lookup_of_mem {k : κ} {l : List (κ × α)} (member : k ∈ l.map Prod.fst) :
    ∃ a, l.lookup k = some a := by
  induction l with
  | nil => exact absurd member not_mem_nil
  | cons u l ih =>
    obtain ⟨key, value⟩ := u
    by_cases here : k = key
    · subst here
      exact ⟨value, by simp⟩
    · rw [lookup_cons, beq_eq_false_iff_ne.mpr here]
      exact ih ((mem_cons.mp member).resolve_left here)

theorem mem_keys_of_lookup {k : κ} {a : α} {l : List (κ × α)} (found : l.lookup k = some a) :
    k ∈ l.map Prod.fst := mem_map.mpr ⟨_, mem_of_lookup_eq_some found, rfl⟩

/-- The items of a dict whose keys pass a test. -/
theorem lookup_filter_keys (keep : κ → Bool) (k : κ) (l : List (κ × α)) :
    (l.filter fun u => keep u.1).lookup k = if keep k then l.lookup k else none := by
  induction l with
  | nil => simp
  | cons u l ih =>
    obtain ⟨key, value⟩ := u
    by_cases here : k = key
    · subst here
      by_cases kept : keep k = true
      · simp [kept]
      · simp only [filter_cons, kept, if_false, Bool.false_eq_true] at ih ⊢
        exact ih
    · by_cases kept : keep key = true
      · simp only [filter_cons, kept, if_true, lookup_cons, beq_eq_false_iff_ne.mpr here, ih]
      · simp only [filter_cons, kept, if_false, Bool.false_eq_true, lookup_cons,
          beq_eq_false_iff_ne.mpr here, ih]

theorem lookup_of_mem {l : List (κ × α)} (distinct : (l.map Prod.fst).Nodup) {u : κ × α} (member : u ∈ l) :
    l.lookup u.1 = some u.2 := by
  induction l with
  | nil => exact absurd member not_mem_nil
  | cons w l ih =>
    obtain ⟨key, value⟩ := w
    obtain ⟨apart, distinct⟩ := nodup_cons.mp distinct
    rcases mem_cons.mp member with rfl | later
    · simp
    · have other : u.1 ≠ key := fun same => apart (mem_map.mpr ⟨u, later, same⟩)
      rw [lookup_cons, beq_eq_false_iff_ne.mpr other]
      exact ih distinct later

/-- The items of a dict that pass a test. -/
theorem lookup_filter_items {l : List (κ × α)} (distinct : (l.map Prod.fst).Nodup) (keep : κ × α → Bool) (k : κ) :
    (l.filter keep).lookup k = (l.lookup k).filter fun a => keep (k, a) := by
  induction l with
  | nil => rfl
  | cons u l ih =>
    obtain ⟨key, value⟩ := u
    obtain ⟨apart, distinct⟩ := nodup_cons.mp distinct
    by_cases here : k = key
    · subst here
      have gone : (l.filter keep).lookup k = none := by
        refine lookup_eq_none_of_forall fun u member same => apart (mem_map.mpr ⟨u, ?_, same⟩)
        exact (mem_filter.mp member).1
      by_cases kept : keep (k, value) = true
      · simp [kept, Option.filter]
      · simp [kept, gone, Option.filter]
    · have other : (k == key) = false := beq_eq_false_iff_ne.mpr here
      by_cases kept : keep (key, value) = true
      · simp [kept, lookup_cons, other, ih distinct]
      · simp [kept, lookup_cons, other, ih distinct]

/-- The order of the items of a dict does not matter to what its keys have. -/
theorem lookup_of_perm {l l' : List (κ × α)} (same : l.Perm l') (distinct : (l.map Prod.fst).Nodup) (k : κ) :
    l.lookup k = l'.lookup k := by
  have distinct' : (l'.map Prod.fst).Nodup := (same.map Prod.fst).nodup_iff.mp distinct
  ext a
  constructor
  · exact fun found => lookup_of_mem distinct' (same.mem_iff.mp (mem_of_lookup_eq_some found))
  · exact fun found => lookup_of_mem distinct (same.mem_iff.mpr (mem_of_lookup_eq_some found))

end List
