import OpenAvc.Data.Json

/-! A text cut into fixed characters and fields, as a matcher does it that backtracks and tries
the longest stretch first for each field. -/

namespace Cuts

/-- A fixed character, or a field with what may stand in it. -/
inductive Part
  | char (c : Nat)
  | field (takes : Text → Bool)

/-- The text can be cut along the parts so that the fields hold these texts. -/
inductive Cut : List Part → Text → List Text → Prop
  | nil : Cut [] [] []
  | char {c : Nat} {parts : List Part} {t : Text} {us : List Text} (rest : Cut parts t us) :
    Cut (.char c :: parts) (c :: t) us
  | field {takes : Text → Bool} {parts : List Part} {u t : Text} {us : List Text} (fits : takes u = true)
    (rest : Cut parts t us) : Cut (.field takes :: parts) (u ++ t) (u :: us)

/-- Of the first two fields that differ, that of the first list is longer. -/
def Longer (us us' : List Text) : Prop :=
  ∃ before u u' after after', us = before ++ u :: after ∧ us' = before ++ u' :: after' ∧ u'.length < u.length

/-- The ways to cut a text in two, with the longest start first. -/
def splits : Text → List (Text × Text)
  | [] => [([], [])]
  | c :: t => (splits t).map (fun s => (c :: s.1, s.2)) ++ [([], c :: t)]

def fullmatch : List Part → Text → Option (List Text)
  | [], t => if t = [] then some [] else none
  | .char _ :: _, [] => none
  | .char c :: parts, d :: t => if c = d then fullmatch parts t else none
  | .field takes :: parts, t =>
    (splits t).findSome? fun s => if takes s.1 then (fullmatch parts s.2).map (s.1 :: ·) else none

theorem mem_splits {t u r : Text} : (u, r) ∈ splits t ↔ u ++ r = t := by
  induction t generalizing u with
  | nil => simp [splits]
  | cons c t ih =>
    simp only [splits, List.mem_append, List.mem_map, List.mem_singleton, Prod.mk.injEq, Prod.exists]
    constructor
    · rintro (⟨u', r', member, rfl, rfl⟩ | ⟨rfl, rfl⟩)
      · rw [List.cons_append, ih.mp member]
      · rfl
    · intro whole
      cases u with
      | nil => exact Or.inr ⟨rfl, whole⟩
      | cons d u =>
        obtain ⟨rfl, rest⟩ := List.cons.inj whole
        exact Or.inl ⟨u, r, ih.mpr rest, rfl, rfl⟩

theorem splits_sorted (t : Text) : (splits t).Pairwise fun s s' => s'.1.length < s.1.length := by
  induction t with
  | nil => simp [splits]
  | cons c t ih =>
    rw [splits, List.pairwise_append]
    refine ⟨List.pairwise_map.mpr (ih.imp fun shorter => Nat.succ_lt_succ shorter), by simp, fun s member s' last => ?_⟩
    obtain ⟨s₀, _, rfl⟩ := List.mem_map.mp member
    rw [List.mem_singleton.mp last]
    simp

theorem Longer.cons {us us' : List Text} (longer : Longer us us') (u : Text) : Longer (u :: us) (u :: us') := by
  obtain ⟨before, v, v', after, after', rfl, rfl, length⟩ := longer
  exact ⟨u :: before, v, v', after, after', rfl, rfl, length⟩

/-- The matcher finds a cut, and a cut that takes no less than any other. -/
theorem fullmatch_cut {parts : List Part} {t : Text} {us : List Text} (found : fullmatch parts t = some us) :
    Cut parts t us := by
  induction parts generalizing t us with
  | nil =>
    unfold fullmatch at found
    split at found
    · rename_i empty
      cases found
      rw [empty]
      exact .nil
    · cases found
  | cons part parts ih =>
    cases part with
    | char c =>
      cases t with
      | nil => cases found
      | cons d t =>
        unfold fullmatch at found
        split at found
        · rename_i same
          rw [← same]
          exact .char (ih found)
        · cases found
    | field takes =>
      unfold fullmatch at found
      obtain ⟨⟨u, r⟩, member, taken⟩ := List.exists_of_findSome?_eq_some found
      rw [← mem_splits.mp member]
      split at taken
      · rename_i fits
        obtain ⟨vs, rest, rfl⟩ := Option.map_eq_some_iff.mp taken
        exact .field fits (ih rest)
      · cases taken

theorem exists_fullmatch {parts : List Part} {t : Text} {us : List Text} (cut : Cut parts t us) :
    ∃ us', fullmatch parts t = some us' := by
  induction cut with
  | nil => exact ⟨[], rfl⟩
  | char _ ih =>
    obtain ⟨us', found⟩ := ih
    exact ⟨us', by rw [fullmatch, if_pos rfl, found]⟩
  | @field takes parts u t us fits _ ih =>
    obtain ⟨us', found⟩ := ih
    rw [fullmatch, ← Option.isSome_iff_exists, List.findSome?_isSome_iff]
    exact ⟨(u, t), mem_splits.mpr rfl, by rw [if_pos fits, found]; rfl⟩

theorem longer_of_fullmatch {parts : List Part} {t : Text} {us us' : List Text} (found : fullmatch parts t = some us)
    (cut : Cut parts t us') : us' = us ∨ Longer us us' := by
  induction cut generalizing us with
  | nil => exact Or.inl (Option.some.inj found)
  | char _ ih =>
    rw [fullmatch, if_pos rfl] at found
    exact ih found
  | @field takes parts u t us' fits rest ih =>
    rw [fullmatch] at found
    obtain ⟨before, ⟨v, r⟩, after, split, taken, none⟩ := List.findSome?_eq_some_iff.mp found
    have member : (v, r) ∈ splits (u ++ t) := by rw [split]; simp
    have whole := mem_splits.mp member
    have sorted := splits_sorted (u ++ t)
    split at taken
    · obtain ⟨vs, rest', rfl⟩ := Option.map_eq_some_iff.mp taken
      rcases Nat.lt_trichotomy u.length v.length with shorter | same | longer
      · exact Or.inr ⟨[], v, u, vs, us', rfl, rfl, shorter⟩
      · obtain ⟨rfl, rfl⟩ := List.append_inj whole same.symm
        rcases ih rest' with rfl | longer
        · exact Or.inl rfl
        · exact Or.inr (longer.cons v)
      · -- a longer stretch was tried before, and the rest could be cut there
        have there : (u, t) ∈ splits (u ++ t) := mem_splits.mpr rfl
        rw [split, List.mem_append, List.mem_cons] at there
        rw [split, List.pairwise_append, List.pairwise_cons] at sorted
        rcases there with earlier | here | later
        · obtain ⟨us'', found'⟩ := exists_fullmatch rest
          have failed := none _ earlier
          rw [if_pos fits, found'] at failed
          cases failed
        · cases here
          omega
        · have less := sorted.2.1.1 _ later
          simp only at less
          omega
    · cases taken

/-- A cut is found if no other takes more for some field, with the fields before it the same. -/
theorem fullmatch_of_first {parts : List Part} {t : Text} {us : List Text} (cut : Cut parts t us)
    (first : ∀ us', Cut parts t us' → ¬Longer us' us) : fullmatch parts t = some us := by
  obtain ⟨us', found⟩ := exists_fullmatch cut
  rcases longer_of_fullmatch found cut with rfl | longer
  · exact found
  · exact absurd longer (first us' (fullmatch_cut found))

theorem Cut.append {parts parts' : List Part} {t t' : Text} {us us' : List Text} (cut : Cut parts t us)
    (cut' : Cut parts' t' us') : Cut (parts ++ parts') (t ++ t') (us ++ us') := by
  induction cut with
  | nil => exact cut'
  | char _ ih => exact .char ih
  | field fits _ ih =>
    rw [List.append_assoc]
    exact .field fits ih

theorem Cut.chars (t : Text) : Cut (t.map .char) t [] := by
  induction t with
  | nil => exact .nil
  | cons c t ih => exact .char ih

end Cuts
