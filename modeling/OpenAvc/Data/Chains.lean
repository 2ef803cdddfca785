import Mathlib.Data.List.Nodup
import Mathlib.Data.List.Basic
import Mathlib.Tactic.Tauto

/-! Chains of links from one thing to the next: which of them end, how a walk finds that one does not, and what
is left when every link is cut whose chain does not end. -/

namespace Chains

variable {α : Type*} (next : α → Option α)

/-- Where a chain is after so many links. -/
def after : Nat → α → Option α
  | 0, x => some x
  | n + 1, x => (next x).bind (after n)

def Ends (x : α) : Prop :=
  ∃ n, after next n x = none

variable {next} {x y : α}

theorem ends_iff : Ends next x ↔ ∀ y, next x = some y → Ends next y := by
  constructor
  · rintro ⟨n, none'⟩ y link
    cases n with
    | zero => cases none'
    | succ n =>
      rw [after, link] at none'
      exact ⟨n, none'⟩
  · intro later
    cases link : next x with
    | none => exact ⟨1, by rw [after, link]; rfl⟩
    | some y =>
      obtain ⟨n, none'⟩ := later y link
      exact ⟨n + 1, by rw [after, link]; exact none'⟩

theorem after_add (m n : Nat) (x : α) : after next (m + n) x = (after next m x).bind (after next n) := by
  induction m generalizing x with
  | zero => rw [Nat.zero_add, after, Option.bind_some]
  | succ m ih =>
    rw [Nat.succ_add, after, after]
    cases next x with
    | none => rfl
    | some y => exact ih y

/-- A chain that comes back to where it was does not end. -/
theorem not_ends_of_return {k : Nat} (back : after next (k + 1) x = some x) : ¬Ends next x := by
  rintro ⟨n, none'⟩
  induction n using Nat.strongRecOn with
  | _ n ih =>
    rcases Nat.lt_or_ge n (k + 1) with less | more
    · have parts := @after_add _ next n (k + 1 - n) x
      rw [show n + (k + 1 - n) = k + 1 by omega, none', back] at parts
      cases parts
    · have parts := @after_add _ next (k + 1) (n - (k + 1)) x
      rw [show k + 1 + (n - (k + 1)) = n by omega, none', back, Option.bind_some] at parts
      exact ih (n - (k + 1)) (by omega) parts.symm

/-- Fewer links end no later. -/
theorem Ends.mono {next' : α → Option α} (fewer : ∀ x y, next' x = some y → next x = some y) (ends : Ends next x) :
    Ends next' x := by
  obtain ⟨n, none'⟩ := ends
  induction n generalizing x with
  | zero => cases none'
  | succ n ih =>
    refine ends_iff.mpr fun y link => ih ?_
    rw [after, fewer x y link] at none'
    exact none'

/-- A chain ends if one of its links leads, or led before some were cut, to where a chain ends. -/
theorem Ends.of_after {next' : α → Option α} (fewer : ∀ x y, next' x = some y → next x = some y) {n : Nat}
    (reach : after next n x = some y) (ends : Ends next' y) : Ends next' x := by
  induction n generalizing x with
  | zero =>
    cases reach
    exact ends
  | succ n ih =>
    refine ends_iff.mpr fun z link => ih ?_
    rw [after, fewer x z link] at reach
    exact reach

section Walk

variable [DecidableEq α] (next)

/-- A walk from link to link that stops where it has been. -/
def closes : Nat → List α → Option α → Bool
  | _, _, none => false
  | 0, _, some _ => false
  | fuel + 1, seen, some cursor => if cursor ∈ seen then true else closes fuel (cursor :: seen) (next cursor)

variable {next}

theorem not_ends_of_closes {fuel : Nat} {seen : List α} {cursor : α}
    (passed : ∀ s ∈ seen, ∃ k, after next (k + 1) s = some cursor) (closed : closes next fuel seen (some cursor) = true) :
    ¬Ends next cursor := by
  induction fuel generalizing seen cursor with
  | zero => cases closed
  | succ fuel ih =>
    rw [closes] at closed
    split at closed
    · rename_i been
      obtain ⟨k, back⟩ := passed cursor been
      exact not_ends_of_return back
    · cases link : next cursor with
      | none =>
        rw [link] at closed
        unfold closes at closed
        cases closed
      | some d =>
        rw [link] at closed
        have further : ∀ s ∈ cursor :: seen, ∃ k, after next (k + 1) s = some d := by
          intro s member
          rcases List.mem_cons.mp member with rfl | member
          · exact ⟨0, by rw [after, link]; rfl⟩
          · obtain ⟨k, reach⟩ := passed s member
            refine ⟨k + 1, ?_⟩
            rw [after_add (k + 1) 1, reach, Option.bind_some, after, link]
            rfl
        intro ends
        exact ih further closed (ends_iff.mp ends d link)

/-- With as many steps as there are links, a walk along a chain that does not end comes back to where it has been. -/
theorem closes_of_not_ends {keys : List α} (covers : ∀ y z, next y = some z → y ∈ keys) {fuel : Nat} {seen : List α} {cursor : α}
    (distinct : seen.Nodup) (inside : seen ⊆ keys) (enough : keys.length < fuel + seen.length) (endless : ¬Ends next cursor) :
    closes next fuel seen (some cursor) = true := by
  induction fuel generalizing seen cursor with
  | zero =>
    have most := distinct.length_le_of_subset inside
    omega
  | succ fuel ih =>
    rw [closes]
    split
    · rfl
    · rename_i fresh
      cases link : next cursor with
      | none => exact absurd (ends_iff.mpr fun y link' => by rw [link] at link'; cases link') endless
      | some d =>
        have later : ¬Ends next d := fun ends => endless (ends_iff.mpr fun y link' => by
          rw [link] at link'
          exact Option.some.inj link' ▸ ends)
        refine ih (List.nodup_cons.mpr ⟨fresh, distinct⟩) (List.cons_subset.mpr ⟨covers cursor d link, inside⟩) ?_ later
        rw [List.length_cons]
        omega

/-- A walk from a thing with a link says whether its chain does not end. -/
theorem closes_iff {keys : List α} (covers : ∀ y z, next y = some z → y ∈ keys) (here : x ∈ keys) :
    closes next keys.length [x] (next x) = true ↔ ¬Ends next x := by
  cases link : next x with
  | none =>
    have ends : Ends next x := ends_iff.mpr fun y link' => by rw [link] at link'; cases link'
    constructor
    · intro closed
      unfold closes at closed
      cases closed
    · exact fun endless => absurd ends endless
  | some y =>
    have same : Ends next x ↔ Ends next y := by
      rw [ends_iff]
      exact ⟨fun all => all y link, fun ends z link' => by rw [link] at link'; exact Option.some.inj link' ▸ ends⟩
    rw [same]
    constructor
    · refine not_ends_of_closes fun s member => ⟨0, ?_⟩
      rw [List.mem_singleton.mp member, after, link]
      rfl
    · refine closes_of_not_ends covers (List.nodup_singleton x) (by simpa using here) ?_
      rw [List.length_singleton]
      omega

end Walk

section Cut

open Classical in
/-- The link from `x` is cut where its chain does not end. -/
noncomputable def cutAt (next : α → Option α) (x : α) : α → Option α :=
  fun y => if y = x ∧ ¬Ends next x then none else next y

/-- One link after the other. -/
noncomputable def cutAll (next : α → Option α) (order : List α) : α → Option α :=
  order.foldl cutAt next

theorem cutAt_le {x y z : α} (link : cutAt next x y = some z) : next y = some z := by
  unfold cutAt at link
  split at link
  · cases link
  · exact link

theorem cutAll_le {order : List α} {y z : α} (link : cutAll next order y = some z) : next y = some z := by
  induction order generalizing next with
  | nil => exact link
  | cons x order ih => exact cutAt_le (ih link)

theorem ends_cutAt (next : α → Option α) (x : α) : Ends (cutAt next x) x := by
  by_cases ends : Ends next x
  · exact ends.mono fun _ _ => cutAt_le
  · refine ends_iff.mpr fun y link => ?_
    rw [cutAt, if_pos ⟨rfl, ends⟩] at link
    cases link

/-- Every chain that was looked at ends. -/
theorem ends_cutAll {order : List α} (member : x ∈ order) : Ends (cutAll next order) x := by
  induction order generalizing next with
  | nil => exact absurd member List.not_mem_nil
  | cons y order ih =>
    rcases List.mem_cons.mp member with rfl | later
    · have fewer (y z : α) (link : cutAll (cutAt next x) order y = some z) : cutAt next x y = some z := cutAll_le link
      exact (ends_cutAt next x).mono fewer
    · exact ih later

theorem cutAll_other {order : List α} (absent : x ∉ order) : cutAll next order x = next x := by
  induction order generalizing next with
  | nil => rfl
  | cons y order ih =>
    obtain ⟨other, later⟩ := not_or.mp (mt List.mem_cons.mpr absent)
    have same : cutAt next y x = next x := if_neg fun both => other both.1
    exact (ih later).trans same

/-- Where none of a chain's links has been looked at, it is as it was. -/
theorem after_cutAll {order : List α} (untouched : ∀ n y, after next n x = some y → y ∉ order) (n : Nat) :
    after (cutAll next order) n x = after next n x := by
  induction n generalizing x with
  | zero => rfl
  | succ n ih =>
    rw [after, after, cutAll_other (untouched 0 x rfl)]
    cases link : next x with
    | none => rfl
    | some y =>
      refine ih fun m z reach => untouched (m + 1) z ?_
      rw [after, link]
      exact reach

/-- A link is kept if its chain ends, or has been cut somewhere before its turn came. -/
theorem cutAll_kept_iff {before later : List α} (distinct : (before ++ x :: later).Nodup) (link : next x = some y) :
    cutAll next (before ++ x :: later) x = some y ↔ Ends next x ∨ ∃ n z, after next n x = some z ∧ z ∈ before := by
  have apart := List.nodup_middle.mp distinct
  have absent := (List.nodup_cons.mp apart).1
  have notBefore : x ∉ before := fun member => absent (List.mem_append_left _ member)
  have notLater : x ∉ later := fun member => absent (List.mem_append_right _ member)
  have whole : cutAll next (before ++ x :: later) x = cutAt (cutAll next before) x x := by
    have parts : cutAll next (before ++ x :: later) = cutAll (cutAt (cutAll next before) x) later := by
      unfold cutAll
      rw [List.foldl_append, List.foldl_cons]
    rw [parts, cutAll_other notLater]
  have now : cutAll next (before ++ x :: later) x = some y ↔ Ends (cutAll next before) x := by
    rw [whole, cutAt, cutAll_other notBefore, link]
    by_cases ends : Ends (cutAll next before) x
    · rw [if_neg fun both => both.2 ends]
      exact ⟨fun _ => ends, fun _ => rfl⟩
    · rw [if_pos ⟨rfl, ends⟩]
      exact ⟨fun none' => absurd none' (by simp), fun ends' => absurd ends' ends⟩
  rw [now]
  constructor
  · intro ends
    by_contra neither
    obtain ⟨endless, untouched⟩ := not_or.mp neither
    obtain ⟨n, none'⟩ := ends
    rw [after_cutAll fun m z reach member => untouched ⟨m, z, reach, member⟩] at none'
    exact endless ⟨n, none'⟩
  · rintro (ends | ⟨n, z, reach, member⟩)
    · exact ends.mono fun _ _ => cutAll_le
    · exact Ends.of_after (fun _ _ => cutAll_le) reach (ends_cutAll member)

end Cut

end Chains
