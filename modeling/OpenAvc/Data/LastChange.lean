import Mathlib.Data.List.Basic
import Mathlib.Data.List.Induction

/-! The value that a fold comes to, told from the last step that changed it. -/

namespace LastChange

variable {σ ε : Type*} {next : σ → ε → σ} {x y : σ} {trace : List ε}

theorem foldl_kept (kept : ∀ e ∈ trace, next y e = y) : trace.foldl next y = y := by
  induction trace with
  | nil => rfl
  | cons e rest ih =>
    rw [List.foldl_cons, kept e List.mem_cons_self]
    exact ih fun e' member => kept e' (List.mem_cons_of_mem e member)

/-- A value that was not there to begin with came by a step from some other value, and every
later step has kept it. -/
theorem foldl_eq_iff (other : x ≠ y) :
    trace.foldl next x = y ↔
      ∃ before e after, trace = before ++ e :: after ∧ before.foldl next x ≠ y ∧
        next (before.foldl next x) e = y ∧ ∀ e' ∈ after, next y e' = y := by
  constructor
  · intro came
    induction trace using List.reverseRecOn with
    | nil => exact absurd came other
    | append_singleton init last ih =>
      rw [List.foldl_concat] at came
      by_cases already : init.foldl next x = y
      · obtain ⟨before, e, after, rfl, fresh, made, kept⟩ := ih already
        refine ⟨before, e, after ++ [last], by simp, fresh, made, ?_⟩
        intro e' member
        rcases List.mem_append.mp member with early | late
        · exact kept e' early
        · obtain rfl := List.mem_singleton.mp late
          rwa [already] at came
      · exact ⟨init, last, [], rfl, already, came, by simp⟩
  · rintro ⟨before, e, after, rfl, -, made, kept⟩
    rw [List.foldl_append, List.foldl_cons, made]
    exact foldl_kept kept

/-- The last step that is not of a kind, where there is one. -/
theorem last_not (p : ε → Prop) (trace : List ε) :
    (∀ e ∈ trace, p e) ∨ ∃ before e after, trace = before ++ e :: after ∧ ¬p e ∧ ∀ e' ∈ after, p e' := by
  induction trace using List.reverseRecOn with
  | nil => exact Or.inl (by simp)
  | append_singleton init last ih =>
    by_cases kind : p last
    · rcases ih with all | ⟨before, e, after, rfl, odd, rest⟩
      · exact Or.inl (List.forall_mem_append.mpr ⟨all, by simpa using kind⟩)
      · exact Or.inr ⟨before, e, after ++ [last], by simp, odd, List.forall_mem_append.mpr ⟨rest, by simpa using kind⟩⟩
    · exact Or.inr ⟨init, last, [], rfl, kind, by simp⟩

/-- Where every step keeps a value or drops it, what is left at the end was there from the start. -/
theorem foldl_some_of_drops {α : Type*} {next : Option α → ε → Option α} {v : Option α} {a : α}
    (drops : ∀ e ∈ trace, ∀ v, next v e = v ∨ next v e = none) (left : trace.foldl next v = some a) : v = some a := by
  induction trace generalizing v with
  | nil => exact left
  | cons e rest ih =>
    have here := ih (fun e' member => drops e' (List.mem_cons_of_mem e member)) left
    rcases drops e List.mem_cons_self v with kept | dropped
    · exact kept ▸ here
    · rw [dropped] at here
      cases here

/-- What one step brings about and the steps keep holds at the end, if that step is among them. -/
theorem foldl_of_mem {σ ε : Type*} {P : σ → Prop} {next : σ → ε → σ} {trace : List ε} {e : ε} (member : e ∈ trace)
    (made : ∀ x, P (next x e)) (kept : ∀ x, ∀ e' ∈ trace, P x → P (next x e')) (x : σ) : P (trace.foldl next x) := by
  induction trace generalizing x with
  | nil => cases member
  | cons first rest ih =>
    rw [List.foldl_cons]
    by_cases later : e ∈ rest
    · exact ih later (fun x e' here => kept x e' (List.mem_cons_of_mem first here)) (next x first)
    · obtain rfl := (List.mem_cons.mp member).resolve_right later
      refine List.foldlRecOn (motive := P) _ _ (made x) fun x before e' here => ?_
      exact kept x e' (List.mem_cons_of_mem _ here) before

end LastChange
