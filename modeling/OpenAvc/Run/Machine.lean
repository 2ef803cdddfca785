import Mathlib.Logic.Function.Basic
import Mathlib.Data.List.Basic

namespace Run

/-- A system whose every source of choice is in its labels: which task runs
next, what an await answers, what an outside caller asks for. A label that is
not possible in a state has no successor. -/
structure Machine (σ ℓ : Type*) where
  init : σ → Prop
  next : σ → ℓ → Option σ

variable {σ ℓ : Type*} {M : Machine σ ℓ} {ok ok' : σ → ℓ → Prop}

/-- States reached by steps that all meet `ok` in the state they start from. -/
inductive Reach (M : Machine σ ℓ) (ok : σ → ℓ → Prop) : σ → Prop
  | init {s} : M.init s → Reach M ok s
  | step {s l s'} : Reach M ok s → ok s l → M.next s l = some s' → Reach M ok s'

/-- Any step whatever is allowed. -/
def always (_ : σ) (_ : ℓ) : Prop := True

instance (s : σ) (l : ℓ) : Decidable (always s l) := inferInstanceAs (Decidable True)

theorem Reach.mono {s : σ} (reach : Reach M ok s) (weaker : ∀ s l, ok s l → ok' s l) :
    Reach M ok' s := by
  induction reach with
  | init start => exact .init start
  | step _ meets run ih => exact .step ih (weaker _ _ meets) run

/-- A property of the start that every step from a reached state keeps. -/
theorem Reach.invariant {I : σ → Prop} (start : ∀ s, M.init s → I s)
    (keep : ∀ s l s', Reach M ok s → I s → ok s l → M.next s l = some s' → I s')
    {s : σ} (reach : Reach M ok s) : I s := by
  induction reach with
  | init h => exact start _ h
  | step previous meets run ih => exact keep _ _ _ previous ih meets run

/-- The labels taken one after the other, given up at the first one that is
not possible or does not meet `ok`. -/
def Machine.run (M : Machine σ ℓ) (ok : σ → ℓ → Prop) [∀ s l, Decidable (ok s l)] :
    σ → List ℓ → Option σ
  | s, [] => some s
  | s, l :: ls => if ok s l then (M.next s l).bind fun s' => M.run ok s' ls else none

theorem Reach.run [∀ s l, Decidable (ok s l)] {s s' : σ} {ls : List ℓ} (reach : Reach M ok s)
    (run : M.run ok s ls = some s') : Reach M ok s' := by
  induction ls generalizing s with
  | nil => cases run; exact reach
  | cons l ls ih =>
    simp only [Machine.run, Option.ite_none_right_eq_some] at run
    obtain ⟨middle, first, rest⟩ := Option.bind_eq_some_iff.mp run.2
    exact ih (.step reach run.1 first) rest

/-- A label that can be taken while something is left to do, and lowers a measure, is taken
until nothing is left. -/
theorem Machine.ends (M : Machine σ ℓ) {l : ℓ} {done : σ → Prop} (measure : σ → ℕ)
    (lower : ∀ s, ¬done s → ∃ s', M.next s l = some s' ∧ measure s' < measure s) (s : σ) :
    ∃ n s', M.run always s (List.replicate n l) = some s' ∧ done s' := by
  induction size : measure s using Nat.strongRecOn generalizing s with
  | ind size' ih =>
    by_cases finished : done s
    · exact ⟨0, s, rfl, finished⟩
    · obtain ⟨s', step, less⟩ := lower s finished
      obtain ⟨n, last, rest, finished⟩ := ih (measure s') (size ▸ less) s' rfl
      refine ⟨n + 1, last, ?_, finished⟩
      have allowed : always s l := trivial
      rw [List.replicate_succ, Machine.run, if_pos allowed, step]
      exact rest

end Run
