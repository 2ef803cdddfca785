import Mathlib.Algebra.BigOperators.Group.List.Basic
import Mathlib.Algebra.GroupWithZero.Nat
import OpenAvc.Macro.Moves

/-! How many awaits a call of `execute` still has before it. -/

namespace OpenAvc

/- What a step can cost, where `call` says what a call of a macro costs. -/
mutual

def Step.turns (call : MacroId → Nat) : Step → Nat
  | .leaf _ | .plugin _ => 3
  | .callMacro _ sub => 3 + call sub
  | .conditional _ _ thenSteps elseSteps => 3 + stepsTurns call thenSteps + stepsTurns call elseSteps

def stepsTurns (call : MacroId → Nat) : List Step → Nat
  | [] => 0
  | step :: rest => step.turns call + stepsTurns call rest

end

/-- A call made with `nesting` levels left. The recursion is on the nesting
limit, whatever the macros call. -/
def callTurns (macros : MacroId → Option Macro) : Nat → MacroId → Nat
  | 0, _ => 0
  | nesting + 1, m =>
    match macros m with
    | none => 0
    | some config => queueMaxWait + 6 + stepsTurns (callTurns macros nesting) config.steps

variable {call : MacroId → Nat}

theorem Step.turns_pos (step : Step) : 3 ≤ step.turns call := by
  cases step <;> simp only [Step.turns] <;> omega

/-- What is left of the step lists when the step at work is over. -/
def pendingTurns (call : MacroId → Nat) : List (List Step) → Nat
  | [] => 0
  | list :: up => 1 + stepsTurns call list.tail + pendingTurns call up

/-- What the step lists cost in all. -/
def allTurns (call : MacroId → Nat) : List (List Step) → Nat
  | [] => 0
  | list :: up => 1 + stepsTurns call list + allTurns call up

def headTurns (call : MacroId → Nat) : List (List Step) → Nat
  | (step :: _) :: _ => step.turns call
  | _ => 1

theorem stepsTurns_tail (call : MacroId → Nat) (list : List Step) : stepsTurns call list.tail ≤ stepsTurns call list := by
  cases list with
  | nil => exact le_rfl
  | cons step rest => simp only [List.tail_cons, stepsTurns]; omega

theorem pendingTurns_le (call : MacroId → Nat) (todo : List (List Step)) : pendingTurns call todo ≤ allTurns call todo := by
  induction todo with
  | nil => exact le_rfl
  | cons list up ih =>
    have := stepsTurns_tail call list
    simp only [pendingTurns, allTurns]
    omega

theorem head_pendingTurns_le (call : MacroId → Nat) (todo : List (List Step)) :
    pendingTurns call todo + headTurns call todo ≤ allTurns call todo + 1 := by
  cases todo with
  | nil => exact le_rfl
  | cons list up =>
    have := pendingTurns_le call up
    cases list with
    | nil => simp only [pendingTurns, headTurns, allTurns, List.tail_nil, stepsTurns]; omega
    | cons step rest => simp only [pendingTurns, headTurns, allTurns, List.tail_cons, stepsTurns]; omega

/-- The steps that `settle` leaves cost no more than what was pending. -/
theorem settle_turns (call : MacroId → Nat) (todo : List (List Step)) :
    settle todo = [] ∨ pendingTurns call (settle todo) + headTurns call (settle todo) ≤ pendingTurns call todo := by
  induction todo with
  | nil => exact Or.inl rfl
  | cons list up ih =>
    cases list with
    | nil =>
      rw [settle]
      · simp only [pendingTurns]
        rcases ih with ended | less
        · exact Or.inl ended
        · exact Or.inr (by omega)
      · exact fun _ _ _ same => by cases same
    | cons step rest =>
      cases rest with
      | nil =>
        rw [settle]
        · simp only [pendingTurns]
          rcases ih with ended | less
          · exact Or.inl ended
          · exact Or.inr (by omega)
        · exact fun _ _ _ same => by cases same
      | cons next rest =>
        rw [settle]
        refine Or.inr ?_
        simp only [pendingTurns, headTurns, List.tail_cons, stepsTurns]
        omega

namespace Frame

variable (macros : MacroId → Option Macro) (f : Frame)

/-- What a macro called by this call costs. -/
def callTurns (f : Frame) : MacroId → Nat := OpenAvc.callTurns macros (maxDepth - f.chain.card)

/-- The awaits this call has before it at most, the one it is at included and
those of a call it waits for not. -/
def turns (f : Frame) : Nat :=
  let call := f.callTurns macros
  match f.pc with
  | .queue waited => (queueMaxWait - waited) + 5 + allTurns call f.todo
  | .drain _ => 4 + allTurns call f.todo
  | .started => 3 + allTurns call f.todo
  | .progress => pendingTurns call f.todo + 1 + headTurns call f.todo
  | .branch _ => pendingTurns call f.todo + 3 + stepsTurns call (MacroEngine.branchOf f true) +
      stepsTurns call (MacroEngine.branchOf f false)
  | .leaf | .plugin => pendingTurns call f.todo + 3
  | .nested | .stepError _ => pendingTurns call f.todo + 2
  | .skipped | .completed _ | .cancelled | .error => 1

theorem turns_pos : 1 ≤ f.turns macros := by
  unfold turns
  cases f.pc <;> simp only <;> omega

theorem stepDone_turns : f.stepDone.turns macros ≤ pendingTurns (f.callTurns macros) f.todo + 1 := by
  unfold stepDone
  rcases settle_turns (f.callTurns macros) f.todo with ended | less
  · simp only [ended, turns]
    omega
  · split
    · simp only [turns]
      omega
    · rename_i list up todo
      rw [todo] at less
      simp only [turns, callTurns] at less ⊢
      omega

variable {macros} {f}

theorem stepFailed_turns : f.stepFailed.turns macros = pendingTurns (f.callTurns macros) f.todo + 2 := rfl

theorem stepUnreported_turns : f.stepUnreported.turns macros = pendingTurns (f.callTurns macros) f.todo + 2 := rfl

theorem stepRaised_turns : f.stepRaised.turns macros ≤ pendingTurns (f.callTurns macros) f.todo + 1 := by
  unfold stepRaised
  split
  · rename_i first list up todo
    rw [stepFailed_turns, todo]
    simp only [pendingTurns, callTurns]
    omega
  · simp only [turns]
    omega

theorem firstStep_turns : f.firstStep.turns macros ≤ allTurns (f.callTurns macros) f.todo + 2 := by
  have pending := pendingTurns_le (f.callTurns macros) f.todo
  unfold firstStep
  split
  · have := f.stepDone_turns macros
    omega
  · have := head_pendingTurns_le (f.callTurns macros) f.todo
    simp only [turns, callTurns] at this ⊢
    omega

theorem enterBranch_turns (branch : List Step) : (f.enterBranch branch).turns macros ≤
    pendingTurns (f.callTurns macros) f.todo + 2 + stepsTurns (f.callTurns macros) branch := by
  unfold enterBranch
  split
  · have := f.stepDone_turns macros
    omega
  · simp only [turns, callTurns, pendingTurns, headTurns, List.tail_cons, stepsTurns]
    omega

/-- A call of a macro that is let through costs what the step that makes it allows for. -/
theorem fresh_turns {m : MacroId} {config : Macro} {chain : Finset MacroId} (atConfig : macros m = some config)
    (accepted : MacroEngine.refuseStart macros m chain = false) (id : RunId) (nestedCall : Bool) :
    ({ id := id, macroId := m, config := config, chain := insert m chain, nestedCall := nestedCall,
       todo := [config.steps], pc := .queue 0 } : Frame).turns macros ≤
      OpenAvc.callTurns macros (maxDepth - chain.card) m := by
  simp only [MacroEngine.refuseStart, Bool.or_eq_false_iff, decide_eq_false_iff_not, Nat.not_le] at accepted
  obtain ⟨⟨_, outside⟩, shallow⟩ := accepted
  obtain ⟨nesting, left⟩ : ∃ nesting, maxDepth - chain.card = nesting + 1 :=
    Nat.exists_eq_succ_of_ne_zero (Nat.sub_ne_zero_of_lt shallow)
  have deeper : maxDepth - (insert m chain).card = nesting := by
    rw [Finset.card_insert_of_notMem outside]
    omega
  rw [left]
  simp only [turns, callTurns, OpenAvc.callTurns, atConfig, deeper, allTurns]
  omega

end Frame

end OpenAvc
