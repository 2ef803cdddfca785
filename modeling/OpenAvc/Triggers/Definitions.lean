import OpenAvc.Data.Json
import OpenAvc.Macro.Engine

namespace OpenAvc.Triggers

abbrev TriggerId := String

inductive TriggerType
  | schedule | stateChange | event | startup
  deriving DecidableEq

/-- A trigger of a project, with the macro whose list it stands in. The times
are in ticks of the monotonic clock. The guard conditions and the state
operator are not here: what they say at a moment is for the labels to tell. -/
structure Trigger where
  id : TriggerId
  macroId : MacroId
  type : TriggerType
  enabled : Bool := true
  cron : String := ""
  delaySeconds : Nat := 0
  debounceSeconds : Nat := 0
  cooldownSeconds : Nat := 0
  overlap : Overlap := .skip
  deriving DecidableEq

/-- The poll loop looks at the trigger. -/
def Trigger.Scheduled (t : Trigger) : Prop := t.type = .schedule ∧ t.enabled = true ∧ t.cron ≠ ""

/-- What `load_triggers` makes of the macros' triggers: a dict by trigger id,
without the triggers that have none. -/
def loadedTriggers (triggers : List Trigger) : List (TriggerId × Trigger) :=
  (triggers.filter fun t => t.id ≠ "").foldl (fun d t => Dict.set d t.id t) []

theorem mem_loadedTriggers {triggers : List Trigger} {u : TriggerId × Trigger} (member : u ∈ loadedTriggers triggers) :
    u.2 ∈ triggers := by
  have walk : ∀ (l : List Trigger) (d : List (TriggerId × Trigger)), (∀ t ∈ l, t ∈ triggers) →
      (∀ w ∈ d, w.2 ∈ triggers) → ∀ w ∈ l.foldl (fun d t => Dict.set d t.id t) d, w.2 ∈ triggers := by
    intro l
    induction l with
    | nil => exact fun d _ known => known
    | cons t l ih =>
      intro d listed known
      refine ih _ (fun t' later => listed t' (List.mem_cons_of_mem t later)) fun w inside => ?_
      rcases Dict.mem_set inside with rfl | before
      · exact listed t List.mem_cons_self
      · exact known w before
  exact walk _ [] (fun t kept => List.mem_of_mem_filter kept) nofun u member

theorem loadedTriggers_distinct (triggers : List Trigger) : ((loadedTriggers triggers).map Prod.fst).Nodup := by
  have walk : ∀ (l : List Trigger) (d : List (TriggerId × Trigger)), (d.map Prod.fst).Nodup →
      ((l.foldl (fun d t => Dict.set d t.id t) d).map Prod.fst).Nodup := by
    intro l
    induction l with
    | nil => exact fun d distinct => distinct
    | cons t l ih => exact fun d distinct => ih _ (Dict.nodup_set distinct _ _)
  exact walk _ [] List.nodup_nil

end OpenAvc.Triggers
