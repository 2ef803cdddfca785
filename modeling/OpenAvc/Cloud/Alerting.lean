import OpenAvc.Cloud.AlertMonitor
import OpenAvc.Data.Lookup

/-! What a step of the monitor does to the alerts. Each alert is raised once and is over at most
once, and the open ones are those that are not over. -/

namespace OpenAvc.Cloud

/-- The key of some rule's alert. -/
def Keyed (a : Text) : Prop :=
  ∃ ruleId key, a = alertKey ruleId key

theorem drop_alertKey (ruleId key : Text) : (alertKey ruleId key).drop 5 = ruleId ++ 58 :: key := by
  have five : (text "rule:").length = 5 := rfl
  rw [alertKey, ← five, List.append_assoc, List.drop_left]

/-- A key is put together again from the parts it is cut into. -/
theorem alertKey_of_keyed {a : Text} (keyed : Keyed a) : alertKey (ruleIdOf a) (stateKeyOf a) = a := by
  obtain ⟨ruleId, key, rfl⟩ := keyed
  have cut : (ruleId ++ 58 :: key).takeWhile (· ≠ 58) ++ (ruleId ++ 58 :: key).dropWhile (· ≠ 58) = ruleId ++ 58 :: key :=
    List.takeWhile_append_dropWhile
  have colon : ∃ rest, (ruleId ++ 58 :: key).dropWhile (· ≠ 58) = 58 :: rest := by
    induction ruleId with
    | nil => exact ⟨key, by simp⟩
    | cons c ruleId ih =>
      by_cases here : c = 58
      · exact ⟨ruleId ++ 58 :: key, by simp [here]⟩
      · obtain ⟨rest, found⟩ := ih List.takeWhile_append_dropWhile
        exact ⟨rest, by simpa [List.dropWhile_cons, here] using found⟩
  obtain ⟨rest, found⟩ := colon
  rw [found] at cut
  have whole : alertKey (ruleIdOf (alertKey ruleId key)) (stateKeyOf (alertKey ruleId key)) =
      text "rule:" ++ ((ruleId ++ 58 :: key).takeWhile (· ≠ 58) ++ 58 :: rest) := by
    rw [alertKey, ruleIdOf, stateKeyOf, drop_alertKey, found, List.append_assoc]
    rfl
  rw [whole, cut, alertKey, List.append_assoc]

theorem ruleIdOf_alertKey {ruleId : Text} (plain : 58 ∉ ruleId) (key : Text) : ruleIdOf (alertKey ruleId key) = ruleId := by
  have whole : ∀ c ∈ ruleId, decide (c ≠ 58) = true := fun c member => decide_eq_true fun same => plain (same ▸ member)
  rw [ruleIdOf, drop_alertKey, List.takeWhile_append_of_pos whole]
  simp

/-- Two rules' alerts for two state keys are apart where the first has no colon in it. -/
theorem alertKey_inj {ruleId key ruleId' key' : Text} (plain : 58 ∉ ruleId) (plainKey : 58 ∉ key)
    (same : alertKey ruleId' key' = alertKey ruleId key) : ruleId' = ruleId ∧ key' = key := by
  have parts : ruleId' ++ 58 :: key' = ruleId ++ 58 :: key := by
    rw [← drop_alertKey, same, drop_alertKey]
  have once : (ruleId' ++ 58 :: key').count 58 = 1 := by
    rw [parts, List.count_append, List.count_cons_self, List.count_eq_zero.mpr plain, List.count_eq_zero.mpr plainKey]
  rw [List.count_append, List.count_cons_self] at once
  have plain' : 58 ∉ ruleId' := List.count_eq_zero.mp (by omega)
  have first : ruleId' = ruleId := by
    rw [← ruleIdOf_alertKey plain' key', same, ruleIdOf_alertKey plain]
  subst first
  exact ⟨rfl, List.cons.inj (List.append_cancel_left parts) |>.2⟩

namespace Alerts

section

variable {s : Alerts} {a b : Text} {rule : Rule} {key : Text} {value : Primitive} {now : ℚ}

@[simp] theorem isOpen_fire : (s.fire rule key value).isOpen a = (decide (a = alertKey rule.id key) || s.isOpen a) := by
  have changed := Dict.lookup_set s.active (alertKey rule.id key) a s.nextAlert
  rw [isOpen, fire, changed]
  by_cases same : a = alertKey rule.id key
  · simp [same]
  · rw [if_neg same, decide_eq_false same, Bool.false_or, isOpen]

@[simp] theorem isArmed_fire : (s.fire rule key value).isArmed a = s.isArmed a := rfl

@[simp] theorem isOpen_resolve {removed : Bool} : (s.resolve b removed).isOpen a = (decide (a ≠ b) && s.isOpen a) := by
  have kept := List.lookup_filter_keys (fun k => decide (k ≠ b)) a s.active
  rw [isOpen, resolve, kept]
  by_cases same : a = b
  · simp [same]
  · rw [if_pos (decide_eq_true same), decide_eq_true same, Bool.true_and, isOpen]

@[simp] theorem isArmed_resolve {removed : Bool} : (s.resolve b removed).isArmed a = s.isArmed a := rfl

@[simp] theorem isOpen_disarm : (s.disarm b).isOpen a = s.isOpen a := rfl

@[simp] theorem isArmed_disarm : (s.disarm b).isArmed a = (decide (a ≠ b) && s.isArmed a) := by
  have kept := List.lookup_filter_keys (fun k => decide (k ≠ b)) a s.timers
  rw [isArmed, disarm, kept]
  by_cases same : a = b
  · simp [same]
  · rw [if_pos (decide_eq_true same), decide_eq_true same, Bool.true_and, isArmed]

@[simp] theorem isOpen_arm : (s.arm b now).isOpen a = s.isOpen a := rfl

@[simp] theorem isArmed_arm : (s.arm b now).isArmed a = (decide (a = b) || s.isArmed a) := by
  cases armed : s.isArmed b with
  | true =>
    have still : s.arm b now = s := by rw [arm, if_pos armed]
    rw [still]
    by_cases same : a = b
    · rw [same, armed, Bool.or_true]
    · rw [decide_eq_false same, Bool.false_or]
  | false =>
    have grown : (s.arm b now).timers = s.timers ++ [(b, now)] := if_neg (Bool.eq_false_iff.mp armed)
    rw [isArmed, grown, List.lookup_append, Option.isSome_or, ← isArmed, Bool.or_comm]
    by_cases same : a = b
    · simp [same]
    · rw [List.lookup_cons, beq_eq_false_iff_ne.mpr same, decide_eq_false same]
      rfl

end

/-- What becomes of the alerts, by one alert or timer after the other. -/
inductive Moves (s : Alerts) : Alerts → Prop
  | refl : Moves s s
  | fire {t} {rule : Rule} {key : Text} (value : Primitive) : Moves s t → t.isOpen (alertKey rule.id key) = false →
      Moves s (t.fire rule key value)
  | resolve {t} (a : Text) (removed : Bool) : Moves s t → Moves s (t.resolve a removed)
  | arm {t} (ruleId key : Text) (now : ℚ) : Moves s t → Moves s (t.arm (alertKey ruleId key) now)
  | drop {t} (keep : Text × ℚ → Bool) : Moves s t → Moves s { t with timers := t.timers.filter keep }

section

variable {s t : Alerts}

theorem Moves.trans {u : Alerts} (first : Moves s t) (then' : Moves t u) : Moves s u := by
  induction then' with
  | refl => exact first
  | fire value _ fresh ih => exact .fire value ih fresh
  | resolve a removed _ ih => exact .resolve a removed ih
  | arm ruleId key now _ ih => exact .arm ruleId key now ih
  | drop keep _ ih => exact .drop keep ih

theorem Moves.foldl {α : Type*} {f : Alerts → α → Alerts} (each : ∀ s x, Moves s (f s x)) (l : List α) (s : Alerts) :
    Moves s (l.foldl f s) := by
  induction l generalizing s with
  | nil => exact .refl
  | cons x l ih => exact (each s x).trans (ih (f s x))

variable (py : Python)

theorem disarm_moves (s : Alerts) (a : Text) : Moves s (s.disarm a) :=
  .drop _ .refl

theorem judge_moves (s : Alerts) (rule : Rule) (key : Text) (value : Primitive) (now : ℚ) :
    Moves s (s.judge py rule key value now) := by
  have quiet := disarm_moves s (alertKey rule.id key)
  unfold judge
  split
  · unfold evaluateThreshold
    dsimp only
    split_ifs with _ _ _ opened _ resolved
    · exact .refl
    · exact .refl
    · exact .refl
    · exact .arm rule.id key now .refl
    · exact .fire value .refl (Bool.eq_false_iff.mpr opened)
    · exact .resolve _ false quiet
    · exact quiet
  · unfold evaluatePattern
    dsimp only
    split_ifs with _ _ opened _ resolved
    · exact .refl
    · exact .refl
    · exact .arm rule.id key now .refl
    · exact .fire value quiet (Bool.eq_false_iff.mpr opened)
    · exact .resolve _ false quiet
    · exact quiet
  · exact .refl

theorem raise_moves (s : Alerts) (store : List (Text × Primitive)) (rules : List Rule) (now : ℚ) :
    Moves s (s.raiseWhatIsAlreadyWrong py store rules now) := by
  refine Moves.foldl (fun s rule => ?_) rules s
  split
  · exact .refl
  · exact Moves.foldl (fun s (entry : Text × Primitive) => judge_moves py s rule entry.1 entry.2 now) _ s

theorem clearRemoved_moves (s : Alerts) (old rules : List Rule) : Moves s (s.clearRemoved old rules) :=
  .drop _ (Moves.foldl (fun _ a => .resolve a true .refl) _ s)

theorem Moves.keyed (moves : Moves s t) (keyed : ∀ timer ∈ s.timers, Keyed timer.1) : ∀ timer ∈ t.timers, Keyed timer.1 := by
  induction moves with
  | refl => exact keyed
  | fire _ _ _ ih => exact ih
  | resolve _ _ _ ih => exact ih
  | @arm t ruleId key now _ ih =>
    intro timer member
    by_cases armed : t.isArmed (alertKey ruleId key) = true
    · exact ih timer (by simpa [Alerts.arm, armed] using member)
    · rcases List.mem_append.mp (show timer ∈ t.timers ++ [(alertKey ruleId key, now)] by simpa [Alerts.arm, armed] using member)
        with earlier | last
      · exact ih timer earlier
      · rw [List.mem_singleton.mp last]
        exact ⟨ruleId, key, rfl⟩
  | drop _ _ ih => exact fun timer member => ih timer (List.mem_of_mem_filter member)

end

end Alerts

/-! ### Every alert is raised once -/

/-- The alerts that a row of messages raises. -/
def raisedIds (built : List AlertMessage) : List Nat :=
  built.filterMap fun
    | .alert id _ _ _ => some id
    | .resolved _ _ => none

/-- The alerts that it says are over. -/
def closedIds (built : List AlertMessage) : List Nat :=
  built.filterMap fun
    | .alert _ _ _ _ => none
    | .resolved id _ => some id

/-- The open alerts and those that are over are the raised ones, and none is over before it is raised. -/
structure Balanced (s : Alerts) : Prop where
  keys : (s.active.map Prod.fst).Nodup
  raised : raisedIds s.built = List.range s.nextAlert
  shared : (s.active.map Prod.snd ++ closedIds s.built).Perm (List.range s.nextAlert)
  order : ∀ before id removed after, s.built = before ++ .resolved id removed :: after → id ∈ raisedIds before

section

variable {s t : Alerts}

theorem perm_of_lookup {active : List (Text × Nat)} (keys : (active.map Prod.fst).Nodup) {a : Text} {id : Nat}
    (found : active.lookup a = some id) : active.Perm ((a, id) :: active.filter fun entry => entry.1 ≠ a) := by
  induction active with
  | nil => cases found
  | cons entry active ih =>
    obtain ⟨b, other⟩ := entry
    obtain ⟨apart, keys⟩ := List.nodup_cons.mp keys
    by_cases same : a = b
    · subst same
      have rest : active.filter (fun entry => decide (entry.1 ≠ a)) = active := by
        refine List.filter_eq_self.mpr fun entry member => decide_eq_true fun same => apart ?_
        exact List.mem_map.mpr ⟨entry, member, same⟩
      have here : other = id := by simpa using found
      rw [List.filter_cons_of_neg (by simp), rest, here]
    · rw [List.lookup_cons, beq_eq_false_iff_ne.mpr same] at found
      rw [List.filter_cons_of_pos (by simpa using Ne.symm same)]
      exact ((ih keys found).cons _).trans (.swap _ _ _)

/-- What stands before a message still does when one more is built. -/
theorem split_snoc {built before after : List AlertMessage} {last message : AlertMessage}
    (split : built ++ [last] = before ++ message :: after) :
    (built = before ∧ last = message) ∨ ∃ rest, built = before ++ message :: rest := by
  rcases List.eq_nil_or_concat after with rfl | ⟨rest, final, rfl⟩
  · obtain ⟨same, ends⟩ := List.append_inj' split rfl
    exact .inl ⟨same, List.singleton_inj.mp ends⟩
  · have whole : built ++ [last] = (before ++ message :: rest) ++ [final] := by simpa [List.append_assoc] using split
    exact .inr ⟨rest, (List.append_inj' whole rfl).1⟩

theorem Balanced.fire (balanced : Balanced s) {rule : Rule} {key : Text} (value : Primitive)
    (fresh : s.isOpen (alertKey rule.id key) = false) : Balanced (s.fire rule key value) := by
  have absent : alertKey rule.id key ∉ s.active.map Prod.fst := by
    intro member
    obtain ⟨id, found⟩ := List.exists_lookup_of_mem member
    rw [Alerts.isOpen, found] at fresh
    cases fresh
  have added : (s.fire rule key value).active = s.active ++ [(alertKey rule.id key, s.nextAlert)] :=
    Dict.set_of_not_mem absent _
  have closed : closedIds (s.fire rule key value).built = closedIds s.built := by simp [closedIds, Alerts.fire]
  have raised : raisedIds (s.fire rule key value).built = raisedIds s.built ++ [s.nextAlert] := by
    simp [raisedIds, Alerts.fire]
  have next : (s.fire rule key value).nextAlert = s.nextAlert + 1 := rfl
  refine ⟨Dict.nodup_set balanced.keys _ _, ?_, ?_, ?_⟩
  · rw [raised, balanced.raised, next, List.range_succ]
  · rw [added, closed, next, List.range_succ, List.map_append, List.append_assoc]
    have moved : ([s.nextAlert] ++ closedIds s.built).Perm (closedIds s.built ++ [s.nextAlert]) := List.perm_append_comm
    refine (moved.append_left (s.active.map Prod.snd)).trans ?_
    rw [← List.append_assoc]
    exact balanced.shared.append_right _
  · intro before id removed after built
    rcases split_snoc built with ⟨_, wrong⟩ | ⟨rest, earlier⟩
    · cases wrong
    · exact balanced.order before id removed rest earlier

theorem Balanced.resolve (balanced : Balanced s) (a : Text) (removed : Bool) : Balanced (s.resolve a removed) := by
  have keys : ((s.resolve a removed).active.map Prod.fst).Nodup :=
    balanced.keys.sublist (List.filter_sublist.map _)
  cases found : s.active.lookup a with
  | none =>
    have still : (s.resolve a removed).active = s.active := by
      refine List.filter_eq_self.mpr fun entry member => decide_eq_true fun same => ?_
      obtain ⟨id, known⟩ := List.exists_lookup_of_mem (List.mem_map.mpr ⟨entry, member, same⟩)
      rw [found] at known
      cases known
    have silent : (s.resolve a removed).built = s.built := by simp [Alerts.resolve, found]
    refine ⟨keys, ?_, ?_, ?_⟩
    · rw [silent]
      exact balanced.raised
    · rw [still, silent]
      exact balanced.shared
    · rw [silent]
      exact balanced.order
  | some id =>
    have built : (s.resolve a removed).built = s.built ++ [.resolved id removed] := by simp [Alerts.resolve, found]
    have raised : raisedIds (s.resolve a removed).built = raisedIds s.built := by simp [raisedIds, built]
    have closed : closedIds (s.resolve a removed).built = closedIds s.built ++ [id] := by simp [closedIds, built]
    have taken := (perm_of_lookup balanced.keys found).map Prod.snd
    refine ⟨keys, raised.trans balanced.raised, ?_, ?_⟩
    · rw [closed, ← List.append_assoc]
      refine List.perm_append_comm.trans ?_
      exact (taken.symm.append_right (closedIds s.built)).trans balanced.shared
    · intro before other removed' after split
      rw [built] at split
      rcases split_snoc split with ⟨rfl, same⟩ | ⟨rest, earlier⟩
      · have known : id ∈ s.active.map Prod.snd := List.mem_map_of_mem (List.mem_of_lookup_eq_some found)
        rw [← (AlertMessage.resolved.inj same).1, balanced.raised]
        exact balanced.shared.mem_iff.mp (List.mem_append_left _ known)
      · exact balanced.order before other removed' rest earlier

theorem Alerts.Moves.balanced (moves : s.Moves t) (balanced : Balanced s) : Balanced t := by
  induction moves with
  | refl => exact balanced
  | fire value _ fresh ih => exact ih.fire value fresh
  | resolve a removed _ ih => exact ih.resolve a removed
  | arm _ _ _ _ ih => exact ⟨ih.keys, ih.raised, ih.shared, ih.order⟩
  | drop _ _ ih => exact ⟨ih.keys, ih.raised, ih.shared, ih.order⟩

end

namespace AlertMonitor

variable {py : Python} {s s' : AlertMonitor}

/-- What was found of the store is judged, and only the alerts change. -/
theorem evaluate_eq (py : Python) (s : AlertMonitor) (key : Text) (value : Primitive) (now : ℚ) (away : List Text) :
    ∃ alerts, s.evaluate py key value now away = { s with alerts } ∧ s.alerts.Moves alerts := by
  refine ⟨_, rfl, Alerts.Moves.foldl (fun alerts rule => ?_) _ _⟩
  split_ifs
  · exact .refl
  · exact Alerts.disarm_moves _ _
  · exact Alerts.judge_moves _ _ _ _ _ _

theorem evaluatePresence_eq (py : Python) (s : AlertMonitor) (deviceId : Text) (now : ℚ) (away : List Text) :
    ∃ alerts, s.evaluatePresence py deviceId now away = { s with alerts } ∧ s.alerts.Moves alerts := by
  unfold evaluatePresence
  refine List.foldlRecOn (motive := fun s' => ∃ alerts, s' = { s with alerts } ∧ s.alerts.Moves alerts) _ _
    ⟨s.alerts, rfl, .refl⟩ fun s' before entry _ => ?_
  obtain ⟨alerts, rfl, moves⟩ := before
  obtain ⟨alerts', judged, moves'⟩ := evaluate_eq py { s with alerts } entry.1 entry.2 now away
  exact ⟨alerts', judged, moves.trans moves'⟩

theorem onQuietChange_eq (py : Python) (s : AlertMonitor) (key : Text) (value : Primitive) (now : ℚ) (away : List Text) :
    ∃ alerts, s.onQuietChange py key value now away = { s with alerts } ∧ s.alerts.Moves alerts := by
  unfold onQuietChange
  split
  · split
    · exact evaluatePresence_eq py s _ now away
    · exact ⟨s.alerts, rfl, .refl⟩
  · exact ⟨s.alerts, rfl, .refl⟩

theorem hear_eq (s : AlertMonitor) (key : Text) (now : ℚ) :
    ∃ lastStateTimes, s.hear key now = { s with lastStateTimes } := by
  unfold hear
  split
  · split
    · exact ⟨_, rfl⟩
    · exact ⟨s.lastStateTimes, rfl⟩
  · exact ⟨s.lastStateTimes, rfl⟩

theorem onStateChange_eq (py : Python) (s : AlertMonitor) (key : Text) (value : Primitive) (now : ℚ) (away : List Text) :
    ∃ alerts lastStateTimes, s.onStateChange py key value now away = { s with alerts, lastStateTimes } ∧
      s.alerts.Moves alerts := by
  unfold onStateChange
  by_cases excluded : isCloudExcludedKey key = true
  · rw [if_pos excluded]
    exact ⟨s.alerts, s.lastStateTimes, rfl, .refl⟩
  · obtain ⟨lastStateTimes, heard⟩ := hear_eq s key now
    obtain ⟨alerts, presence, moves⟩ := onQuietChange_eq py { s with lastStateTimes } key value now away
    obtain ⟨alerts', judged, moves'⟩ := evaluate_eq py { s with lastStateTimes, alerts } key value now away
    rw [if_neg excluded, heard, presence]
    exact ⟨alerts', lastStateTimes, judged, moves.trans moves'⟩

/-- A value that the store already holds changes nothing. -/
theorem set_cases (py : Python) (s : AlertMonitor) (key : Text) (value : Primitive) (now : ℚ) (away : List Text) :
    s.set py key value now away = s ∨ ∃ alerts lastStateTimes, s.set py key value now away =
      { s with store := Dict.set s.store key value, alerts, lastStateTimes } ∧ s.alerts.Moves alerts := by
  by_cases held : (s.store.lookup key).any (·.unchanged value) = true
  · exact .inl (if_pos held)
  · refine .inr ?_
    rw [AlertMonitor.set, if_neg held]
    by_cases running : s.running = true
    · obtain ⟨alerts, lastStateTimes, heard, moves⟩ :=
        onStateChange_eq py { s with store := Dict.set s.store key value } key value now away
      exact ⟨alerts, lastStateTimes, (if_pos running).trans heard, moves⟩
    · exact ⟨s.alerts, s.lastStateTimes, if_neg running, .refl⟩

theorem delete_cases (py : Python) (s : AlertMonitor) (key : Text) (now : ℚ) (away : List Text) :
    s.delete py key now away = s ∨ ∃ alerts lastStateTimes, s.delete py key now away =
      { s with store := s.store.filter fun entry => entry.1 ≠ key, alerts, lastStateTimes } ∧ s.alerts.Moves alerts := by
  by_cases absent : (s.store.lookup key).isNone = true
  · exact .inl (if_pos absent)
  · refine .inr ?_
    rw [AlertMonitor.delete, if_neg absent]
    by_cases running : s.running = true
    · obtain ⟨alerts, lastStateTimes, heard, moves⟩ :=
        onStateChange_eq py { s with store := s.store.filter fun entry => entry.1 ≠ key } key .none now away
      exact ⟨alerts, lastStateTimes, (if_pos running).trans heard, moves⟩
    · exact ⟨s.alerts, s.lastStateTimes, if_neg running, .refl⟩

theorem checkTimer_moves {timer : Text × ℚ} (keyed : Keyed timer.1) (away : List Text) :
    s.alerts.Moves (s.checkTimer timer away) := by
  unfold checkTimer
  by_cases opened : s.alerts.isOpen timer.1 = true
  · rw [if_pos opened]
    exact .refl
  · rw [if_neg opened]
    cases found : s.findRuleFromKey timer.1 with
    | none => exact Alerts.disarm_moves _ _
    | some rule =>
      have own : rule.id = ruleIdOf timer.1 := by simpa using List.find?_some found
      have same : alertKey rule.id (stateKeyOf timer.1) = timer.1 := by rw [own, alertKey_of_keyed keyed]
      dsimp only
      split_ifs
      · exact .refl
      · exact Alerts.disarm_moves _ _
      · exact .fire _ .refl (by rw [same]; exact Bool.eq_false_iff.mpr opened)

theorem checkDevice_moves (py : Python) (s : AlertMonitor) (rule : Rule) (device : Text × ℚ) (away : List Text) :
    s.alerts.Moves (s.checkDevice py rule device away) := by
  unfold checkDevice
  dsimp only
  split_ifs with _ _ _ opened
  · exact .refl
  · exact .refl
  · exact .refl
  · exact .fire _ .refl (Bool.eq_false_iff.mpr opened)
  · exact .resolve _ false .refl
  · exact .refl

end AlertMonitor

/-- The timers that the periodic check has still to come to. -/
def Check.waiting : Check → List (Text × ℚ)
  | .timers left => left
  | _ => []

namespace AlertMonitor

variable {py : Python} {s s' : AlertMonitor}

theorem proceed_moves {away : List Text} (keyed : ∀ timer ∈ s.check.waiting, Keyed timer.1)
    (step : s.proceed py away = some s') :
    s.alerts.Moves s'.alerts ∧ ∀ timer ∈ s'.check.waiting, timer ∈ s.check.waiting := by
  unfold proceed at step
  split at step
  · cases step
  · rename_i timer left waits
    cases step
    rw [waits] at keyed ⊢
    exact ⟨checkTimer_moves (keyed timer List.mem_cons_self) away, fun _ member => List.mem_cons_of_mem timer member⟩
  · cases step
    exact ⟨.refl, by simp [Check.waiting]⟩
  · cases step
    exact ⟨.refl, by simp [Check.waiting]⟩
  · cases step
    exact ⟨.refl, by simp [Check.waiting]⟩
  · cases step
    exact ⟨checkDevice_moves py s _ _ away, by simp [Check.waiting]⟩
  · cases step
    exact ⟨.refl, by simp [Check.waiting]⟩

/-- A step only raises and ends alerts, and arms and drops timers; the periodic check comes to no
timers but those that it had found, or that are armed. -/
theorem next_moves {l : AlertLabel} (keyed : ∀ timer ∈ s.check.waiting, Keyed timer.1) (step : s.next py l = some s') :
    s.alerts.Moves s'.alerts ∧ ∀ timer ∈ s'.check.waiting, timer ∈ s.check.waiting ∨ timer ∈ s.alerts.timers := by
  have waiting : ∀ timer ∈ s.check.waiting, timer ∈ s.check.waiting ∨ timer ∈ s.alerts.timers := fun _ member => .inl member
  cases l with
  | start monitors now =>
    obtain ⟨_, rfl⟩ := (Option.ite_none_left_eq_some.mp step).imp_right Option.some.inj
    have reloaded : s.alerts.Moves ({ s with running := true }.reloadProjectRules py monitors now).alerts :=
      (Alerts.clearRemoved_moves _ _ _).trans (Alerts.raise_moves py _ _ _ _)
    exact ⟨reloaded.trans (Alerts.raise_moves py _ _ _ _), waiting⟩
  | stop =>
    cases step
    exact ⟨.refl, by simp [Check.waiting]⟩
  | set key value now away =>
    cases step
    rcases set_cases py s key value now away with same | ⟨alerts, lastStateTimes, heard, moves⟩
    · rw [same]
      exact ⟨.refl, waiting⟩
    · rw [heard]
      exact ⟨moves, waiting⟩
  | delete key now away =>
    cases step
    rcases delete_cases py s key now away with same | ⟨alerts, lastStateTimes, heard, moves⟩
    · rw [same]
      exact ⟨.refl, waiting⟩
    · rw [heard]
      exact ⟨moves, waiting⟩
  | push rules now =>
    obtain ⟨_, rfl⟩ := (Option.ite_none_right_eq_some.mp step).imp_right Option.some.inj
    exact ⟨(Alerts.clearRemoved_moves _ _ _).trans (Alerts.raise_moves py _ _ _ _), waiting⟩
  | reload monitors now =>
    obtain ⟨_, rfl⟩ := (Option.ite_none_right_eq_some.mp step).imp_right Option.some.inj
    exact ⟨(Alerts.clearRemoved_moves _ _ _).trans (Alerts.raise_moves py _ _ _ _), waiting⟩
  | tick now =>
    obtain ⟨_, rfl⟩ := (Option.ite_none_right_eq_some.mp step).imp_right Option.some.inj
    exact ⟨.refl, fun _ member => .inr member⟩
  | proceed away =>
    obtain ⟨moves, left⟩ := proceed_moves keyed step
    exact ⟨moves, fun timer member => .inl (left timer member)⟩
  | fail =>
    obtain ⟨_, rfl⟩ := (Option.ite_none_left_eq_some.mp step).imp_right Option.some.inj
    exact ⟨.refl, by simp [Check.waiting]⟩

end AlertMonitor

section

variable {py : Python} {ok : AlertMonitor → AlertLabel → Prop} {s : AlertMonitor}

theorem keyed_of_reach (reach : Run.Reach (alertMachine py) ok s) :
    (∀ timer ∈ s.alerts.timers, Keyed timer.1) ∧ ∀ timer ∈ s.check.waiting, Keyed timer.1 := by
  induction reach with
  | init start =>
    rw [start.2]
    constructor
    · intro timer member
      cases member
    · intro timer member
      cases member
  | step _ _ run ih =>
    obtain ⟨moves, waiting⟩ := AlertMonitor.next_moves ih.2 run
    refine ⟨moves.keyed ih.1, fun timer member => ?_⟩
    rcases waiting timer member with earlier | armed
    · exact ih.2 timer earlier
    · exact ih.1 timer armed

theorem balanced_of_reach (reach : Run.Reach (alertMachine py) ok s) : Balanced s.alerts := by
  induction reach with
  | init start =>
    rw [start.2]
    exact ⟨.nil, rfl, .refl _, by simp⟩
  | step before _ run ih => exact (AlertMonitor.next_moves (keyed_of_reach before).2 run).1.balanced ih

end

/-- A platform that leaves file names as they are, and a project without patterns or lists. -/
def plainPython : Python where
  decimal _ := none
  normcase t := t
  listText _ := []
  numberText _ := []
  search _ _ := false
  refused _ := false

/-- A lamp is to be changed after 500 hours. -/
def lampHours : Monitor where
  key := text "device.projector.lamp_hours"
  normalMax := .int 500

/-- A device that was not heard of for two minutes. -/
def silentDevice : Rule where
  id := text "silent"
  ruleType := .absence
  condition := {}

/-- The lamp is changed too late, and then nothing is heard of the projector. -/
def lampRun : List AlertLabel :=
  [.set (text "device.projector.lamp_hours") (.int 499) 1 [], .start [lampHours] 2,
    .set (text "device.projector.lamp_hours") (.int 501) 3 [], .set (text "device.projector.lamp_hours") (.int 0) 4 [],
    .set (text "device.projector.lamp_hours") (.int 502) 5 [], .push [silentDevice] 6, .tick 200, .proceed [],
    .proceed [], .proceed []]

theorem lampRun_raised : ((alertMachine plainPython).run Run.always { store := [] } lampRun).map
    (fun s => (raisedIds s.alerts.built, closedIds s.alerts.built)) = some ([0, 1, 2], [0]) := by
  decide +kernel

end OpenAvc.Cloud
