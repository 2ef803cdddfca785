import OpenAvc.Cloud.Alerting
import OpenAvc.Data.LastChange

/-! A monitored reading's tile and its alerts agree: while the monitor runs, an abnormal reading has
an alert open or on its way, and a normal one has none. -/

namespace OpenAvc.Cloud

/-! ### One rule and one key -/

namespace Alerts

variable {py : Python} {s t : Alerts} {rule : Rule} {key : Text} {value : Primitive} {now : ℚ}

/-- A rule that judges the key. -/
structure Judges (py : Python) (rule : Rule) (key : Text) : Prop where
  enabled : rule.enabled = true
  known : rule.ruleType = .threshold ∨ rule.ruleType = .pattern
  covers : Fnmatch.fnmatch py.normcase key rule.condition.key = true
  value : rule.condition.value.isNone = false

/-- The rule's alert for the key is as the value has it. -/
structure Agrees (py : Python) (rule : Rule) (key : Text) (value : Primitive) (s : Alerts) : Prop where
  told : rule.triggers py value = true → s.isOpen (alertKey rule.id key) = true ∨ s.isArmed (alertKey rule.id key) = true
  atOnce : rule.triggers py value = true → rule.duration = 0 → s.isOpen (alertKey rule.id key) = true
  calm : rule.triggers py value = false → s.isArmed (alertKey rule.id key) = false
  cleared : rule.triggers py value = false → rule.clears py value = true → s.isOpen (alertKey rule.id key) = false

theorem Agrees.of_open (hit : rule.triggers py value = true) (opened : s.isOpen (alertKey rule.id key) = true) :
    s.Agrees py rule key value where
  told _ := .inl opened
  atOnce _ _ := opened
  calm calm := absurd (hit.symm.trans calm) (by simp)
  cleared calm _ := absurd (hit.symm.trans calm) (by simp)

theorem Agrees.of_armed (hit : rule.triggers py value = true) (held : 0 < rule.duration)
    (armed : s.isArmed (alertKey rule.id key) = true) : s.Agrees py rule key value where
  told _ := .inr armed
  atOnce _ zero := absurd held (by simp [zero])
  calm calm := absurd (hit.symm.trans calm) (by simp)
  cleared calm _ := absurd (hit.symm.trans calm) (by simp)

theorem Agrees.of_calm (calm : rule.triggers py value = false) (disarmed : s.isArmed (alertKey rule.id key) = false)
    (cleared : rule.clears py value = true → s.isOpen (alertKey rule.id key) = false) : s.Agrees py rule key value where
  told hit := absurd (hit.symm.trans calm) (by simp)
  atOnce hit _ := absurd (hit.symm.trans calm) (by simp)
  calm _ := disarmed
  cleared _ := cleared

theorem Agrees.congr (agrees : s.Agrees py rule key value)
    (same : t.isOpen (alertKey rule.id key) = s.isOpen (alertKey rule.id key) ∧
      t.isArmed (alertKey rule.id key) = s.isArmed (alertKey rule.id key)) : t.Agrees py rule key value where
  told hit := by rw [same.1, same.2]; exact agrees.told hit
  atOnce hit zero := by rw [same.1]; exact agrees.atOnce hit zero
  calm calm := by rw [same.2]; exact agrees.calm calm
  cleared calm clears := by rw [same.1]; exact agrees.cleared calm clears

/-- Whatever the alerts were, a rule that judges a key leaves its own as the value has it. -/
theorem judge_agrees (judges : Judges py rule key) (s : Alerts) (value : Primitive) (now : ℚ) :
    (s.judge py rule key value now).Agrees py rule key value := by
  have disarmed : (s.disarm (alertKey rule.id key)).isArmed (alertKey rule.id key) = false := by simp
  have covered : ¬(!Fnmatch.fnmatch py.normcase key rule.condition.key) = true := by simp [judges.covers]
  have valued : ¬rule.condition.value.isNone = true := by simp [judges.value]
  unfold judge
  cases type : rule.ruleType with
  | threshold =>
    dsimp only [evaluateThreshold]
    rw [if_neg covered, if_neg valued]
    cases hit : rule.triggers py value with
    | true =>
      rw [if_pos rfl]
      split_ifs with opened held
      · exact .of_open hit opened
      · exact .of_armed hit held (by simp)
      · exact .of_open hit (by simp)
    | false =>
      rw [if_neg Bool.false_ne_true]
      split_ifs with resolved
      · exact .of_calm hit (by simp) fun _ => by simp
      · exact .of_calm hit disarmed fun clears => Bool.eq_false_iff.mpr fun opened => resolved ⟨opened, clears⟩
  | pattern =>
    dsimp only [evaluatePattern]
    rw [if_neg covered]
    cases hit : rule.triggers py value with
    | true =>
      rw [if_pos rfl]
      split_ifs with opened held
      · exact .of_open hit opened
      · exact .of_armed hit held (by simp)
      · exact .of_open hit (by simp)
    | false =>
      rw [if_neg Bool.false_ne_true]
      split_ifs with opened
      · exact .of_calm hit (by simp) fun _ => by simp
      · exact .of_calm hit disarmed fun _ => Bool.eq_false_iff.mpr opened
  | absence => exact absurd judges.known (by simp [type])
  | other => exact absurd judges.known (by simp [type])

theorem judge_elsewhere {a : Text} (other : a ≠ alertKey rule.id key) (s : Alerts) (value : Primitive) (now : ℚ) :
    (s.judge py rule key value now).isOpen a = s.isOpen a ∧ (s.judge py rule key value now).isArmed a = s.isArmed a := by
  unfold judge
  split
  · dsimp only [evaluateThreshold]
    split_ifs <;> simp [other]
  · dsimp only [evaluatePattern]
    split_ifs <;> simp [other]
  · exact ⟨rfl, rfl⟩

/-- Another rule, or the same one for another key, leaves the alert alone. -/
theorem Agrees.judge (agrees : s.Agrees py rule key value) (judges : Judges py rule key) {rule' : Rule} {key' : Text}
    {value' : Primitive} (own : alertKey rule'.id key' = alertKey rule.id key → rule' = rule ∧ key' = key ∧ value' = value)
    (now : ℚ) : (s.judge py rule' key' value' now).Agrees py rule key value := by
  by_cases same : alertKey rule'.id key' = alertKey rule.id key
  · obtain ⟨rfl, rfl, rfl⟩ := own same
    exact judge_agrees judges s value' now
  · exact agrees.congr (judge_elsewhere (Ne.symm same) s value' now)

theorem Agrees.disarm (agrees : s.Agrees py rule key value) {a : Text} (other : alertKey rule.id key ≠ a) :
    (s.disarm a).Agrees py rule key value :=
  agrees.congr ⟨rfl, by simp [other]⟩

theorem Agrees.sweep (agrees : s.Agrees py rule key value) (judges : Judges py rule key) {store : List (Text × Primitive)}
    {r : Rule} (own : ∀ entry ∈ store, alertKey r.id entry.1 = alertKey rule.id key → r = rule ∧ entry.1 = key ∧ entry.2 = value)
    (now : ℚ) : (store.foldl (fun s entry => s.judge py r entry.1 entry.2 now) s).Agrees py rule key value := by
  refine List.foldlRecOn (motive := Agrees py rule key value) _ _ agrees fun t before entry found => ?_
  exact before.judge judges (own entry found) now

/-- A sweep leaves the alert as the stored value has it. -/
theorem Agrees.raise (agrees : s.Agrees py rule key value) (judges : Judges py rule key) {store : List (Text × Primitive)}
    {rules : List Rule} (own : ∀ r ∈ rules, ∀ entry ∈ store, alertKey r.id entry.1 = alertKey rule.id key →
      r = rule ∧ entry.1 = key ∧ entry.2 = value) (now : ℚ) :
    (s.raiseWhatIsAlreadyWrong py store rules now).Agrees py rule key value := by
  unfold raiseWhatIsAlreadyWrong
  refine List.foldlRecOn (motive := Agrees py rule key value) _ _ agrees fun t before r member => ?_
  split_ifs
  · exact before
  · exact before.sweep judges (fun entry found => own r member entry (List.mem_of_mem_filter found)) now

/-- It judges anew each stored key that a rule covers. -/
theorem raise_agrees (judges : Judges py rule key) (named : rule.condition.key ≠ []) {store : List (Text × Primitive)}
    {rules : List Rule} (member : rule ∈ rules) (stored : (key, value) ∈ store)
    (own : ∀ r ∈ rules, ∀ entry ∈ store, alertKey r.id entry.1 = alertKey rule.id key →
      r = rule ∧ entry.1 = key ∧ entry.2 = value) (s : Alerts) (now : ℚ) :
    (s.raiseWhatIsAlreadyWrong py store rules now).Agrees py rule key value := by
  have found : (key, value) ∈ store.filter fun entry => Fnmatch.fnmatch py.normcase entry.1 rule.condition.key :=
    List.mem_filter.mpr ⟨stored, judges.covers⟩
  refine LastChange.foldl_of_mem (P := Agrees py rule key value) member (fun t => ?_) (fun t r here before => ?_) s
  · rw [if_neg (by simp [judges.enabled, named])]
    refine LastChange.foldl_of_mem (P := Agrees py rule key value) found (fun u => ?_) (fun u entry here before => ?_) t
    · exact judge_agrees judges u value now
    · exact before.judge judges (own rule member entry (List.mem_of_mem_filter here)) now
  · split_ifs
    · exact before
    · exact before.sweep judges (fun entry covered => own r here entry (List.mem_of_mem_filter covered)) now

theorem isArmed_drop (keep : Text → Bool) {a : Text} (kept : keep a = true) :
    isArmed { s with timers := s.timers.filter fun entry => keep entry.1 } a = s.isArmed a := by
  rw [isArmed, List.lookup_filter_keys keep a s.timers, if_pos kept, isArmed]

/-- The rules that go take none but their own alerts with them. -/
theorem Agrees.clearRemoved (agrees : s.Agrees py rule key value) {old rules : List Rule}
    (kept : ruleIdOf (alertKey rule.id key) ∉ old.map Rule.id) : (s.clearRemoved old rules).Agrees py rule key value := by
  have stays : ruleIdOf (alertKey rule.id key) ∉ (old.map Rule.id).filter fun id => id ∉ rules.map Rule.id :=
    fun gone => kept (List.mem_of_mem_filter gone)
  have resolved : (((s.active.map Prod.fst).filter fun a => ruleIdOf a ∈ (old.map Rule.id).filter fun id => id ∉ rules.map Rule.id).foldl
      (fun s a => s.resolve a true) s).Agrees py rule key value := by
    refine List.foldlRecOn (motive := Agrees py rule key value) _ _ agrees fun t before a member => ?_
    have gone := of_decide_eq_true (List.mem_filter.mp member).2
    have other : alertKey rule.id key ≠ a := fun same => stays (same ▸ gone)
    exact before.congr ⟨by simp [other], rfl⟩
  refine resolved.congr ⟨rfl, ?_⟩
  exact isArmed_drop (fun a => decide (ruleIdOf a ∉ _)) (decide_eq_true stays)

end Alerts

/-! ### The rules of a reading -/

/-- A reading whose key stands for itself, has no colon, is no presence property and is not kept
from the cloud. -/
structure Watched (py : Python) (key : Text) : Prop where
  named : key ≠ []
  plain : 58 ∉ key
  itself : Fnmatch.fnmatch py.normcase key key = true
  shared : isCloudExcludedKey key = false
  reading : isPresence key = false

theorem Monitor.mem_rules {py : Python} {m : Monitor} {r : Rule} (member : r ∈ m.rules py) :
    m.key ≠ [] ∧ ∃ ending ruleType operator value, m.rule ending ruleType operator value = r ∧ 58 ∉ ending ∧
      (ruleType = .threshold ∨ ruleType = .pattern) ∧ operator ≠ .isMatch ∧ value.isNone = false := by
  have named : m.key ≠ [] := by
    intro empty
    simp [Monitor.rules, empty] at member
  refine ⟨named, ?_⟩
  by_cases range : m.normalValues = []
  · rcases mem_rules_range named range member with ⟨low, _, same⟩ | ⟨high, _, same⟩
    · exact ⟨_, _, _, _, same, by decide, by simp, by simp, rfl⟩
    · exact ⟨_, _, _, _, same, by decide, by simp, by simp, rfl⟩
  · rw [rules_values named range, List.mem_singleton] at member
    exact ⟨_, _, _, _, member.symm, by simp, by simp, by simp, rfl⟩

/-- What the project is compiled to passes `_sanitize_rules`. -/
theorem sanitize_compiled (py : Python) (monitors : List Monitor) :
    sanitizeRules py (compileAlertRules py monitors) = compileAlertRules py monitors := by
  refine List.filter_eq_self.mpr fun r member => decide_eq_true ?_
  obtain ⟨m, _, member⟩ := List.mem_flatMap.mp member
  obtain ⟨_, ending, ruleType, operator, value, rfl, _, _, other, _⟩ := Monitor.mem_rules member
  refine ⟨?_, fun refused => other (Option.some.inj refused.1)⟩
  have front : (text "monitor.").length ≤ (m.rule ending ruleType operator value).id.length := by
    simp [Monitor.rule, ruleIdFor, List.length_append]
  intro empty
  rw [empty] at front
  exact absurd front (by decide)

namespace AlertMonitor

variable {py : Python} {s : AlertMonitor} {rule : Rule} {value : Primitive}

/-- A rule of the monitor that has its alert to itself. -/
structure Owns (py : Python) (s : AlertMonitor) (rule : Rule) : Prop where
  member : rule ∈ s.allRules
  judges : Alerts.Judges py rule rule.condition.key
  watched : Watched py rule.condition.key
  plain : 58 ∉ rule.id
  own : ∀ r ∈ s.allRules, ∀ key, alertKey r.id key = alertKey rule.id rule.condition.key →
    r = rule ∧ key = rule.condition.key

/-- The rule's alert is as the value has it. -/
def Alerted (py : Python) (s : AlertMonitor) (rule : Rule) (value : Primitive) : Prop :=
  s.alerts.Agrees py rule rule.condition.key value

theorem quiet_of_reading {key : Text} (reading : isPresence key = false) (away : List Text) :
    s.quietPresenceKey away key = false := by
  unfold quietPresenceKey
  split <;> simp [reading]

theorem Owns.evaluate (owns : Owns py s rule) {key : Text} (value : Primitive) (now : ℚ) (away : List Text)
    (here : key = rule.condition.key) : Alerted py (s.evaluate py key value now away) rule value := by
  subst here
  have awake := quiet_of_reading (s := s) owns.watched.reading away
  unfold AlertMonitor.evaluate Alerted
  dsimp only
  refine LastChange.foldl_of_mem (P := Alerts.Agrees py rule rule.condition.key value) owns.member (fun t => ?_)
    (fun t r member before => ?_) s.alerts
  · rw [if_neg (by simp [owns.judges.enabled]), if_neg (by simp [awake])]
    exact Alerts.judge_agrees owns.judges t value now
  · split_ifs with _ quiet
    · exact before
    · rw [awake] at quiet
      cases quiet
    · exact before.judge owns.judges (fun same => ⟨(owns.own r member _ same).1, rfl, rfl⟩) now

theorem Alerted.evaluate (alerted : Alerted py s rule value) (owns : Owns py s rule) {key : Text}
    (other : key ≠ rule.condition.key) (value' : Primitive) (now : ℚ) (away : List Text) :
    Alerted py (s.evaluate py key value' now away) rule value := by
  have apart : ∀ r ∈ s.allRules, alertKey r.id key ≠ alertKey rule.id rule.condition.key :=
    fun r member same => other (owns.own r member key same).2
  unfold AlertMonitor.evaluate Alerted
  dsimp only
  refine List.foldlRecOn (motive := Alerts.Agrees py rule rule.condition.key value) _ _ alerted fun t before r member => ?_
  split_ifs
  · exact before
  · exact before.disarm (Ne.symm (apart r member))
  · exact before.judge owns.judges (fun same => absurd same (apart r member)) now

theorem Alerted.onQuietChange (alerted : Alerted py s rule value) (owns : Owns py s rule) (key : Text)
    (value' : Primitive) (now : ℚ) (away : List Text) : Alerted py (s.onQuietChange py key value' now away) rule value := by
  have presence (deviceId : Text) : Alerted py (s.evaluatePresence py deviceId now away) rule value := by
    unfold AlertMonitor.evaluatePresence
    have both := List.foldlRecOn (motive := fun t => Alerted py t rule value ∧ Owns py t rule)
      ((s.store.filter fun entry => Fnmatch.fnmatch py.normcase entry.1 (text "device." ++ deviceId ++ text ".*")).filter
        fun entry => isPresence entry.1) (fun t entry => t.evaluate py entry.1 entry.2 now away) ⟨alerted, owns⟩
      fun t before entry member => by
        have present := (List.mem_filter.mp member).2
        have other : entry.1 ≠ rule.condition.key := by
          intro same
          rw [same, owns.watched.reading] at present
          cases present
        exact ⟨before.1.evaluate before.2 other entry.2 now away,
          ⟨before.2.member, before.2.judges, before.2.watched, before.2.plain, before.2.own⟩⟩
    exact both.1
  unfold AlertMonitor.onQuietChange
  split
  · split_ifs
    · exact presence _
    · exact alerted
  · exact alerted

theorem Owns.of_eq {t : AlertMonitor} (owns : Owns py s rule) (same : t.allRules = s.allRules) : Owns py t rule :=
  ⟨same ▸ owns.member, owns.judges, owns.watched, owns.plain, fun r member => owns.own r (same ▸ member)⟩

/-- The key's own change has its rule judged by the new value. -/
theorem Owns.onStateChange (owns : Owns py s rule) (value : Primitive) (now : ℚ) (away : List Text) :
    Alerted py (s.onStateChange py rule.condition.key value now away) rule value := by
  obtain ⟨lastStateTimes, heard⟩ := hear_eq s rule.condition.key now
  obtain ⟨alerts, presence, _⟩ := onQuietChange_eq py { s with lastStateTimes } rule.condition.key value now away
  rw [AlertMonitor.onStateChange, if_neg (by simp [owns.watched.shared]), heard, presence]
  exact (owns.of_eq (t := { s with lastStateTimes, alerts }) rfl).evaluate value now away rfl

theorem Alerted.onStateChange (alerted : Alerted py s rule value) (owns : Owns py s rule) {key : Text}
    (other : key ≠ rule.condition.key) (value' : Primitive) (now : ℚ) (away : List Text) :
    Alerted py (s.onStateChange py key value' now away) rule value := by
  unfold AlertMonitor.onStateChange
  split_ifs
  · exact alerted
  · obtain ⟨lastStateTimes, heard⟩ := hear_eq s key now
    obtain ⟨alerts, presence, _⟩ := onQuietChange_eq py { s with lastStateTimes } key value' now away
    have here : Alerted py { s with lastStateTimes } rule value := alerted
    have still := here.onQuietChange (owns.of_eq rfl) key value' now away
    rw [heard]
    rw [presence] at still ⊢
    exact still.evaluate (owns.of_eq rfl) other value' now away

theorem Alerted.checkTimer (alerted : Alerted py s rule value) (owns : Owns py s rule) {timer : Text × ℚ}
    (keyed : Keyed timer.1) (armed : s.alerts.isArmed timer.1 = true) (away : List Text) :
    (s.checkTimer timer away).Agrees py rule rule.condition.key value := by
  have named : timer.1 = alertKey rule.id rule.condition.key →
      ruleIdOf timer.1 = rule.id ∧ stateKeyOf timer.1 = rule.condition.key := by
    intro same
    rw [← alertKey_of_keyed keyed] at same
    exact alertKey_inj owns.plain owns.watched.plain same
  unfold AlertMonitor.checkTimer
  by_cases opened : s.alerts.isOpen timer.1 = true
  · rw [if_pos opened]
    exact alerted
  · rw [if_neg opened]
    cases found : s.findRuleFromKey timer.1 with
    | none =>
      refine alerted.disarm fun same => ?_
      have missing := List.find?_eq_none.mp found rule owns.member
      exact missing (decide_eq_true (named same.symm).1.symm)
    | some rule' =>
      have id : rule'.id = ruleIdOf timer.1 := by simpa using List.find?_some found
      have same : alertKey rule'.id (stateKeyOf timer.1) = timer.1 := by rw [id, alertKey_of_keyed keyed]
      dsimp only
      split_ifs with waiting quiet
      · exact alerted
      · refine alerted.disarm fun mine => ?_
        rw [(named mine.symm).2, quiet_of_reading owns.watched.reading] at quiet
        cases quiet
      · by_cases mine : timer.1 = alertKey rule.id rule.condition.key
        · have hit : rule.triggers py value = true := by
            refine (Bool.eq_false_or_eq_true _).resolve_right fun calm => ?_
            rw [mine, alerted.calm calm] at armed
            cases armed
          exact .of_open hit (by rw [Alerts.isOpen_fire, same, mine]; simp)
        · refine alerted.congr ⟨?_, rfl⟩
          rw [Alerts.isOpen_fire, same, decide_eq_false (Ne.symm mine), Bool.false_or]

/-- An absence rule's alert for a device is another one, whichever rules there are by now. -/
theorem Alerted.checkDevice (alerted : Alerted py s rule value) {r : Rule} {device : Text × ℚ}
    (other : alertKey rule.id rule.condition.key ≠ alertKey r.id device.1) (away : List Text) :
    (s.checkDevice py r device away).Agrees py rule rule.condition.key value := by
  unfold AlertMonitor.checkDevice
  dsimp only
  split_ifs
  · exact alerted
  · exact alerted
  · exact alerted
  · exact Alerts.Agrees.congr alerted ⟨by simp [other], rfl⟩
  · exact Alerts.Agrees.congr alerted ⟨by simp [other], rfl⟩
  · exact alerted

end AlertMonitor

/-! ### Runs -/

/-- The absence rules that the periodic check has still to come to, or is at. -/
def Check.absences : Check → List Rule
  | .rules left => left
  | .devices rule _ rest => rule :: rest
  | _ => []

namespace AlertMonitor

variable {py : Python} {s : AlertMonitor} {rule : Rule} {value : Primitive}

/-- What the monitor is given stays apart: no two rules of a project have one id, no rule of the
cloud has an id as a project's rules do, and the periodic check finds a timer still armed when it
comes to it. -/
def steady (py : Python) (s : AlertMonitor) : AlertLabel → Prop
  | .start monitors _ => ((compileAlertRules py monitors).map Rule.id).Nodup
  | .reload monitors _ => ((compileAlertRules py monitors).map Rule.id).Nodup
  | .push rules _ => ∀ r ∈ rules, ¬text "monitor." <+: r.id
  | .proceed _ => ∀ timer ∈ s.check.waiting.head?.toList, s.alerts.isArmed timer.1 = true
  | _ => True

instance (py : Python) (s : AlertMonitor) (l : AlertLabel) : Decidable (steady py s l) :=
  match l with
  | .start monitors _ => inferInstanceAs (Decidable ((compileAlertRules py monitors).map Rule.id).Nodup)
  | .reload monitors _ => inferInstanceAs (Decidable ((compileAlertRules py monitors).map Rule.id).Nodup)
  | .push rules _ => inferInstanceAs (Decidable (∀ r ∈ rules, ¬text "monitor." <+: r.id))
  | .proceed _ => inferInstanceAs (Decidable (∀ timer ∈ s.check.waiting.head?.toList, s.alerts.isArmed timer.1 = true))
  | .stop => inferInstanceAs (Decidable True)
  | .set _ _ _ _ => inferInstanceAs (Decidable True)
  | .delete _ _ _ => inferInstanceAs (Decidable True)
  | .tick _ => inferInstanceAs (Decidable True)
  | .fail => inferInstanceAs (Decidable True)

/-- Every rule of a watched reading has its alert as the stored value has it, while the monitor runs. -/
structure Watching (py : Python) (s : AlertMonitor) : Prop where
  keys : (s.store.map Prod.fst).Nodup
  compiled : s.projectRules = compileAlertRules py s.monitors
  distinct : (s.projectRules.map Rule.id).Nodup
  cloud : ∀ r ∈ s.rules, ¬text "monitor." <+: r.id
  absences : ∀ r ∈ s.check.absences, ¬text "monitor." <+: r.id
  alerted : s.running = true → ∀ rule ∈ s.projectRules, Watched py rule.condition.key →
    ∀ value, s.store.lookup rule.condition.key = some value → Alerted py s rule value

/-- A rule that a project was compiled to. -/
theorem compiled_spec {monitors : List Monitor} (member : rule ∈ compileAlertRules py monitors) :
    text "monitor." <+: rule.id ∧ (58 ∉ rule.condition.key → 58 ∉ rule.id) ∧
      (Fnmatch.fnmatch py.normcase rule.condition.key rule.condition.key = true →
        Alerts.Judges py rule rule.condition.key) := by
  obtain ⟨m, _, member⟩ := List.mem_flatMap.mp member
  obtain ⟨_, ending, ruleType, operator, value, rfl, plain, known, _, present⟩ := Monitor.mem_rules member
  refine ⟨⟨m.key ++ ending, by simp [Monitor.rule, ruleIdFor]⟩, fun plainKey => ?_, fun itself => ⟨rfl, known, itself, present⟩⟩
  have front : 58 ∉ text "monitor." := by decide
  have whole : (m.rule ending ruleType operator value).id = text "monitor." ++ m.key ++ ending := rfl
  rw [whole, List.mem_append, List.mem_append]
  rintro ((here | here) | here)
  · exact front here
  · exact plainKey here
  · exact plain here

theorem owns_of {rules : List Rule} {monitors : List Monitor} (cloud : ∀ r ∈ rules, ¬text "monitor." <+: r.id)
    (distinct : ((compileAlertRules py monitors).map Rule.id).Nodup) (member : rule ∈ compileAlertRules py monitors)
    (watched : Watched py rule.condition.key) {r : Rule} (here : r ∈ rules ++ compileAlertRules py monitors) {key : Text}
    (same : alertKey r.id key = alertKey rule.id rule.condition.key) : r = rule ∧ key = rule.condition.key := by
  obtain ⟨front, plain, _⟩ := compiled_spec member
  obtain ⟨id, sameKey⟩ := alertKey_inj (plain watched.plain) watched.plain same
  refine ⟨?_, sameKey⟩
  rcases List.mem_append.mp here with other | other
  · exact absurd (id ▸ front) (cloud r other)
  · exact List.inj_on_of_nodup_map distinct other member id

theorem Watching.owns (watching : Watching py s) (member : rule ∈ s.projectRules) (watched : Watched py rule.condition.key) :
    Owns py s rule := by
  have compiled := watching.compiled
  have distinct := watching.distinct
  rw [compiled] at distinct member
  obtain ⟨_, plain, judges⟩ := compiled_spec member
  refine ⟨List.mem_append_right _ (compiled ▸ member), judges watched.itself, watched, plain watched.plain, fun r here key same => ?_⟩
  rw [allRules, compiled] at here
  exact owns_of watching.cloud distinct member watched here same

theorem Watching.set (watching : Watching py s) (key : Text) (value : Primitive) (now : ℚ) (away : List Text) :
    Watching py (s.set py key value now away) := by
  unfold AlertMonitor.set
  split_ifs with held
  · exact watching
  · have keys := Dict.nodup_set watching.keys key value
    by_cases running : s.running = true
    · refine (congrArg (Watching py) (if_pos running)).mpr ?_
      obtain ⟨alerts, lastStateTimes, heard, _⟩ :=
        onStateChange_eq py { s with store := Dict.set s.store key value } key value now away
      rw [heard]
      refine ⟨keys, watching.compiled, watching.distinct, watching.cloud, watching.absences, fun _ rule member watched v found => ?_⟩
      have owns : Owns py { s with store := Dict.set s.store key value } rule := (watching.owns member watched).of_eq rfl
      change Alerted py { s with store := Dict.set s.store key value, alerts, lastStateTimes } rule v
      rw [← heard]
      by_cases here : key = rule.condition.key
      · subst here
        obtain rfl : value = v := by simpa using found
        exact owns.onStateChange value now away
      · rw [Dict.lookup_set, if_neg (Ne.symm here)] at found
        have before : Alerted py { s with store := Dict.set s.store key value } rule v :=
          watching.alerted running rule member watched v found
        exact before.onStateChange owns here value now away
    · refine (congrArg (Watching py) (if_neg running)).mpr ?_
      exact ⟨keys, watching.compiled, watching.distinct, watching.cloud, watching.absences, fun on => absurd on running⟩

theorem Watching.delete (watching : Watching py s) (key : Text) (now : ℚ) (away : List Text) :
    Watching py (s.delete py key now away) := by
  unfold AlertMonitor.delete
  split_ifs with absent
  · exact watching
  · have keys : ((s.store.filter fun entry => entry.1 ≠ key).map Prod.fst).Nodup :=
      watching.keys.sublist (List.filter_sublist.map _)
    by_cases running : s.running = true
    · refine (congrArg (Watching py) (if_pos running)).mpr ?_
      obtain ⟨alerts, lastStateTimes, heard, _⟩ :=
        onStateChange_eq py { s with store := s.store.filter fun entry => entry.1 ≠ key } key .none now away
      rw [heard]
      refine ⟨keys, watching.compiled, watching.distinct, watching.cloud, watching.absences, fun _ rule member watched v found => ?_⟩
      have owns : Owns py { s with store := s.store.filter fun entry => entry.1 ≠ key } rule :=
        (watching.owns member watched).of_eq rfl
      change Alerted py { s with store := s.store.filter fun entry => entry.1 ≠ key, alerts, lastStateTimes } rule v
      rw [← heard]
      have left := List.lookup_filter_keys (fun k => decide (k ≠ key)) rule.condition.key s.store
      have kept : s.store.lookup rule.condition.key = some v ∧ key ≠ rule.condition.key := by
        by_cases here : rule.condition.key = key
        · rw [if_neg (by simp [here])] at left
          rw [left] at found
          cases found
        · rw [if_pos (decide_eq_true here)] at left
          exact ⟨left ▸ found, Ne.symm here⟩
      have before : Alerted py { s with store := s.store.filter fun entry => entry.1 ≠ key } rule v :=
        watching.alerted running rule member watched v kept.1
      exact before.onStateChange owns kept.2 .none now away
    · refine (congrArg (Watching py) (if_neg running)).mpr ?_
      exact ⟨keys, watching.compiled, watching.distinct, watching.cloud, watching.absences, fun on => absurd on running⟩

/-- The rules that were compiled just now are swept over the store, whatever the alerts were. -/
theorem watching_reload (keys : (s.store.map Prod.fst).Nodup) (cloud : ∀ r ∈ s.rules, ¬text "monitor." <+: r.id)
    (absences : ∀ r ∈ s.check.absences, ¬text "monitor." <+: r.id)
    {monitors : List Monitor} (distinct : ((compileAlertRules py monitors).map Rule.id).Nodup) (now : ℚ) :
    Watching py (s.reloadProjectRules py monitors now) := by
  unfold AlertMonitor.reloadProjectRules
  dsimp only
  rw [sanitize_compiled]
  refine ⟨keys, rfl, distinct, cloud, absences, fun _ rule member watched v found => ?_⟩
  have judges := (compiled_spec member).2.2 watched.itself
  refine Alerts.raise_agrees judges watched.named member (List.mem_of_lookup_eq_some found) (fun r here entry stored same => ?_) _ now
  obtain ⟨rfl, key⟩ := owns_of cloud distinct member watched (List.mem_append_right _ here) same
  have value := List.lookup_of_mem keys stored
  rw [key, found] at value
  exact ⟨rfl, key, (Option.some.inj value).symm⟩

/-- A sweep of the cloud's rules leaves the project's alerts alone. -/
theorem Watching.sweep (watching : Watching py s) {rules : List Rule} (cloud : ∀ r ∈ rules, ¬text "monitor." <+: r.id)
    (now : ℚ) : Watching py { s with rules, alerts := s.alerts.raiseWhatIsAlreadyWrong py s.store rules now } := by
  refine ⟨watching.keys, watching.compiled, watching.distinct, cloud, watching.absences, fun running rule member watched v found => ?_⟩
  have front := (compiled_spec (watching.compiled ▸ member)).1
  have owns := watching.owns member watched
  refine Alerts.Agrees.raise (watching.alerted running rule member watched v found) owns.judges (fun r here entry _ same => ?_) now
  have id := (alertKey_inj owns.plain watched.plain same).1
  exact absurd (id ▸ front) (cloud r here)

theorem Watching.push (watching : Watching py s) {raw : List Rule} (cloud : ∀ r ∈ raw, ¬text "monitor." <+: r.id) (now : ℚ) :
    Watching py (s.pushRules py raw now) := by
  have cleared : Watching py { s with alerts := s.alerts.clearRemoved s.rules (sanitizeRules py raw) } := by
    refine ⟨watching.keys, watching.compiled, watching.distinct, watching.cloud, watching.absences, fun running rule member watched v found => ?_⟩
    have owns := watching.owns member watched
    have front := (compiled_spec (watching.compiled ▸ member)).1
    refine Alerts.Agrees.clearRemoved (watching.alerted running rule member watched v found) fun gone => ?_
    obtain ⟨r, here, id⟩ := List.mem_map.mp gone
    rw [ruleIdOf_alertKey owns.plain] at id
    exact watching.cloud r here (id ▸ front)
  exact cleared.sweep (fun r here => cloud r (List.mem_of_mem_filter here)) now

theorem Watching.absenceRules (watching : Watching py s) : ∀ r ∈ s.absenceRules, ¬text "monitor." <+: r.id := by
  intro r member
  obtain ⟨here, kind⟩ := List.mem_filter.mp member
  rcases List.mem_append.mp here with cloud | project
  · exact watching.cloud r cloud
  · rw [watching.compiled] at project
    obtain ⟨m, _, rule⟩ := List.mem_flatMap.mp project
    obtain ⟨_, _, _, _, _, rfl, _, known, _⟩ := Monitor.mem_rules rule
    rcases known with rfl | rfl <;> simp [Monitor.rule] at kind

theorem Watching.proceed {s' : AlertMonitor} {away : List Text} (watching : Watching py s)
    (keyed : ∀ timer ∈ s.check.waiting, Keyed timer.1)
    (armed : ∀ timer ∈ s.check.waiting.head?.toList, s.alerts.isArmed timer.1 = true)
    (step : s.proceed py away = some s') : Watching py s' := by
  have absences := watching.absences
  unfold AlertMonitor.proceed at step
  split at step
  · cases step
  · rename_i timer left place
    cases step
    rw [place] at keyed armed
    refine ⟨watching.keys, watching.compiled, watching.distinct, watching.cloud, by simp [Check.absences], ?_⟩
    intro running rule member watched v found
    have before := watching.alerted running rule member watched v found
    exact before.checkTimer (watching.owns member watched) (keyed timer List.mem_cons_self) (armed timer (by simp [Check.waiting])) away
  · cases step
    exact ⟨watching.keys, watching.compiled, watching.distinct, watching.cloud, watching.absenceRules, watching.alerted⟩
  · rename_i rule rest place
    cases step
    rw [place] at absences
    exact ⟨watching.keys, watching.compiled, watching.distinct, watching.cloud, absences, watching.alerted⟩
  · cases step
    exact ⟨watching.keys, watching.compiled, watching.distinct, watching.cloud, by simp [Check.absences], watching.alerted⟩
  · rename_i r device left rest place
    cases step
    rw [place] at absences
    refine ⟨watching.keys, watching.compiled, watching.distinct, watching.cloud, absences, ?_⟩
    intro running rule member watched v found
    have before := watching.alerted running rule member watched v found
    have owns := watching.owns member watched
    have front := (compiled_spec (watching.compiled ▸ member)).1
    refine before.checkDevice (fun same => ?_) away
    have id := (alertKey_inj owns.plain watched.plain same.symm).1
    exact absences r List.mem_cons_self (id ▸ front)
  · rename_i r rest place
    cases step
    rw [place] at absences
    refine ⟨watching.keys, watching.compiled, watching.distinct, watching.cloud, ?_, watching.alerted⟩
    exact fun other member => absences other (List.mem_cons_of_mem r member)

theorem Watching.next {s' : AlertMonitor} (watching : Watching py s) (keyed : ∀ timer ∈ s.check.waiting, Keyed timer.1)
    {l : AlertLabel} (fits : steady py s l) (step : s.next py l = some s') : Watching py s' := by
  cases l with
  | start monitors now =>
    obtain ⟨off, rfl⟩ := (Option.ite_none_left_eq_some.mp step).imp_right Option.some.inj
    have reloaded : Watching py ({ s with running := true }.reloadProjectRules py monitors now) :=
      watching_reload (s := { s with running := true }) watching.keys watching.cloud watching.absences fits now
    exact reloaded.sweep watching.cloud now
  | stop =>
    cases step
    exact ⟨watching.keys, watching.compiled, watching.distinct, watching.cloud, by simp [Check.absences], by simp⟩
  | set key value now away =>
    cases step
    exact watching.set key value now away
  | delete key now away =>
    cases step
    exact watching.delete key now away
  | push rules now =>
    obtain ⟨_, rfl⟩ := (Option.ite_none_right_eq_some.mp step).imp_right Option.some.inj
    exact watching.push fits now
  | reload monitors now =>
    obtain ⟨_, rfl⟩ := (Option.ite_none_right_eq_some.mp step).imp_right Option.some.inj
    exact watching_reload watching.keys watching.cloud watching.absences fits now
  | tick now =>
    obtain ⟨_, rfl⟩ := (Option.ite_none_right_eq_some.mp step).imp_right Option.some.inj
    exact ⟨watching.keys, watching.compiled, watching.distinct, watching.cloud, by simp [Check.absences], watching.alerted⟩
  | proceed away => exact watching.proceed keyed fits step
  | fail =>
    obtain ⟨_, rfl⟩ := (Option.ite_none_left_eq_some.mp step).imp_right Option.some.inj
    exact ⟨watching.keys, watching.compiled, watching.distinct, watching.cloud, by simp [Check.absences], watching.alerted⟩

theorem watching_of_reach (reach : Run.Reach (alertMachine py) (steady py) s) : Watching py s := by
  induction reach with
  | init start =>
    rw [start.2]
    exact ⟨start.1, rfl, .nil, by simp, by simp [Check.absences], by simp⟩
  | step before fits run ih => exact ih.next (keyed_of_reach before).2 fits run

end AlertMonitor

theorem Monitor.status_none (py : Python) (m : Monitor) : m.status py .none ≠ .abnormal ∧ m.status py .none ≠ .normal := by
  unfold Monitor.status
  cases m.hasLimits py <;> simp

section

variable {py : Python} {s : AlertMonitor} {m : Monitor} {value : Primitive}

/-- A rule of a watched reading has its alert as the reading has it. -/
theorem agrees_of_reach (reach : Run.Reach (alertMachine py) (AlertMonitor.steady py) s) (running : s.running = true)
    (member : m ∈ s.monitors) (watched : Watched py m.key) (reads : (s.store.lookup m.key).getD .none = value)
    (there : value ≠ .none) {r : Rule} (rule : r ∈ m.rules py) : s.alerts.Agrees py r m.key value := by
  have watching := AlertMonitor.watching_of_reach reach
  obtain ⟨_, _, _, _, _, rfl, _⟩ := Monitor.mem_rules rule
  have found : s.store.lookup m.key = some value := by
    cases stored : s.store.lookup m.key with
    | none => exact absurd (by simpa [stored] using reads.symm) there
    | some v => simpa [stored] using reads
  refine watching.alerted running _ ?_ watched value found
  rw [watching.compiled]
  exact List.mem_flatMap.mpr ⟨m, member, rule⟩

end

theorem lampRun_run : ((alertMachine plainPython).run (AlertMonitor.steady plainPython) { store := [] } lampRun).map
    (fun s => (s.running, s.monitors, s.store.lookup lampHours.key)) = some (true, [lampHours], some (.int 502)) := by
  decide +kernel

end OpenAvc.Cloud
