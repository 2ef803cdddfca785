import OpenAvc.Discovery.TierMatcher

/-! What the matcher says of a device does not depend on the order of its records. -/

namespace OpenAvc.Discovery

open StableSort

variable {py : Python}

/-! ### A soft signal is known by its label -/

theorem takeWhile_label (kind : Kind) (sourceId : Text) : (label kind sourceId).takeWhile (· ≠ 58) = kind.name := by
  cases kind <;> rfl

theorem name_injective {kind kind' : Kind} (same : kind.name = kind'.name) : kind = kind' := by
  revert same
  cases kind <;> cases kind' <;> decide

theorem label_injective {kind kind' : Kind} {sourceId sourceId' : Text} (same : label kind sourceId = label kind' sourceId') :
    kind = kind' ∧ sourceId = sourceId' := by
  have names := congrArg (List.takeWhile (· ≠ 58)) same
  rw [takeWhile_label, takeWhile_label] at names
  obtain rfl := name_injective names
  exact ⟨rfl, List.append_cancel_left same⟩

theorem label_ne_nil (kind : Kind) (sourceId : Text) : label kind sourceId ≠ [] := by
  cases kind <;> exact List.cons_ne_nil _ _

/-- The drivers that a soft signal points at, by its kind and what the label says of it. -/
def softDrivers (py : Python) (index : SignalIndex) (kind : Kind) (sourceId : Text) : List Text :=
  match kind with
  | .hostname => index.findSoftHostname py sourceId
  | .vendorString => index.findSoftVendorString py sourceId
  | kind => index.driversOf kind sourceId

theorem findSoftOuiBlock_drivers {index : SignalIndex} {mac : Text} (some_ : (index.findSoftOuiBlock py mac).2 ≠ []) :
    (index.findSoftOuiBlock py mac).2 = index.driversOf .oui (index.findSoftOuiBlock py mac).1 := by
  revert some_
  simp only [SignalIndex.findSoftOuiBlock]
  split
  · exact fun _ => rfl
  · exact fun none => absurd rfl none

theorem softSignalHits_drivers {index : SignalIndex} {ev : Evidence} {hit : Text × List Text}
    (found : softSignalHits py ev index = some hit) (some_ : hit.2 ≠ []) :
    ∃ kind sourceId, hit.1 = label kind sourceId ∧ hit.2 = softDrivers py index kind sourceId := by
  unfold softSignalHits at found
  dsimp only at found
  split at found
  · split at found
    · split at found
      · cases found
        exact ⟨.oui, _, rfl, findSoftOuiBlock_drivers some_⟩
      · cases found
    · split at found
      · split at found
        · cases found
          exact ⟨.snmpPen, _, rfl, rfl⟩
        · cases found
          exact ⟨.snmpPen, _, rfl, rfl⟩
        · cases found
      · split at found
        · split at found
          · cases found
            exact ⟨.hostname, _, rfl, rfl⟩
          · cases found
        · split at found
          · split at found
            · cases found
              exact ⟨.openPort, _, rfl, rfl⟩
            · cases found
              exact ⟨.openPort, _, rfl, rfl⟩
            · cases found
          · split at found
            · split at found
              · cases found
                exact ⟨.vendorString, _, rfl, rfl⟩
              · cases found
            · cases found
  · cases found

namespace TierMatcher

variable {m : TierMatcher} {log log' : List Evidence}

theorem softResult_of_mem {r : Text × List Text} (member : r ∈ m.collectSoftSignalResults py log) :
    ∃ kind sourceId, r.1 = label kind sourceId ∧ r.2 = softDrivers py m.index kind sourceId := by
  obtain ⟨ev, _, found⟩ := List.mem_filterMap.mp member
  obtain ⟨found, some_⟩ := Option.filter_eq_some_iff.mp found
  exact softSignalHits_drivers found (of_decide_eq_true some_)

theorem softResult_ext {r r' : Text × List Text} (member : r ∈ m.collectSoftSignalResults py log)
    (member' : r' ∈ m.collectSoftSignalResults py log) (same : r.1 = r'.1) : r = r' := by
  obtain ⟨kind, sourceId, here, drivers⟩ := softResult_of_mem member
  obtain ⟨kind', sourceId', here', drivers'⟩ := softResult_of_mem member'
  rw [here, here'] at same
  obtain ⟨rfl, rfl⟩ := label_injective same
  exact Prod.ext (here.trans here'.symm) (drivers.trans drivers'.symm)

/-! ### Another order of the log -/

section Reordered

variable (same : log'.Perm log)
include same

theorem narrowestFirst_reordered : narrowestFirst (m.collectSoftSignalResults py log') =
    narrowestFirst (m.collectSoftSignalResults py log) := by
  refine sortedBy_congr _ ((same.filter _).filterMap _) fun r member r' member' ranks => ?_
  exact softResult_ext member member' (Prod.mk.inj (toLex.injective ranks)).2

theorem pickDemotionTarget_reordered (anchors : List Text) :
    m.pickDemotionTarget py log' anchors = m.pickDemotionTarget py log anchors := by
  rw [pickDemotionTarget, narrowestFirst_reordered same, pickDemotionTarget]

theorem gatherSoftCandidates_reordered : m.gatherSoftCandidates py log' = m.gatherSoftCandidates py log := by
  rw [gatherSoftCandidates, narrowestFirst_reordered same, gatherSoftCandidates]

theorem fit_reordered (driverId : Text) : m.fit py log' driverId = m.fit py log driverId := by
  have models (p : Text → Bool) : (reportedModels py log').any p = (reportedModels py log).any p := by
    rw [Bool.eq_iff_iff, List.any_eq_true, List.any_eq_true]
    simp only [reportedModels, (same.filterMap _).mem_iff]
  have categories (category : Text) : category ∈ reportedCategories py log' ↔ category ∈ reportedCategories py log :=
    (same.filterMap _).mem_iff
  simp only [fit, models, categories]

theorem rank_reordered : m.rank py log' = m.rank py log := by
  funext hit
  simp only [rank, fit_reordered same]

theorem satisfied_reordered : (m.satisfied py log').Perm (m.satisfied py log) :=
  same.flatMap_right _

theorem sorted_reordered : (sortedBy (m.rank py log') (m.satisfied py log')).map (m.rank py log) =
    (sortedBy (m.rank py log) (m.satisfied py log)).map (m.rank py log) := by
  rw [rank_reordered same]
  exact keys_sortedBy _ (satisfied_reordered same)

end Reordered

/-- The driver that a rank tells. -/
def driverOf (rank : Bool ×ₗ ℕ ×ₗ ℕ ×ₗ ℤ ×ₗ Text ×ₗ Text) : Text :=
  (ofLex (ofLex (ofLex (ofLex (ofLex rank).2).2).2).2).1

theorem driverOf_rank (hit : Hit) : driverOf (m.rank py log hit) = hit.rule.driverId := rfl

theorem generic_of_rank {hit hit' : Hit} (same : m.rank py log hit = m.rank py log hit') : hit.rule.generic = hit'.rule.generic :=
  (Prod.mk.inj (toLex.injective same)).1

theorem drivers_reordered (same : log'.Perm log) : (m.strongHits py log').map (·.rule.driverId) =
    (m.strongHits py log).map (·.rule.driverId) := by
  have sorted := congrArg (List.map driverOf) (@sorted_reordered py m log log' same)
  rw [List.map_map, List.map_map] at sorted
  rw [strongHits, strongHits, kinds_onceEach, kinds_onceEach]
  exact congrArg (onceEach id []) sorted

/-! ### The best match -/

/-- No satisfied rule ranks before it. -/
def Best (py : Python) (m : TierMatcher) (log : List Evidence) (hit : Hit) : Prop :=
  hit ∈ m.satisfied py log ∧ ∀ other ∈ m.satisfied py log, m.rank py log hit ≤ m.rank py log other

theorem strongHits_eq_nil : m.strongHits py log = [] ↔ m.satisfied py log = [] := by
  have none : sortedBy (m.rank py log) (m.satisfied py log) = [] ↔ m.satisfied py log = [] := sortedBy_eq_nil _
  rw [← none, strongHits]
  cases sortedBy (m.rank py log) (m.satisfied py log) with
  | nil => exact ⟨fun _ => rfl, fun _ => rfl⟩
  | cons hit rest =>
    rw [onceEach, if_neg List.not_mem_nil]
    exact iff_of_false (List.cons_ne_nil _ _) (List.cons_ne_nil _ _)

theorem best_of_strongHits {best : Hit} {others : List Hit} (hits : m.strongHits py log = best :: others) :
    Best py m log best := by
  rw [strongHits] at hits
  cases shape : sortedBy (m.rank py log) (m.satisfied py log) with
  | nil =>
    rw [shape] at hits
    cases hits
  | cons hit rest =>
    rw [shape, onceEach, if_neg List.not_mem_nil] at hits
    rw [← List.head_eq_of_cons_eq hits]
    exact least_of_sortedBy _ shape

theorem Best.reordered (same : log'.Perm log) {hit : Hit} (best : Best py m log' hit) : Best py m log hit := by
  rw [Best, rank_reordered same] at best
  have inside := (@satisfied_reordered py m log log' same).mem_iff (a := hit)
  exact ⟨inside.mp best.1, fun other member => best.2 other ((satisfied_reordered same).mem_iff.mpr member)⟩

theorem Best.rank_eq {hit hit' : Hit} (best : Best py m log hit) (best' : Best py m log hit') :
    m.rank py log hit = m.rank py log hit' :=
  le_antisymm (best.2 hit' best'.1) (best'.2 hit best.1)

theorem mem_satisfied {hit : Hit} : hit ∈ m.satisfied py log ↔ hit.ev ∈ log ∧ hit.ev.tier.strong?.isSome = true ∧
    (strongRules py hit.ev m.index)[hit.position]? = some hit.rule := by
  rw [satisfied, List.mem_flatMap]
  constructor
  · rintro ⟨ev, member, there⟩
    split at there
    · rename_i strong
      obtain ⟨u, inside, rfl⟩ := List.mem_map.mp there
      exact ⟨member, strong, List.mem_zipIdx_iff_getElem?.mp inside⟩
    · cases there
  · rintro ⟨member, strong, found⟩
    refine ⟨hit.ev, member, ?_⟩
    rw [if_pos strong]
    exact List.mem_map.mpr ⟨(hit.rule, hit.position), List.mem_zipIdx_iff_getElem?.mpr found, rfl⟩

theorem satisfied_cons (ev : Evidence) (rest : List Evidence) :
    m.satisfied py (ev :: rest) = m.satisfied py [ev] ++ m.satisfied py rest := by
  rw [satisfied, satisfied, satisfied, List.flatMap_cons, List.flatMap_singleton]

/-- One record satisfies every rule at a position of its own. -/
theorem nodup_positions (ev : Evidence) : ((m.satisfied py [ev]).map (·.position)).Nodup := by
  rw [satisfied, List.flatMap_singleton]
  split
  · have positions : ((strongRules py ev m.index).zipIdx.map fun u => (⟨u.2, u.1, ev⟩ : Hit)).map
        (·.position) = (strongRules py ev m.index).zipIdx.map Prod.snd := by
      rw [List.map_map]
      rfl
    rw [positions, List.zipIdx_map_snd]
    exact List.nodup_range'
  · exact List.nodup_nil

theorem position_of_rank {hit hit' : Hit} (same : m.rank py log hit = m.rank py log hit') : hit.position = hit'.position :=
  (Prod.mk.inj (toLex.injective (Prod.mk.inj (toLex.injective (Prod.mk.inj (toLex.injective same)).2)).2)).1

/-- Any best match comes first where its record does. -/
theorem strongHits_of_best {hit : Hit} (best : Best py m log hit) : ∃ log', log'.Perm log ∧
    ∃ others, m.strongHits py log' = hit :: others := by
  obtain ⟨member, strong, found⟩ := mem_satisfied.mp best.1
  obtain ⟨before, after, split_⟩ := List.append_of_mem member
  have same : (hit.ev :: (before ++ after)).Perm log := by
    rw [split_]
    exact List.perm_middle.symm
  have inside : hit ∈ m.satisfied py [hit.ev] := mem_satisfied.mpr ⟨List.mem_singleton_self _, strong, found⟩
  obtain ⟨earlier, later, rules⟩ := List.append_of_mem inside
  have all : m.satisfied py (hit.ev :: (before ++ after)) = earlier ++ hit :: (later ++ m.satisfied py (before ++ after)) := by
    rw [satisfied_cons, rules, List.append_assoc, List.cons_append]
  have least (other : Hit) (there : other ∈ m.satisfied py (hit.ev :: (before ++ after))) :
      m.rank py log hit ≤ m.rank py log other :=
    best.2 other ((satisfied_reordered same).mem_iff.mp there)
  refine ⟨_, same, ?_⟩
  rw [strongHits, rank_reordered same, all, sortedBy_middle]
  · rw [onceEach, if_neg List.not_mem_nil]
    exact ⟨_, rfl⟩
  · intro other there
    have above := least other (by rw [all]; exact List.mem_append_left _ there)
    refine lt_of_le_of_ne above fun ranks => ?_
    have apart := @nodup_positions py m hit.ev
    rw [rules, List.map_append, List.nodup_append'] at apart
    exact apart.2.2 (List.mem_map_of_mem there) (position_of_rank ranks ▸ List.mem_map_of_mem List.mem_cons_self)
  · intro other there
    exact least other (by rw [all]; exact List.mem_append_right _ (List.mem_cons_of_mem _ there))

/-! ### The demotion -/

/-- What soft signals are sorted by. -/
def softRank (r : Text × List Text) : ℕ ×ₗ Text :=
  toLex (r.2.length, r.1)

/-- Every satisfied rule is cross-vendor, and the soft signal with the fewest drivers names
one that none of them names. -/
def Demoted (py : Python) (m : TierMatcher) (log : List Evidence) : Prop :=
  (∀ hit ∈ m.satisfied py log, hit.rule.generic = true) ∧
    ∃ r ∈ m.collectSoftSignalResults py log, (∀ other ∈ m.collectSoftSignalResults py log, softRank r ≤ softRank other) ∧
      ∃ driver ∈ r.2, ∀ hit ∈ m.satisfied py log, hit.rule.driverId ≠ driver

theorem mem_matched {driver : Text} : driver ∈ (m.strongHits py log).map (·.rule.driverId) ↔
    ∃ hit ∈ m.satisfied py log, hit.rule.driverId = driver := by
  rw [strongHits, mem_kinds_onceEach, List.mem_map]
  constructor
  · rintro ⟨⟨hit, member, named⟩, _⟩
    exact ⟨hit, (mem_sortedBy _).mp member, named⟩
  · rintro ⟨hit, member, named⟩
    exact ⟨⟨hit, (mem_sortedBy _).mpr member, named⟩, List.not_mem_nil⟩

/-- The peers that are put first, with the label of their signal. -/
theorem pickDemotionTarget_eq_nil {anchors : List Text} : (m.pickDemotionTarget py log anchors).1 = [] ↔
    ∀ r ∈ m.collectSoftSignalResults py log, (∀ other ∈ m.collectSoftSignalResults py log, softRank r ≤ softRank other) →
      ∀ driver ∈ r.2, driver ∈ anchors := by
  rw [pickDemotionTarget]
  split
  · rename_i none
    have none : m.collectSoftSignalResults py log = [] := (sortedBy_eq_nil _).mp none
    rw [none]
    exact iff_of_true rfl fun r member => by cases member
  · rename_i source hits broader sorted
    obtain ⟨member, least⟩ := least_of_sortedBy _ sorted
    have only (r : Text × List Text) (member' : r ∈ m.collectSoftSignalResults py log)
        (least' : ∀ other ∈ m.collectSoftSignalResults py log, softRank r ≤ softRank other) : r = (source, hits) := by
      have ranks : softRank r = softRank (source, hits) := le_antisymm (least' _ member) (least r member')
      exact softResult_ext member' member (Prod.mk.inj (toLex.injective ranks)).2
    split
    · rename_i none
      refine iff_of_true rfl fun r member' least' driver named => ?_
      rw [only r member' least'] at named
      by_contra other
      exact List.filter_eq_nil_iff.mp none driver named (decide_eq_true other)
    · rename_i some_
      refine iff_of_false (fun none => some_ ?_) fun anchored => some_ ?_
      · refine List.filter_eq_nil_iff.mpr fun driver named kept => ?_
        have inside : driver ∈ (onceEach id [] ((hits ++ broader.flatMap (·.2)).filter (· ∉ anchors))).map id := by
          refine (mem_kinds_onceEach id).mpr ⟨?_, List.not_mem_nil⟩
          rw [List.map_id]
          exact List.mem_filter.mpr ⟨List.mem_append_left _ named, kept⟩
        dsimp only at none
        rw [List.map_id, none] at inside
        cases inside
      · refine List.filter_eq_nil_iff.mpr fun driver named kept => ?_
        exact of_decide_eq_true kept (anchored _ member least driver named)

/-- The soft signal that decides has a label. -/
theorem source_of_pickDemotionTarget {anchors peers : List Text} {source peer : Text}
    (picked : m.pickDemotionTarget py log anchors = (peer :: peers, source)) : source ≠ [] := by
  rw [pickDemotionTarget] at picked
  split at picked
  · cases picked
  · rename_i source' hits broader sorted
    split at picked
    · cases picked
    · obtain ⟨kind, sourceId, here, _⟩ := softResult_of_mem (least_of_sortedBy _ sorted).1
      rw [← (Prod.mk.inj picked).2, show source' = label kind sourceId from here]
      exact label_ne_nil kind sourceId

/-- A vendor-specific best match is not demoted, and a cross-vendor one where a soft signal says so. -/
theorem demoted_iff {best : Hit} (first : Best py m log best) : Demoted py m log ↔
    best.rule.generic = true ∧ (m.pickDemotionTarget py log ((m.strongHits py log).map (·.rule.driverId))).1 ≠ [] := by
  have generic : (∀ hit ∈ m.satisfied py log, hit.rule.generic = true) ↔ best.rule.generic = true := by
    refine ⟨fun all => all best first.1, fun here hit member => ?_⟩
    have ranks := first.2 hit member
    rw [rank, rank, Prod.Lex.toLex_le_toLex] at ranks
    rcases ranks with below | ⟨same, _⟩
    · rw [here] at below
      exact absurd below (not_lt.mpr (Bool.le_true _))
    · exact same.symm.trans here
  rw [Demoted, generic, ne_eq, pickDemotionTarget_eq_nil]
  refine and_congr_right fun _ => ?_
  push Not
  refine exists_congr fun r => and_congr_right fun _ => and_congr_right fun _ => exists_congr fun driver => and_congr_right fun _ => ?_
  rw [mem_matched]
  push Not
  rfl

/-! ### The answer -/

/-- The same state, driver, source and ordered alternatives or candidates. -/
structure Same (answer answer' : IdentificationMatch) : Prop where
  state : answer.state = answer'.state
  driverId : answer.driverId = answer'.driverId
  source : answer.source = answer'.source
  alternatives : answer.alternatives = answer'.alternatives
  candidates : answer.candidates = answer'.candidates

theorem Same.symm {answer answer' : IdentificationMatch} (same : Same answer answer') : Same answer' answer :=
  ⟨same.state.symm, same.driverId.symm, same.source.symm, same.alternatives.symm, same.candidates.symm⟩

theorem Same.trans {answer answer' answer'' : IdentificationMatch} (first : Same answer answer')
    (then_ : Same answer' answer'') : Same answer answer'' :=
  ⟨first.state.trans then_.state, first.driverId.trans then_.driverId, first.source.trans then_.source,
    first.alternatives.trans then_.alternatives, first.candidates.trans then_.candidates⟩

def OrderFree (py : Python) (m : TierMatcher) (log : List Evidence) : Prop :=
  ∀ log', log'.Perm log → Same (m.identify py log') (m.identify py log)

/-- The driver and the alternatives. -/
def offered (answer : IdentificationMatch) : List Text :=
  answer.driverId.toList ++ answer.alternatives

def Named (py : Python) (m : TierMatcher) (log : List Evidence) (driver : Text) : Prop :=
  ∃ hit ∈ m.satisfied py log, hit.rule.driverId = driver

def VendorSpecific (py : Python) (m : TierMatcher) (log : List Evidence) (driver : Text) : Prop :=
  ∃ hit ∈ m.satisfied py log, hit.rule.driverId = driver ∧ hit.rule.generic = false

/-- Every driver that a satisfied strong rule names is offered once, and every vendor-specific one
ahead of every cross-vendor one. -/
structure Complete (py : Python) (m : TierMatcher) (log : List Evidence) : Prop where
  once : ∀ driver, Named py m log driver → (offered (m.identify py log)).count driver = 1
  ahead : ∀ driver driver', VendorSpecific py m log driver → Named py m log driver' → ¬VendorSpecific py m log driver' →
    [driver, driver'].Sublist (offered (m.identify py log))

/-- Nothing is decided by which of two records came first: with strong rules satisfied, the best
matches have one signal, or a soft signal puts another driver ahead of them; without,
the connected project devices are of one driver on one port. -/
def Agreed (py : Python) (m : TierMatcher) (log : List Evidence) : Prop :=
  if m.satisfied py log = [] then
    ∀ ev ∈ log, ∀ ev' ∈ log, (connectedDriver? ev).isSome → (connectedDriver? ev').isSome →
      connectedDriver? ev = connectedDriver? ev' ∧ ev.source = ev'.source
  else Demoted py m log ∨ ∀ hit hit', Best py m log hit → Best py m log hit' →
    label hit.rule.kind hit.rule.sourceId = label hit'.rule.kind hit'.rule.sourceId

/-- What the answer is made of where strong rules are satisfied. -/
theorem identify_of_best {best : Hit} {others : List Hit} (hits : m.strongHits py log = best :: others) :
    (Demoted py m log → ∃ peer peers source, m.pickDemotionTarget py log ((m.strongHits py log).map (·.rule.driverId)) =
        (peer :: peers, source) ∧ Same (m.identify py log)
          { state := .identified, driverId := some peer, source := source
            alternatives := peers ++ (m.strongHits py log).map (·.rule.driverId) }) ∧
      (¬Demoted py m log → Same (m.identify py log)
        { state := .identified, driverId := some best.rule.driverId
          source := label best.rule.kind best.rule.sourceId
          alternatives := ((m.strongHits py log).map (·.rule.driverId)).tail }) := by
  have first := best_of_strongHits hits
  have whole : m.identify py log = m.finalizeStrongMatch py best others log := by
    rw [identify, hits]
  rw [demoted_iff first, whole, hits]
  constructor
  · rintro ⟨generic, some_⟩
    rcases picked : m.pickDemotionTarget py log ((best :: others).map (·.rule.driverId)) with ⟨_ | ⟨peer, peers⟩, source⟩
    · rw [picked] at some_
      exact absurd rfl some_
    · refine ⟨peer, peers, source, picked, ?_⟩
      have label_ := source_of_pickDemotionTarget picked
      rw [finalizeStrongMatch]
      simp only [generic, picked, label_, Bool.true_eq_false, if_false]
      exact ⟨rfl, rfl, rfl, rfl, rfl⟩
  · intro plain
    rw [finalizeStrongMatch]
    by_cases generic : best.rule.generic = false
    · simp only [generic, if_true]
      exact ⟨rfl, rfl, rfl, rfl, rfl⟩
    · have none : (m.pickDemotionTarget py log ((best :: others).map (·.rule.driverId))).1 = [] := by
        by_contra some_
        exact plain ⟨by simpa using generic, some_⟩
      rcases picked : m.pickDemotionTarget py log ((best :: others).map (·.rule.driverId)) with ⟨_ | ⟨peer, peers⟩, source⟩
      · simp only [generic, picked]
        exact ⟨rfl, rfl, rfl, rfl, rfl⟩
      · rw [picked] at none
        cases none

/-! ### Every match is offered -/

theorem generic_le {hit hit' : Hit} (ranks : m.rank py log hit ≤ m.rank py log hit') (vendor : hit'.rule.generic = false) :
    hit.rule.generic = false := by
  rw [rank, rank, Prod.Lex.toLex_le_toLex] at ranks
  rcases ranks with below | ⟨same, _⟩
  · dsimp only at below
    rw [vendor] at below
    exact absurd below (not_lt.mpr (Bool.false_le _))
  · exact same.trans vendor

/-- What is kept of a vendor-specific driver is a vendor-specific match. -/
theorem generic_of_vendorSpecific {hit : Hit} (kept : hit ∈ m.strongHits py log)
    (vendor : VendorSpecific py m log hit.rule.driverId) : hit.rule.generic = false := by
  obtain ⟨before, after, sorted, other⟩ := first_of_onceEach _ kept
  obtain ⟨hit', member, same, specific⟩ := vendor
  have pairwise := pairwise_sortedBy (m.rank py log) (m.satisfied py log)
  rw [← mem_sortedBy (m.rank py log), sorted] at member
  rw [sorted, List.pairwise_append, List.pairwise_cons] at pairwise
  rcases List.mem_append.mp member with member | member
  · exact absurd same (other hit' member)
  · rcases List.mem_cons.mp member with rfl | member
    · exact specific
    · exact generic_le (pairwise.2.1.1 hit' member) specific

theorem matched_ahead {driver driver' : Text} (vendor : VendorSpecific py m log driver) (named : Named py m log driver')
    (cross : ¬VendorSpecific py m log driver') :
    [driver, driver'].Sublist ((m.strongHits py log).map (·.rule.driverId)) := by
  have named' : Named py m log driver := vendor.imp fun _ specific => ⟨specific.1, specific.2.1⟩
  obtain ⟨hit, kept, rfl⟩ := List.mem_map.mp (mem_matched.mpr named')
  obtain ⟨hit', kept', rfl⟩ := List.mem_map.mp (mem_matched.mpr named)
  have generic := generic_of_vendorSpecific kept vendor
  have generic' : hit'.rule.generic ≠ false := by
    intro specific
    have member := (mem_sortedBy _).mp ((onceEach_sublist _ _ _).subset kept')
    exact cross ⟨hit', member, rfl, specific⟩
  have pairwise : (m.strongHits py log).Pairwise fun a b => m.rank py log a ≤ m.rank py log b :=
    (pairwise_sortedBy (m.rank py log) (m.satisfied py log)).sublist (onceEach_sublist _ _ _)
  obtain ⟨before, after, hits⟩ := List.append_of_mem kept
  rw [hits] at kept' pairwise ⊢
  rw [List.pairwise_append] at pairwise
  rcases List.mem_append.mp kept' with earlier | later
  · exact absurd (generic_le (pairwise.2.2 hit' earlier hit List.mem_cons_self) generic) generic'
  · rcases List.mem_cons.mp later with rfl | later
    · exact absurd generic generic'
    · have ahead : [hit, hit'].Sublist (before ++ hit :: after) :=
        ((List.singleton_sublist.mpr later).cons_cons hit).trans (List.sublist_append_right _ _)
      exact ahead.map (·.rule.driverId)

theorem not_anchor {anchors : List Text} : ∀ driver ∈ (m.pickDemotionTarget py log anchors).1, driver ∉ anchors := by
  intro driver member
  rw [pickDemotionTarget] at member
  split at member
  · cases member
  · split at member
    · cases member
    · have inside := (onceEach_sublist _ _ _).subset member
      exact of_decide_eq_true (List.mem_filter.mp inside).2

theorem complete (py : Python) (m : TierMatcher) (log : List Evidence) : Complete py m log := by
  cases hits : m.strongHits py log with
  | nil =>
    have none := strongHits_eq_nil.mp hits
    refine ⟨fun driver named => ?_, fun driver _ vendor _ _ => ?_⟩
    · obtain ⟨hit, member, _⟩ := named
      rw [none] at member
      cases member
    · obtain ⟨hit, member, _⟩ := vendor
      rw [none] at member
      cases member
  | cons best others =>
    have once (driver : Text) (named : Named py m log driver) : ((m.strongHits py log).map (·.rule.driverId)).count driver = 1 :=
      List.count_eq_one_of_mem (nodup_kinds_onceEach _ _ _) (mem_matched.mpr named)
    obtain ⟨demoted, plain⟩ := identify_of_best hits
    by_cases demotes : Demoted py m log
    · obtain ⟨peer, peers, source, picked, same⟩ := demoted demotes
      have whole : offered (m.identify py log) = (peer :: peers) ++ (m.strongHits py log).map (·.rule.driverId) := by
        rw [offered, same.driverId, same.alternatives]
        rfl
      refine ⟨fun driver named => ?_, fun driver driver' vendor named cross => ?_⟩
      · have absent : (peer :: peers).count driver = 0 := by
          refine List.count_eq_zero.mpr fun member => ?_
          have other := @not_anchor py m log _ driver (by rw [picked]; exact member)
          exact other (mem_matched.mpr named)
        rw [whole, List.count_append, absent, once driver named]
      · rw [whole]
        exact (matched_ahead vendor named cross).trans (List.sublist_append_right _ _)
    · have whole : offered (m.identify py log) = (m.strongHits py log).map (·.rule.driverId) := by
        rw [offered, (plain demotes).driverId, (plain demotes).alternatives, hits]
        rfl
      refine ⟨fun driver named => ?_, fun driver driver' vendor named cross => ?_⟩
      · rw [whole]
        exact once driver named
      · rw [whole]
        exact matched_ahead vendor named cross

/-! ### The order of the records -/

/-- What the answer is where no strong rule is satisfied. -/
theorem identify_of_none (unmatched : m.satisfied py log = []) : m.identify py log =
    match log.find? fun ev => (connectedDriver? ev).isSome with
    | some connected => {
        state := .identified, driverId := connectedDriver? connected, source := connected.source
        evidence := [connected] }
    | none =>
      match m.gatherSoftCandidates py log with
      | ([], _) => { state := .unknown, reason := text "no_signal_matched", evidence := log }
      | (candidates, source) => {
          state := .possible, candidates := candidates, source := source
          evidence := log.filter fun ev => ev.tier = .enrichment } := by
  have none := strongHits_eq_nil.mpr unmatched
  cases found : log.find? fun ev => (connectedDriver? ev).isSome with
  | some connected => simp only [identify, none, found]
  | none =>
    cases gathered : m.gatherSoftCandidates py log with
    | mk candidates source => cases candidates <;> simp only [identify, none, found, gathered]

theorem identify_of_connected (unmatched : m.satisfied py log = []) {ev : Evidence}
    (found : log.find? (fun ev => (connectedDriver? ev).isSome) = some ev) : Same (m.identify py log)
      { state := .identified, driverId := connectedDriver? ev, source := ev.source } := by
  rw [identify_of_none unmatched, found]
  exact ⟨rfl, rfl, rfl, rfl, rfl⟩

theorem satisfied_eq_nil_reordered (same : log'.Perm log) : m.satisfied py log' = [] ↔ m.satisfied py log = [] :=
  ⟨fun none => List.nil_perm.mp (none ▸ satisfied_reordered same), fun none => List.perm_nil.mp (none ▸ satisfied_reordered same)⟩

theorem demoted_reordered (same : log'.Perm log) : Demoted py m log' ↔ Demoted py m log := by
  have hits (hit : Hit) : hit ∈ m.satisfied py log' ↔ hit ∈ m.satisfied py log := (satisfied_reordered same).mem_iff
  have results (r : Text × List Text) : r ∈ m.collectSoftSignalResults py log' ↔ r ∈ m.collectSoftSignalResults py log :=
    ((same.filter _).filterMap _).mem_iff
  simp only [Demoted, hits, results]

theorem orderFree_of_agreed (agreed : Agreed py m log) : OrderFree py m log := by
  intro log' same
  unfold Agreed at agreed
  cases hits : m.strongHits py log with
  | nil =>
    have unmatched := strongHits_eq_nil.mp hits
    have unmatched' := (satisfied_eq_nil_reordered same).mpr unmatched
    rw [if_pos unmatched] at agreed
    cases found : log.find? fun ev => (connectedDriver? ev).isSome with
    | some ev =>
      have member := List.mem_of_find?_eq_some found
      have connected := List.find?_some found
      cases found' : log'.find? fun ev => (connectedDriver? ev).isSome with
      | some ev' =>
        have connected' := List.find?_some found'
        obtain ⟨driver, source⟩ := agreed ev' (same.subset (List.mem_of_find?_eq_some found')) ev member connected' connected
        have first := identify_of_connected unmatched' found'
        rw [driver, source] at first
        exact first.trans (identify_of_connected unmatched found).symm
      | none => exact absurd connected (List.find?_eq_none.mp found' ev (same.symm.subset member))
    | none =>
      have found' : log'.find? (fun ev => (connectedDriver? ev).isSome) = Option.none :=
        List.find?_eq_none.mpr fun ev member => List.find?_eq_none.mp found ev (same.subset member)
      rw [identify_of_none unmatched, identify_of_none unmatched', found, found', gatherSoftCandidates_reordered same]
      rcases m.gatherSoftCandidates py log with ⟨_ | ⟨candidate, candidates⟩, source⟩
      · exact ⟨rfl, rfl, rfl, rfl, rfl⟩
      · exact ⟨rfl, rfl, rfl, rfl, rfl⟩
  | cons best others =>
    have some_ : m.satisfied py log ≠ [] := fun none => by
      rw [strongHits_eq_nil.mpr none] at hits
      cases hits
    rw [if_neg some_] at agreed
    cases hits' : m.strongHits py log' with
    | nil => exact absurd ((satisfied_eq_nil_reordered same).mp (strongHits_eq_nil.mp hits')) some_
    | cons best' others' =>
      have matched := @drivers_reordered py m log log' same
      obtain ⟨demoted, plain⟩ := identify_of_best hits
      obtain ⟨demoted', plain'⟩ := identify_of_best hits'
      by_cases demotes : Demoted py m log
      · obtain ⟨peer, peers, source, picked, answer⟩ := demoted demotes
        obtain ⟨peer', peers', source', picked', answer'⟩ := demoted' ((demoted_reordered same).mpr demotes)
        rw [matched, pickDemotionTarget_reordered same, picked] at picked'
        cases picked'
        rw [matched] at answer'
        exact answer'.trans answer.symm
      · have first := plain' (fun demotes' => demotes ((demoted_reordered same).mp demotes'))
        have best_ := best_of_strongHits hits
        have best'_ := (best_of_strongHits hits').reordered same
        have driver : best'.rule.driverId = best.rule.driverId := congrArg driverOf (best'_.rank_eq best_)
        rw [matched, agreed.resolve_left demotes best' best best'_ best_, driver] at first
        exact first.trans (plain demotes).symm

theorem agreed_of_orderFree (free : OrderFree py m log) : Agreed py m log := by
  unfold Agreed
  split
  · rename_i unmatched
    have first (ev : Evidence) (member : ev ∈ log) (connected : (connectedDriver? ev).isSome) :
        Same (m.identify py log) { state := .identified, driverId := connectedDriver? ev, source := ev.source } := by
      obtain ⟨before, after, split_⟩ := List.append_of_mem member
      have same : (ev :: (before ++ after)).Perm log := by
        rw [split_]
        exact List.perm_middle.symm
      have found : (ev :: (before ++ after)).find? (fun ev => (connectedDriver? ev).isSome) = some ev := by
        rw [List.find?_cons, connected]
      exact (free _ same).symm.trans (identify_of_connected ((satisfied_eq_nil_reordered same).mpr unmatched) found)
    intro ev member ev' member' connected connected'
    have both := (first ev member connected).symm.trans (first ev' member' connected')
    exact ⟨both.driverId, both.source⟩
  · rw [or_iff_not_imp_left]
    intro plain
    have source (hit : Hit) (best : Best py m log hit) :
        (m.identify py log).source = label hit.rule.kind hit.rule.sourceId := by
      obtain ⟨log', same, others, hits⟩ := strongHits_of_best best
      have answer := (identify_of_best hits).2 fun demotes => plain ((demoted_reordered same).mp demotes)
      exact ((free log' same).symm.trans answer).source
    exact fun hit hit' best best' => (source hit best).symm.trans (source hit' best')

/-- The answer does not depend on the order of the records, and offers every match, just where no two
records that could each decide it disagree. -/
theorem identification_stable (py : Python) (m : TierMatcher) (log : List Evidence) :
    (OrderFree py m log ∧ Complete py m log) ↔ Agreed py m log :=
  ⟨fun holds => agreed_of_orderFree holds.1, fun agreed => ⟨orderFree_of_agreed agreed, complete py m log⟩⟩

section Runs

/-- `evidence_connected` -/
def evidenceConnected (ref : Nat) (driverId deviceName : String) (port : Nat) : Evidence where
  ref := ref
  tier := .enrichment
  source := text "connected:" ++ intText port
  data := [(text "kind", .str kindConnected), (text "driver_id", .str (text driverId)),
    (text "device_name", .str (text deviceName)), (text "port", .int port)]

/-- A projector with a matrix switch in it, each of them connected as a device of the project. -/
def projectorAndSwitch : List Evidence :=
  [evidenceConnected 0 "acme_switch" "Switch" 23, evidenceConnected 1 "acme_projector" "Projector" 4352]

/-- The driver of the record that comes first is the answer. -/
theorem identified_by_first_record : ¬∀ (py : Python) (m : TierMatcher) (log : List Evidence),
    OrderFree py m log ∧ Complete py m log := by
  intro stable
  have plain : Python := ⟨fun _ => [], id, fun _ _ => false⟩
  have same := (stable plain {} projectorAndSwitch).1 projectorAndSwitch.reverse (List.reverse_perm _)
  have first : (({} : TierMatcher).identify plain projectorAndSwitch).driverId = some (text "acme_switch") := rfl
  have last : (({} : TierMatcher).identify plain projectorAndSwitch.reverse).driverId = some (text "acme_projector") := rfl
  have both := same.driverId
  rw [first, last] at both
  exact absurd both (by decide)

end Runs

end TierMatcher

end OpenAvc.Discovery
