import OpenAvc.State.Order

/-! The buckets find for a key what matching it with every pattern finds. -/

namespace OpenAvc.State

open Fnmatch (fnmatch)

theorem plain_of_globless {t : Text} (plain : t.any globChars.contains = false) :
    ∀ c ∈ t, c ≠ 42 ∧ c ≠ 63 ∧ c ≠ 91 := by
  intro c member
  have outside := List.any_eq_false.mp plain c member
  refine ⟨?_, ?_, ?_⟩ <;>
  · rintro rfl
    exact outside (by decide)

theorem mem_dottedPrefixes {start key : Text} : start ∈ dottedPrefixes key ↔ start <+: key ∧ start.getLast? = some 46 := by
  simp [dottedPrefixes]

theorem classifyPattern_universal {pattern : Text} (place : classifyPattern pattern = .universal) : pattern = text "*" := by
  unfold classifyPattern at place
  split at place
  · assumption
  · split at place
    · cases place
    · split at place <;> cases place

theorem classifyPattern_exact {pattern k : Text} (place : classifyPattern pattern = .exact k) :
    pattern = k ∧ pattern.any globChars.contains = false := by
  unfold classifyPattern at place
  split at place
  · cases place
  · split at place
    · rename_i plain
      cases place
      exact ⟨rfl, by simpa using plain⟩
    · split at place <;> cases place

theorem classifyPattern_prefixed {pattern start : Text} (place : classifyPattern pattern = .prefixed start) :
    ∃ literal, pattern = literal ++ text ".*" ∧ start = literal ++ text "." ∧
      literal.any globChars.contains = false := by
  unfold classifyPattern at place
  split at place
  · cases place
  · split at place
    · cases place
    · split at place
      · rename_i dotted
        cases place
        obtain ⟨ends, plain⟩ := Bool.and_eq_true_iff.mp dotted
        obtain ⟨literal, rfl⟩ := List.isSuffixOf_iff_suffix.mp ends
        refine ⟨literal, rfl, ?_, ?_⟩
        · simp [text, List.dropLast_append_of_ne_nil]
        · simpa [text, List.dropLast_append_of_ne_nil] using plain
      · cases place

/-- Outside of the glob bucket, a key finds the patterns that match it letter by letter. -/
theorem finds_eq {normcase : Text → Text} {pattern : Text} (place : classifyPattern pattern ≠ .glob) (k : Text) :
    (classifyPattern pattern).finds normcase k pattern = fnmatch id k pattern := by
  obtain ⟨b, here⟩ : ∃ b, classifyPattern pattern = b := ⟨_, rfl⟩
  rw [here] at place ⊢
  rw [Bool.eq_iff_iff]
  cases b with
  | universal =>
    have star := classifyPattern_universal here
    have found : fnmatch id k (text "*") = true := Fnmatch.matchPieces_star k
    rw [star, found]
    exact iff_of_true rfl rfl
  | exact key =>
    obtain ⟨rfl, plain⟩ := classifyPattern_exact here
    have pieces := Fnmatch.translate_literal (plain_of_globless plain) []
    rw [List.append_nil] at pieces
    have matched : fnmatch id k pattern = true ↔ ∃ rest, k = pattern ++ rest ∧ Fnmatch.matchPieces [] rest = true := by
      rw [fnmatch, id, id, pieces]
      exact Fnmatch.matchPieces_literal
    have last : ∀ rest : Text, Fnmatch.matchPieces [] rest = true ↔ rest = [] := fun rest => List.isEmpty_iff
    rw [matched, Bucket.finds, decide_eq_true_eq]
    constructor
    · rintro rfl
      exact ⟨[], (List.append_nil _).symm, rfl⟩
    · rintro ⟨rest, same, none⟩
      rw [same, (last rest).mp none, List.append_nil]
  | prefixed start =>
    obtain ⟨literal, rfl, rfl, plain⟩ := classifyPattern_prefixed here
    have pieces := Fnmatch.translate_literal (plain_of_globless plain) (text ".*")
    have dot : literal.map Fnmatch.Piece.char ++ Fnmatch.translate none (text ".*") =
        (literal ++ text ".").map .char ++ [.star] := by
      rw [List.map_append, List.append_assoc]
      rfl
    have matched : fnmatch id k (literal ++ text ".*") = true ↔
        ∃ rest, k = literal ++ text "." ++ rest ∧ Fnmatch.matchPieces [.star] rest = true := by
      rw [fnmatch, id, id, pieces, dot]
      exact Fnmatch.matchPieces_literal
    have last : (literal ++ text ".").getLast? = some 46 := by simp [text]
    rw [matched, Bucket.finds, decide_eq_true_eq, mem_dottedPrefixes]
    constructor
    · rintro ⟨⟨rest, rfl⟩, _⟩
      exact ⟨rest, rfl, Fnmatch.matchPieces_star rest⟩
    · rintro ⟨rest, rfl, _⟩
      exact ⟨⟨rest, rfl⟩, last⟩
  | glob => exact absurd rfl place

namespace Subscriptions

/-- Every subscription stands in the bucket of its pattern. -/
def Held (subs : Subscriptions) : Prop :=
  ∀ sub ∈ subs.allSubs, sub ∈ subs.bucket (classifyPattern sub.pattern)

variable {normcase : Text → Text} {subs : Subscriptions} {nextSub : Nat}

theorem Held.addSub (held : subs.Held) (sub : Sub) : (subs.addSub sub).Held := by
  intro other member
  rw [bucket_addSub]
  rcases List.mem_append.mp member with member | new
  · have there := held other member
    split
    · exact List.mem_append_left _ there
    · exact there
  · rw [List.mem_singleton.mp new, if_pos rfl]
    exact List.mem_append_right _ List.mem_cons_self

theorem Held.unsubscribe (held : subs.Held) (filed : subs.Filed nextSub) (subId : Nat) : (subs.unsubscribe subId).Held := by
  intro other member
  rw [allSubs_unsubscribe, mem_without] at member
  rw [bucket_unsubscribe filed, mem_without]
  exact ⟨held other member.1, member.2⟩

/-- Whether the key finds the subscription in its bucket. -/
def found (normcase : Text → Text) (sub : Sub) (k : Text) : Bool :=
  (classifyPattern sub.pattern).finds normcase k sub.pattern

/-- A key finds a subscription once, or not at all. -/
theorem Filed.filter_found (filed : subs.Filed nextSub) (held : subs.Held) {sub : Sub} (member : sub ∈ subs.allSubs)
    (k : Text) : (subs.universalSubs ++ subs.matching normcase k).filter (fun other => other.subId = sub.subId) =
      if found normcase sub k then [sub] else [] := by
  have own : ∀ other ∈ (subs.universalSubs ++ subs.matching normcase k).filter fun other => other.subId = sub.subId,
      other = sub := by
    intro other there
    obtain ⟨there, same⟩ := List.mem_filter.mp there
    exact filed.ids other (filed.reached_known there) sub member (of_decide_eq_true same)
  have covered : subs.covers normcase sub.subId k = true ↔ found normcase sub k = true := by
    rw [covers_iff]
    constructor
    · rintro ⟨b, other, there, same, finds⟩
      obtain ⟨known, place⟩ := filed.placed b other there
      obtain rfl := filed.ids other known sub member same
      rw [found, place]
      exact finds
    · intro finds
      exact ⟨_, sub, held sub member, rfl, finds⟩
  rcases @Filed.filter_id normcase subs nextSub filed sub.subId k with none | ⟨other, one⟩
  · have missed : found normcase sub k = false := by
      rw [← Bool.not_eq_true, ← covered, Bool.not_eq_true]
      exact List.any_eq_false.mpr fun other there => List.filter_eq_nil_iff.mp none other there
    rw [none, missed]
    rfl
  · have here : other ∈ (subs.universalSubs ++ subs.matching normcase k).filter fun other => other.subId = sub.subId := by
      rw [one]
      exact List.mem_cons_self
    have finds : found normcase sub k = true :=
      covered.mp (List.any_eq_true.mpr ⟨other, List.mem_filter.mp here⟩)
    rw [one, own other here, if_pos finds]

end Subscriptions

/-- The calls for a subscription that matches these keys. -/
def Sub.calls (sub : Sub) (hit : Text → Bool) (changes : List Change) : List Delivery :=
  let hits := changes.filter fun change => hit change.key
  if sub.bulk then if hits = [] then [] else [⟨sub.subId, hits⟩] else hits.map fun change => ⟨sub.subId, [change]⟩

/-- The calls of one listener. -/
def callsOf (l : Nat) (calls : List Delivery) : List Delivery :=
  calls.filter fun delivery => delivery.subId = l

theorem bulkBuckets_nonempty (matched : List (Sub × Change)) :
    ∀ u ∈ bulkBuckets matched, u.2 ≠ [] := by
  induction matched using List.reverseRecOn with
  | nil => exact fun u member => by cases member
  | append_singleton matched u ih =>
    have step : bulkBuckets (matched ++ [u]) = Dict.set (bulkBuckets matched) u.1.subId
        (((bulkBuckets matched).lookup u.1.subId).getD [] ++ [u.2]) := by
      simp [bulkBuckets]
    rw [step]
    intro v member
    rcases Dict.mem_set member with rfl | old
    · exact List.append_ne_nil_of_right_ne_nil _ (List.cons_ne_nil _ _)
    · exact ih v old

theorem callsOf_append (l : Nat) (before after : List Delivery) :
    callsOf l (before ++ after) = callsOf l before ++ callsOf l after := List.filter_append ..

theorem callsOf_cons (l : Nat) (delivery : Delivery) (rest : List Delivery) :
    callsOf l (delivery :: rest) = if delivery.subId = l then delivery :: callsOf l rest else callsOf l rest := by
  by_cases here : delivery.subId = l <;> simp [callsOf, here]

theorem callsOf_universal (l : Nat) (changes : List Change) (subs : List Sub) :
    callsOf l (subs.flatMap fun sub =>
      if sub.bulk then [⟨sub.subId, changes⟩] else changes.map fun change => ⟨sub.subId, [change]⟩) =
      (subs.filter fun sub => sub.subId = l).flatMap fun sub =>
        if sub.bulk then [⟨sub.subId, changes⟩] else changes.map fun change => ⟨sub.subId, [change]⟩ := by
  induction subs with
  | nil => rfl
  | cons sub subs ih =>
    have own : ∀ delivery ∈ (if sub.bulk then [(⟨sub.subId, changes⟩ : Delivery)] else
        changes.map fun change => ⟨sub.subId, [change]⟩), delivery.subId = sub.subId := by
      intro delivery member
      split at member
      · rw [List.mem_singleton.mp member]
      · obtain ⟨_, _, rfl⟩ := List.mem_map.mp member
        rfl
    rw [List.flatMap_cons, callsOf_append, ih]
    by_cases here : sub.subId = l
    · have all := List.filter_eq_self.mpr fun delivery member => decide_eq_true ((own delivery member).trans here)
      rw [callsOf, all]
      simp [here]
    · have none := List.filter_eq_nil_iff.mpr fun delivery member same =>
        here ((own delivery member).symm.trans (of_decide_eq_true same))
      rw [callsOf, none]
      simp [here]

theorem callsOf_perKey (l : Nat) (matched : List (Sub × Change)) :
    callsOf l (matched.map fun (sub, change) => ⟨sub.subId, [change]⟩) = (ofSub l matched).map fun change => ⟨l, [change]⟩ := by
  induction matched with
  | nil => rfl
  | cons u matched ih =>
    rw [callsOf, ofSub] at ih ⊢
    by_cases here : u.1.subId = l
    · subst here
      simpa using ih
    · simpa [here] using ih

theorem callsOf_buckets (l : Nat) (matched : List (Sub × Change)) :
    callsOf l ((bulkBuckets matched).map fun (subId, changes) => ⟨subId, changes⟩) =
      if ofSub l matched = [] then [] else [⟨l, ofSub l matched⟩] := by
  have dict := bulkBuckets_spec matched
  have held := bulkBuckets_nonempty matched
  have kept : ∀ {buckets : List (Nat × List Change)}, (buckets.map Prod.fst).Nodup → (∀ u ∈ buckets, u.2 ≠ []) →
      callsOf l (buckets.map fun (subId, changes) => ⟨subId, changes⟩) =
        if (buckets.lookup l).getD [] = [] then [] else [⟨l, (buckets.lookup l).getD []⟩] := by
    intro buckets distinct held
    induction buckets with
    | nil => rfl
    | cons u buckets ih =>
      obtain ⟨subId, changes⟩ := u
      obtain ⟨apart, distinct⟩ := List.nodup_cons.mp distinct
      have rest := ih distinct fun u member => held u (List.mem_cons_of_mem _ member)
      have here := held _ List.mem_cons_self
      by_cases same : l = subId
      · subst same
        have missing : buckets.lookup l = none :=
          List.lookup_eq_none_of_forall fun u member same => apart (List.mem_map.mpr ⟨u, member, same⟩)
        rw [missing] at rest
        rw [List.map_cons, callsOf_cons, if_pos rfl, rest, List.lookup_cons_self]
        exact (if_neg here).symm
      · rw [List.map_cons, callsOf_cons, if_neg fun found => same found.symm, rest, List.lookup_cons,
          beq_eq_false_iff_ne.mpr same]
  rw [kept dict.1 held, dict.2 l]

variable {normcase : Text → Text} {subs : Subscriptions} {nextSub : Nat}

theorem ofSub_matched (l : Nat) (p : Sub → Bool) (changes : List Change) :
    ofSub l ((matched normcase subs changes).filter fun u => p u.1) = changes.flatMap fun change =>
      (((subs.matching normcase change.key).filter fun sub => sub.subId = l).filter p).map fun _ => change := by
  induction changes with
  | nil => rfl
  | cons change changes ih =>
    have own : ofSub l (((subs.matching normcase change.key).map fun sub => (sub, change)).filter fun u => p u.1) =
        (((subs.matching normcase change.key).filter fun sub => sub.subId = l).filter p).map fun _ => change := by
      simp [ofSub, List.filter_map, List.filter_filter, Function.comp_def, Bool.and_comm]
    rw [List.flatMap_cons, ← ih, ← own]
    simp [matched, ofSub]

/-- What `_notify` calls a subscription with: the changes whose keys find it. -/
theorem callsOf_notifications (filed : subs.Filed nextSub) (held : subs.Held) {sub : Sub} (member : sub ∈ subs.allSubs)
    {changes : List Change} (some_ : changes ≠ []) :
    callsOf sub.subId (notifications normcase subs changes) = sub.calls (Subscriptions.found normcase sub) changes := by
  have whole : callsOf sub.subId (notifications normcase subs changes) =
      ((subs.universalSubs.filter fun other => other.subId = sub.subId).flatMap fun sub =>
        if sub.bulk then [⟨sub.subId, changes⟩] else changes.map fun change => ⟨sub.subId, [change]⟩) ++
      ((ofSub sub.subId ((matched normcase subs changes).filter fun u => !u.1.bulk)).map fun change => ⟨sub.subId, [change]⟩) ++
      if ofSub sub.subId ((matched normcase subs changes).filter fun u => u.1.bulk) = [] then []
      else [⟨sub.subId, ofSub sub.subId ((matched normcase subs changes).filter fun u => u.1.bulk)⟩] := by
    rw [← callsOf_universal, ← callsOf_perKey, ← callsOf_buckets, ← callsOf_append, ← callsOf_append]
    rfl
  have reached := fun k => @Subscriptions.Filed.filter_found normcase subs nextSub filed held sub member k
  rw [whole, ofSub_matched sub.subId (fun sub => !sub.bulk), ofSub_matched sub.subId (fun sub => sub.bulk)]
  by_cases universal : classifyPattern sub.pattern = .universal
  · -- The index is not asked for it.
    have finds : ∀ k, Subscriptions.found normcase sub k = true := fun k => by
      rw [Subscriptions.found, universal]
      rfl
    have apart : ∀ k, (subs.universalSubs.filter fun other => other.subId = sub.subId) = [sub] ∧
        ((subs.matching normcase k).filter fun other => other.subId = sub.subId) = [] := by
      intro k
      have there := held sub member
      rw [universal] at there
      have one := reached k
      rw [finds, if_pos rfl, List.filter_append] at one
      rcases List.append_eq_singleton_iff.mp one with ⟨none, _⟩ | both
      · exact absurd (decide_eq_true rfl) (List.filter_eq_nil_iff.mp none sub there)
      · exact both
    have all : changes.filter (fun change => Subscriptions.found normcase sub change.key) = changes :=
      List.filter_eq_self.mpr fun change _ => finds change.key
    have once := (apart []).1
    simp only [once, fun k => (apart k).2, Sub.calls, all]
    cases bulk : sub.bulk <;> simp [bulk, some_]
  · have apart : ∀ k, (subs.universalSubs.filter fun other => other.subId = sub.subId) = [] ∧
        ((subs.matching normcase k).filter fun other => other.subId = sub.subId) =
          if Subscriptions.found normcase sub k then [sub] else [] := by
      intro k
      have none : (subs.universalSubs.filter fun other => other.subId = sub.subId) = [] :=
        List.filter_eq_nil_iff.mpr fun other there same => by
          obtain ⟨known, place⟩ := filed.placed .universal other there
          rw [filed.ids other known sub member (of_decide_eq_true same)] at place
          exact universal place
      have one := reached k
      rw [List.filter_append, none] at one
      exact ⟨none, one⟩
    have hits : ∀ p : Sub → Bool, (changes.flatMap fun change =>
        ((if Subscriptions.found normcase sub change.key then [sub] else []).filter p).map fun _ => change) =
          if p sub then changes.filter fun change => Subscriptions.found normcase sub change.key else [] := by
      intro p
      clear whole some_
      induction changes with
      | nil => simp
      | cons change changes ih =>
        rw [List.flatMap_cons, ih]
        cases kept : p sub <;> cases finds : Subscriptions.found normcase sub change.key <;> simp [kept, finds]
    have none := (apart []).1
    simp only [none, fun k => (apart k).2, Sub.calls, hits]
    cases bulk : sub.bulk <;> simp

/-- Nobody else is called. -/
theorem known_of_notifications (filed : subs.Filed nextSub) {changes : List Change} :
    ∀ delivery ∈ notifications normcase subs changes, ∃ sub ∈ subs.allSubs, sub.subId = delivery.subId := by
  intro delivery member
  have universal : ∀ sub ∈ subs.universalSubs, sub ∈ subs.allSubs := fun sub there => (filed.placed .universal sub there).1
  have found : ∀ u ∈ matched normcase subs changes, u.1 ∈ subs.allSubs := by
    intro u there
    obtain ⟨change, _, there⟩ := List.mem_flatMap.mp there
    obtain ⟨sub, known, rfl⟩ := List.mem_map.mp there
    exact filed.reached_known (List.mem_append_right _ known)
  have perKey : ∀ {p : Sub × Change → Bool}, delivery ∈ (((matched normcase subs changes).filter p).map
      fun (sub, change) => (⟨sub.subId, [change]⟩ : Delivery)) → ∃ sub ∈ subs.allSubs, sub.subId = delivery.subId := by
    intro p there
    obtain ⟨u, inside, rfl⟩ := List.mem_map.mp there
    exact ⟨u.1, found u (List.mem_filter.mp inside).1, rfl⟩
  rcases List.mem_append.mp member with member | member
  · rcases List.mem_append.mp member with member | member
    · obtain ⟨sub, there, member⟩ := List.mem_flatMap.mp member
      refine ⟨sub, universal sub there, ?_⟩
      split at member
      · rw [List.mem_singleton.mp member]
      · obtain ⟨_, _, rfl⟩ := List.mem_map.mp member
        rfl
    · exact perKey member
  · obtain ⟨u, there, rfl⟩ := List.mem_map.mp member
    have gathered := bulkBuckets_spec ((matched normcase subs changes).filter fun u => u.1.bulk)
    have some_ := bulkBuckets_nonempty _ u there
    have here := List.lookup_of_mem gathered.1 there
    have all := gathered.2 u.1
    rw [here] at all
    obtain ⟨change, rest, cons⟩ := List.exists_cons_of_ne_nil some_
    have inside : change ∈ ofSub u.1 ((matched normcase subs changes).filter fun u => u.1.bulk) := by
      rw [← all]
      show change ∈ u.2
      rw [cons]
      exact List.mem_cons_self
    obtain ⟨v, inside, _⟩ := List.mem_map.mp inside
    obtain ⟨inside, same⟩ := List.mem_filter.mp inside
    exact ⟨v.1, found v (List.mem_filter.mp inside).1, of_decide_eq_true same⟩

namespace StateStore

/-- The call that a step makes for the transaction that `depth` others surround. -/
def calledAt (depth : Nat) (s : StateStore) : Label → List Delivery
  | .deliver =>
    match s.notifying with
    | ⟨_, delivery :: _, _⟩ :: outer => if outer.length = depth then [delivery] else []
    | _ => []
  | _ => []

/-- From this state, the transaction that `depth` others surround makes these calls
until it returns, among all that happens in between. -/
inductive Returns (normcase : Text → Text) (depth : Nat) : StateStore → List Delivery → Prop
  | returned {s} : s.notifying.length ≤ depth → Returns normcase depth s []
  | step {s l s' calls} : depth < s.notifying.length → s.next normcase l = some s' → Returns normcase depth s' calls →
      Returns normcase depth s (s.calledAt depth l ++ calls)

variable {s s' : StateStore}

/-- A call begins a transaction, if there is a change. -/
theorem notifying_call (s : StateStore) (op : Op) : (s.call normcase op).notifying =
    if (s.write op).2 = [] then s.notifying
    else ⟨(s.write op).2, notifications normcase s.subs (s.write op).2, false⟩ :: s.notifying := by
  have wrote := wrote_write s op
  obtain ⟨⟨s', changes⟩, written⟩ : ∃ result, s.write op = result := ⟨_, rfl⟩
  rw [written] at wrote
  have same : s' = _ := wrote.same
  have kept : s'.notifying = s.notifying := by rw [same]
  rw [StateStore.call, written]
  show (if changes = [] then s' else _).notifying = if changes = [] then _ else _
  split
  · exact kept
  · exact congrArg (List.cons _) kept

theorem subs_call (s : StateStore) (op : Op) :
    (s.call normcase op).subs = s.subs ∧ (s.call normcase op).nextSub = s.nextSub := by
  have wrote := wrote_write s op
  obtain ⟨⟨s', changes⟩, written⟩ : ∃ result, s.write op = result := ⟨_, rfl⟩
  rw [written] at wrote
  have same : s' = _ := wrote.same
  have kept : s'.subs = s.subs ∧ s'.nextSub = s.nextSub := by
    rw [same]
    exact ⟨rfl, rfl⟩
  rw [StateStore.call, written]
  show (if changes = [] then s' else _).subs = _ ∧ (if changes = [] then s' else _).nextSub = _
  split <;> exact kept

/-- A step leaves the transactions as they are, begins one, or takes the innermost one on. -/
theorem next_notifying {l : Label} (run : s.next normcase l = some s') :
    (s'.notifying = s.notifying ∧ ∀ depth, s.calledAt depth l = []) ∨
    (∃ n, s'.notifying = n :: s.notifying ∧ ∀ depth, s.calledAt depth l = []) ∨
    (∃ n outer, s.notifying = n :: outer ∧ s'.notifying = outer ∧ n.remaining = [] ∧ ∀ depth, s.calledAt depth l = []) ∨
    ∃ n delivery rest outer, s.notifying = n :: outer ∧ n.remaining = delivery :: rest ∧
      s'.notifying = { n with remaining := rest, calling := true } :: outer ∧
      ∀ depth, s.calledAt depth l = if outer.length = depth then [delivery] else [] := by
  cases l with
  | call op =>
    simp only [next, Option.ite_none_right_eq_some, Option.some.injEq] at run
    have begun := @notifying_call normcase s op
    rw [run.2] at begun
    split at begun
    · exact Or.inl ⟨begun, fun _ => rfl⟩
    · exact Or.inr (Or.inl ⟨_, begun, fun _ => rfl⟩)
  | deliver =>
    simp only [next, StateStore.deliver] at run
    split at run
    · cases run
    · rename_i changes calling outer notifying
      cases run
      refine Or.inr (Or.inr (Or.inl ⟨_, outer, notifying, rfl, rfl, fun depth => ?_⟩))
      rw [calledAt, notifying]
    · rename_i changes delivery rest calling outer notifying
      cases run
      refine Or.inr (Or.inr (Or.inr ⟨_, delivery, rest, outer, notifying, rfl, rfl, fun depth => ?_⟩))
      rw [calledAt, notifying]
  | resume t =>
    simp only [next, StateStore.resume] at run
    split at run
    · cases run
    · simp only [Option.ite_none_right_eq_some, Option.some.injEq] at run
      rw [← run.2]
      exact Or.inl ⟨rfl, fun _ => rfl⟩
  | emit waits =>
    simp only [next, StateStore.emit] at run
    split at run
    · cases run
    · split at run
      · cases run
        exact Or.inl ⟨rfl, fun _ => rfl⟩
      · cases run
  | subscribe pattern bulk =>
    simp only [next, Option.ite_none_right_eq_some, Option.some.injEq] at run
    rw [← run.2]
    exact Or.inl ⟨rfl, fun _ => rfl⟩
  | unsubscribe subId =>
    simp only [next, Option.ite_none_right_eq_some, Option.some.injEq] at run
    rw [← run.2]
    exact Or.inl ⟨rfl, fun _ => rfl⟩

/-- A transaction makes the calls that it has left, whatever happens in between. -/
theorem Returns.calls_eq {depth : Nat} {calls : List Delivery} (returns : Returns normcase depth s calls)
    {inner outer : List Notification} {n : Notification} (notifying : s.notifying = inner ++ n :: outer)
    (there : outer.length = depth) : calls = n.remaining := by
  induction returns generalizing inner n with
  | returned low =>
    rw [notifying, List.length_append, List.length_cons] at low
    omega
  | @step s l s' calls _ run later ih =>
    rcases next_notifying run with ⟨kept, quiet⟩ | ⟨begun, more, quiet⟩ | ⟨top, rest, first, popped, none, quiet⟩ |
      ⟨top, delivery, rest, around, first, cons, taken, called⟩
    · rw [quiet, List.nil_append]
      exact ih (kept.trans notifying)
    · rw [notifying] at more
      rw [quiet, List.nil_append]
      exact ih (show _ = (begun :: inner) ++ n :: outer from more)
    · rw [quiet, List.nil_append]
      cases inner with
      | nil =>
        obtain ⟨rfl, rfl⟩ := List.cons.inj (first.symm.trans notifying)
        cases later with
        | returned => exact none.symm
        | step high =>
          rw [popped] at high
          omega
      | cons begun inner =>
        obtain ⟨rfl, rfl⟩ := List.cons.inj (first.symm.trans notifying)
        exact ih popped
    · rw [called]
      cases inner with
      | nil =>
        obtain ⟨rfl, rfl⟩ := List.cons.inj (first.symm.trans notifying)
        rw [if_pos there, cons, ih (show _ = [] ++ _ :: _ from taken)]
        rfl
      | cons begun inner =>
        obtain ⟨rfl, rfl⟩ := List.cons.inj (first.symm.trans notifying)
        have higher : (inner.append (n :: outer)).length ≠ depth := by
          rw [List.append_eq, List.length_append, List.length_cons]
          omega
        rw [if_neg higher, List.nil_append]
        exact ih (show _ = (_ :: inner) ++ n :: outer from taken)

/-- With listeners that do nothing, a transaction returns. -/
theorem exists_returns {outer : List Notification} {n : Notification} (notifying : s.notifying = n :: outer) :
    ∃ calls, Returns normcase outer.length s calls := by
  obtain ⟨changes, remaining, calling⟩ := n
  induction remaining generalizing s calling with
  | nil =>
    have run : s.next normcase .deliver = some { s with
        notifying := outer
        pendingEventTasks := s.pendingEventTasks ++ [⟨changeEvents changes, false⟩] } := by
      rw [next, StateStore.deliver, notifying]
    have inside : outer.length < s.notifying.length := by rw [notifying]; exact Nat.lt_succ_self _
    exact ⟨_, .step inside run (.returned (Nat.le_refl _))⟩
  | cons delivery rest ih =>
    have run : s.next normcase .deliver = some { s with
        notifying := ⟨changes, rest, true⟩ :: outer
        received := s.received ++ [delivery] } := by
      rw [next, StateStore.deliver, notifying]
    have inside : outer.length < s.notifying.length := by rw [notifying]; exact Nat.lt_succ_self _
    obtain ⟨calls, returns⟩ := ih (s := { s with
      notifying := ⟨changes, rest, true⟩ :: outer
      received := s.received ++ [delivery] }) true rfl
    exact ⟨_, .step inside run returns⟩

/-- What the calls of `subscribe`, `subscribe_bulk` and `unsubscribe` leave, as one
list, with the next id. -/
def subscribed : List Sub × Nat → Label → List Sub × Nat
  | (subs, nextSub), .subscribe pattern bulk => (subs ++ [⟨nextSub, pattern, bulk⟩], nextSub + 1)
  | (subs, nextSub), .unsubscribe subId => (subs.filter fun sub => sub.subId ≠ subId, nextSub)
  | subs, _ => subs

/-- The subscriptions are filed as one list of them says. -/
structure Indexed (s : StateStore) (flat : List Sub × Nat) : Prop where
  filed : s.subs.Filed s.nextSub
  held : s.subs.Held
  flat : (s.subs.allSubs, s.nextSub) = flat

theorem Indexed.next {flat : List Sub × Nat} (indexed : s.Indexed flat) {l : Label} (run : s.next normcase l = some s') :
    s'.Indexed (subscribed flat l) := by
  have quiet : s'.subs = s.subs → s'.nextSub = s.nextSub → s'.Indexed flat := fun subs nextSub =>
    ⟨by rw [subs, nextSub]; exact indexed.filed, by rw [subs]; exact indexed.held, by rw [subs, nextSub]; exact indexed.flat⟩
  cases l with
  | call op =>
    simp only [StateStore.next, Option.ite_none_right_eq_some, Option.some.injEq] at run
    obtain ⟨subs, nextSub⟩ := @subs_call normcase s op
    rw [run.2] at subs nextSub
    exact quiet subs nextSub
  | deliver =>
    simp only [StateStore.next, StateStore.deliver] at run
    split at run <;> cases run <;> exact quiet rfl rfl
  | resume t =>
    simp only [StateStore.next, StateStore.resume] at run
    split at run
    · cases run
    · simp only [Option.ite_none_right_eq_some, Option.some.injEq] at run
      rw [← run.2] at quiet ⊢
      exact quiet rfl rfl
  | emit waits =>
    simp only [StateStore.next, StateStore.emit] at run
    split at run
    · cases run
    · split at run <;> cases run
      exact quiet rfl rfl
  | subscribe pattern bulk =>
    simp only [StateStore.next, Option.ite_none_right_eq_some, Option.some.injEq] at run
    rw [← run.2, ← indexed.flat]
    exact ⟨indexed.filed.addSub pattern bulk, indexed.held.addSub _, rfl⟩
  | unsubscribe subId =>
    simp only [StateStore.next, Option.ite_none_right_eq_some, Option.some.injEq] at run
    rw [← run.2, ← indexed.flat]
    refine ⟨indexed.filed.unsubscribe subId, indexed.held.unsubscribe indexed.filed subId, ?_⟩
    exact congrArg (·, s.nextSub) (Subscriptions.allSubs_unsubscribe s.subs subId)

theorem Indexed.run {flat : List Sub × Nat} (indexed : s.Indexed flat) {ls : List Label}
    (run : (machine normcase).run Run.always s ls = some s') : s'.Indexed (ls.foldl subscribed flat) := by
  induction ls generalizing s flat with
  | nil =>
    cases run
    exact indexed
  | cons l ls ih =>
    simp only [Run.Machine.run, Option.ite_none_right_eq_some] at run
    obtain ⟨middle, first, rest⟩ := Option.bind_eq_some_iff.mp run.2
    exact ih (indexed.next first) rest

/-- The calls are those for a list of subscriptions of which each is matched with every change. -/
structure Matched (subs : List Sub) (changes : List Change) (calls : List Delivery) : Prop where
  called : ∀ sub ∈ subs, callsOf sub.subId calls = sub.calls (fun k => fnmatch id k sub.pattern) changes
  others : ∀ delivery ∈ calls, ∃ sub ∈ subs, sub.subId = delivery.subId

/-- The platform matches the changes with the glob patterns of these subscriptions as they are written. -/
def Literal (normcase : Text → Text) (subs : List Sub) (changes : List Change) : Prop :=
  ∀ sub ∈ subs, classifyPattern sub.pattern = .glob → ∀ change ∈ changes,
    fnmatch normcase change.key sub.pattern = fnmatch id change.key sub.pattern

theorem calls_congr {sub : Sub} {hit hit' : Text → Bool} {changes : List Change}
    (same : ∀ change ∈ changes, hit change.key = hit' change.key) : sub.calls hit changes = sub.calls hit' changes := by
  rw [Sub.calls, List.filter_congr same]
  rfl

theorem calls_inj {sub : Sub} {hit hit' : Text → Bool} {changes : List Change}
    (same : sub.calls hit changes = sub.calls hit' changes) : ∀ change ∈ changes, hit change.key = hit' change.key := by
  have hits : (changes.filter fun change => hit change.key) = changes.filter fun change => hit' change.key := by
    simp only [Sub.calls] at same
    cases bulk : sub.bulk with
    | false =>
      rw [bulk, if_neg Bool.false_ne_true, if_neg Bool.false_ne_true] at same
      have inj : Function.Injective fun change : Change => (⟨sub.subId, [change]⟩ : Delivery) := fun c d eq => by
        injection eq with _ eq
        exact (List.cons.inj eq).1
      exact List.map_injective_iff.mpr inj same
    | true =>
      rw [bulk, if_pos rfl, if_pos rfl] at same
      split at same <;> split at same
      · rename_i none none'
        rw [none, none']
      · cases same
      · cases same
      · injection same with same
        injection same
  intro change member
  rw [Bool.eq_iff_iff]
  constructor
  · intro found
    have there : change ∈ changes.filter fun change => hit' change.key := by
      rw [← hits]
      exact List.mem_filter.mpr ⟨member, found⟩
    exact (List.mem_filter.mp there).2
  · intro found
    have there : change ∈ changes.filter fun change => hit change.key := by
      rw [hits]
      exact List.mem_filter.mpr ⟨member, found⟩
    exact (List.mem_filter.mp there).2

/-- Whatever has been subscribed and unsubscribed, a transaction calls exactly the
subscriptions that match its changes, if the platform takes the patterns literally. -/
theorem matched_iff_literal {ls : List Label} (run : (machine normcase).run Run.always {} ls = some s) {op : Op}
    (begins : s.next normcase (.call op) = some s') :
    (∀ calls, Returns normcase s.notifying.length s' calls →
      Matched (ls.foldl subscribed ([], 0)).1 (s.write op).2 calls) ↔
    Literal normcase (ls.foldl subscribed ([], 0)).1 (s.write op).2 := by
  simp only [next, Option.ite_none_right_eq_some, Option.some.injEq] at begins
  obtain rfl := begins.2
  have start : Indexed {} ([], 0) := ⟨.start, (fun _ member => by cases member), rfl⟩
  have indexed := start.run run
  obtain ⟨flat, all⟩ : ∃ flat, (ls.foldl subscribed ([], 0)).1 = flat := ⟨_, rfl⟩
  have known : s.subs.allSubs = flat := by rw [← all, ← indexed.flat]
  obtain ⟨changes, written⟩ : ∃ changes, (s.write op).2 = changes := ⟨_, rfl⟩
  have begun := @notifying_call normcase s op
  rw [all, written] at *
  clear run all written
  subst known
  by_cases none : changes = []
  · -- Nothing is notified, and nobody is called.
    subst none
    rw [if_pos rfl] at begun
    refine iff_of_true (fun calls returns => ?_) fun _ _ _ _ member => by cases member
    cases returns with
    | returned => exact ⟨fun sub _ => by simp [Sub.calls, callsOf], fun _ member => by cases member⟩
    | step high =>
      rw [begun] at high
      exact absurd high (Nat.lt_irrefl _)
  rw [if_neg none] at begun
  have called : ∀ calls, Returns normcase s.notifying.length (s.call normcase op) calls →
      calls = notifications normcase s.subs changes := fun calls returns =>
    returns.calls_eq (show _ = [] ++ _ :: s.notifying from begun) rfl
  have here : ∀ sub ∈ s.subs.allSubs, callsOf sub.subId (notifications normcase s.subs changes) =
      sub.calls (Subscriptions.found normcase sub) changes := fun sub member =>
    callsOf_notifications indexed.filed indexed.held member none
  constructor
  · intro matched sub member glob change there
    obtain ⟨calls, returns⟩ := @exists_returns normcase _ _ _ begun
    have all := (matched calls returns).called sub member
    rw [called calls returns, here sub member] at all
    have finds := calls_inj all change there
    rwa [Subscriptions.found, glob] at finds
  · intro literal calls returns
    rw [called calls returns]
    refine ⟨fun sub member => ?_, known_of_notifications indexed.filed⟩
    rw [here sub member]
    refine calls_congr fun change there => ?_
    by_cases glob : classifyPattern sub.pattern = .glob
    · rw [Subscriptions.found, glob]
      exact literal sub member glob change there
    · exact finds_eq glob change.key

section Runs

def lamp : Text := text "var.lamp1"

def lit : Op := .set lamp (.flat (.bool true)) (text "api")

/-- An id that is gone, one that the key finds by its first letters, and one that it finds letter by letter. -/
def listeners : List Label :=
  [.subscribe (text "*") false, .subscribe (text "var.*") false, .unsubscribe 0, .subscribe (text "?ar.lamp[0-9]") true]

theorem matched_iff_literal_posix : ∃ s s', (machine id).run Run.always {} listeners = some s ∧
    s.next id (.call lit) = some s' ∧ (s.write lit).2 ≠ [] ∧ ∀ calls, Returns id s.notifying.length s' calls →
      Matched (listeners.foldl subscribed ([], 0)).1 (s.write lit).2 calls := by
  have run : ∃ s, (machine id).run Run.always {} listeners = some s ∧ (s.next id (.call lit)).isSome = true ∧
      (s.write lit).2.isEmpty = false := ⟨_, rfl, rfl, rfl⟩
  obtain ⟨s, run, begins, some_⟩ := run
  obtain ⟨s', begins⟩ := Option.isSome_iff_exists.mp begins
  have literal : Literal id (listeners.foldl subscribed ([], 0)).1 (s.write lit).2 := fun _ _ _ _ _ => rfl
  refine ⟨s, s', run, begins, ?_, (matched_iff_literal run begins).mpr literal⟩
  simpa using some_

/-- `os.path.normcase` where file names have no case. -/
def ntNormcase (name : Text) : Text :=
  name.map fun c => if c = 47 then 92 else if 65 ≤ c ∧ c ≤ 90 then c + 32 else c

/-- Where file names have no case, a listener of other letters is called. -/
theorem not_matched : ¬∀ (normcase : Text → Text) (ls : List Label) (op : Op) (s s' : StateStore) (calls : List Delivery),
    (machine normcase).run Run.always {} ls = some s → s.next normcase (.call op) = some s' →
    Returns normcase s.notifying.length s' calls → Matched (ls.foldl subscribed ([], 0)).1 (s.write op).2 calls := by
  intro all
  have run : ∃ s, (machine ntNormcase).run Run.always {} [.subscribe (text "var.Lamp?") false] = some s ∧
      ∃ s', s.next ntNormcase (.call lit) = some s' ∧
      Returns ntNormcase s.notifying.length s' [⟨0, [⟨lamp, .none, .bool true, text "api"⟩]⟩] ∧
      (s.write lit).2 = [⟨lamp, .none, .bool true, text "api"⟩] :=
    ⟨_, rfl, _, rfl, .step (l := .deliver) (Nat.lt_succ_self 0) rfl
      (.step (l := .deliver) (Nat.lt_succ_self 0) rfl (.returned (Nat.le_refl 0))), rfl⟩
  obtain ⟨s, run, s', begins, returns, changes⟩ := run
  have matched := all _ _ lit s s' _ run begins returns
  rw [changes] at matched
  have called := matched.called ⟨0, text "var.Lamp?", false⟩ List.mem_cons_self
  have silent : Sub.calls ⟨0, text "var.Lamp?", false⟩ (fun k => fnmatch id k (text "var.Lamp?"))
      [⟨lamp, .none, .bool true, text "api"⟩] = [] := rfl
  rw [silent] at called
  cases called

end Runs

end StateStore

end OpenAvc.State
