import Mathlib.Data.List.Induction
import Mathlib.Data.List.Infix
import OpenAvc.State.Store

/-! A transaction gives a listener each of its changes that the subscription covers, once. -/

namespace OpenAvc.State

/-- The changes of one key. -/
def ofKey (k : Text) (changes : List Change) : List Change :=
  changes.filter fun change => change.key = k

@[simp] theorem ofKey_nil (k : Text) : ofKey k [] = [] := rfl

@[simp] theorem ofKey_append (k : Text) (changes more : List Change) :
    ofKey k (changes ++ more) = ofKey k changes ++ ofKey k more := List.filter_append ..

theorem ofKey_eq_nil {k : Text} {changes : List Change} (other : ∀ change ∈ changes, change.key ≠ k) :
    ofKey k changes = [] :=
  List.filter_eq_nil_iff.mpr fun change member => by simpa using other change member

/-- The changes that calls give to a listener. -/
def givenTo (subId : Nat) (deliveries : List Delivery) : List Change :=
  (deliveries.filter fun delivery => delivery.subId = subId).flatMap (·.changes)

@[simp] theorem givenTo_nil (l : Nat) : givenTo l [] = [] := rfl

@[simp] theorem givenTo_append (l : Nat) (before after : List Delivery) :
    givenTo l (before ++ after) = givenTo l before ++ givenTo l after := by
  simp [givenTo]

theorem givenTo_cons (l : Nat) (delivery : Delivery) (rest : List Delivery) :
    givenTo l (delivery :: rest) = (if delivery.subId = l then delivery.changes else []) ++ givenTo l rest := by
  by_cases here : delivery.subId = l <;> simp [givenTo, here]

theorem mem_givenTo {l : Nat} {deliveries : List Delivery} {change : Change} (member : change ∈ givenTo l deliveries) :
    ∃ delivery ∈ deliveries, delivery.subId = l ∧ change ∈ delivery.changes := by
  obtain ⟨delivery, there, inside⟩ := List.mem_flatMap.mp member
  obtain ⟨there, here⟩ := List.mem_filter.mp there
  exact ⟨delivery, there, of_decide_eq_true here, inside⟩

namespace Subscriptions

/-- Does a change of the key go to the subscription? -/
def covers (normcase : Text → Text) (subs : Subscriptions) (subId : Nat) (k : Text) : Bool :=
  (subs.universalSubs ++ subs.matching normcase k).any fun sub => sub.subId = subId

/-- Each subscription stands once, in the bucket of its pattern, under an id of its own. -/
structure Filed (subs : Subscriptions) (nextSub : Nat) : Prop where
  placed : ∀ b, ∀ sub ∈ subs.bucket b, sub ∈ subs.allSubs ∧ classifyPattern sub.pattern = b
  distinct : ∀ b, (subs.bucket b).Nodup
  ids : ∀ sub ∈ subs.allSubs, ∀ other ∈ subs.allSubs, sub.subId = other.subId → sub = other
  known : ∀ sub ∈ subs.allSubs, sub.subId < nextSub

theorem bucket_setBucket (subs : Subscriptions) (l : List Sub) (place b : Bucket) :
    (subs.setBucket l place).bucket b = if b = place then l else subs.bucket b := by
  cases place <;> cases b <;> simp [setBucket, bucket, Function.update_apply]

theorem Filed.start : Filed {} 0 where
  placed b sub member := by cases b <;> cases member
  distinct b := by cases b <;> exact List.nodup_nil
  ids _ member := by cases member
  known _ member := by cases member

variable {normcase : Text → Text} {subs : Subscriptions} {nextSub : Nat}

theorem bucket_addSub (subs : Subscriptions) (sub : Sub) (b : Bucket) : (subs.addSub sub).bucket b =
    if b = classifyPattern sub.pattern then subs.bucket b ++ [sub] else subs.bucket b := by
  have kept : (subs.addSub sub).bucket b =
      (subs.setBucket (subs.bucket (classifyPattern sub.pattern) ++ [sub]) (classifyPattern sub.pattern)).bucket b := by
    cases b <;> rfl
  rw [kept, bucket_setBucket]
  split
  · rename_i here
    rw [here]
  · rfl

theorem Filed.addSub (filed : subs.Filed nextSub) (pattern : Text) (bulk : Bool) :
    (subs.addSub ⟨nextSub, pattern, bulk⟩).Filed (nextSub + 1) where
  placed b sub member := by
    rw [bucket_addSub] at member
    have old : sub ∈ subs.bucket b → sub ∈ subs.allSubs ++ [⟨nextSub, pattern, bulk⟩] ∧ classifyPattern sub.pattern = b :=
      fun member => ⟨List.mem_append_left _ (filed.placed b sub member).1, (filed.placed b sub member).2⟩
    split at member
    · rename_i here
      rcases List.mem_append.mp member with member | new
      · exact old member
      · rw [List.mem_singleton.mp new]
        exact ⟨List.mem_append_right _ List.mem_cons_self, here.symm⟩
    · exact old member
  distinct b := by
    rw [bucket_addSub]
    split
    · refine List.nodup_append'.mpr ⟨filed.distinct b, List.nodup_singleton _, fun sub member new => ?_⟩
      have below := filed.known sub (filed.placed b sub member).1
      rw [List.mem_singleton.mp new] at below
      exact absurd below (Nat.lt_irrefl _)
    · exact filed.distinct b
  ids sub member other there same := by
    rcases List.mem_append.mp member with member | new <;> rcases List.mem_append.mp there with there | new'
    · exact filed.ids sub member other there same
    · have below := filed.known sub member
      rw [same, List.mem_singleton.mp new'] at below
      exact absurd below (Nat.lt_irrefl _)
    · have below := filed.known other there
      rw [← same, List.mem_singleton.mp new] at below
      exact absurd below (Nat.lt_irrefl _)
    · rw [List.mem_singleton.mp new, List.mem_singleton.mp new']
  known sub member := by
    rcases List.mem_append.mp member with member | new
    · exact Nat.lt_succ_of_lt (filed.known sub member)
    · rw [List.mem_singleton.mp new]
      exact Nat.lt_succ_self _

theorem bucket_unsubscribe (filed : subs.Filed nextSub) (subId : Nat) (b : Bucket) :
    (subs.unsubscribe subId).bucket b = without subId (subs.bucket b) := by
  unfold unsubscribe
  split
  · rename_i unknown
    refine (List.filter_eq_self.mpr fun sub member => ?_).symm
    simpa using List.find?_eq_none.mp unknown sub (filed.placed b sub member).1
  · rename_i sub found
    have here : sub.subId = subId := by simpa using List.find?_some found
    have kept : ∀ l, ({ subs.setBucket l (classifyPattern sub.pattern) with
        allSubs := without subId subs.allSubs } : Subscriptions).bucket b =
        (subs.setBucket l (classifyPattern sub.pattern)).bucket b := fun l => by cases b <;> rfl
    rw [kept, bucket_setBucket]
    split
    · rename_i place
      rw [place]
    · rename_i elsewhere
      refine (List.filter_eq_self.mpr fun other member => ?_).symm
      obtain ⟨there, place⟩ := filed.placed b other member
      refine decide_eq_true fun same => elsewhere ?_
      rw [← place, filed.ids other there sub (List.mem_of_find?_eq_some found) (same.trans here.symm)]

theorem allSubs_unsubscribe (subs : Subscriptions) (subId : Nat) :
    (subs.unsubscribe subId).allSubs = without subId subs.allSubs := by
  unfold unsubscribe
  split
  · rename_i unknown
    refine (List.filter_eq_self.mpr fun sub member => ?_).symm
    simpa using List.find?_eq_none.mp unknown sub member
  · rfl

theorem mem_without {subId : Nat} {l : List Sub} {sub : Sub} :
    sub ∈ without subId l ↔ sub ∈ l ∧ sub.subId ≠ subId := by
  simp [without]

theorem Filed.unsubscribe (filed : subs.Filed nextSub) (subId : Nat) : (subs.unsubscribe subId).Filed nextSub where
  placed b sub member := by
    rw [bucket_unsubscribe filed, mem_without] at member
    rw [allSubs_unsubscribe, mem_without]
    exact ⟨⟨(filed.placed b sub member.1).1, member.2⟩, (filed.placed b sub member.1).2⟩
  distinct b := by
    rw [bucket_unsubscribe filed]
    exact (filed.distinct b).filter _
  ids sub member other there := by
    rw [allSubs_unsubscribe, mem_without] at member there
    exact filed.ids sub member.1 other there.1
  known sub member := by
    rw [allSubs_unsubscribe, mem_without] at member
    exact filed.known sub member.1

theorem nodup_inits {α : Type} (l : List α) : l.inits.Nodup := by
  induction l with
  | nil => exact List.nodup_singleton _
  | cons a l ih =>
    rw [List.inits_cons]
    have later : [] ∉ l.inits.map fun t => a :: t := by simp
    exact List.nodup_cons.mpr ⟨later, ih.map fun _ _ same => (List.cons.inj same).2⟩

/-- Walking the buckets for a key comes to no subscription twice. -/
theorem Filed.nodup_reached (filed : subs.Filed nextSub) (k : Text) :
    (subs.universalSubs ++ subs.matching normcase k).Nodup := by
  have universal := filed.placed .universal
  have exact := filed.placed (.exact k)
  have dotted : ∀ start, ∀ sub ∈ subs.prefixSubs start, classifyPattern sub.pattern = .prefixed start :=
    fun start sub member => (filed.placed (.prefixed start) sub member).2
  have glob := filed.placed .glob
  have prefixes : ((dottedPrefixes k).flatMap subs.prefixSubs).Nodup := by
    refine List.nodup_flatMap.mpr ⟨fun start _ => filed.distinct (.prefixed start), ?_⟩
    have apart : (dottedPrefixes k).Nodup := (nodup_inits k).filter _
    refine apart.imp fun {start other} distinct => ?_
    intro sub member there
    have place := dotted start sub member
    rw [dotted other sub there] at place
    cases place
    exact distinct rfl
  refine List.nodup_append'.mpr ⟨filed.distinct .universal, List.nodup_append'.mpr ⟨List.nodup_append'.mpr
    ⟨filed.distinct (.exact k), prefixes, fun sub member there => ?_⟩, (filed.distinct .glob).filter _,
    fun sub member there => ?_⟩, fun sub member there => ?_⟩
  · obtain ⟨start, _, there⟩ := List.mem_flatMap.mp there
    have place := (exact sub member).2
    rw [dotted start sub there] at place
    cases place
  · have place := (glob sub (List.mem_filter.mp there).1).2
    rcases List.mem_append.mp member with member | member
    · rw [(exact sub member).2] at place
      cases place
    · obtain ⟨start, _, member⟩ := List.mem_flatMap.mp member
      rw [dotted start sub member] at place
      cases place
  · have place := (universal sub member).2
    rcases List.mem_append.mp there with there | there
    · rcases List.mem_append.mp there with there | there
      · rw [(exact sub there).2] at place
        cases place
      · obtain ⟨start, _, there⟩ := List.mem_flatMap.mp there
        rw [dotted start sub there] at place
        cases place
    · rw [(glob sub (List.mem_filter.mp there).1).2] at place
      cases place

theorem Filed.reached_known (filed : subs.Filed nextSub) {k : Text} {sub : Sub}
    (member : sub ∈ subs.universalSubs ++ subs.matching normcase k) : sub ∈ subs.allSubs := by
  rcases List.mem_append.mp member with there | there
  · exact (filed.placed .universal sub there).1
  rcases List.mem_append.mp there with there | there
  · rcases List.mem_append.mp there with there | there
    · exact (filed.placed (.exact k) sub there).1
    · obtain ⟨start, _, there⟩ := List.mem_flatMap.mp there
      exact (filed.placed (.prefixed start) sub there).1
  · exact (filed.placed .glob sub (List.mem_filter.mp there).1).1

/-- Among the subscriptions that a key reaches, an id is found once or not at all. -/
theorem Filed.filter_id (filed : subs.Filed nextSub) (l : Nat) (k : Text) :
    (subs.universalSubs ++ subs.matching normcase k).filter (fun sub => sub.subId = l) = [] ∨
      ∃ sub, (subs.universalSubs ++ subs.matching normcase k).filter (fun sub => sub.subId = l) = [sub] := by
  have distinct := (@Filed.nodup_reached normcase subs nextSub filed k).filter fun sub => decide (sub.subId = l)
  cases found : (subs.universalSubs ++ subs.matching normcase k).filter (fun sub => sub.subId = l) with
  | nil => exact Or.inl rfl
  | cons sub rest =>
    refine Or.inr ⟨sub, ?_⟩
    cases rest with
    | nil => rfl
    | cons other rest =>
      have members : ∀ a ∈ [sub, other], a ∈ subs.allSubs ∧ a.subId = l := by
        intro a member
        have there : a ∈ (subs.universalSubs ++ subs.matching normcase k).filter fun sub => sub.subId = l := by
          rw [found]
          exact List.mem_of_mem_take (i := 2) member
        obtain ⟨there, here⟩ := List.mem_filter.mp there
        exact ⟨filed.reached_known there, of_decide_eq_true here⟩
      have first := members sub List.mem_cons_self
      have second := members other (List.mem_cons_of_mem _ List.mem_cons_self)
      have same := filed.ids sub first.1 other second.1 (first.2.trans second.2.symm)
      rw [found, same] at distinct
      exact absurd List.mem_cons_self (List.nodup_cons.mp distinct).1

theorem covers_iff {l : Nat} {k : Text} : subs.covers normcase l k = true ↔
    ∃ b, ∃ sub ∈ subs.bucket b, sub.subId = l ∧ b.finds normcase k sub.pattern = true := by
  simp only [covers, matching, List.any_append, Bool.or_eq_true, List.any_eq_true, decide_eq_true_eq,
    List.mem_flatMap, List.mem_filter]
  constructor
  · rintro (⟨sub, there, here⟩ | (⟨sub, there, here⟩ | ⟨sub, ⟨start, starts, there⟩, here⟩) | ⟨sub, ⟨there, found⟩, here⟩)
    · exact ⟨.universal, sub, there, here, rfl⟩
    · exact ⟨.exact k, sub, there, here, decide_eq_true rfl⟩
    · exact ⟨.prefixed start, sub, there, here, decide_eq_true starts⟩
    · exact ⟨.glob, sub, there, here, found⟩
  · rintro ⟨b, sub, there, here, finds⟩
    cases b with
    | universal => exact Or.inl ⟨sub, there, here⟩
    | exact key =>
      obtain rfl := of_decide_eq_true finds
      exact Or.inr (Or.inl (Or.inl ⟨sub, there, here⟩))
    | prefixed start => exact Or.inr (Or.inl (Or.inr ⟨sub, ⟨start, of_decide_eq_true finds, there⟩, here⟩))
    | glob => exact Or.inr (Or.inr ⟨sub, ⟨there, finds⟩, here⟩)

/-- Another subscription makes no difference to what a subscription covers. -/
theorem covers_congr {subs' : Subscriptions} {l : Nat}
    (kept : ∀ b, ∀ sub : Sub, sub.subId = l → (sub ∈ subs'.bucket b ↔ sub ∈ subs.bucket b)) (k : Text) :
    subs'.covers normcase l k = subs.covers normcase l k := by
  rw [Bool.eq_iff_iff, covers_iff, covers_iff]
  constructor
  · rintro ⟨b, sub, there, here, finds⟩
    exact ⟨b, sub, (kept b sub here).mp there, here, finds⟩
  · rintro ⟨b, sub, there, here, finds⟩
    exact ⟨b, sub, (kept b sub here).mpr there, here, finds⟩

theorem covers_addSub {l nextSub : Nat} (other : l ≠ nextSub) (pattern : Text) (bulk : Bool) (k : Text) :
    (subs.addSub ⟨nextSub, pattern, bulk⟩).covers normcase l k = subs.covers normcase l k := by
  refine covers_congr (fun b sub here => ?_) k
  rw [bucket_addSub]
  split
  · have distinct : sub ≠ ⟨nextSub, pattern, bulk⟩ := fun same => other (here.symm.trans (congrArg Sub.subId same))
    simp [distinct]
  · rfl

theorem Filed.covers_unsubscribe (filed : subs.Filed nextSub) {l subId : Nat} (other : l ≠ subId) (k : Text) :
    (subs.unsubscribe subId).covers normcase l k = subs.covers normcase l k := by
  refine covers_congr (fun b sub here => ?_) k
  have distinct : sub.subId ≠ subId := fun same => other (here.symm.trans same)
  rw [bucket_unsubscribe filed, mem_without]
  exact and_iff_left distinct

theorem Filed.covers_gone (filed : subs.Filed nextSub) (subId : Nat) (k : Text) :
    (subs.unsubscribe subId).covers normcase subId k = false := by
  refine Bool.eq_false_iff.mpr fun covered => ?_
  obtain ⟨b, sub, there, here, _⟩ := covers_iff.mp covered
  rw [bucket_unsubscribe filed, mem_without] at there
  exact there.2 here

theorem Filed.covers_fresh (filed : subs.Filed nextSub) {l : Nat} (fresh : nextSub ≤ l) (k : Text) :
    subs.covers normcase l k = false := by
  refine Bool.eq_false_iff.mpr fun covered => ?_
  obtain ⟨b, sub, there, rfl, _⟩ := covers_iff.mp covered
  exact absurd (filed.known sub (filed.placed b sub there).1) (Nat.not_lt.mpr fresh)

end Subscriptions

/-- The changes that stand with a subscription. -/
def ofSub (l : Nat) (matched : List (Sub × Change)) : List Change :=
  (matched.filter fun u => u.1.subId = l).map Prod.snd

theorem givenTo_universal (l : Nat) (changes : List Change) (subs : List Sub) :
    givenTo l (subs.flatMap fun sub =>
      if sub.bulk then [⟨sub.subId, changes⟩] else changes.map fun change => ⟨sub.subId, [change]⟩) =
      (subs.filter fun sub => sub.subId = l).flatMap fun _ => changes := by
  have single : ∀ (subId : Nat), givenTo l (changes.map fun change => (⟨subId, [change]⟩ : Delivery)) =
      if subId = l then changes else [] := by
    intro subId
    induction changes with
    | nil => simp
    | cons change changes ih => by_cases here : subId = l <;> simp_all [givenTo_cons]
  induction subs with
  | nil => rfl
  | cons sub subs ih =>
    rw [List.flatMap_cons, givenTo_append, ih]
    by_cases here : sub.subId = l <;> cases sub.bulk <;> simp [here, single, givenTo_cons]

theorem givenTo_perKey (l : Nat) (matched : List (Sub × Change)) :
    givenTo l (matched.map fun (sub, change) => ⟨sub.subId, [change]⟩) = ofSub l matched := by
  induction matched with
  | nil => rfl
  | cons u matched ih =>
    rw [List.map_cons, givenTo_cons, ih]
    by_cases here : u.1.subId = l <;> simp [here, ofSub]

/-- Each bulk subscription has a bucket of its own, and in it its changes in their order. -/
theorem bulkBuckets_spec (matched : List (Sub × Change)) : ((bulkBuckets matched).map Prod.fst).Nodup ∧
    ∀ l, ((bulkBuckets matched).lookup l).getD [] = ofSub l matched := by
  induction matched using List.reverseRecOn with
  | nil => exact ⟨List.nodup_nil, fun _ => rfl⟩
  | append_singleton matched u ih =>
    have step : bulkBuckets (matched ++ [u]) = Dict.set (bulkBuckets matched) u.1.subId
        (((bulkBuckets matched).lookup u.1.subId).getD [] ++ [u.2]) := by
      simp [bulkBuckets]
    rw [step]
    refine ⟨Dict.nodup_set ih.1 _ _, fun l => ?_⟩
    by_cases here : l = u.1.subId
    · subst here
      simp [ih.2, ofSub]
    · rw [Dict.lookup_set_of_ne here, ih.2]
      simp [ofSub, Ne.symm here]

theorem givenTo_dict (l : Nat) {buckets : List (Nat × List Change)} (distinct : (buckets.map Prod.fst).Nodup) :
    givenTo l (buckets.map fun (subId, changes) => ⟨subId, changes⟩) = (buckets.lookup l).getD [] := by
  induction buckets with
  | nil => rfl
  | cons u buckets ih =>
    obtain ⟨subId, changes⟩ := u
    obtain ⟨apart, distinct⟩ := List.nodup_cons.mp distinct
    rw [List.map_cons, givenTo_cons, ih distinct]
    by_cases here : l = subId
    · subst here
      have missing : buckets.lookup l = none :=
        List.lookup_eq_none_of_forall fun u member same => apart (List.mem_map.mpr ⟨u, member, same⟩)
      simp [missing]
    · simp [List.lookup_cons, beq_eq_false_iff_ne.mpr here, Ne.symm here]

variable {normcase : Text → Text} {subs : Subscriptions} {nextSub : Nat}

/-- The changes of a transaction with the subscriptions that its keys find. -/
def matched (normcase : Text → Text) (subs : Subscriptions) (changes : List Change) : List (Sub × Change) :=
  changes.flatMap fun change => (subs.matching normcase change.key).map fun sub => (sub, change)

theorem ofKey_ofSub_matched (l : Nat) (k : Text) (p : Sub → Bool) (changes : List Change) :
    ofKey k (ofSub l ((matched normcase subs changes).filter fun u => p u.1)) = (ofKey k changes).flatMap fun change =>
      (((subs.matching normcase k).filter fun sub => sub.subId = l).filter p).map fun _ => change := by
  induction changes with
  | nil => rfl
  | cons change changes ih =>
    have split : ofKey k (ofSub l ((matched normcase subs (change :: changes)).filter fun u => p u.1)) =
        ofKey k (ofSub l (((subs.matching normcase change.key).map fun sub => (sub, change)).filter fun u => p u.1)) ++
        ofKey k (ofSub l ((matched normcase subs changes).filter fun u => p u.1)) := by
      simp [matched, ofSub]
    have own : ofSub l (((subs.matching normcase change.key).map fun sub => (sub, change)).filter fun u => p u.1) =
        (((subs.matching normcase change.key).filter fun sub => sub.subId = l).filter p).map fun _ => change := by
      simp [ofSub, List.filter_map, List.filter_filter, Function.comp_def, Bool.and_comm]
    rw [split, ih, own]
    by_cases here : change.key = k
    · subst here
      have kept : ∀ subs : List Sub, ofKey change.key (subs.map fun _ => change) = subs.map fun _ => change :=
        fun subs => List.filter_eq_self.mpr fun c member => by
          obtain ⟨_, _, rfl⟩ := List.mem_map.mp member
          exact decide_eq_true rfl
      rw [kept]
      simp [ofKey]
    · have dropped : ofKey k ((((subs.matching normcase change.key).filter fun sub =>
          sub.subId = l).filter p).map fun _ => change) = [] := ofKey_eq_nil fun c member => by
        obtain ⟨_, _, rfl⟩ := List.mem_map.mp member
        exact here
      rw [dropped]
      simp [ofKey, here]

/-- A listener is given the changes of each key that it covers, in their order, and no others. -/
theorem givenTo_notifications (filed : subs.Filed nextSub) (l : Nat) (k : Text) (changes : List Change) :
    ofKey k (givenTo l (notifications normcase subs changes)) =
      if subs.covers normcase l k then ofKey k changes else [] := by
  have whole : ofKey k (givenTo l (notifications normcase subs changes)) =
      ((subs.universalSubs.filter fun sub => sub.subId = l).flatMap fun _ => ofKey k changes) ++
      ((ofKey k changes).flatMap fun change =>
        (((subs.matching normcase k).filter fun sub => sub.subId = l).filter fun sub => !sub.bulk).map fun _ => change) ++
      (ofKey k changes).flatMap fun change =>
        (((subs.matching normcase k).filter fun sub => sub.subId = l).filter fun sub => sub.bulk).map fun _ => change := by
    have dict := bulkBuckets_spec ((matched normcase subs changes).filter fun u => u.1.bulk)
    have outer : ∀ subs : List Sub, ofKey k (subs.flatMap fun _ => changes) = subs.flatMap fun _ => ofKey k changes := by
      intro subs
      induction subs with
      | nil => rfl
      | cons _ subs ih => rw [List.flatMap_cons, ofKey_append, ih, List.flatMap_cons]
    simp only [notifications, givenTo_append, ofKey_append]
    rw [givenTo_universal, outer, ← ofKey_ofSub_matched l k (fun sub => !sub.bulk),
      ← ofKey_ofSub_matched l k (fun sub => sub.bulk), ← givenTo_perKey, ← dict.2 l, ← givenTo_dict l dict.1]
    rfl
  rw [whole]
  rcases @Subscriptions.Filed.filter_id normcase subs nextSub filed l k with none | ⟨sub, one⟩
  · have uncovered : subs.covers normcase l k = false := List.any_eq_false.mpr fun sub member =>
      List.filter_eq_nil_iff.mp none sub member
    rw [List.filter_append] at none
    obtain ⟨universal, matching⟩ := List.append_eq_nil_iff.mp none
    simp [universal, matching, uncovered]
  · have covered : subs.covers normcase l k = true := by
      have member : sub ∈ (subs.universalSubs ++ subs.matching normcase k).filter fun sub => sub.subId = l := by
        rw [one]
        exact List.mem_cons_self
      exact List.any_eq_true.mpr ⟨sub, List.mem_filter.mp member⟩
    rw [List.filter_append] at one
    rcases List.append_eq_singleton_iff.mp one with ⟨universal, matching⟩ | ⟨universal, matching⟩
    · rw [universal, matching, covered]
      cases bulk : sub.bulk
      · have perKey : [sub].filter (fun sub => !sub.bulk) = [sub] := by simp [bulk]
        have gathered : [sub].filter (fun sub => sub.bulk) = [] := by simp [bulk]
        rw [perKey, gathered]
        simp
      · have perKey : [sub].filter (fun sub => !sub.bulk) = [] := by simp [bulk]
        have gathered : [sub].filter (fun sub => sub.bulk) = [sub] := by simp [bulk]
        rw [perKey, gathered]
        simp
    · simp [universal, matching, covered]

end OpenAvc.State
