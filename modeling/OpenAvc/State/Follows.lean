import Mathlib.Logic.Relation
import OpenAvc.State.Bindings
import OpenAvc.State.Matching
import OpenAvc.State.Order

/-! What a bound variable holds. -/

namespace OpenAvc.State

/-- A value, where two floats of one number are the same. -/
def canonical : Value → Value × Option ℚ
  | .float d => (.none, some d.value)
  | v => (v, none)

/-- `old_value == value and type(old_value) is type(value)`, for NaN too -/
def Alike (v w : Value) : Prop :=
  canonical v = canonical w

instance (v w : Value) : Decidable (Alike v w) := inferInstanceAs (Decidable (canonical v = canonical w))

theorem alike_of_unchanged {v w : Value} (same : v.unchanged w = true) : Alike v w := by
  unfold Cloud.Primitive.unchanged at same
  split at same
  · rw [Alike, canonical, canonical, of_decide_eq_true same]
  · cases same
  · rw [of_decide_eq_true same]
    rfl

/-- `b'` is bound to the variable that `b` writes. -/
def Feeds (l : List Binding) (b b' : Binding) : Prop :=
  b ∈ l ∧ b' ∈ l ∧ b'.source = b.key

def OnCycle (l : List Binding) (b : Binding) : Prop :=
  Relation.TransGen (Feeds l) b b

theorem OnCycle.mono {l l' : List Binding} {b : Binding} (within : l ⊆ l') (cycle : OnCycle l b) : OnCycle l' b :=
  Relation.TransGen.mono (p := Feeds l') (fun _ _ feeds => ⟨within feeds.1, within feeds.2.1, feeds.2.2⟩) _ _ cycle

/-- A variable that nothing is bound to is on no cycle. -/
theorem not_onCycle {l : List Binding} {b : Binding} (unfed : ∀ b' ∈ l, b'.source ≠ b.key) : ¬OnCycle l b := by
  intro cycle
  obtain ⟨b', feeds, _⟩ := Relation.TransGen.head'_iff.mp cycle
  exact unfed b' feeds.2.1 feeds.2.2

theorem source_ne_key {l : List Binding} {b : Binding} (member : b ∈ l) (acyclic : ¬OnCycle l b) : b.source ≠ b.key :=
  fun same => acyclic (.single ⟨member, member, same⟩)

/-! ### What a dict changes -/

theorem keys_apply (s : StateStore) (key source : Text) (value : Written) :
    ((s.apply key source value).2.map Change.key).Sublist [key] := by
  cases value with
  | nested => exact List.nil_sublist _
  | flat value =>
    rw [StateStore.apply]
    split
    · exact List.nil_sublist _
    · exact List.Sublist.refl _

theorem keys_write (s : StateStore) {op : Op} (dict : op.isDict = true) : ((s.write op).2.map Change.key).Nodup := by
  cases op with
  | set key value source => exact (List.nodup_singleton key).sublist (keys_apply s key source value)
  | setBatch updates source =>
    have loop : ∀ (updates : List (Text × Written)) (middle : StateStore) (changes : List Change),
        ((updates.foldl (fun last u =>
          ((last.1.apply u.1 source u.2).1, last.2 ++ (last.1.apply u.1 source u.2).2)) (middle, changes)).2.map Change.key).Sublist
          (changes.map Change.key ++ updates.map Prod.fst) := by
      intro updates
      induction updates with
      | nil => exact fun middle changes => by simp
      | cons u updates ih =>
        intro middle changes
        refine (ih _ _).trans ?_
        have here := keys_apply middle u.1 source u.2
        rw [List.map_append, List.append_assoc]
        exact (List.Sublist.refl _).append (here.append (List.Sublist.refl _))
    have keys := loop updates s []
    rw [List.map_nil, List.nil_append] at keys
    exact (of_decide_eq_true dict : (updates.map Prod.fst).Nodup).sublist keys
  | delete key source =>
    rw [StateStore.write]
    split
    · exact List.nodup_nil
    · exact List.nodup_singleton key

/-- A dict changes a key once or not at all. -/
theorem change_of_key (s : StateStore) {op : Op} (dict : op.isDict = true) (k : Text) :
    ((∀ c ∈ (s.write op).2, c.key ≠ k) ∧ (s.write op).1.get k = s.get k) ∨
      ∃ c ∈ (s.write op).2, c.key = k ∧ c.old = s.get k ∧ c.new = (s.write op).1.get k ∧
        ∀ c' ∈ (s.write op).2, c'.key = k → c' = c := by
  have leads := (StateStore.wrote_write s op).leads k
  cases shape : ofKey k (s.write op).2 with
  | nil =>
    rw [shape] at leads
    exact Or.inl ⟨fun c member same => absurd (decide_eq_true same) (List.filter_eq_nil_iff.mp shape c member), leads.symm⟩
  | cons c rest =>
    have inside : c ∈ ofKey k (s.write op).2 := by
      rw [shape]
      exact List.mem_cons_self
    obtain ⟨member, same⟩ := List.mem_filter.mp inside
    have only (c' : Change) (member' : c' ∈ (s.write op).2) (same' : c'.key = k) : c' = c :=
      List.inj_on_of_nodup_map (keys_write s dict) member' member (same'.trans (of_decide_eq_true same).symm)
    have single : rest = [] := by
      have distinct : (ofKey k (s.write op).2).Nodup := (List.Nodup.of_map _ (keys_write s dict)).filter _
      rw [shape, List.nodup_cons] at distinct
      refine List.eq_nil_iff_forall_not_mem.mpr fun c' later => ?_
      have inside' : c' ∈ ofKey k (s.write op).2 := by
        rw [shape]
        exact List.mem_cons_of_mem c later
      obtain ⟨member', same'⟩ := List.mem_filter.mp inside'
      rw [only c' member' (of_decide_eq_true same')] at later
      exact distinct.1 later
    rw [shape, single] at leads
    exact Or.inr ⟨c, member, of_decide_eq_true same, leads.1, leads.2, only⟩

theorem subs_write (s : StateStore) (op : Op) : (s.write op).1.subs = s.subs ∧ (s.write op).1.nextSub = s.nextSub := by
  have same := (StateStore.wrote_write s op).same
  constructor
  · rw [same]
  · rw [same]

theorem alike_refl (v : Value) : Alike v v := rfl

/-- What was set is read, as far as a change can be told. -/
theorem get_set (s : StateStore) (key source : Text) (value : Value) :
    Alike ((s.write (.set key (.flat value) source)).1.get key) value := by
  rw [StateStore.write, StateStore.apply]
  split
  · rename_i holds
    rw [StateStore.get]
    cases there : s.store.lookup key with
    | none =>
      rw [StateStore.holds, there] at holds
      cases holds
    | some old =>
      rw [StateStore.holds, there] at holds
      exact alike_of_unchanged holds
  · rw [StateStore.get]
    show Alike (((Dict.set s.store key value).lookup key).getD .none) value
    rw [Dict.lookup_set_self]
    rfl

theorem changes_set (s : StateStore) (key source : Text) (value : Written) :
    ∀ c ∈ (s.write (.set key value source)).2, c.key = key := by
  intro c member
  have keys := (keys_apply s key source value).subset (List.mem_map_of_mem member)
  exact List.mem_singleton.mp keys

/-! ### The handler of a binding is called for its source -/

theorem found_source {normcase : Text → Text} {b : Binding} (plain : b.source.any globChars.contains = false) (k : Text) :
    Subscriptions.found normcase ⟨b.subId, b.source, false⟩ k = decide (k = b.source) := by
  have other : b.source ≠ text "*" := by
    intro same
    rw [same] at plain
    exact absurd plain (by decide)
  have exact_ : classifyPattern b.source = .exact b.source := by
    rw [classifyPattern, if_neg other, plain]
    rfl
  simp only [Subscriptions.found, exact_, Bucket.finds]
  exact decide_eq_decide.mpr eq_comm

theorem delivery_iff {normcase : Text → Text} {subs : Subscriptions} {nextSub : Nat} (filed : subs.Filed nextSub) (held : subs.Held)
    {b : Binding} (registered : ⟨b.subId, b.source, false⟩ ∈ subs.allSubs) (plain : b.source.any globChars.contains = false)
    {changes : List Change} (some_ : changes ≠ []) (d : Delivery) :
    d ∈ notifications normcase subs changes ∧ d.subId = b.subId ↔ ∃ c ∈ changes, c.key = b.source ∧ d = ⟨b.subId, [c]⟩ := by
  have calls := @callsOf_notifications normcase subs nextSub filed held _ registered changes some_
  have member : d ∈ notifications normcase subs changes ∧ d.subId = b.subId ↔
      d ∈ callsOf b.subId (notifications normcase subs changes) := by
    rw [callsOf, List.mem_filter, decide_eq_true_iff]
  rw [member, calls]
  simp only [Sub.calls, found_source plain, Bool.false_eq_true, if_false, List.mem_map, List.mem_filter, decide_eq_true_iff]
  constructor
  · rintro ⟨c, ⟨there, here⟩, same⟩
    exact ⟨c, there, here, same.symm⟩
  · rintro ⟨c, there, here, same⟩
    exact ⟨c, ⟨there, here⟩, same.symm⟩

end OpenAvc.State
