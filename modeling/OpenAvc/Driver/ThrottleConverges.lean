import OpenAvc.Driver.Throttle

/-! Once nothing is held each key has what the messages have said last. -/

namespace OpenAvc.Driver

open Cloud (Primitive)

/-- The writes of a flush, one key after another. -/
def offer (before : Store) (writes : List (Key × Primitive)) (store : Store) : Store :=
  writes.foldl (fun store u => if equals (store u.1) (before u.1) then Function.update store u.1 u.2 else store) store

theorem put_cons {β : Type} (u : Key × β) (writes : List (Key × β)) (f : Key → β) :
    put (u :: writes) f = put writes (Function.update f u.1 u.2) := rfl

theorem offer_cons (before : Store) (u : Key × Primitive) (writes : List (Key × Primitive)) (store : Store) :
    offer before (u :: writes) store = offer before writes
      (if equals (store u.1) (before u.1) then Function.update store u.1 u.2 else store) := rfl

theorem put_of_not_mem {β : Type} {writes : List (Key × β)} {k : Key} (other : k ∉ writes.map Prod.fst) (f : Key → β) :
    put writes f k = f k := by
  induction writes generalizing f with
  | nil => rfl
  | cons u writes ih =>
    rw [List.map_cons, List.mem_cons, not_or] at other
    rw [put_cons, ih other.2, Function.update_of_ne other.1]

/-- What a key gets does not depend on what it had. -/
theorem put_of_mem {writes : List (Key × Primitive)} {k : Key} (member : k ∈ writes.map Prod.fst) (store : Store)
    (latest : Key → Option Primitive) :
    put (writes.map fun u => (u.1, some u.2)) latest k = some (put writes store k) := by
  induction writes generalizing store latest with
  | nil => cases member
  | cons u writes ih =>
    rw [List.map_cons, put_cons, put_cons]
    by_cases later : k ∈ writes.map Prod.fst
    · exact ih later _ _
    · have first : k = u.1 := by
        rw [List.map_cons, List.mem_cons] at member
        exact member.resolve_right later
      have keys : (writes.map fun u => (u.1, some u.2)).map Prod.fst = writes.map Prod.fst := by
        rw [List.map_map]
        rfl
      rw [put_of_not_mem later, put_of_not_mem (by rw [keys]; exact later), first, Function.update_self,
        Function.update_self]

/-- With each key once, it gets its own value. -/
theorem put_of_nodup {writes : List (Key × Primitive)} (nodup : (writes.map Prod.fst).Nodup) {k : Key} {v : Primitive}
    (member : (k, v) ∈ writes) (store : Store) : put writes store k = v := by
  induction writes generalizing store with
  | nil => cases member
  | cons u writes ih =>
    rw [List.map_cons, List.nodup_cons] at nodup
    rw [put_cons]
    rcases List.mem_cons.mp member with rfl | later
    · rw [put_of_not_mem nodup.1, Function.update_self]
    · exact ih nodup.2 later _

theorem offer_of_not_mem {before : Store} {writes : List (Key × Primitive)} {k : Key} (other : k ∉ writes.map Prod.fst)
    (store : Store) : offer before writes store k = store k := by
  induction writes generalizing store with
  | nil => rfl
  | cons u writes ih =>
    rw [List.map_cons, List.mem_cons, not_or] at other
    rw [offer_cons, ih other.2]
    split
    · exact Function.update_of_ne other.1 _ _
    · rfl

theorem offer_of_mem {before : Store} {writes : List (Key × Primitive)} (nodup : (writes.map Prod.fst).Nodup) {k : Key}
    {v : Primitive} (member : (k, v) ∈ writes) (store : Store) :
    offer before writes store k = if equals (store k) (before k) then v else store k := by
  induction writes generalizing store with
  | nil => cases member
  | cons u writes ih =>
    rw [List.map_cons, List.nodup_cons] at nodup
    rw [offer_cons]
    rcases List.mem_cons.mp member with rfl | later
    · rw [offer_of_not_mem nodup.1]
      split
      · exact Function.update_self _ _ _
      · rfl
    · have other : k ≠ u.1 := by
        rintro rfl
        exact nodup.1 (List.mem_map.mpr ⟨_, later, rfl⟩)
      rw [ih nodup.2 later]
      split
      · rw [Function.update_of_ne other]
      · rfl

/-- A batch is written as its keys would be one by one, if each is there once. -/
theorem put_filter_eq_offer {before : Store} {writes : List (Key × Primitive)} (nodup : (writes.map Prod.fst).Nodup)
    (store : Store) :
    put (writes.filter fun u => equals (store u.1) (before u.1)) store = offer before writes store := by
  funext k
  by_cases member : k ∈ writes.map Prod.fst
  · obtain ⟨⟨k, v⟩, written, rfl⟩ := List.mem_map.mp member
    have sub := (List.filter_sublist (p := fun u : Key × Primitive => equals (store u.1) (before u.1)) (l := writes)).map Prod.fst
    rw [offer_of_mem nodup written]
    split
    · rename_i same
      exact put_of_nodup (nodup.sublist sub) (List.mem_filter.mpr ⟨written, same⟩) store
    · rename_i different
      apply put_of_not_mem
      intro inside
      obtain ⟨w, kept, key⟩ := List.mem_map.mp inside
      have same := (List.mem_filter.mp kept).2
      rw [key] at same
      exact different same
  · rw [offer_of_not_mem member]
    apply put_of_not_mem
    intro inside
    obtain ⟨w, kept, rfl⟩ := List.mem_map.mp inside
    exact member (List.mem_map_of_mem (List.mem_filter.mp kept).1)

theorem offer_append (before : Store) (writes more : List (Key × Primitive)) (store : Store) :
    offer before (writes ++ more) store = offer before more (offer before writes store) :=
  List.foldl_append

namespace Responses

variable (s : Responses)

/-- The store after the held writes of a scope have been looked at. -/
theorem flush_store (held : Held) (nodup : held.hit.keys.Nodup) :
    held.hit.children.foldl (fun (store : Store) c =>
        let kept := c.2.filter fun u => equals (store (.child c.1 u.1)) (held.before (.child c.1 u.1))
        put (kept.map fun u => (.child c.1 u.1, u.2)) store)
      (held.hit.flat.foldl (fun (store : Store) u =>
        if equals (store (.state u.1)) (held.before (.state u.1)) then Function.update store (.state u.1) u.2 else store)
        s.store) = offer held.before held.hit.writes s.store := by
  have flat : held.hit.flat.foldl (fun (store : Store) u =>
      if equals (store (.state u.1)) (held.before (.state u.1)) then Function.update store (.state u.1) u.2 else store)
      s.store = offer held.before (held.hit.flat.map fun u => (.state u.1, u.2)) s.store := by
    rw [offer, List.foldl_map]
  have children (l : List ((Text × Text) × List (Text × Primitive))) (store : Store)
      (nodup : ((l.flatMap fun c => c.2.map fun u => (Key.child c.1 u.1, u.2)).map Prod.fst).Nodup) :
      l.foldl (fun (store : Store) c =>
        let kept := c.2.filter fun u => equals (store (.child c.1 u.1)) (held.before (.child c.1 u.1))
        put (kept.map fun u => (.child c.1 u.1, u.2)) store) store =
      offer held.before (l.flatMap fun c => c.2.map fun u => (.child c.1 u.1, u.2)) store := by
    induction l generalizing store with
    | nil => rfl
    | cons c l ih =>
      rw [List.flatMap_cons, List.map_append] at nodup
      have parts := List.nodup_append.mp nodup
      rw [List.foldl_cons, ih _ parts.2.1, List.flatMap_cons, offer_append]
      have batch := @put_filter_eq_offer held.before _ parts.1 store
      rw [List.filter_map] at batch
      rw [← batch]
      rfl
  rw [Hit.keys, Hit.writes, List.map_append] at nodup
  rw [flat, children _ _ (List.nodup_append.mp nodup).2.1, ← offer_append, Hit.writes]

/-- Inside the window of its scope. -/
def holds (window : Option Int) (slot : Slot) : Bool :=
  window.any fun window => (s.last slot).any fun last => s.now - last < window

/-- What is no longer held once a rule has matched, and what still is. -/
def gone (window : Option Int) (slot : Slot) : List (Slot × Held) :=
  if window.isNone then [] else s.pending.filter (·.1 = slot)

def stay (window : Option Int) (slot : Slot) : List (Slot × Held) :=
  if window.isNone then s.pending else s.pending.filter (·.1 ≠ slot)

variable {s}

theorem take_latest (window : Option Int) (slot : Slot) (hit : Hit) :
    (s.take window slot hit).latest = put (hit.writes.map fun u => (u.1, some u.2)) s.latest := by
  unfold take
  have same : (s.throttleHold window slot hit).2.latest = s.latest := by
    unfold throttleHold
    split
    · rfl
    · rfl
    · split <;> rfl
  rw [← same]

/-- Inside its window a rule holds its writes, and outside it drops what it held. -/
theorem throttleHold_eq (window : Option Int) (slot : Slot) (hit : Hit) :
    (s.throttleHold window slot hit).1 = s.holds window slot ∧
      (s.throttleHold window slot hit).2.store = s.store ∧
      (s.throttleHold window slot hit).2.pending =
        if s.holds window slot then (slot, s.hold hit) :: s.stay window slot else s.stay window slot := by
  unfold holds stay
  cases window with
  | none => exact ⟨rfl, rfl, rfl⟩
  | some window =>
    unfold throttleHold
    cases atLast : s.last slot with
    | none => exact ⟨rfl, rfl, rfl⟩
    | some last =>
      rcases lt_or_ge (s.now - last) window with early | late
      · have inside : (some window).any (fun window => (some last).any fun last => s.now - last < window) = true :=
          decide_eq_true early
        dsimp only
        rw [if_neg (by omega), inside, if_pos rfl]
        exact ⟨rfl, rfl, rfl⟩
      · have outside : (some window).any (fun window => (some last).any fun last => s.now - last < window) = false :=
          decide_eq_false (by omega)
        dsimp only
        rw [if_pos late, outside, if_neg (by decide)]
        exact ⟨rfl, rfl, rfl⟩

theorem take_of_holds {window : Option Int} {slot : Slot} (inside : s.holds window slot = true) (hit : Hit) :
    (s.take window slot hit).store = s.store ∧
      (s.take window slot hit).pending = (slot, s.hold hit) :: s.stay window slot := by
  obtain ⟨held, store, pending⟩ := @throttleHold_eq s window slot hit
  rw [inside] at held
  rw [inside, if_pos rfl] at pending
  unfold take
  dsimp only
  rw [held, if_pos rfl]
  exact ⟨store, pending⟩

theorem take_of_open {window : Option Int} {slot : Slot} (outside : s.holds window slot = false) (hit : Hit) :
    (s.take window slot hit).store = put hit.writes s.store ∧ (s.take window slot hit).pending = s.stay window slot := by
  obtain ⟨held, store, pending⟩ := @throttleHold_eq s window slot hit
  rw [outside] at held
  rw [outside, if_neg (by decide)] at pending
  unfold take
  dsimp only
  rw [held, if_neg (by decide)]
  exact ⟨congrArg (put hit.writes) store, pending⟩

/-- A rule may match now: what it replaces is not needed any more, and what others hold
will be seen to be older. -/
def cleanTake (s : Responses) (window : Option Int) (slot : Slot) (hit : Hit) : Bool :=
  ((s.gone window slot).all fun q => q.2.hit.writes.all fun u =>
    u.1 ∈ hit.keys ∨ ¬equals (s.store u.1) (q.2.before u.1) ∨ u.2 = s.store u.1) ∧
  ((s.stay window slot).all fun q => q.2.hit.keys.all fun k =>
    k ∉ hit.keys ∨ (¬equals (put hit.writes s.store k) (q.2.before k) ∧
      (s.holds window slot → ¬equals (s.store k) (q.2.before k)))) ∧
  (s.holds window slot → hit.keys.Nodup ∧ (hit.children.map Prod.fst).Nodup ∧
    hit.keys.all fun k => equals (s.store k) (s.store k))

/-- Where the latest value of each key is: in the store, with all that is held known to be
older, or held itself, to be written over what the store has. -/
structure Books (s : Responses) : Prop where
  nodup : (s.pending.map Prod.fst).Nodup
  keys : ∀ q ∈ s.pending, q.2.hit.keys.Nodup
  known : ∀ q ∈ s.pending, ∀ k ∈ q.2.hit.keys, (s.latest k).isSome
  settled : ∀ k v, s.latest k = some v →
    (s.store k = v ∧ ∀ q ∈ s.pending, k ∈ q.2.hit.keys → equals v (q.2.before k) = false) ∨
    ∃ p ∈ s.pending, (k, v) ∈ p.2.hit.writes ∧ equals (s.store k) (p.2.before k) = true ∧
      ∀ q ∈ s.pending, q.1 ≠ p.1 → k ∈ q.2.hit.keys →
        equals (s.store k) (q.2.before k) = false ∧ equals v (q.2.before k) = false

theorem Books.start (now : Int) (store : Store) : Books { now, store } where
  nodup := List.nodup_nil
  keys _ other := by cases other
  known _ other := by cases other
  settled _ _ other := by cases other

theorem mem_stay {window : Option Int} {slot : Slot} {q : Slot × Held} (member : q ∈ s.stay window slot) :
    q ∈ s.pending := by
  unfold stay at member
  split at member
  · exact member
  · exact (List.mem_filter.mp member).1

theorem mem_gone_or_stay (window : Option Int) (slot : Slot) {q : Slot × Held} (member : q ∈ s.pending) :
    q ∈ s.gone window slot ∨ q ∈ s.stay window slot := by
  unfold gone stay
  split
  · exact Or.inr member
  · by_cases same : q.1 = slot
    · exact Or.inl (List.mem_filter.mpr ⟨member, decide_eq_true same⟩)
    · exact Or.inr (List.mem_filter.mpr ⟨member, decide_eq_true same⟩)

/-- What goes is of the same scope, and what stays is not. -/
theorem ne_of_gone_of_stay {window : Option Int} {slot : Slot} {p q : Slot × Held} (gone : p ∈ s.gone window slot)
    (stay : q ∈ s.stay window slot) : q.1 ≠ p.1 := by
  unfold Responses.gone at gone
  unfold Responses.stay at stay
  split at gone
  · cases gone
  · rename_i throttled
    rw [if_neg throttled] at stay
    rw [of_decide_eq_true (List.mem_filter.mp gone).2]
    exact of_decide_eq_true (List.mem_filter.mp stay).2

theorem nodup_stay (B : Books s) (window : Option Int) (slot : Slot) : ((s.stay window slot).map Prod.fst).Nodup := by
  unfold stay
  split
  · exact B.nodup
  · exact B.nodup.sublist (List.filter_sublist.map Prod.fst)

theorem lookup_map_self {α β : Type} [BEq α] [LawfulBEq α] (l : List (α × β)) (f : α → Primitive) {k : α}
    (member : k ∈ l.map Prod.fst) : (l.map fun u => (u.1, f u.1)).lookup k = some (f k) := by
  induction l with
  | nil => cases member
  | cons u l ih =>
    rw [List.map_cons, List.lookup_cons]
    by_cases first : k = u.1
    · rw [first, beq_self_eq_true]
    · rw [List.map_cons, List.mem_cons] at member
      rw [beq_eq_false_iff_ne.mpr first]
      exact ih (member.resolve_left first)

/-- A held write knows what its keys had. -/
theorem hold_before {hit : Hit} (children : (hit.children.map Prod.fst).Nodup) {k : Key} (member : k ∈ hit.keys) :
    (s.hold hit).before k = s.store k := by
  rw [Hit.keys, Hit.writes, List.map_append, List.mem_append] at member
  cases k with
  | state name =>
    have flat : name ∈ hit.flat.map Prod.fst := by
      rcases member with flat | child
      · obtain ⟨_, inside, same⟩ := List.mem_map.mp flat
        obtain ⟨u, among, rfl⟩ := List.mem_map.mp inside
        cases same
        exact List.mem_map_of_mem among
      · obtain ⟨_, inside, same⟩ := List.mem_map.mp child
        obtain ⟨c, -, inside⟩ := List.mem_flatMap.mp inside
        obtain ⟨u, -, rfl⟩ := List.mem_map.mp inside
        cases same
    rw [Held.before, hold]
    dsimp only
    rw [lookup_map_self hit.flat (fun name => s.store (.state name)) flat, Option.getD_some]
  | child child prop =>
    obtain ⟨c, among, rfl, inside⟩ : ∃ c ∈ hit.children, c.1 = child ∧ prop ∈ c.2.map Prod.fst := by
      rcases member with flat | member
      · obtain ⟨_, inside, same⟩ := List.mem_map.mp flat
        obtain ⟨u, -, rfl⟩ := List.mem_map.mp inside
        cases same
      · obtain ⟨_, inside, same⟩ := List.mem_map.mp member
        obtain ⟨c, among, inside⟩ := List.mem_flatMap.mp inside
        obtain ⟨u, here, rfl⟩ := List.mem_map.mp inside
        cases same
        exact ⟨c, among, rfl, List.mem_map_of_mem here⟩
    have walk := Dict.lookup_walk (fun c : (Text × Text) × List (Text × Primitive) => c.1)
      (fun c => c.2.map fun u => (u.1, s.store (.child c.1 u.1))) hit.children [] c.1
    rw [Held.before, hold]
    dsimp only
    rcases walk with ⟨-, none⟩ | ⟨a, also, same, found⟩
    · exact absurd rfl (none c among)
    · have equal : a = c := List.inj_on_of_nodup_map children also among same
      subst equal
      rw [found, Option.bind_some, lookup_map_self a.2 (fun prop => s.store (.child a.1 prop)) inside, Option.getD_some]

theorem take_known (window : Option Int) (slot : Slot) {hit : Hit} {k : Key} (member : k ∈ hit.keys) :
    (s.take window slot hit).latest k = some (put hit.writes s.store k) := by
  rw [take_latest]
  exact put_of_mem member s.store s.latest

theorem take_latest_of_not_mem (window : Option Int) (slot : Slot) {hit : Hit} {k : Key} (other : k ∉ hit.keys) :
    (s.take window slot hit).latest k = s.latest k := by
  have keys : (hit.writes.map fun u => (u.1, some u.2)).map Prod.fst = hit.keys := by
    rw [List.map_map]
    rfl
  rw [take_latest]
  exact put_of_not_mem (by rw [keys]; exact other) _

/-- A rule that matches in the right moment. -/
theorem Books.take (B : Books s) {window : Option Int} {slot : Slot} {hit : Hit}
    (clean : s.cleanTake window slot hit = true) : Books (s.take window slot hit) := by
  unfold cleanTake at clean
  rw [decide_eq_true_eq, List.all_eq_true, List.all_eq_true] at clean
  obtain ⟨needless, older, sound⟩ := clean
  have needless (p : Slot × Held) (gone : p ∈ s.gone window slot) {k : Key} {v : Primitive} (written : (k, v) ∈ p.2.hit.writes)
      (other : k ∉ hit.keys) (live : equals (s.store k) (p.2.before k) = true) : v = s.store k := by
    have each := List.all_eq_true.mp (needless p gone) _ written
    rw [decide_eq_true_eq] at each
    rcases each with inside | dead | same
    · exact absurd inside other
    · exact absurd live dead
    · exact same
  have older (q : Slot × Held) (stay : q ∈ s.stay window slot) {k : Key} (mapped : k ∈ q.2.hit.keys) (inside : k ∈ hit.keys) :
      equals (put hit.writes s.store k) (q.2.before k) = false ∧
        (s.holds window slot = true → equals (s.store k) (q.2.before k) = false) := by
    have each := List.all_eq_true.mp (older q stay) _ mapped
    rw [decide_eq_true_eq] at each
    rcases each with other | ⟨next, now⟩
    · exact absurd inside other
    · exact ⟨by simpa using next, fun holds => by simpa using now holds⟩
  -- A key that the rule does not write keeps its place, unless what it was to get is dropped, and is there already.
  have others (k : Key) (v : Primitive) (other : k ∉ hit.keys) (latest : s.latest k = some v) :
      (s.store k = v ∧ ∀ q ∈ s.stay window slot, k ∈ q.2.hit.keys → equals v (q.2.before k) = false) ∨
      ∃ p ∈ s.stay window slot, (k, v) ∈ p.2.hit.writes ∧ equals (s.store k) (p.2.before k) = true ∧
        ∀ q ∈ s.stay window slot, q.1 ≠ p.1 → k ∈ q.2.hit.keys →
          equals (s.store k) (q.2.before k) = false ∧ equals v (q.2.before k) = false := by
    rcases B.settled k v latest with ⟨same, dead⟩ | ⟨p, among, written, live, dead⟩
    · exact Or.inl ⟨same, fun q stay => dead q (mem_stay stay)⟩
    · rcases mem_gone_or_stay window slot among with gone | stay
      · have same := needless p gone written other live
        exact Or.inl ⟨same.symm, fun q stay mapped => (dead q (mem_stay stay) (ne_of_gone_of_stay gone stay) mapped).2⟩
      · exact Or.inr ⟨p, stay, written, live, fun q inside => dead q (mem_stay inside)⟩
  have known (k : Key) (before : (s.latest k).isSome) : ((s.take window slot hit).latest k).isSome := by
    by_cases inside : k ∈ hit.keys
    · rw [take_known window slot inside]
      rfl
    · rwa [take_latest_of_not_mem window slot inside]
  cases holds : s.holds window slot with
  | false =>
    obtain ⟨store, pending⟩ := take_of_open holds hit
    refine ⟨?_, ?_, ?_, ?_⟩
    · rw [pending]
      exact nodup_stay B window slot
    · rw [pending]
      exact fun q stay => B.keys q (mem_stay stay)
    · rw [pending]
      exact fun q stay k mapped => known k (B.known q (mem_stay stay) k mapped)
    · intro k v latest
      rw [pending, store]
      by_cases inside : k ∈ hit.keys
      · rw [take_known window slot inside] at latest
        cases latest
        exact Or.inl ⟨rfl, fun q stay mapped => (older q stay mapped inside).1⟩
      · rw [take_latest_of_not_mem window slot inside] at latest
        rw [put_of_not_mem inside]
        exact others k v inside latest
  | true =>
    obtain ⟨store, pending⟩ := take_of_holds holds hit
    obtain ⟨once, children, itself⟩ := sound holds
    rw [List.all_eq_true] at itself
    have throttled : ¬window.isNone = true := by
      intro none
      rw [Option.isNone_iff_eq_none.mp none] at holds
      cases holds
    have elsewhere (q : Slot × Held) (stay : q ∈ s.stay window slot) : q.1 ≠ slot := by
      rw [Responses.stay, if_neg throttled] at stay
      exact of_decide_eq_true (List.mem_filter.mp stay).2
    refine ⟨?_, ?_, ?_, ?_⟩
    · rw [pending, List.map_cons, List.nodup_cons]
      refine ⟨?_, nodup_stay B window slot⟩
      intro again
      obtain ⟨q, stay, same⟩ := List.mem_map.mp again
      exact elsewhere q stay same
    · rw [pending]
      intro q member
      rcases List.mem_cons.mp member with rfl | stay
      · exact once
      · exact B.keys q (mem_stay stay)
    · rw [pending]
      intro q member k mapped
      rcases List.mem_cons.mp member with rfl | stay
      · have inside : k ∈ hit.keys := mapped
        rw [take_known window slot inside]
        rfl
      · exact known k (B.known q (mem_stay stay) k mapped)
    · intro k v latest
      rw [pending, store]
      by_cases inside : k ∈ hit.keys
      · obtain ⟨⟨k, x⟩, written, rfl⟩ := List.mem_map.mp inside
        rw [take_known window slot inside, put_of_nodup once written] at latest
        cases latest
        refine Or.inr ⟨_, List.mem_cons_self, written, ?_, ?_⟩
        · rw [hold_before children inside]
          exact itself k inside
        · intro q member other mapped
          rcases List.mem_cons.mp member with rfl | stay
          · exact absurd rfl other
          · obtain ⟨next, now⟩ := older q stay mapped inside
            rw [put_of_nodup once written] at next
            exact ⟨now holds, next⟩
      · rw [take_latest_of_not_mem window slot inside] at latest
        rcases others k v inside latest with ⟨same, dead⟩ | ⟨p, stay, written, live, dead⟩
        · refine Or.inl ⟨same, fun q member mapped => ?_⟩
          rcases List.mem_cons.mp member with rfl | stay
          · exact absurd mapped inside
          · exact dead q stay mapped
        · refine Or.inr ⟨p, List.mem_cons_of_mem _ stay, written, live, fun q member other mapped => ?_⟩
          rcases List.mem_cons.mp member with rfl | also
          · exact absurd mapped inside
          · exact dead q also other mapped

/-- A flush: the key of a live hold gets its value, which is the latest. -/
theorem Books.flushHeld (B : Books s) (slot : Slot) : Books (s.flushHeld slot) := by
  have fewer : ∀ q ∈ s.pending.filter (·.1 ≠ slot), q ∈ s.pending ∧ q.1 ≠ slot := by
    intro q member
    exact ⟨(List.mem_filter.mp member).1, of_decide_eq_true (List.mem_filter.mp member).2⟩
  have once : ((s.pending.filter (·.1 ≠ slot)).map Prod.fst).Nodup := B.nodup.sublist (List.filter_sublist.map Prod.fst)
  unfold Responses.flushHeld
  cases found : s.pending.lookup slot with
  | none =>
    have absent : ∀ q ∈ s.pending, q.1 ≠ slot := by
      intro q member same
      have key := List.lookup_eq_none_iff.mp found q member
      rw [same, bne_self_eq_false] at key
      cases key
    have all : s.pending.filter (·.1 ≠ slot) = s.pending := by
      rw [List.filter_eq_self]
      exact fun q member => decide_eq_true (absent q member)
    dsimp only
    rw [all]
    exact ⟨B.nodup, B.keys, B.known, B.settled⟩
  | some held =>
    have mine : (slot, held) ∈ s.pending := by
      obtain ⟨before, after, whole, -⟩ := List.lookup_eq_some_iff.mp found
      rw [whole]
      exact List.mem_append_right _ List.mem_cons_self
    have nodup := B.keys _ mine
    dsimp only
    rw [flush_store s held nodup]
    refine ⟨once, fun q member => B.keys q (fewer q member).1, fun q member => B.known q (fewer q member).1, ?_⟩
    intro k v latest
    have kept (dead : k ∈ held.hit.keys → equals (s.store k) (held.before k) = false) :
        offer held.before held.hit.writes s.store k = s.store k := by
      by_cases mapped : k ∈ held.hit.keys
      · have stale := dead mapped
        obtain ⟨⟨k, x⟩, written, rfl⟩ := List.mem_map.mp mapped
        rw [offer_of_mem nodup written, stale]
        rfl
      · exact offer_of_not_mem mapped _
    show (offer held.before held.hit.writes s.store k = v ∧ _) ∨ ∃ p ∈ _, _ ∧ equals (offer held.before held.hit.writes s.store k) _ = true ∧ _
    rcases B.settled k v latest with ⟨same, dead⟩ | ⟨p, among, written, live, dead⟩
    · rw [kept fun mapped => by rw [same]; exact dead _ mine mapped]
      exact Or.inl ⟨same, fun q member => dead q (fewer q member).1⟩
    · by_cases own : p.1 = slot
      · have same : p = (slot, held) := List.inj_on_of_nodup_map B.nodup among mine own
        subst same
        rw [offer_of_mem nodup written, live]
        exact Or.inl ⟨rfl, fun q member mapped => (dead q (fewer q member).1 (fewer q member).2 mapped).2⟩
      · have unchanged (other : Primitive) : equals (offer held.before held.hit.writes s.store k) other =
            equals (s.store k) other := by
          rw [kept fun mapped => (dead _ mine (Ne.symm own) mapped).1]
        refine Or.inr ⟨p, List.mem_filter.mpr ⟨among, decide_eq_true own⟩, written, (unchanged _).trans live, ?_⟩
        intro q member other mapped
        obtain ⟨now, next⟩ := dead q (fewer q member).1 other mapped
        exact ⟨(unchanged _).trans now, next⟩

variable {μ : Type}

/-- Every rule that matches the message does so in the right moment. -/
def cleanJson (msg : μ) (s : Responses) : List (Rule μ × Nat) → Bool
  | [] => true
  | (rule, i) :: rules =>
    match if rule.kind = .json ∧ rule.applies msg s.store then rule.read msg else none with
    | none => s.cleanJson msg rules
    | some hit => s.cleanTake rule.window ⟨i, hit.scope⟩ hit &&
        (s.take rule.window ⟨i, hit.scope⟩ hit).cleanJson msg rules

def cleanRegex (msg : μ) (eligible : Kind → Bool) (s : Responses) : List (Rule μ × Nat) → Bool
  | [] => true
  | (rule, i) :: rules =>
    match if eligible rule.kind ∧ rule.applies msg s.store then rule.read msg else none with
    | none => s.cleanRegex msg eligible rules
    | some hit => s.cleanTake rule.window ⟨i, hit.scope⟩ hit

def Clean (rules : List (Rule μ)) (s : Responses) : ResponseLabel μ → Bool
  | .receive now msg =>
    let s' := { s with now }.applyJsonResponses msg rules.zipIdx
    { s with now }.cleanJson msg rules.zipIdx && s'.2.cleanRegex msg (eligible s'.1) rules.zipIdx
  | .fire .. => true

theorem Books.json (msg : μ) {rules : List (Rule μ × Nat)} (B : Books s) (clean : s.cleanJson msg rules = true) :
    Books (s.applyJsonResponses msg rules).2 := by
  induction rules generalizing s with
  | nil => exact B
  | cons first rules ih =>
    obtain ⟨rule, i⟩ := first
    cases read : (if rule.kind = .json ∧ rule.applies msg s.store then rule.read msg else none) with
    | none =>
      simp only [cleanJson, read] at clean
      simp only [applyJsonResponses, read]
      exact ih B clean
    | some hit =>
      simp only [cleanJson, read, Bool.and_eq_true] at clean
      simp only [applyJsonResponses, read]
      exact ih (B.take clean.1) clean.2

theorem Books.regex (msg : μ) {eligible : Kind → Bool} {rules : List (Rule μ × Nat)} (B : Books s)
    (clean : s.cleanRegex msg eligible rules = true) : Books (s.applyRegexResponses msg eligible rules) := by
  induction rules with
  | nil => exact B
  | cons first rules ih =>
    obtain ⟨rule, i⟩ := first
    cases read : (if eligible rule.kind ∧ rule.applies msg s.store then rule.read msg else none) with
    | none =>
      simp only [cleanRegex, read] at clean
      simp only [applyRegexResponses, read]
      exact ih clean
    | some hit =>
      simp only [cleanRegex, read] at clean
      simp only [applyRegexResponses, read]
      exact B.take clean

theorem Books.at (B : Books s) (now : Int) : Books { s with now } :=
  ⟨B.nodup, B.keys, B.known, B.settled⟩

theorem Books.of_reach {rules : List (Rule μ)} (reach : Run.Reach (machine rules) (fun s l => s.Clean rules l = true) s) :
    Books s := by
  refine reach.invariant ?_ ?_
  · rintro _ ⟨now, store, rfl⟩
    exact Books.start now store
  · intro s label s' _ B clean run
    cases label with
    | receive now msg =>
      change (if _ then some _ else none) = some s' at run
      rw [Option.ite_none_right_eq_some, Option.some.injEq] at run
      obtain ⟨-, rfl⟩ := run
      change (_ && _) = true at clean
      rw [Bool.and_eq_true] at clean
      exact ((B.at now).json msg clean.1).regex msg clean.2
    | fire now slot =>
      change (if _ then some _ else none) = some s' at run
      rw [Option.ite_none_right_eq_some, Option.some.injEq] at run
      obtain ⟨-, rfl⟩ := run
      exact (B.at now).flushHeld slot

/-! How often a scope writes. -/

/-- The window of a scope's rule. -/
def windowOf (rules : List (Rule μ)) (slot : Slot) : Option Int :=
  rules[slot.rule]?.bind (·.window)

/-- The fires of a scope, which is open again a window after the last of them. -/
structure Paced (rules : List (Rule μ)) (s : Responses) : Prop where
  last : ∀ slot, s.last slot = (s.fires slot).head?
  timers : ∀ slot due, s.timers slot = some due →
    ∃ window last, windowOf rules slot = some window ∧ s.last slot = some last ∧ due = last + window
  apart : ∀ slot window, windowOf rules slot = some window →
    (s.fires slot).IsChain fun later earlier => earlier + window ≤ later

variable {rules : List (Rule μ)}

theorem Paced.fire (P : Paced rules s) {slot : Slot} {window : Int} (throttled : windowOf rules slot = some window)
    (due : ∀ last, s.last slot = some last → last + window ≤ s.now) (idle : s.timers slot = none) : Paced rules (s.fire slot) where
  last other := by
    by_cases same : other = slot
    · subst same
      rw [Responses.fire]
      dsimp only
      rw [Function.update_self, Function.update_self, List.head?_cons]
    · rw [Responses.fire]
      dsimp only
      rw [Function.update_of_ne same, Function.update_of_ne same]
      exact P.last other
  timers other time timer := by
    by_cases same : other = slot
    · subst same
      have none : s.timers other = some time := timer
      rw [idle] at none
      cases none
    · obtain ⟨window, last, throttled, before, value⟩ := P.timers other time timer
      exact ⟨window, last, throttled, (Function.update_of_ne same _ _).trans before, value⟩
  apart other width throttled' := by
    by_cases same : other = slot
    · subst same
      rw [throttled] at throttled'
      cases throttled'
      have chain := P.apart other window throttled
      rw [Responses.fire]
      dsimp only
      rw [Function.update_self]
      cases fires : s.fires other with
      | nil => exact List.isChain_singleton _
      | cons last fires' =>
        rw [fires] at chain
        have before := P.last other
        rw [fires] at before
        exact List.isChain_cons_cons.mpr ⟨due last before, chain⟩
    · rw [Responses.fire]
      dsimp only
      rw [Function.update_of_ne same]
      exact P.apart other width throttled'

theorem Paced.dropHeld (P : Paced rules s) (slot : Slot) : Paced rules (s.dropHeld slot) := by
  refine ⟨P.last, fun other due timer => ?_, P.apart⟩
  have before : Function.update s.timers slot none other = some due := timer
  by_cases same : other = slot
  · subst same
    rw [Function.update_self] at before
    cases before
  · rw [Function.update_of_ne same] at before
    exact P.timers other due before

theorem Paced.throttleHold (P : Paced rules s) {slot : Slot} {window : Option Int} (own : windowOf rules slot = window)
    (hit : Hit) : Paced rules (s.throttleHold window slot hit).2 := by
  have idle : (s.dropHeld slot).timers slot = none := Function.update_self _ _ _
  unfold Responses.throttleHold
  split
  · exact P
  · rename_i window never
    refine (P.dropHeld slot).fire own (fun last before => ?_) idle
    change s.last slot = some last at before
    rw [never] at before
    cases before
  · rename_i window last atLast
    split
    · rename_i late
      refine (P.dropHeld slot).fire own (fun last' before => ?_) idle
      change s.last slot = some last' at before
      rw [atLast] at before
      cases before
      show last + window ≤ s.now
      omega
    · refine ⟨P.last, fun other due timer => ?_, P.apart⟩
      change Function.update s.timers slot _ other = some due at timer
      by_cases same : other = slot
      · subst same
        rw [Function.update_self, Option.some.injEq] at timer
        refine ⟨window, last, own, atLast, ?_⟩
        cases running : s.timers other with
        | none =>
          rw [running, Option.getD_none] at timer
          omega
        | some time =>
          obtain ⟨width, before, throttled, atBefore, value⟩ := P.timers other time running
          rw [running, Option.getD_some] at timer
          rw [own] at throttled
          rw [atLast] at atBefore
          cases throttled
          cases atBefore
          omega
      · rw [Function.update_of_ne same] at timer
        exact P.timers other due timer

theorem Paced.take (P : Paced rules s) {slot : Slot} {window : Option Int} (own : windowOf rules slot = window)
    (hit : Hit) : Paced rules (s.take window slot hit) := by
  have Q := P.throttleHold own hit
  unfold Responses.take
  dsimp only
  split
  · exact ⟨Q.last, Q.timers, Q.apart⟩
  · exact ⟨Q.last, Q.timers, Q.apart⟩

theorem Paced.flushHeld (P : Paced rules s) {slot : Slot} {due : Int} (timer : s.timers slot = some due) (late : due ≤ s.now) :
    Paced rules (s.flushHeld slot) := by
  obtain ⟨window, last, throttled, atLast, value⟩ := P.timers slot due timer
  have D := P.dropHeld slot
  have idle : (s.dropHeld slot).timers slot = none := Function.update_self _ _ _
  have F := D.fire throttled (fun last' before => by
    change s.last slot = some last' at before
    rw [atLast] at before
    cases before
    show last + window ≤ s.now
    omega) idle
  unfold Responses.flushHeld
  dsimp only
  split
  · exact ⟨D.last, D.timers, D.apart⟩
  · exact ⟨F.last, F.timers, F.apart⟩

theorem windowOf_of_mem {rule : Rule μ} {i : Nat} (member : (rule, i) ∈ rules.zipIdx) (scope : Text) :
    windowOf rules ⟨i, scope⟩ = rule.window := by
  have found := List.mem_zipIdx_iff_getElem?.mp member
  rw [windowOf]
  dsimp only at found ⊢
  rw [found, Option.bind_some]

theorem Paced.json (msg : μ) {part : List (Rule μ × Nat)} (among : ∀ r ∈ part, r ∈ rules.zipIdx) (P : Paced rules s) :
    Paced rules (s.applyJsonResponses msg part).2 := by
  induction part generalizing s with
  | nil => exact P
  | cons first part ih =>
    obtain ⟨rule, i⟩ := first
    have rest := fun r member => among r (List.mem_cons_of_mem _ member)
    unfold applyJsonResponses
    split
    · exact ih rest P
    · exact ih rest (P.take (windowOf_of_mem (among _ List.mem_cons_self) _) _)

theorem Paced.regex (msg : μ) (eligible : Kind → Bool) {part : List (Rule μ × Nat)} (among : ∀ r ∈ part, r ∈ rules.zipIdx)
    (P : Paced rules s) : Paced rules (s.applyRegexResponses msg eligible part) := by
  induction part with
  | nil => exact P
  | cons first part ih =>
    obtain ⟨rule, i⟩ := first
    unfold applyRegexResponses
    split
    · exact ih fun r member => among r (List.mem_cons_of_mem _ member)
    · exact P.take (windowOf_of_mem (among _ List.mem_cons_self) _) _

theorem Paced.of_reach {ok : Responses → ResponseLabel μ → Prop} (reach : Run.Reach (machine rules) ok s) : Paced rules s := by
  refine reach.invariant ?_ ?_
  · rintro _ ⟨now, store, rfl⟩
    refine ⟨fun _ => rfl, fun _ _ other => ?_, fun _ _ _ => List.isChain_nil⟩
    cases other
  · intro s label s' _ P _ run
    cases label with
    | receive now msg =>
      change (if _ then some _ else none) = some s' at run
      rw [Option.ite_none_right_eq_some, Option.some.injEq] at run
      obtain ⟨-, rfl⟩ := run
      have clock : Paced rules { s with now } := ⟨P.last, P.timers, P.apart⟩
      exact (clock.json msg fun _ member => member).regex msg _ fun _ member => member
    | fire now slot =>
      change (if _ then some _ else none) = some s' at run
      rw [Option.ite_none_right_eq_some, Option.some.injEq] at run
      obtain ⟨⟨-, timer⟩, rfl⟩ := run
      obtain ⟨due, timer, late⟩ := (Option.any_eq_true _ _).mp timer
      have clock : Paced rules { s with now } := ⟨P.last, P.timers, P.apart⟩
      exact clock.flushHeld timer (of_decide_eq_true late)

/-- Once nothing is held each key has the value that the messages have said last, and no
scope writes twice in a window. -/
theorem throttle_converges (reach : Run.Reach (machine rules) (fun s l => s.Clean rules l = true) s) :
    (s.pending = [] → ∀ k v, s.latest k = some v → s.store k = v) ∧
      ∀ slot window, windowOf rules slot = some window →
        (s.fires slot).IsChain fun later earlier => earlier + window ≤ later := by
  refine ⟨fun idle k v latest => ?_, (Paced.of_reach reach).apart⟩
  rcases (Books.of_reach reach).settled k v latest with ⟨same, -⟩ | ⟨p, among, -⟩
  · exact same
  · rw [idle] at among
    cases among

/-- A position that the device pushes, ten ticks apart at least, and that it tells when asked. -/
def positionRules : List (Rule (Bool × Text)) :=
  [{ kind := .regex false, window := some 10,
     read := fun m => if m.1 then some ⟨[], [(text "position", .str m.2)], []⟩ else none },
   { kind := .regex false,
     read := fun m => if m.1 then none else some ⟨[], [(text "position", .str m.2)], []⟩ }]

theorem throttle_converges_pushed : ∃ s, Run.Reach (machine positionRules) (fun s l => s.Clean positionRules l = true) s ∧
    (s.pending = [] → ∀ k v, s.latest k = some v → s.store k = v) ∧
    ∀ slot window, windowOf positionRules slot = some window →
      (s.fires slot).IsChain fun later earlier => earlier + window ≤ later := by
  have run : ∃ s, (machine positionRules).run (fun s l => s.Clean positionRules l = true) { now := 0, store := fun _ => .none }
      [.receive 0 (true, text "1"), .receive 1 (true, text "2"), .receive 2 (false, text "3"), .fire 10 ⟨0, []⟩] = some s ∧
      s.pending.length = 0 ∧ s.store (.state (text "position")) = .str (text "3") := ⟨_, rfl, rfl, rfl⟩
  obtain ⟨s, run, -⟩ := run
  have reach : Run.Reach (machine positionRules) (fun s l => s.Clean positionRules l = true) s := .run (.init ⟨0, _, rfl⟩) run
  exact ⟨s, reach, throttle_converges reach⟩

/-- The position moves and comes back while the push is held: at the end the store has the
position in between. -/
theorem held_overwrites : ∃ s, Run.Reach (machine positionRules) Run.always s ∧ s.pending.length = 0 ∧
    s.latest (.state (text "position")) = some (.str (text "1")) ∧
    s.store (.state (text "position")) = .str (text "2") := by
  have run : ∃ s, (machine positionRules).run Run.always { now := 0, store := fun _ => .none }
      [.receive 0 (true, text "1"), .receive 1 (true, text "2"), .receive 2 (false, text "1"), .fire 10 ⟨0, []⟩] = some s ∧
      s.pending.length = 0 ∧ s.latest (.state (text "position")) = some (.str (text "1")) ∧
      s.store (.state (text "position")) = .str (text "2") := ⟨_, rfl, rfl, rfl, rfl⟩
  obtain ⟨s, run, facts⟩ := run
  exact ⟨s, .run (.init ⟨0, _, rfl⟩) run, facts⟩

end Responses

end OpenAvc.Driver
