import OpenAvc.Data.JsonPairs

/-! Trees that are equal as Python has it: the order of an object's members is no part of them. -/

namespace Json

/-- `==` of two trees. -/
inductive Same : Json → Json → Prop
  | flat {v : Json} : v.flat = true → Same v v
  | arr {items items' : List Json} : items.length = items'.length →
      (∀ (i : Nat) v v', items[i]? = some v → items'[i]? = some v' → Same v v') → Same (.arr items) (.arr items')
  | obj {fields fields' : List (Text × Json)} : (∀ k, fields.lookup k = none ↔ fields'.lookup k = none) →
      (∀ k v v', fields.lookup k = some v → fields'.lookup k = some v' → Same v v') → Same (.obj fields) (.obj fields')

/-- What holds of a tree when it holds of the trees in it, holds of every tree. -/
theorem inductTree {P : Json → Prop} (flat : ∀ v : Json, v.flat = true → P v)
    (arr : ∀ items : List Json, (∀ v ∈ items, P v) → P (.arr items))
    (obj : ∀ fields : List (Text × Json), (∀ u ∈ fields, P u.2) → P (.obj fields)) (v : Json) : P v := by
  refine @Json.rec P (fun items => ∀ v ∈ items, P v) (fun fields => ∀ u ∈ fields, P u.2) (fun u => P u.2) (flat _ rfl)
    (fun _ => flat _ rfl) (fun _ => flat _ rfl) (fun _ => flat _ rfl) (fun _ => flat _ rfl) (fun _ => flat _ rfl) arr obj
    (fun _ member => absurd member List.not_mem_nil) ?_ (fun _ member => absurd member List.not_mem_nil) ?_ (fun _ _ ih => ih) v
  · intro first items held later w member
    rcases List.mem_cons.mp member with rfl | inside
    · exact held
    · exact later w inside
  · intro first fields held later w member
    rcases List.mem_cons.mp member with rfl | inside
    · exact held
    · exact later w inside

theorem Same.refl (v : Json) : Same v v := by
  induction v using inductTree with
  | flat v flat => exact .flat flat
  | arr items ih =>
    refine .arr rfl fun i v v' here here' => ?_
    have equal : v = v' := Option.some.inj (here.symm.trans here')
    rw [← equal]
    exact ih v (List.mem_of_getElem? here)
  | obj fields ih =>
    refine .obj (fun _ => Iff.rfl) fun k v v' here here' => ?_
    have equal : v = v' := Option.some.inj (here.symm.trans here')
    rw [← equal]
    exact ih (k, v) (List.mem_of_lookup_eq_some here)

theorem Same.symm {v w : Json} (same : Same v w) : Same w v := by
  induction same with
  | flat flat => exact .flat flat
  | arr lengths _ ih => exact .arr lengths.symm fun i v v' here here' => ih i v' v here' here
  | obj keys _ ih => exact .obj (fun k => (keys k).symm) fun k v v' here here' => ih k v' v here' here

theorem Same.trans {u v w : Json} (first : Same u v) (second : Same v w) : Same u w := by
  induction first generalizing w with
  | flat _ => exact second
  | @arr items items' lengths _ ih =>
    cases second with
    | flat flat => cases flat
    | arr lengths' values' =>
      refine .arr (lengths.trans lengths') fun i v v' here here' => ?_
      have bound : i < items'.length := by
        have inside := (List.getElem?_eq_some_iff.mp here).1
        omega
      have middle : items'[i]? = some items'[i] := List.getElem?_eq_getElem bound
      exact ih i v _ here middle (values' i _ v' middle here')
  | @obj fields fields' keys _ ih =>
    cases second with
    | flat flat => cases flat
    | obj keys' values' =>
      refine .obj (fun k => (keys k).trans (keys' k)) fun k v v' here here' => ?_
      cases middle : fields'.lookup k with
      | none =>
        have absent := (keys k).mpr middle
        rw [here] at absent
        cases absent
      | some x => exact ih k v x here middle (values' k x v' middle here')

/-- Objects are equal to objects alone. -/
theorem Same.isObj {v w : Json} (same : Same v w) : v.isObj = w.isObj := by
  cases same <;> rfl

/-- Dicts that hold equal values under each name are equal. -/
theorem Same.of_lookup {fields fields' : List (Text × Json)}
    (values : ∀ k, Option.Rel Same (fields.lookup k) (fields'.lookup k)) : Same (.obj fields) (.obj fields') := by
  refine .obj (fun k => ?_) fun k v v' held held' => ?_
  · have here := values k
    generalize fields.lookup k = there at here ⊢
    generalize fields'.lookup k = there' at here ⊢
    cases here with
    | none => exact Iff.rfl
    | some _ => simp
  · have here := values k
    rw [held, held'] at here
    cases here with
    | some same => exact same

theorem Same.lookup {fields fields' : List (Text × Json)} (same : Same (.obj fields) (.obj fields')) (k : Text) :
    Option.Rel Same (fields.lookup k) (fields'.lookup k) := by
  cases same with
  | flat flat => cases flat
  | obj keys values =>
    cases held : fields.lookup k with
    | none =>
      rw [(keys k).mp held]
      exact .none
    | some v =>
      cases held' : fields'.lookup k with
      | none =>
        rw [(keys k).mpr held'] at held
        cases held
      | some v' => exact .some (values k v v' held held')

theorem keys_iff_lookup {fields : List (Text × Json)} {k : Text} : k ∈ fields.map Prod.fst ↔ fields.lookup k ≠ none := by
  constructor
  · intro member absent
    obtain ⟨v, held⟩ := List.exists_lookup_of_mem member
    rw [absent] at held
    cases held
  · intro present
    obtain ⟨v, held⟩ := Option.ne_none_iff_exists'.mp present
    exact List.mem_keys_of_lookup held

/-- A dict is its names, in their order, and what it holds under them. -/
theorem fields_ext {fields fields' : List (Text × Json)} (distinct : (fields.map Prod.fst).Nodup)
    (names : fields.map Prod.fst = fields'.map Prod.fst) (values : ∀ k, fields.lookup k = fields'.lookup k) :
    fields = fields' := by
  induction fields generalizing fields' with
  | nil => exact (List.map_eq_nil_iff.mp names.symm).symm
  | cons u fields ih =>
    cases fields' with
    | nil => cases names
    | cons u' fields' =>
      obtain ⟨k, v⟩ := u
      obtain ⟨k', v'⟩ := u'
      rw [List.map_cons, List.map_cons, List.cons.injEq] at names
      obtain ⟨rfl, names⟩ := names
      obtain ⟨apart, distinct⟩ := List.nodup_cons.mp distinct
      have first := values k
      rw [List.lookup_cons_self, List.lookup_cons_self] at first
      have rest : fields = fields' := by
        refine ih distinct names fun j => ?_
        by_cases here : j = k
        · subst here
          have absent : fields.lookup j = none := not_not.mp (mt keys_iff_lookup.mpr apart)
          have absent' : fields'.lookup j = none := not_not.mp (mt keys_iff_lookup.mpr (names ▸ apart))
          rw [absent, absent']
        · have later := values j
          rwa [List.lookup_cons, List.lookup_cons, beq_eq_false_iff_ne.mpr here] at later
      rw [Option.some.inj first, rest]

end Json
