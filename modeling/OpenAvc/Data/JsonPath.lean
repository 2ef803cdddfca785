import OpenAvc.Data.Json

namespace Json

/-- One step into a value: to a member of an object or an item of an array. -/
inductive Step
  | key (k : Text)
  | idx (i : Nat)
  deriving DecidableEq

abbrev Path := List Step

/-- The value at a path. -/
def node : Json → Path → Option Json
  | v, [] => some v
  | obj fields, .key k :: p => (fields.lookup k).bind (node · p)
  | arr items, .idx i :: p => items[i]?.bind (node · p)
  | _, _ :: _ => none

/-- The value with `w` put at a path: in place where there is a value, as a
new member where only the object around it is there. -/
def put : Json → Path → Json → Json
  | _, [], w => w
  | obj fields, .key k :: p, w => obj (Dict.set fields k (put ((fields.lookup k).getD null) p w))
  | arr items, .idx i :: p, w => arr (items.modify i (put · p w))
  | v, _ :: _, _ => v

/-- What a value shows of itself without going into it: an object its keys in
their order, an array its length, anything else all there is. -/
inductive Head
  | keys (ks : List Text)
  | length (n : Nat)
  | leaf (v : Json)

def head : Json → Head
  | obj fields => .keys (fields.map Prod.fst)
  | arr items => .length items.length
  | v => .leaf v

/-- The head of the value at a path. A value is what its heads are. -/
def heads (v : Json) (p : Path) : Option Head :=
  (v.node p).map head

@[simp] theorem node_nil (v : Json) : v.node [] = some v := by cases v <;> rfl

@[simp] theorem node_obj_key (fields : List (Text × Json)) (k : Text) (p : Path) :
    (obj fields).node (.key k :: p) = (fields.lookup k).bind (node · p) := rfl

@[simp] theorem node_arr_idx (items : List Json) (i : Nat) (p : Path) :
    (arr items).node (.idx i :: p) = items[i]?.bind (node · p) := rfl

@[simp] theorem heads_nil (v : Json) : v.heads [] = some v.head := by simp [heads]

theorem node_append (v : Json) (p r : Path) : v.node (p ++ r) = (v.node p).bind (node · r) := by
  induction p generalizing v with
  | nil => simp
  | cons s p ih =>
    cases v with
    | obj fields =>
      cases s with
      | key k => cases found : fields.lookup k <;> simp [found, ih]
      | idx i => simp [node]
    | arr items =>
      cases s with
      | key k => simp [node]
      | idx i => cases found : items[i]? <;> simp [found, ih]
    | _ => simp [node]

theorem heads_append {v c : Json} {p : Path} (found : v.node p = some c) (r : Path) :
    v.heads (p ++ r) = c.heads r := by
  rw [heads, node_append, found]
  rfl

/-- The heads under the place that is replaced are those of what is put there. -/
theorem node_put {v c w : Json} {p : Path} (found : v.node p = some c) : (v.put p w).node p = some w := by
  induction p generalizing v with
  | nil => simp [put]
  | cons s p ih =>
    cases v with
    | obj fields =>
      cases s with
      | key k =>
        rw [node_obj_key, Option.bind_eq_some_iff] at found
        obtain ⟨child, member, inner⟩ := found
        simp [put, member, ih inner]
      | idx i => simp [node] at found
    | arr items =>
      cases s with
      | key k => simp [node] at found
      | idx i =>
        rw [node_arr_idx, Option.bind_eq_some_iff] at found
        obtain ⟨child, member, inner⟩ := found
        simp [put, member, ih inner]
    | _ => simp [node] at found

/-- Every other head stays. -/
theorem heads_put_of_not_prefix {v c w : Json} {p q : Path} (found : v.node p = some c) (apart : ¬p <+: q) :
    (v.put p w).heads q = v.heads q := by
  induction p generalizing v q with
  | nil => exact absurd (List.nil_prefix) apart
  | cons s p ih =>
    cases v with
    | obj fields =>
      cases s with
      | key k =>
        rw [node_obj_key, Option.bind_eq_some_iff] at found
        obtain ⟨child, member, inner⟩ := found
        cases q with
        | nil =>
          have present : (fields.lookup k).isSome := by rw [member]; rfl
          simp [put, head, Dict.keys_set_of_mem present]
        | cons t q =>
          cases t with
          | idx j => simp [put, heads, node]
          | key j =>
            by_cases same : j = k
            · subst same
              have deeper : ¬p <+: q := fun more => apart ((List.prefix_cons_inj _).mpr more)
              have := ih inner deeper
              simpa [put, heads, member] using this
            · simp [put, heads, same]
      | idx i => simp [node] at found
    | arr items =>
      cases s with
      | key k => simp [node] at found
      | idx i =>
        rw [node_arr_idx, Option.bind_eq_some_iff] at found
        obtain ⟨child, member, inner⟩ := found
        cases q with
        | nil => simp [put, head]
        | cons t q =>
          cases t with
          | key j => simp [put, heads, node]
          | idx j =>
            by_cases same : j = i
            · subst same
              have deeper : ¬p <+: q := fun more => apart ((List.prefix_cons_inj _).mpr more)
              have := ih inner deeper
              simpa [put, heads, member] using this
            · simp [put, heads, Ne.symm same]
    | _ => simp [node] at found

theorem heads_put {v c w : Json} {p : Path} (found : v.node p = some c) (r : Path) :
    (v.put p w).heads (p ++ r) = w.heads r :=
  heads_append (node_put found) r

/-- A value is put at a place that neither is around `q` nor inside it. -/
theorem node_put_of_apart {v c w : Json} {p q : Path} (found : v.node p = some c) (outside : ¬p <+: q)
    (notAround : ¬q <+: p) : (v.put p w).node q = v.node q := by
  induction p generalizing v q with
  | nil => exact absurd List.nil_prefix outside
  | cons s p ih =>
    cases q with
    | nil => exact absurd List.nil_prefix notAround
    | cons t q =>
      cases v with
      | obj fields =>
        cases s with
        | idx i => simp [node] at found
        | key k =>
          rw [node_obj_key, Option.bind_eq_some_iff] at found
          obtain ⟨child, member, inner⟩ := found
          cases t with
          | idx j => rfl
          | key j =>
            by_cases same : j = k
            · subst same
              have deeper := ih inner (fun more => outside ((List.prefix_cons_inj _).mpr more))
                fun more => notAround ((List.prefix_cons_inj _).mpr more)
              simpa [put, member] using deeper
            · simp [put, same]
      | arr items =>
        cases s with
        | key k => simp [node] at found
        | idx i =>
          rw [node_arr_idx, Option.bind_eq_some_iff] at found
          obtain ⟨child, member, inner⟩ := found
          cases t with
          | key j => rfl
          | idx j =>
            by_cases same : j = i
            · subst same
              have deeper := ih inner (fun more => outside ((List.prefix_cons_inj _).mpr more))
                fun more => notAround ((List.prefix_cons_inj _).mpr more)
              simpa [put, member] using deeper
            · simp [put, Ne.symm same]
      | _ => simp [node] at found

@[simp] theorem get?_obj (fields : List (Text × Json)) (k : Text) : (obj fields).get? k = fields.lookup k := rfl

theorem get?_eq_node (v : Json) (k : Text) : v.get? k = v.node [.key k] := by
  cases v with
  | obj fields => cases found : fields.lookup k <;> simp [get?, found]
  | _ => rfl

theorem head_eq_str {v : Json} {t : Text} : v.head = .leaf (.str t) ↔ v = .str t := by
  cases v <;> simp [head]

/-- A text is all there is of it. -/
theorem heads_eq_str {v : Json} {p : Path} {t : Text} : v.heads p = some (.leaf (.str t)) ↔ v.node p = some (.str t) := by
  simp [heads, head_eq_str]

theorem node_str_append (t : Text) {r : Path} (deeper : r ≠ []) : (str t).node r = none := by
  cases r with
  | nil => exact absurd rfl deeper
  | cons s r => cases s <;> rfl

/-- One text put in the place of another changes that one head. -/
theorem heads_put_str {v : Json} {p q : Path} {t u : Text} (found : v.node p = some (.str t)) :
    (v.put p (.str u)).heads q = if q = p then some (.leaf (.str u)) else v.heads q := by
  by_cases same : q = p
  · subst same
    rw [if_pos rfl]
    simpa [head] using heads_put found (w := .str u) []
  · rw [if_neg same]
    by_cases inside : p <+: q
    · obtain ⟨r, rfl⟩ := inside
      have deeper : r ≠ [] := fun none => same (by simp [none])
      rw [heads_put found, heads_append found, heads, heads, node_str_append u deeper, node_str_append t deeper]
    · exact heads_put_of_not_prefix found inside

mutual

/-- No object in there has a key twice. -/
def distinct : Json → Bool
  | .obj fields => decide (fields.map Prod.fst).Nodup && distinctFields fields
  | .arr items => distinctItems items
  | _ => true

def distinctItems : List Json → Bool
  | [] => true
  | v :: items => distinct v && distinctItems items

def distinctFields : List (Text × Json) → Bool
  | [] => true
  | (_, v) :: fields => distinct v && distinctFields fields

end

theorem distinctItems_get {items : List Json} (all : distinctItems items = true) {i : Nat} {v : Json}
    (found : items[i]? = some v) : v.distinct = true := by
  induction items generalizing i with
  | nil => simp at found
  | cons w items ih =>
    simp only [distinctItems, Bool.and_eq_true] at all
    cases i with
    | zero => simp at found; exact found ▸ all.1
    | succ i => exact ih all.2 (by simpa using found)

theorem distinctFields_lookup {fields : List (Text × Json)} (all : distinctFields fields = true) {k : Text}
    {v : Json} (found : fields.lookup k = some v) : v.distinct = true := by
  induction fields with
  | nil => simp at found
  | cons u fields ih =>
    obtain ⟨key, w⟩ := u
    simp only [distinctFields, Bool.and_eq_true] at all
    rw [List.lookup_cons] at found
    split at found
    · cases found
      exact all.1
    · exact ih all.2 found

theorem distinct_node {v c : Json} (all : v.distinct = true) {p : Path} (found : v.node p = some c) :
    c.distinct = true := by
  induction p generalizing v with
  | nil => simp at found; exact found ▸ all
  | cons s p ih =>
    cases v with
    | obj fields =>
      cases s with
      | idx i => simp [node] at found
      | key k =>
        rw [node_obj_key, Option.bind_eq_some_iff] at found
        obtain ⟨child, member, inner⟩ := found
        simp only [distinct, Bool.and_eq_true] at all
        exact ih (distinctFields_lookup all.2 member) inner
    | arr items =>
      cases s with
      | key k => simp [node] at found
      | idx i =>
        rw [node_arr_idx, Option.bind_eq_some_iff] at found
        obtain ⟨child, member, inner⟩ := found
        simp only [distinct] at all
        exact ih (distinctItems_get all member) inner
    | _ => simp [node] at found

/-- The keys of every object are distinct. -/
def Dicts (v : Json) : Prop :=
  ∀ p ks, v.heads p = some (.keys ks) → ks.Nodup

theorem Dicts.of_distinct {v : Json} (all : v.distinct = true) : v.Dicts := by
  intro p ks shows'
  unfold heads at shows'
  rw [Option.map_eq_some_iff] at shows'
  obtain ⟨c, found, shape⟩ := shows'
  have inside := distinct_node all found
  cases c with
  | obj fields =>
    simp only [distinct, Bool.and_eq_true, decide_eq_true_eq] at inside
    cases shape
    exact inside.1
  | _ => cases shape

end Json
