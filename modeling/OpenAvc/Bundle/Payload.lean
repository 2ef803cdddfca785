import OpenAvc.Bundle.Sealing
import OpenAvc.Data.JsonWhole

/-! What a payload holds of the logins, and which logins are read from it. -/

namespace OpenAvc.Bundle

open Json (Whole Distinct Readable sorted texts)
open Logins (Owner FoundLogin Kind ownerFields ownerFrom payloadLists)

/-! ### The lists of a payload -/

def itemsAt : Option Json → List Json
  | some (.arr items) => items
  | _ => []

theorem listOf_inj {kind kind' : Kind} (same : listOf kind = listOf kind') : kind = kind' := by
  revert same
  cases kind <;> cases kind' <;> decide

theorem itemsAt_append (lists : List (Text × Json)) (listed listed' : Text) (item : Json) :
    itemsAt ((append lists listed item).lookup listed') =
      itemsAt (lists.lookup listed') ++ if listed' = listed then [item] else [] := by
  unfold append
  rw [Dict.lookup_set]
  by_cases here : listed' = listed
  · subst here
    rw [if_pos rfl, if_pos rfl]
    rfl
  · rw [if_neg here, if_neg here, List.append_nil]

/-- Each list gets the items of its kind, in order. -/
theorem itemsAt_foldl (kind : Kind) (ordered : List FoundLogin) (lists : List (Text × Json)) :
    itemsAt ((ordered.foldl (fun lists login => append lists (listOf login.owner.kind) (itemOf login)) lists).lookup
        (listOf kind)) =
      itemsAt (lists.lookup (listOf kind)) ++ (ordered.filter fun login => login.owner.kind = kind).map itemOf := by
  induction ordered generalizing lists with
  | nil => simp
  | cons login ordered ih =>
    rw [List.foldl_cons, ih, itemsAt_append]
    by_cases here : login.owner.kind = kind
    · simp [here]
    · have elsewhere : listOf kind ≠ listOf login.owner.kind := fun same => here (listOf_inj same).symm
      simp [here, elsewhere]

/-- The lists of a payload hold items of logins of `found`. -/
structure Listed (found : List FoundLogin) (lists : List (Text × Json)) : Prop where
  distinct : (lists.map Prod.fst).Nodup
  items : ∀ u ∈ lists, (∃ kind, u.1 = listOf kind) ∧ ∃ logins : List FoundLogin, logins ⊆ found ∧ u.2 = .arr (logins.map itemOf)

theorem Listed.append {found : List FoundLogin} {lists : List (Text × Json)} (held : Listed found lists)
    {login : FoundLogin} (member : login ∈ found) : Listed found (append lists (listOf login.owner.kind) (itemOf login)) := by
  refine ⟨Dict.nodup_set held.distinct _ _, fun u inside => ?_⟩
  rcases Dict.mem_set inside with rfl | old
  · refine ⟨⟨_, rfl⟩, ?_⟩
    cases before : lists.lookup (listOf login.owner.kind) with
    | none => exact ⟨[login], by simpa using member, rfl⟩
    | some value =>
      obtain ⟨_, logins, among, same⟩ := held.items _ (List.mem_of_lookup_eq_some before)
      dsimp only at same
      subst same
      refine ⟨logins ++ [login], List.append_subset.mpr ⟨among, by simpa using member⟩, ?_⟩
      simp
  · exact held.items u old

theorem listed_foldl {found ordered : List FoundLogin} (among : ordered ⊆ found) {lists : List (Text × Json)}
    (held : Listed found lists) :
    Listed found (ordered.foldl (fun lists login => append lists (listOf login.owner.kind) (itemOf login)) lists) := by
  induction ordered generalizing lists with
  | nil => exact held
  | cons login ordered ih =>
    obtain ⟨here, later⟩ := List.cons_subset.mp among
    exact ih later (held.append here)

section

variable (sealedAt : Text) (found : List FoundLogin)

/-- The lists of the payload for `found`. -/
def listsOf : List (Text × Json) :=
  (found.insertionSort fun f f' => ownerLe f.owner f'.owner).foldl
    (fun lists login => append lists (listOf login.owner.kind) (itemOf login)) [(text "devices", .arr [])]

theorem payloadOf_eq : payloadOf sealedAt found = .obj ((text "sealed_at", .str sealedAt) :: listsOf found) := rfl

theorem listed_listsOf : Listed found (listsOf found) := by
  refine listed_foldl (fun login member => (List.perm_insertionSort _ _).mem_iff.mp member) ⟨by simp, fun u member => ?_⟩
  rw [List.mem_singleton.mp member]
  exact ⟨⟨.device, rfl⟩, [], List.nil_subset _, rfl⟩

theorem sealedAt_ne_listOf (kind : Kind) : text "sealed_at" ≠ listOf kind := by
  cases kind <;> decide

/-- The items of one kind in a payload. -/
theorem itemsAt_payload (kind : Kind) (item : Json) :
    item ∈ itemsAt ((payloadOf sealedAt found).get? (listOf kind)) ↔
      ∃ login ∈ found, login.owner.kind = kind ∧ itemOf login = item := by
  have lookup : (payloadOf sealedAt found).get? (listOf kind) = (listsOf found).lookup (listOf kind) := by
    rw [payloadOf_eq]
    change List.lookup _ _ = _
    rw [List.lookup_cons, beq_eq_false_iff_ne.mpr (sealedAt_ne_listOf kind).symm]
  have started : itemsAt (List.lookup (listOf kind) [(text "devices", Json.arr [])]) = [] := by
    cases kind <;> rfl
  rw [lookup, listsOf, itemsAt_foldl, started, List.nil_append]
  simp only [List.mem_map, List.mem_filter, decide_eq_true_eq, (List.perm_insertionSort _ _).mem_iff, and_assoc]

end

/-! ### A payload as JSON -/

/-- A dict of texts has each key once. -/
def IsDict (login : FoundLogin) : Prop :=
  (login.fields.map Prod.fst).Nodup

theorem mem_fieldsOf {login : FoundLogin} {u : Text × Json} :
    u ∈ fieldsOf login ↔ ∃ v ∈ login.fields, u = (v.1, .str v.2) := by
  unfold fieldsOf
  rw [List.mem_map]
  simp only [(List.perm_insertionSort _ _).mem_iff, eq_comm]

theorem keys_fieldsOf {login : FoundLogin} (isDict : IsDict login) : ((fieldsOf login).map Prod.fst).Nodup := by
  have names : Prod.fst ∘ (fun u : Text × Text => (u.1, Json.str u.2)) = Prod.fst := rfl
  rw [fieldsOf, List.map_map, names]
  exact ((List.perm_insertionSort _ _).map Prod.fst).nodup_iff.mpr isDict

theorem distinct_itemOf {login : FoundLogin} (isDict : IsDict login) : Distinct (itemOf login) := by
  have inside : Distinct (.obj (fieldsOf login)) := by
    refine ⟨keys_fieldsOf isDict, Json.distinctFields_iff.mpr fun u member => ?_⟩
    obtain ⟨v, _, rfl⟩ := mem_fieldsOf.mp member
    trivial
  unfold itemOf
  obtain ⟨⟨kind, name, qualifier⟩, fields⟩ := login
  cases kind with
  | device =>
    have names : [text "device", text "driver", text "fields"].Nodup := by decide
    exact ⟨names, trivial, trivial, inside, trivial⟩
  | plugin =>
    have names : [text "plugin", text "item", text "fields"].Nodup := by decide
    exact ⟨names, trivial, trivial, inside, trivial⟩
  | project =>
    have names : [text "section", text "fields"].Nodup := by decide
    exact ⟨names, trivial, inside, trivial⟩

theorem readable_itemOf (login : FoundLogin) {room : Nat} (enough : 2 ≤ room) : Readable room (itemOf login) := by
  have inside : Readable (room - 1) (.obj (fieldsOf login)) := by
    refine ⟨by omega, Json.readableFields_iff.mpr fun u member => ?_⟩
    obtain ⟨v, _, rfl⟩ := mem_fieldsOf.mp member
    trivial
  unfold itemOf
  obtain ⟨⟨kind, name, qualifier⟩, fields⟩ := login
  cases kind with
  | device | plugin => exact ⟨by omega, trivial, trivial, inside, trivial⟩
  | project => exact ⟨by omega, trivial, inside, trivial⟩

theorem distinct_payload (sealedAt : Text) {found : List FoundLogin} (dicts : ∀ login ∈ found, IsDict login) :
    Distinct (payloadOf sealedAt found) := by
  have held := listed_listsOf found
  rw [payloadOf_eq]
  refine ⟨List.nodup_cons.mpr ⟨fun member => ?_, held.distinct⟩, trivial, Json.distinctFields_iff.mpr fun u member => ?_⟩
  · obtain ⟨u, inside, same⟩ := List.mem_map.mp member
    obtain ⟨⟨kind, here⟩, _⟩ := held.items u inside
    exact sealedAt_ne_listOf kind (same.symm.trans here)
  · obtain ⟨_, logins, among, same⟩ := held.items u member
    rw [same]
    refine Json.distinctItems_iff.mpr fun v inside => ?_
    obtain ⟨login, here, rfl⟩ := List.mem_map.mp inside
    exact distinct_itemOf (dicts login (among here))

theorem readable_payload (sealedAt : Text) (found : List FoundLogin) {room : Nat} (enough : 4 ≤ room) :
    Readable room (payloadOf sealedAt found) := by
  have held := listed_listsOf found
  rw [payloadOf_eq]
  refine ⟨by omega, trivial, Json.readableFields_iff.mpr fun u member => ?_⟩
  obtain ⟨_, logins, _, same⟩ := held.items u member
  rw [same]
  refine ⟨by omega, Json.readableItems_iff.mpr fun v inside => ?_⟩
  obtain ⟨login, _, rfl⟩ := List.mem_map.mp inside
  exact readable_itemOf login (by omega)

/-! ### The logins that a payload gives -/

theorem mem_loginsFrom {payload : Json} {login : FoundLogin} :
    login ∈ loginsFrom payload ↔
      ∃ kind, ∃ item ∈ itemsAt (payload.get? (listOf kind)), loginFrom kind item = some login := by
  have each (kind : Kind) (listed : Text) : login ∈ (match payload.get? listed with
      | some (.arr items) => items.filterMap (loginFrom kind)
      | _ => []) ↔ ∃ item ∈ itemsAt (payload.get? listed), loginFrom kind item = some login := by
    unfold itemsAt
    split <;> simp
  unfold loginsFrom
  rw [List.mem_flatMap]
  constructor
  · rintro ⟨⟨kind, listed⟩, member, inside⟩
    have here : listed = listOf kind := by
      simp only [payloadLists, List.mem_cons, Prod.mk.injEq, List.not_mem_nil, or_false] at member
      rcases member with ⟨rfl, rfl⟩ | ⟨rfl, rfl⟩ | ⟨rfl, rfl⟩ <;> rfl
    subst here
    exact ⟨kind, (each kind _).mp inside⟩
  · rintro ⟨kind, inside⟩
    refine ⟨(kind, listOf kind), ?_, (each kind _).mpr inside⟩
    cases kind <;> decide

theorem loginFrom_eq_some {kind : Kind} {item : Json} {login : FoundLogin} (made : loginFrom kind item = some login) :
    ownerFrom item kind = some login.owner ∧ ∃ fields, item.get? (text "fields") = some (.obj fields) ∧
      login.fields ≠ [] ∧ ∀ u ∈ login.fields, (u.1, Json.str u.2) ∈ fields := by
  unfold loginFrom at made
  split at made
  · rename_i owner fields named held
    split at made
    · cases made
    · rename_i kept nonempty
      cases made
      refine ⟨named, fields, held, nonempty, fun u member => ?_⟩
      dsimp only at member
      obtain ⟨⟨key, value⟩, inside, taken⟩ := List.mem_filterMap.mp member
      obtain ⟨v, isText, taken⟩ := Option.bind_eq_some_iff.mp taken
      cases value with
      | str s =>
        cases isText
        split_ifs at taken
        cases taken
        exact inside
      | null | bool | int | float | constant | arr | obj => cases isText
  · cases made

/-! ### Which logins are read as they were -/

/-- The same login: a dict has no order. -/
def SameLogin (login login' : FoundLogin) : Prop :=
  login.owner = login'.owner ∧ ∀ k, login.fields.lookup k = login'.fields.lookup k

/-- The same logins as a set. -/
def SameSet (opened found : List FoundLogin) : Prop :=
  (∀ login ∈ found, ∃ login' ∈ opened, SameLogin login login') ∧
    ∀ login' ∈ opened, ∃ login ∈ found, SameLogin login login'

/-- A login that is written so that it is read as it was: it has a field, the project's has no
qualifier, and no text of it has a high surrogate right before a low one. -/
structure Written (login : FoundLogin) : Prop where
  name : Whole login.owner.name
  qualifier : Whole login.owner.qualifier
  fields : ∀ u ∈ login.fields, Whole u.1 ∧ Whole u.2
  nonempty : login.fields ≠ []
  project : login.owner.kind = .project → login.owner.qualifier = []

/-- What callers seal: names, drivers and values that are not blank. -/
structure Found (login : FoundLogin) : Prop where
  isDict : IsDict login
  name : login.owner.name ≠ []
  driver : login.owner.kind = .device → login.owner.qualifier ≠ []
  values : ∀ u ∈ login.fields, u.2 ≠ []

theorem texts_get? {v w : Json} {k : Text} (found : v.get? k = some w) : texts w ⊆ texts v := by
  cases v with
  | obj fields =>
    intro t member
    exact Json.mem_textsFields.mpr ⟨_, List.mem_of_lookup_eq_some found, Or.inr member⟩
  | null | bool | int | float | constant | str | arr => cases found

theorem ownerFrom_eq_some {item : Json} {kind : Kind} {owner : Owner} (named : ownerFrom item kind = some owner) :
    owner.kind = kind ∧ (∃ k, item.get? k = some (.str owner.name)) ∧
      ((∃ k, item.get? k = some (.str owner.qualifier)) ∨ owner.qualifier = []) ∧
      (kind = .project → owner.qualifier = []) := by
  unfold ownerFrom at named
  dsimp only at named
  split at named
  · rename_i name qualifier atName atQualifier
    split_ifs at named
    cases named
    refine ⟨rfl, ⟨_, atName⟩, ?_, ?_⟩
    · cases which : (Logins.ownerNames kind).2 with
      | none =>
        rw [which] at atQualifier
        exact Or.inr (Json.str.inj atQualifier).symm
      | some k =>
        rw [which] at atQualifier
        dsimp only at atQualifier
        cases given : item.get? k with
        | none =>
          rw [given] at atQualifier
          exact Or.inr (Json.str.inj atQualifier).symm
        | some value =>
          rw [given] at atQualifier
          exact Or.inl ⟨k, given.trans (congrArg some atQualifier)⟩
    · rintro rfl
      exact (Json.str.inj atQualifier).symm
  · cases named

/-- What is read from whole texts is written. -/
theorem written_of_loginsFrom {payload : Json} (whole : ∀ t ∈ texts payload, Whole t) {login : FoundLogin}
    (member : login ∈ loginsFrom payload) : Written login := by
  obtain ⟨kind, item, inside, made⟩ := mem_loginsFrom.mp member
  have within : texts item ⊆ texts payload := by
    cases listed : payload.get? (listOf kind) with
    | none =>
      rw [listed] at inside
      cases inside
    | some value =>
      rw [listed] at inside
      cases value with
      | arr items =>
        intro t here
        exact texts_get? listed (Json.mem_textsItems.mpr ⟨item, inside, here⟩)
      | null | bool | int | float | constant | str | obj => cases inside
  obtain ⟨named, fields, held, nonempty, kept⟩ := loginFrom_eq_some made
  obtain ⟨sameKind, ⟨_, atName⟩, qualified, project⟩ := ownerFrom_eq_some named
  have text' {k t : Text} (here : item.get? k = some (.str t)) : Whole t :=
    whole t (within (texts_get? here List.mem_cons_self))
  refine ⟨text' atName, ?_, fun u here => ?_, nonempty, fun isProject => project (sameKind.symm.trans isProject)⟩
  · rcases qualified with ⟨_, here⟩ | none'
    · exact text' here
    · rw [none']
      exact ⟨fun _ member => absurd member List.not_mem_nil, List.isChain_nil⟩
  · have inObj (t : Text) (at' : t = u.1 ∨ t ∈ texts (.str u.2)) : Whole t :=
      whole t (within (texts_get? held (Json.mem_textsFields.mpr ⟨_, kept u here, at'⟩)))
    exact ⟨inObj u.1 (Or.inl rfl), inObj u.2 (Or.inr List.mem_cons_self)⟩

theorem Written.of_same {login login' : FoundLogin} (same : SameLogin login login') (isDict : IsDict login)
    (written : Written login') : Written login := by
  obtain ⟨owner, fields⟩ := same
  refine ⟨owner ▸ written.name, owner ▸ written.qualifier, fun u member => ?_, fun empty => ?_, owner ▸ written.project⟩
  · have found := List.lookup_of_mem isDict member
    rw [fields] at found
    exact written.fields u (List.mem_of_lookup_eq_some found)
  · obtain ⟨u, rest, cons⟩ := List.exists_cons_of_ne_nil written.nonempty
    have found := fields u.1
    rw [empty, cons, List.lookup_cons, beq_self_eq_true] at found
    cases found

theorem get?_itemOf (login : FoundLogin) :
    (itemOf login).get? (Logins.ownerNames login.owner.kind).1 = some (.str login.owner.name) ∧
      (∀ k, (Logins.ownerNames login.owner.kind).2 = some k → (itemOf login).get? k = some (.str login.owner.qualifier)) ∧
      (itemOf login).get? (text "fields") = some (.obj (fieldsOf login)) := by
  obtain ⟨⟨kind, name, qualifier⟩, fields⟩ := login
  cases kind with
  | device => exact ⟨rfl, fun k same => by cases same; rfl, rfl⟩
  | plugin => exact ⟨rfl, fun k same => by cases same; rfl, rfl⟩
  | project => exact ⟨rfl, fun k same => (by cases same), rfl⟩

theorem ownerFrom_itemOf {login : FoundLogin} (found : Found login) (written : Written login) :
    ownerFrom (sorted (itemOf login)) login.owner.kind = some login.owner := by
  obtain ⟨name, qualifier, _⟩ := get?_itemOf login
  have inOrder := Json.get?_sorted (distinct_itemOf found.isDict)
  have blank : (login.owner.kind = .device ∧ login.owner.qualifier = []) ↔ False :=
    ⟨fun both => found.driver both.1 both.2, False.elim⟩
  unfold ownerFrom
  rw [inOrder, name]
  cases which : (Logins.ownerNames login.owner.kind).2 with
  | some k =>
    dsimp only
    rw [inOrder, qualifier k which]
    simp [sorted, found.name, blank]
  | none =>
    have isProject : login.owner.kind = .project := by
      cases kind : login.owner.kind with
      | device | plugin =>
        rw [kind] at which
        cases which
      | project => rfl
    have none' := written.project isProject
    obtain ⟨⟨kind, name', qualifier'⟩, fields⟩ := login
    dsimp only at none' isProject
    subst none' isProject
    simp [sorted, found.name]

/-- The fields that are kept of an item in order are those of its login. -/
theorem perm_kept {login : FoundLogin} (values : ∀ u ∈ login.fields, u.2 ≠ []) {fields : List (Text × Json)}
    (order : fields.Perm (fieldsOf login)) :
    (fields.filterMap fun u => u.2.asStr.bind fun v => if v ≠ [] then some (u.1, v) else none).Perm login.fields := by
  have all (l : List (Text × Text)) (values : ∀ u ∈ l, u.2 ≠ []) :
      ((l.map fun u => (u.1, Json.str u.2)).filterMap fun u =>
        u.2.asStr.bind fun v => if v ≠ [] then some (u.1, v) else none) = l := by
    induction l with
    | nil => rfl
    | cons u l ih =>
      obtain ⟨value, values⟩ := List.forall_mem_cons.mp values
      rw [List.map_cons, List.filterMap_cons, ih values]
      simp [Json.asStr, value]
  have sortedFields := List.perm_insertionSort (fun a b : Text × Text => a.1 ≤ b.1) login.fields
  refine (order.filterMap _).trans ?_
  unfold fieldsOf
  rw [all _ fun u member => values u ((List.perm_insertionSort _ _).mem_iff.mp member)]
  exact List.perm_insertionSort _ _

/-- A written login is read from its item as it was. -/
theorem loginFrom_itemOf {login : FoundLogin} (found : Found login) (written : Written login) :
    ∃ login', loginFrom login.owner.kind (sorted (itemOf login)) = some login' ∧ SameLogin login login' := by
  have distinct := distinct_itemOf found.isDict
  have named := ownerFrom_itemOf found written
  have plain (l : List (Text × Text)) :
      Json.sortedFields (l.map fun u => (u.1, Json.str u.2)) = l.map fun u => (u.1, Json.str u.2) := by
    induction l with
    | nil => rfl
    | cons u l ih =>
      rw [List.map_cons, Json.sortedFields, ih]
      rfl
  obtain ⟨fields, inOrder, order⟩ : ∃ fields, sorted (.obj (fieldsOf login)) = .obj fields ∧ fields.Perm (fieldsOf login) := by
    refine ⟨_, rfl, (List.perm_insertionSort _ _).trans ?_⟩
    unfold fieldsOf
    rw [plain]
  have held : (sorted (itemOf login)).get? (text "fields") = some (.obj fields) := by
    rw [Json.get?_sorted distinct, (get?_itemOf login).2.2, ← inOrder]
    rfl
  have kept := perm_kept found.values order
  generalize gathered : (fields.filterMap fun u => u.2.asStr.bind fun v => if v ≠ [] then some (u.1, v) else none) = l at kept
  have nonempty : l ≠ [] := by
    rintro rfl
    exact written.nonempty kept.symm.eq_nil
  refine ⟨⟨login.owner, l⟩, ?_, rfl, List.lookup_of_perm kept.symm found.isDict⟩
  obtain ⟨members, isObj⟩ : ∃ members, sorted (itemOf login) = .obj members := ⟨_, rfl⟩
  rw [isObj] at named held ⊢
  unfold loginFrom
  rw [named, held]
  dsimp only
  rw [gathered]
  cases l with
  | nil => exact absurd rfl nonempty
  | cons => rfl

/-- The logins that are read from the payload for `found`, in order. -/
theorem loginsFrom_payload (sealedAt : Text) {found : List FoundLogin} (each : ∀ login ∈ found, Found login)
    (written : ∀ login ∈ found, Written login) : SameSet (loginsFrom (sorted (payloadOf sealedAt found))) found := by
  have dicts : ∀ login ∈ found, IsDict login := fun login member => (each login member).isDict
  have inOrder (kind : Kind) : itemsAt ((sorted (payloadOf sealedAt found)).get? (listOf kind)) =
      (itemsAt ((payloadOf sealedAt found).get? (listOf kind))).map sorted := by
    rw [Json.get?_sorted (distinct_payload sealedAt dicts)]
    cases (payloadOf sealedAt found).get? (listOf kind) with
    | none => rfl
    | some value =>
      cases value with
      | arr items => exact Json.sortedItems_eq_map items
      | null | bool | int | float | constant | str | obj => rfl
  have gives (login' : FoundLogin) : login' ∈ loginsFrom (sorted (payloadOf sealedAt found)) ↔
      ∃ login ∈ found, loginFrom login.owner.kind (sorted (itemOf login)) = some login' := by
    rw [mem_loginsFrom]
    constructor
    · rintro ⟨kind, item, member, made⟩
      rw [inOrder] at member
      obtain ⟨item, among, rfl⟩ := List.mem_map.mp member
      obtain ⟨login, inside, rfl, rfl⟩ := (itemsAt_payload sealedAt found kind item).mp among
      exact ⟨login, inside, made⟩
    · rintro ⟨login, inside, made⟩
      refine ⟨login.owner.kind, _, ?_, made⟩
      rw [inOrder]
      exact List.mem_map_of_mem ((itemsAt_payload sealedAt found _ _).mpr ⟨login, inside, rfl, rfl⟩)
  constructor
  · intro login member
    obtain ⟨login', made, same⟩ := loginFrom_itemOf (each login member) (written login member)
    exact ⟨login', (gives login').mpr ⟨login, member, made⟩, same⟩
  · intro login' member
    obtain ⟨login, inside, made⟩ := (gives login').mp member
    obtain ⟨other, made', same⟩ := loginFrom_itemOf (each login inside) (written login inside)
    cases made.symm.trans made'
    exact ⟨login, inside, same⟩

/-! ### The texts of a payload -/

theorem whole_of_scalar {t : Text} (valid : t.all Json.Scan.scalar = true) : Whole t :=
  Json.rejoin_eq_iff.mp (Json.Scan.rejoin_scalar valid)

theorem whole_itemOf {login : FoundLogin} (written : Written login) : ∀ t ∈ texts (itemOf login), Whole t := by
  have fields : ∀ t ∈ texts (.obj (fieldsOf login)), Whole t := by
    intro t member
    obtain ⟨u, inside, here⟩ := Json.mem_textsFields.mp member
    obtain ⟨v, among, rfl⟩ := mem_fieldsOf.mp inside
    obtain ⟨key, value⟩ := written.fields v among
    rcases here with rfl | within
    · exact key
    · rw [List.mem_singleton.mp within]
      exact value
  have owner : ∀ u ∈ ownerFields login.owner, Whole u.1 ∧ ∀ t ∈ texts u.2, Whole t := by
    have name := written.name
    have qualifier := written.qualifier
    obtain ⟨⟨kind, name', qualifier'⟩, _⟩ := login
    have single {t s : Text} (whole : Whole s) (member : t ∈ texts (.str s)) : Whole t := by
      rw [List.mem_singleton.mp member]
      exact whole
    have first (kind : Kind) : Whole (Logins.ownerNames kind).1 := by cases kind <;> decide
    have second : Whole (text "driver") ∧ Whole (text "item") := by decide
    intro u member
    cases kind with
    | device =>
      rcases List.mem_cons.mp member with rfl | later
      · exact ⟨first .device, fun t => single name⟩
      · rw [List.mem_singleton.mp later]
        exact ⟨second.1, fun t => single qualifier⟩
    | plugin =>
      rcases List.mem_cons.mp member with rfl | later
      · exact ⟨first .plugin, fun t => single name⟩
      · rw [List.mem_singleton.mp later]
        exact ⟨second.2, fun t => single qualifier⟩
    | project =>
      rw [List.mem_singleton.mp member]
      exact ⟨first .project, fun t => single name⟩
  intro t member
  obtain ⟨u, inside, here⟩ := Json.mem_textsFields.mp member
  rcases List.mem_append.mp inside with first | last
  · rcases here with rfl | within
    · exact (owner u first).1
    · exact (owner u first).2 t within
  · rw [List.mem_singleton.mp last] at here
    rcases here with rfl | within
    · exact (by decide : Whole (text "fields"))
    · exact fields t within

theorem whole_payload {sealedAt : Text} (stamp : Whole sealedAt) {found : List FoundLogin}
    (written : ∀ login ∈ found, Written login) : ∀ t ∈ texts (sorted (payloadOf sealedAt found)), Whole t := by
  have held := listed_listsOf found
  have unordered : ∀ t ∈ texts (payloadOf sealedAt found), Whole t := by
    intro t member
    rw [payloadOf_eq] at member
    obtain ⟨u, inside, here⟩ := Json.mem_textsFields.mp member
    rcases List.mem_cons.mp inside with rfl | later
    · rcases here with rfl | within
      · exact (by decide : Whole (text "sealed_at"))
      · rw [List.mem_singleton.mp within]
        exact stamp
    · obtain ⟨⟨kind, name⟩, logins, among, same⟩ := held.items u later
      rcases here with rfl | within
      · rw [name]
        cases kind <;> decide
      · rw [same] at within
        obtain ⟨item, inItems, inText⟩ := Json.mem_textsItems.mp within
        obtain ⟨login, inLogins, rfl⟩ := List.mem_map.mp inItems
        exact whole_itemOf (written login (among inLogins)) t inText
  have all : (texts (payloadOf sealedAt found)).all (fun t => decide (Whole t)) = true :=
    List.all_eq_true.mpr fun t member => decide_eq_true (unordered t member)
  rw [← Json.all_texts_sorted] at all
  exact fun t member => of_decide_eq_true (List.all_eq_true.mp all t member)

/-- When the logins that a payload gives are those it was made of. -/
theorem sameSet_iff {sealedAt : Text} (stamp : Whole sealedAt) {found : List FoundLogin}
    (each : ∀ login ∈ found, Found login) {L : Json.Layout} (ascii : L.ensureAscii = true) :
    SameSet (loginsFrom (Json.readBack L (sorted (payloadOf sealedAt found)))) found ↔
      ∀ login ∈ found, Written login := by
  constructor
  · intro same login member
    obtain ⟨login', inside, equal⟩ := same.1 login member
    have written := written_of_loginsFrom (Json.whole_readBack ascii _) inside
    exact written.of_same equal (each login member).isDict
  · intro written
    have distinct := (distinct_payload sealedAt fun login member => (each login member).isDict).sorted
    have whole := whole_payload stamp written
    rw [Json.readBack_of_texts _ distinct fun t member => by
      rw [Json.Scan.rejoinAs_of_ascii ascii, Json.rejoin_whole (whole t member)]]
    exact loginsFrom_payload sealedAt each written

end OpenAvc.Bundle
