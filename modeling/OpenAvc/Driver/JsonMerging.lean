import Mathlib.Data.List.Induction
import OpenAvc.Driver.JsonReply

/-! What merging does to parts of one tree: it is associative, and but for the order of members it
is commutative. -/

namespace OpenAvc.Driver.JsonReply

open Json

/-- A tree whose objects are objects of `whole`, each with some of its members, and whose other
values are those of `whole`. -/
inductive Part : Json → Json → Prop
  | value {whole v : Json} : v.isObj = false → Same v whole → Part whole v
  | obj {whole part : List (Text × Json)} : (part.map Prod.fst).Nodup →
      (∀ k v, part.lookup k = some v → whole.lookup k ≠ none) →
      (∀ k v w, part.lookup k = some v → whole.lookup k = some w → Part w v) → Part (.obj whole) (.obj part)

theorem Part.isObj {whole v : Json} (part : Part whole v) : v.isObj = whole.isObj := by
  cases part with
  | value _ same => exact same.isObj
  | obj _ _ _ => rfl

/-- Both are objects, or neither is. -/
theorem Part.isObj_eq {whole v w : Json} (first : Part whole v) (second : Part whole w) : v.isObj = w.isObj :=
  first.isObj.trans second.isObj.symm

theorem exists_of_isObj {v : Json} (object : v.isObj = true) : ∃ fields, v = .obj fields := by
  cases v with
  | obj fields => exact ⟨fields, rfl⟩
  | _ => cases object

/-- The cases of two parts of one tree. -/
theorem Part.cases {whole v w : Json} (first : Part whole v) (second : Part whole w) :
    (v.isObj = false ∧ w.isObj = false) ∨ ∃ fields fields', v = .obj fields ∧ w = .obj fields' := by
  cases object : v.isObj with
  | false => exact Or.inl ⟨rfl, (first.isObj_eq second).symm.trans object⟩
  | true =>
    obtain ⟨fields, same⟩ := exists_of_isObj object
    obtain ⟨fields', same'⟩ := exists_of_isObj ((first.isObj_eq second).symm.trans object)
    exact Or.inr ⟨fields, fields', same, same'⟩

theorem Part.distinct {whole : Json} {part : List (Text × Json)} (fits : Part whole (.obj part)) : (part.map Prod.fst).Nodup := by
  cases fits with
  | value object _ => cases object
  | obj distinct _ _ => exact distinct

/-- What a part holds under a name is a part of what the whole holds there. -/
theorem Part.member {whole part : List (Text × Json)} (fits : Part (.obj whole) (.obj part)) {k : Text} {v : Json}
    (held : part.lookup k = some v) : ∃ w, whole.lookup k = some w ∧ Part w v := by
  cases fits with
  | value object _ => cases object
  | obj _ names values =>
    obtain ⟨w, there⟩ := Option.ne_none_iff_exists'.mp (names k v held)
    exact ⟨w, there, values k v w held there⟩

theorem Part.members {whole part : List (Text × Json)} (fits : Part (.obj whole) (.obj part)) {k : Text} {v w : Json}
    (held : part.lookup k = some v) (there : whole.lookup k = some w) : Part w v := by
  obtain ⟨w', there', member⟩ := fits.member held
  rw [there] at there'
  exact Option.some.inj there' ▸ member

theorem Part.joined {whole v w : Json} (first : Part whole v) (second : Part whole w) : Part whole (joined (some v) w) := by
  induction first generalizing w with
  | value object same =>
    rw [joined_onto object]
    exact second
  | @obj whole part distinct names values ih =>
    rcases (Part.obj distinct names values).cases second with ⟨object, _⟩ | ⟨_, fields, _, rfl⟩
    · cases object
    rw [joined_obj]
    have lookups := lookup_putEach part second.distinct
    refine .obj (nodup_putEach distinct fields) (fun k v held => ?_) fun k v w held there => ?_
    · rw [lookups] at held
      cases inSecond : fields.lookup k with
      | none =>
        rw [inSecond] at held
        exact names k v held
      | some x =>
        obtain ⟨w, there, _⟩ := second.member inSecond
        rw [there]
        exact Option.some_ne_none w
    · rw [lookups] at held
      cases inSecond : fields.lookup k with
      | none =>
        rw [inSecond] at held
        exact values k v w held there
      | some x =>
        rw [inSecond] at held
        have right := second.members inSecond there
        rw [← Option.some.inj held]
        cases inFirst : part.lookup k with
        | none =>
          rw [joined_none]
          exact right
        | some y => exact ih k y w inFirst there right

/-- Three dicts are put together either way, if their values are. -/
theorem putEach_assoc_of {first second third : List (Text × Json)} (distinct : (first.map Prod.fst).Nodup)
    (distinct₂ : (second.map Prod.fst).Nodup) (distinct₃ : (third.map Prod.fst).Nodup)
    (values : ∀ k x y z, first.lookup k = some x → second.lookup k = some y → third.lookup k = some z →
      joined (some (joined (some x) y)) z = joined (some x) (joined (some y) z)) :
    putEach (putEach first second) third = putEach first (putEach second third) := by
  have both := nodup_putEach distinct₂ third
  refine fields_ext (nodup_putEach (nodup_putEach distinct second) third) ?_ fun k => ?_
  · rw [names_putEach _ distinct₃, names_putEach _ distinct₂, names_putEach _ both, names_putEach _ distinct₃,
      List.filter_append, List.append_assoc, List.filter_filter]
    congr 2
    refine List.filter_congr fun k _ => ?_
    by_cases inFirst : k ∈ first.map Prod.fst <;> by_cases inSecond : k ∈ second.map Prod.fst <;>
      simp [inFirst, inSecond]
  · rw [lookup_putEach _ distinct₃, lookup_putEach _ distinct₂, lookup_putEach _ both, lookup_putEach _ distinct₃]
    cases third' : third.lookup k with
    | none => rfl
    | some z =>
      cases second' : second.lookup k with
      | none =>
        dsimp only
        rw [joined_none]
      | some y =>
        dsimp only
        cases first' : first.lookup k with
        | none => rw [joined_none, joined_none]
        | some x => rw [values k x y z first' second' third']

/-- Parts of one tree are merged either way. -/
theorem Part.joined_assoc {whole x y z : Json} (first : Part whole x) (second : Part whole y) (third : Part whole z) :
    JsonReply.joined (some (JsonReply.joined (some x) y)) z = JsonReply.joined (some x) (JsonReply.joined (some y) z) := by
  induction first generalizing y z with
  | @value whole v object same =>
    have other := ((Part.value object same).isObj_eq second).symm.trans object
    rw [joined_onto object, joined_onto other, joined_onto object]
  | @obj whole part distinct names values ih =>
    have first := Part.obj distinct names values
    rcases first.cases second with ⟨object, _⟩ | ⟨_, fields, _, rfl⟩
    · cases object
    rcases first.cases third with ⟨object, _⟩ | ⟨_, fields', _, rfl⟩
    · cases object
    rw [joined_obj, joined_obj, joined_obj, joined_obj]
    refine congrArg Json.obj (putEach_assoc_of distinct second.distinct third.distinct fun k x y z inFirst inSecond inThird => ?_)
    obtain ⟨w, there, _⟩ := first.member inFirst
    exact ih k x w inFirst there (second.members inSecond there) (third.members inThird there)

theorem Part.same_of_value {whole v : Json} (part : Part whole v) (object : v.isObj = false) : Same v whole := by
  cases part with
  | value _ same => exact same
  | obj _ _ _ => cases object

/-- The order in which two parts are merged is only seen in the order of members. -/
theorem Part.joined_comm {whole x y : Json} (first : Part whole x) (second : Part whole y) :
    Same (JsonReply.joined (some x) y) (JsonReply.joined (some y) x) := by
  induction first generalizing y with
  | @value whole v object same =>
    have other := ((Part.value object same).isObj_eq second).symm.trans object
    rw [joined_onto object, joined_onto other]
    exact (second.same_of_value other).trans same.symm
  | @obj whole part distinct names values ih =>
    have first := Part.obj distinct names values
    rcases first.cases second with ⟨object, _⟩ | ⟨_, fields, _, rfl⟩
    · cases object
    rw [joined_obj, joined_obj]
    refine Same.of_lookup fun k => ?_
    rw [lookup_putEach part second.distinct, lookup_putEach fields distinct]
    cases inFirst : part.lookup k with
    | none =>
      cases inSecond : fields.lookup k with
      | none => exact .none
      | some y =>
        dsimp only
        rw [joined_none]
        exact .some (.refl y)
    | some x =>
      cases inSecond : fields.lookup k with
      | none =>
        dsimp only
        rw [joined_none]
        exact .some (.refl x)
      | some y =>
        obtain ⟨w, there, _⟩ := first.member inFirst
        exact .some (ih k x w inFirst there (second.members inSecond there))

/-- Equal trees are merged into equal trees. -/
theorem same_joined {whole x x' y y' : Json} (there : Same x x') (value : Same y y') (part : Part whole y)
    (part' : Part whole y') : Same (joined (some x) y) (joined (some x') y') := by
  induction there generalizing whole y y' with
  | @flat v flat =>
    have object : v.isObj = false := by
      cases v with
      | obj fields => cases flat
      | _ => rfl
    rw [joined_onto object, joined_onto object]
    exact value
  | arr _ _ _ =>
    rw [joined_onto rfl, joined_onto rfl]
    exact value
  | @obj d d' keys olds ih =>
    have there := Same.obj keys olds
    rcases part.cases part' with ⟨object, object'⟩ | ⟨fields, fields', rfl, rfl⟩
    · rw [joined_of_not_obj _ object, joined_of_not_obj _ object']
      exact value
    obtain ⟨members, rfl⟩ := exists_of_isObj part.isObj.symm
    rw [joined_obj, joined_obj]
    refine Same.of_lookup fun k => ?_
    rw [lookup_putEach d part.distinct, lookup_putEach d' part'.distinct]
    have old := there.lookup k
    have new := value.lookup k
    generalize here : fields.lookup k = got at new ⊢
    generalize here' : fields'.lookup k = got' at new ⊢
    cases new with
    | none => exact old
    | @some y y' equal =>
      obtain ⟨w, inWhole, fits⟩ := part.member here
      refine .some ?_
      generalize held : d.lookup k = was at old ⊢
      generalize held' : d'.lookup k = was' at old ⊢
      cases old with
      | none =>
        rw [joined_none, joined_none]
        exact equal
      | @some x x' _ => exact ih k x x' held held' equal fits (part'.members here' inWhole)

/-! ### Pairs put into a dict one after the other -/

/-- Each pair is a part of what `whole` holds under its name. -/
def Parts (whole pairs : List (Text × Json)) : Prop :=
  ∀ u ∈ pairs, ∃ w, whole.lookup u.1 = some w ∧ Part w u.2

variable {whole : List (Text × Json)}

theorem Parts.cons {u : Text × Json} {pairs : List (Text × Json)} (parts : Parts whole (u :: pairs)) :
    (∃ w, whole.lookup u.1 = some w ∧ Part w u.2) ∧ Parts whole pairs :=
  ⟨parts u List.mem_cons_self, fun v member => parts v (List.mem_cons_of_mem _ member)⟩

theorem Parts.append {first second : List (Text × Json)} (parts : Parts whole (first ++ second)) :
    Parts whole first ∧ Parts whole second :=
  ⟨fun u member => parts u (List.mem_append_left _ member), fun u member => parts u (List.mem_append_right _ member)⟩

theorem Part.nil : Part (.obj whole) (.obj []) :=
  .obj List.nodup_nil nofun nofun

theorem Part.single {k : Text} {v w : Json} (there : whole.lookup k = some w) (part : Part w v) :
    Part (.obj whole) (.obj [(k, v)]) := by
  have only : ∀ j x, List.lookup j [(k, v)] = some x → j = k ∧ v = x := by
    intro j x held
    have member := List.mem_of_lookup_eq_some held
    have same := List.mem_singleton.mp member
    exact ⟨congrArg Prod.fst same, (congrArg Prod.snd same).symm⟩
  refine .obj (List.nodup_singleton k) (fun j x held => ?_) fun j x w' held there' => ?_
  · rw [(only j x held).1, there]
    exact Option.some_ne_none w
  · obtain ⟨rfl, rfl⟩ := only j x held
    rw [there] at there'
    rw [← Option.some.inj there']
    exact part

theorem Part.putMerging {held : List (Text × Json)} (fits : Part (.obj whole) (.obj held)) {k : Text} {v w : Json}
    (there : whole.lookup k = some w) (part : Part w v) : Part (.obj whole) (.obj (JsonReply.putMerging held k v)) :=
  fits.joined (.single there part)

theorem Part.putEach {held pairs : List (Text × Json)} (fits : Part (.obj whole) (.obj held)) (parts : Parts whole pairs) :
    Part (.obj whole) (.obj (JsonReply.putEach held pairs)) := by
  induction pairs generalizing held with
  | nil => exact fits
  | cons u pairs ih =>
    obtain ⟨⟨w, there, part⟩, later⟩ := parts.cons
    exact ih (fits.putMerging there part) later

/-- It makes no difference whether pairs are put into a dict one by one or merged before. -/
theorem putEach_merged {held pairs : List (Text × Json)} (fits : Part (.obj whole) (.obj held)) (parts : Parts whole pairs) :
    putEach held pairs = putEach held (putEach [] pairs) := by
  induction pairs using List.reverseRecOn with
  | nil => rfl
  | append_singleton pairs u ih =>
    obtain ⟨before, last⟩ := parts.append
    obtain ⟨⟨w, there, part⟩, _⟩ := last.cons
    have middle : Part (.obj whole) (.obj (putEach [] pairs)) := Part.nil.putEach before
    have assoc := fits.joined_assoc middle (Part.single there part)
    rw [joined_obj, joined_obj, joined_obj, joined_obj] at assoc
    rw [putEach_append, putEach_append, ih before]
    exact Json.obj.inj assoc

/-- The copies of an object, merged, are the object. -/
theorem putEach_split {first second : List (Text × Json)} (parts : Parts whole (first ++ second)) :
    putEach [] (first ++ second) = putEach (putEach [] first) (putEach [] second) := by
  obtain ⟨parts, parts'⟩ := parts.append
  rw [putEach_append]
  exact putEach_merged (Part.nil.putEach parts) parts'

theorem same_putMerging {held held' : List (Text × Json)} (same : Same (.obj held) (.obj held')) (k : Text) {w v v' : Json}
    (value : Same v v') (part : Part w v) (part' : Part w v') :
    Same (.obj (putMerging held k v)) (.obj (putMerging held' k v')) := by
  refine Same.of_lookup fun j => ?_
  rw [lookup_putMerging, lookup_putMerging]
  have there := same.lookup k
  split
  · refine .some ?_
    generalize held.lookup k = was at there ⊢
    generalize held'.lookup k = was' at there ⊢
    cases there with
    | none =>
      rw [joined_none, joined_none]
      exact value
    | some old => exact same_joined old value part part'
  · exact same.lookup j

theorem same_putEach {held held' pairs : List (Text × Json)} (same : Same (.obj held) (.obj held')) (parts : Parts whole pairs) :
    Same (.obj (putEach held pairs)) (.obj (putEach held' pairs)) := by
  induction pairs generalizing held held' with
  | nil => exact same
  | cons u pairs ih =>
    obtain ⟨⟨w, _, part⟩, later⟩ := parts.cons
    exact ih (same_putMerging same u.1 (.refl u.2) part part) later

/-- Two pairs may be put into a dict in either order. -/
theorem putMerging_swap {held : List (Text × Json)} (fits : Part (.obj whole) (.obj held)) {u u' : Text × Json}
    (parts : Parts whole [u, u']) :
    Same (.obj (putMerging (putMerging held u.1 u.2) u'.1 u'.2)) (.obj (putMerging (putMerging held u'.1 u'.2) u.1 u.2)) := by
  obtain ⟨k, v⟩ := u
  obtain ⟨j, v'⟩ := u'
  obtain ⟨⟨w, there, part⟩, later⟩ := parts.cons
  obtain ⟨⟨w', there', part'⟩, _⟩ := later.cons
  refine Same.of_lookup fun i => ?_
  simp only [lookup_putMerging]
  by_cases here : j = k
  · subst here
    simp only [if_pos]
    rw [there'] at there
    rw [Option.some.inj there] at part'
    split
    · refine .some ?_
      cases old : held.lookup j with
      | none =>
        rw [joined_none, joined_none]
        exact part.joined_comm part'
      | some x =>
        have first := fits.members old there'
        rw [Option.some.inj there] at first
        rw [first.joined_assoc part part', first.joined_assoc part' part]
        exact same_joined (.refl x) (part.joined_comm part') (part.joined part') (part'.joined part)
    · cases held.lookup i with
      | none => exact .none
      | some x => exact .some (.refl x)
  · rw [if_neg here, if_neg (Ne.symm here)]
    by_cases atJ : i = j
    · rw [if_pos atJ, if_neg (fun atK => here (atJ.symm.trans atK)), if_pos atJ]
      exact .some (.refl _)
    · rw [if_neg atJ, if_neg atJ]
      split
      · exact .some (.refl _)
      · cases held.lookup i with
        | none => exact .none
        | some x => exact .some (.refl x)

/-- The order of the pairs is only seen in the order of members. -/
theorem putEach_perm {held pairs pairs' : List (Text × Json)} (fits : Part (.obj whole) (.obj held)) (parts : Parts whole pairs)
    (arranged : pairs.Perm pairs') : Same (.obj (putEach held pairs)) (.obj (putEach held pairs')) := by
  induction arranged generalizing held with
  | nil => exact .refl _
  | cons u _ ih =>
    obtain ⟨⟨w, there, part⟩, later⟩ := parts.cons
    exact ih (fits.putMerging there part) later
  | swap u u' pairs =>
    have two : Parts whole [u', u] := fun v member => parts v (List.mem_append_left pairs member)
    exact same_putEach (putMerging_swap fits two) parts.cons.2.cons.2
  | trans first _ ih ih' =>
    exact (ih fits parts).trans (ih' fits fun u member => parts u (first.mem_iff.mpr member))

end OpenAvc.Driver.JsonReply
