import OpenAvc.Data.JsonSame

/-! A device's JSON reply that repeats a name: each copy holds another part of one object. -/

namespace OpenAvc.Driver.JsonReply

open Json

mutual

/-- `_put_merging` -/
def putMerging (held : List (Text × Json)) (name : Text) : Json → List (Text × Json)
  | .obj value =>
    match held.lookup name with
    | some (.obj inner) => Dict.set held name (.obj (putEach inner value))
    | _ => Dict.set held name (.obj value)
  | value => Dict.set held name value

/-- `for name, value in pairs: _put_merging(held, name, value)` -/
def putEach (held : List (Text × Json)) : List (Text × Json) → List (Text × Json)
  | [] => held
  | (name, value) :: pairs => putEach (putMerging held name value) pairs

end

/-- `_merge_repeated_names` -/
def mergeRepeatedNames (pairs : List (Text × Json)) : Json :=
  let obj := ofPairs pairs
  if obj.length = pairs.length then .obj obj else .obj (putEach [] pairs)

/-- `parse_json_reply` -/
def parseJsonReply (budget : Nat) (t : Text) : Except LoadError Json :=
  loadsHooked mergeRepeatedNames budget t

/-- What is under a name when a value has come to what was there. -/
def joined : Option Json → Json → Json
  | some (.obj inner), .obj value => .obj (putEach inner value)
  | _, value => value

theorem putMerging_eq (held : List (Text × Json)) (name : Text) (value : Json) :
    putMerging held name value = Dict.set held name (joined (held.lookup name) value) := by
  cases value with
  | obj value =>
    rw [putMerging]
    split
    · rename_i inner here
      rw [here, joined]
    · rename_i other
      rw [joined]
      exact fun inner value here => absurd here (other inner)
  | _ => rw [putMerging, joined] <;> nofun

theorem joined_none (value : Json) : joined none value = value := by
  cases value <;> rfl

/-- What is no object takes the place of what was there. -/
theorem joined_of_not_obj (there : Option Json) {value : Json} (other : value.isObj = false) : joined there value = value := by
  cases value with
  | obj value => cases other
  | _ =>
    rw [joined]
    nofun

theorem joined_obj (inner value : List (Text × Json)) : joined (some (.obj inner)) (.obj value) = .obj (putEach inner value) := rfl

/-- No object is there to be merged into. -/
theorem joined_onto {there : Json} (other : there.isObj = false) (value : Json) : joined (some there) value = value := by
  cases there with
  | obj inner => cases other
  | _ => cases value <;> rfl

theorem lookup_putMerging (held : List (Text × Json)) (name k : Text) (value : Json) :
    (putMerging held name value).lookup k = if k = name then some (joined (held.lookup name) value) else held.lookup k := by
  rw [putMerging_eq, Dict.lookup_set]

theorem nodup_putMerging {held : List (Text × Json)} (distinct : (held.map Prod.fst).Nodup) (name : Text) (value : Json) :
    ((putMerging held name value).map Prod.fst).Nodup := by
  rw [putMerging_eq]
  exact Dict.nodup_set distinct name _

theorem names_putMerging (held : List (Text × Json)) (name : Text) (value : Json) :
    (putMerging held name value).map Prod.fst =
      if name ∈ held.map Prod.fst then held.map Prod.fst else held.map Prod.fst ++ [name] := by
  rw [putMerging_eq]
  split
  · rename_i present
    obtain ⟨v, here⟩ := List.exists_lookup_of_mem present
    exact Dict.keys_set_of_mem (by rw [here]; rfl)
  · rename_i absent
    rw [Dict.set_of_not_mem absent, List.map_append]
    rfl

theorem putEach_append (held first second : List (Text × Json)) :
    putEach held (first ++ second) = putEach (putEach held first) second := by
  induction first generalizing held with
  | nil => rfl
  | cons u first ih =>
    obtain ⟨k, v⟩ := u
    rw [List.cons_append, putEach, putEach, ih]

theorem nodup_putEach {held : List (Text × Json)} (distinct : (held.map Prod.fst).Nodup) (pairs : List (Text × Json)) :
    ((putEach held pairs).map Prod.fst).Nodup := by
  induction pairs generalizing held with
  | nil => exact distinct
  | cons u pairs ih =>
    obtain ⟨k, v⟩ := u
    exact ih (nodup_putMerging distinct k v)

/-- Under each name a dict puts its one value to what was there. -/
theorem lookup_putEach (held : List (Text × Json)) {value : List (Text × Json)} (distinct : (value.map Prod.fst).Nodup) (k : Text) :
    (putEach held value).lookup k =
      match value.lookup k with
      | none => held.lookup k
      | some v => some (joined (held.lookup k) v) := by
  induction value generalizing held with
  | nil => rfl
  | cons u value ih =>
    obtain ⟨j, w⟩ := u
    obtain ⟨apart, distinct⟩ := List.nodup_cons.mp distinct
    rw [putEach, ih _ distinct, lookup_putMerging]
    by_cases here : k = j
    · subst here
      have absent : value.lookup k = none := not_not.mp (mt keys_iff_lookup.mpr apart)
      rw [absent, List.lookup_cons_self, if_pos rfl]
    · rw [if_neg here, List.lookup_cons, beq_eq_false_iff_ne.mpr here]

/-- The names a dict has not yet come last, in their order. -/
theorem names_putEach (held : List (Text × Json)) {value : List (Text × Json)} (distinct : (value.map Prod.fst).Nodup) :
    (putEach held value).map Prod.fst =
      held.map Prod.fst ++ (value.map Prod.fst).filter fun k => k ∉ held.map Prod.fst := by
  induction value generalizing held with
  | nil => exact (List.append_nil _).symm
  | cons u value ih =>
    obtain ⟨j, w⟩ := u
    obtain ⟨apart, distinct⟩ := List.nodup_cons.mp distinct
    rw [putEach, ih _ distinct, names_putMerging, List.map_cons, List.filter_cons]
    by_cases present : j ∈ held.map Prod.fst
    · rw [if_pos present, if_neg (by simpa using present)]
    · rw [if_neg present, if_pos (by simpa using present), List.append_assoc, List.singleton_append]
      congr 2
      refine List.filter_congr fun k member => ?_
      have other : k ≠ j := fun same => apart (same ▸ member)
      simp [other]

/-- The first of pairs that repeat no name is new, and goes last. -/
theorem fresh_cons {held pairs : List (Text × Json)} {u : Text × Json} (distinct : ((held ++ u :: pairs).map Prod.fst).Nodup) :
    u.1 ∉ held.map Prod.fst ∧ (((held ++ [u]) ++ pairs).map Prod.fst).Nodup ∧ held ++ u :: pairs = (held ++ [u]) ++ pairs := by
  have split : held ++ u :: pairs = (held ++ [u]) ++ pairs := by
    rw [List.append_assoc]
    rfl
  have apart : u.1 ∉ held.map Prod.fst := by
    intro inside
    rw [List.map_append, List.nodup_append] at distinct
    exact distinct.2.2 u.1 inside u.1 List.mem_cons_self rfl
  exact ⟨apart, split ▸ distinct, split⟩

/-- New names are appended as they come. -/
theorem putEach_fresh {held pairs : List (Text × Json)} (distinct : ((held ++ pairs).map Prod.fst).Nodup) :
    putEach held pairs = held ++ pairs := by
  induction pairs generalizing held with
  | nil => exact (List.append_nil held).symm
  | cons u pairs ih =>
    obtain ⟨k, v⟩ := u
    obtain ⟨apart, distinct, split⟩ := fresh_cons distinct
    have absent : held.lookup k = none := not_not.mp (mt keys_iff_lookup.mpr apart)
    rw [putEach, putMerging_eq, absent, joined_none, Dict.set_of_not_mem apart, split]
    exact ih distinct

theorem putEach_nil {pairs : List (Text × Json)} (distinct : (pairs.map Prod.fst).Nodup) : putEach [] pairs = pairs :=
  putEach_fresh distinct

theorem length_set (held : List (Text × Json)) (name : Text) (value : Json) :
    (Dict.set held name value).length = if name ∈ held.map Prod.fst then held.length else held.length + 1 := by
  split
  · rename_i present
    obtain ⟨v, here⟩ := List.exists_lookup_of_mem present
    have names := Dict.keys_set_of_mem (d := held) (k := name) (v := value) (by rw [here]; rfl)
    have lengths := congrArg List.length names
    rwa [List.length_map, List.length_map] at lengths
  · rename_i absent
    rw [Dict.set_of_not_mem absent, List.length_append]
    rfl

theorem length_sets_le (held pairs : List (Text × Json)) :
    (pairs.foldl (fun d u => Dict.set d u.1 u.2) held).length ≤ held.length + pairs.length := by
  induction pairs generalizing held with
  | nil => exact Nat.le_refl _
  | cons u pairs ih =>
    have step := length_set held u.1 u.2
    have rest := ih (Dict.set held u.1 u.2)
    rw [List.foldl_cons, List.length_cons]
    split at step <;> omega

/-- A dict that is as long as its pairs has lost none of them. -/
theorem sets_full {held pairs : List (Text × Json)}
    (full : (pairs.foldl (fun d u => Dict.set d u.1 u.2) held).length = held.length + pairs.length) :
    pairs.foldl (fun d u => Dict.set d u.1 u.2) held = held ++ pairs := by
  induction pairs generalizing held with
  | nil => exact (List.append_nil held).symm
  | cons u pairs ih =>
    have step := length_set held u.1 u.2
    have rest := length_sets_le (Dict.set held u.1 u.2) pairs
    rw [List.foldl_cons, List.length_cons] at full
    by_cases present : u.1 ∈ held.map Prod.fst
    · rw [if_pos present] at step
      omega
    · rw [if_neg present] at step
      rw [List.foldl_cons, ih (by omega), Dict.set_of_not_mem present, List.append_assoc]
      rfl

theorem nodup_ofPairs (pairs : List (Text × Json)) : ((ofPairs pairs).map Prod.fst).Nodup := by
  unfold ofPairs
  have grows (held : List (Text × Json)) (distinct : (held.map Prod.fst).Nodup) :
      ((pairs.foldl (fun d u => Dict.set d u.1 u.2) held).map Prod.fst).Nodup := by
    induction pairs generalizing held with
    | nil => exact distinct
    | cons u pairs ih => exact ih _ (Dict.nodup_set distinct u.1 u.2)
  exact grows [] List.nodup_nil

/-- The fast path for an object that repeats no name makes no difference. -/
theorem mergeRepeatedNames_eq (pairs : List (Text × Json)) : mergeRepeatedNames pairs = .obj (putEach [] pairs) := by
  unfold mergeRepeatedNames
  dsimp only
  split
  · rename_i full
    have same : ofPairs pairs = pairs := sets_full (full.trans (Nat.zero_add _).symm)
    have distinct := nodup_ofPairs pairs
    rw [same] at distinct ⊢
    rw [putEach_nil distinct]
  · rfl

theorem sets_fresh {held pairs : List (Text × Json)} (distinct : ((held ++ pairs).map Prod.fst).Nodup) :
    pairs.foldl (fun d u => Dict.set d u.1 u.2) held = held ++ pairs := by
  induction pairs generalizing held with
  | nil => exact (List.append_nil held).symm
  | cons u pairs ih =>
    obtain ⟨apart, distinct, split⟩ := fresh_cons distinct
    rw [List.foldl_cons, Dict.set_of_not_mem apart, split]
    exact ih distinct

theorem ofPairs_eq {pairs : List (Text × Json)} (distinct : (pairs.map Prod.fst).Nodup) : ofPairs pairs = pairs :=
  sets_fresh distinct

/-- A tree of pairs, each object's copies of a name put into one. -/
def merged (v : Json) : Json :=
  rebuild mergeRepeatedNames v

/-- The pairs of an object, each merged. -/
def mergedPairs (pairs : List (Text × Json)) : List (Text × Json) :=
  pairs.map fun u => (u.1, merged u.2)

theorem mergedPairs_cons (k : Text) (v : Json) (pairs : List (Text × Json)) :
    mergedPairs ((k, v) :: pairs) = (k, merged v) :: mergedPairs pairs := rfl

theorem mergedPairs_append (first second : List (Text × Json)) :
    mergedPairs (first ++ second) = mergedPairs first ++ mergedPairs second := List.map_append

theorem mergedPairs_perm {pairs pairs' : List (Text × Json)} (arranged : pairs.Perm pairs') :
    (mergedPairs pairs).Perm (mergedPairs pairs') := arranged.map _

theorem merged_arr (items : List Json) : merged (.arr items) = .arr (items.map merged) := by
  unfold merged
  rw [rebuild, rebuildItems_eq_map]

theorem merged_obj (pairs : List (Text × Json)) : merged (.obj pairs) = .obj (putEach [] (mergedPairs pairs)) := by
  unfold merged mergedPairs
  rw [rebuild, rebuildPairs_eq_map, mergeRepeatedNames_eq]
  rfl

theorem parseJsonReply_eq (budget : Nat) (t : Text) : parseJsonReply budget t = (loadsPairs budget t).map merged :=
  loadsHooked_eq mergeRepeatedNames budget t

/-- Without repeats the hook that puts pairs together as they are changes nothing. -/
theorem rebuild_distinct {hook : List (Text × Json) → Json}
    (plain : ∀ pairs, (pairs.map Prod.fst).Nodup → hook pairs = .obj pairs) {v : Json} (distinct : Distinct v) :
    rebuild hook v = v := by
  induction v using inductTree with
  | flat v flat => exact rebuild_flat hook flat
  | arr items ih =>
    have each := distinctItems_iff.mp distinct
    rw [rebuild, rebuildItems_eq_map]
    exact congrArg Json.arr ((List.map_congr_left fun v member => ih v member (each v member)).trans (List.map_id _))
  | obj fields ih =>
    have each := distinctFields_iff.mp distinct.2
    have same : rebuildPairs hook fields = fields := by
      rw [rebuildPairs_eq_map]
      refine (List.map_congr_left fun u member => ?_).trans (List.map_id _)
      rw [ih u member (each u member)]
      rfl
    rw [rebuild, same, plain fields distinct.1]

theorem merged_distinct {v : Json} (distinct : Distinct v) : merged v = v :=
  rebuild_distinct (fun pairs apart => by rw [mergeRepeatedNames_eq, putEach_nil apart]) distinct

/-- A text that repeats no name reads as `json.loads` reads it. -/
theorem parseJsonReply_distinct {budget : Nat} {t : Text} {v : Json} (read : loadsPairs budget t = .ok v) (distinct : Distinct v) :
    parseJsonReply budget t = loads budget t := by
  have plain := rebuild_distinct (fun pairs apart => congrArg Json.obj (ofPairs_eq apart)) distinct
  rw [parseJsonReply_eq, loads_eq_pairs, read]
  change Except.ok (merged v) = Except.ok (rebuild _ v)
  rw [merged_distinct distinct, plain]

end OpenAvc.Driver.JsonReply
