import Mathlib.Logic.Relation
import OpenAvc.Driver.JsonMerging

/-! Objects that a device sends in several copies, and that a reply of such copies reads as the
tree they were copied from. -/

namespace OpenAvc.Driver.JsonReply

open Json

/-- One object, anywhere in a tree, goes out as two of its name that share its members; the
members of the object around it may stand in any order. -/
inductive Splits : Json → Json → Prop
  | here {pairs pairs' rest members first second : List (Text × Json)} {k : Text} :
      pairs.Perm ((k, .obj members) :: rest) → members.Perm (first ++ second) →
      pairs'.Perm ((k, .obj first) :: (k, .obj second) :: rest) → Splits (.obj pairs) (.obj pairs')
  | member (before : List (Text × Json)) (k : Text) {v v' : Json} (after : List (Text × Json)) : Splits v v' →
      Splits (.obj (before ++ (k, v) :: after)) (.obj (before ++ (k, v') :: after))
  | item (before : List Json) {v v' : Json} (after : List Json) : Splits v v' →
      Splits (.arr (before ++ v :: after)) (.arr (before ++ v' :: after))

/-- The first copy stands where the object stood and has the first of its members; what stands
between the copies has other names. -/
inductive SplitsInOrder : Json → Json → Prop
  | here (before : List (Text × Json)) (k : Text) (first second between after : List (Text × Json)) :
      k ∉ between.map Prod.fst →
      SplitsInOrder (.obj (before ++ (k, .obj (first ++ second)) :: (between ++ after)))
        (.obj (before ++ (k, .obj first) :: (between ++ (k, .obj second) :: after)))
  | member (before : List (Text × Json)) (k : Text) {v v' : Json} (after : List (Text × Json)) : SplitsInOrder v v' →
      SplitsInOrder (.obj (before ++ (k, v) :: after)) (.obj (before ++ (k, v') :: after))
  | item (before : List Json) {v v' : Json} (after : List Json) : SplitsInOrder v v' →
      SplitsInOrder (.arr (before ++ v :: after)) (.arr (before ++ v' :: after))

theorem SplitsInOrder.splits {v v' : Json} (split : SplitsInOrder v v') : Splits v v' := by
  induction split with
  | here before k first second between after _ =>
    refine .here List.perm_middle (List.Perm.refl _) ?_
    have inner : (before ++ (k, .obj first) :: (between ++ (k, .obj second) :: after)).Perm
        ((k, .obj first) :: ((before ++ between) ++ (k, .obj second) :: after)) := by
      rw [List.append_assoc]
      exact List.perm_middle
    refine inner.trans (List.Perm.cons _ ?_)
    rw [← List.append_assoc]
    exact List.perm_middle
  | member before k after _ ih => exact .member before k after ih
  | item before after _ ih => exact .item before after ih

/-- A tree of copies: every object in it is an object of `whole` with some of its members, any of
them in copies again; an array's items make up those of the array. -/
inductive Copies : Json → Json → Prop
  | flat {v : Json} : v.flat = true → Copies v v
  | arr {whole items : List Json} : whole.length = items.length →
      (∀ (i : Nat) w v, whole[i]? = some w → items[i]? = some v → Copies w v) →
      (∀ (i : Nat) w v, whole[i]? = some w → items[i]? = some v → Same (merged v) w) → Copies (.arr whole) (.arr items)
  | obj {whole pairs : List (Text × Json)} : (∀ u ∈ pairs, whole.lookup u.1 ≠ none) →
      (∀ u ∈ pairs, ∀ w, whole.lookup u.1 = some w → Copies w u.2) → Copies (.obj whole) (.obj pairs)

theorem merged_flat {v : Json} (flat : v.flat = true) : merged v = v :=
  rebuild_flat _ flat

/-- Merged, a tree of copies is a part of the tree. -/
theorem Copies.part {whole v : Json} (copies : Copies whole v) : Part whole (merged v) := by
  induction copies with
  | @flat v flat =>
    rw [merged_flat flat]
    refine .value ?_ (.refl v)
    cases v with
    | obj fields => cases flat
    | _ => rfl
  | @arr whole items lengths _ same _ =>
    rw [merged_arr]
    refine .value rfl (.arr ?_ fun i v w here there => ?_)
    · rw [List.length_map]
      exact lengths.symm
    · rw [List.getElem?_map] at here
      obtain ⟨x, held, rfl⟩ := Option.map_eq_some_iff.mp here
      exact same i w x there held
  | @obj whole pairs names values ih =>
    rw [merged_obj]
    refine Part.nil.putEach fun u member => ?_
    obtain ⟨u, inside, rfl⟩ := List.mem_map.mp member
    obtain ⟨w, there⟩ := Option.ne_none_iff_exists'.mp (names u inside)
    exact ⟨w, there, ih u inside w there⟩

theorem Copies.members {whole pairs : List (Text × Json)} (copies : Copies (.obj whole) (.obj pairs)) :
    ∀ u ∈ pairs, ∃ w, whole.lookup u.1 = some w ∧ Copies w u.2 := by
  cases copies with
  | flat flat => cases flat
  | obj names values =>
    intro u member
    obtain ⟨w, there⟩ := Option.ne_none_iff_exists'.mp (names u member)
    exact ⟨w, there, values u member w there⟩

theorem Copies.of_members {whole pairs : List (Text × Json)} (members : ∀ u ∈ pairs, ∃ w, whole.lookup u.1 = some w ∧ Copies w u.2) :
    Copies (.obj whole) (.obj pairs) := by
  refine .obj (fun u member => ?_) fun u member w there => ?_
  · obtain ⟨w, there, _⟩ := members u member
    rw [there]
    exact Option.some_ne_none w
  · obtain ⟨w', there', copies⟩ := members u member
    rw [there] at there'
    exact Option.some.inj there' ▸ copies

theorem Copies.parts {whole pairs : List (Text × Json)} (copies : Copies (.obj whole) (.obj pairs)) :
    Parts whole (mergedPairs pairs) := by
  intro u member
  obtain ⟨u, inside, rfl⟩ := List.mem_map.mp member
  obtain ⟨w, there, copies⟩ := copies.members u inside
  exact ⟨w, there, copies.part⟩

theorem Copies.whole_obj {whole : Json} {pairs : List (Text × Json)} (copies : Copies whole (.obj pairs)) :
    ∃ fields, whole = .obj fields := by
  cases copies with
  | flat flat => cases flat
  | obj _ _ => exact ⟨_, rfl⟩

theorem Copies.subset {whole pairs pairs' : List (Text × Json)} (copies : Copies (.obj whole) (.obj pairs)) (subset : pairs' ⊆ pairs) :
    Copies (.obj whole) (.obj pairs') :=
  .of_members fun u member => copies.members u (subset member)

theorem putMerging_single (k : Text) (value : Json) : putMerging [] k value = [(k, value)] := by
  rw [putMerging_eq, List.lookup_nil, joined_none]
  rfl

theorem putMerging_twice (k : Text) (first second : List (Text × Json)) :
    putMerging [(k, .obj first)] k (.obj second) = [(k, .obj (putEach first second))] := by
  rw [putMerging_eq, List.lookup_cons_self, joined_obj, Dict.set, if_pos (beq_self_eq_true k)]

theorem same_single (k : Text) {v v' : Json} (same : Same v v') : Same (.obj [(k, v)]) (.obj [(k, v')]) := by
  refine Same.of_lookup fun j => ?_
  rw [List.lookup_cons, List.lookup_cons]
  split
  · exact .some same
  · exact .none

section Items

variable {before after : List Json} {v v' : Json}

theorem getElem?_here : (before ++ v :: after)[before.length]? = some v := by
  rw [List.getElem?_append_right (Nat.le_refl _), Nat.sub_self]
  rfl

theorem getElem?_elsewhere {i : Nat} (other : i ≠ before.length) : (before ++ v' :: after)[i]? = (before ++ v :: after)[i]? := by
  by_cases early : i < before.length
  · rw [List.getElem?_append_left early, List.getElem?_append_left early]
  · obtain ⟨n, rest⟩ := Nat.exists_eq_succ_of_ne_zero (by omega : i - before.length ≠ 0)
    rw [List.getElem?_append_right (by omega), List.getElem?_append_right (by omega), rest]
    rfl

end Items

/-- A split leaves a tree of copies one, and it still merges to the same. -/
theorem Splits.copies {whole v v' : Json} (split : Splits v v') (copies : Copies whole v) :
    Copies whole v' ∧ Same (merged v') (merged v) := by
  induction split generalizing whole with
  | @here pairs pairs' rest members first second k arranged shared arranged' =>
    obtain ⟨fields, rfl⟩ := copies.whole_obj
    have one := copies.subset arranged.symm.subset
    obtain ⟨w, there, object⟩ := one.members (k, .obj members) List.mem_cons_self
    obtain ⟨inner, rfl⟩ := object.whole_obj
    have both := object.subset shared.symm.subset
    have inFirst := both.subset (List.subset_append_left first second)
    have inSecond := both.subset (List.subset_append_right first second)
    have two : Copies (.obj fields) (.obj ((k, .obj first) :: (k, .obj second) :: rest)) := by
      refine .of_members fun u member => ?_
      rcases List.mem_cons.mp member with rfl | member
      · exact ⟨_, there, inFirst⟩
      · rcases List.mem_cons.mp member with rfl | member
        · exact ⟨_, there, inSecond⟩
        · exact one.members u (List.mem_cons_of_mem _ member)
    have after := two.subset arranged'.subset
    refine ⟨after, ?_⟩
    have split := putEach_perm Part.nil after.parts (mergedPairs_perm arranged')
    have whole' := putEach_perm Part.nil copies.parts (mergedPairs_perm arranged)
    have parts : Parts inner (mergedPairs first ++ mergedPairs second) := mergedPairs_append first second ▸ both.parts
    have inside := putEach_perm Part.nil object.parts (mergedPairs_perm shared)
    have merges : Same (.obj (putEach (putEach [] (mergedPairs first)) (putEach [] (mergedPairs second))))
        (.obj (putEach [] (mergedPairs members))) := by
      rw [← putEach_split parts, ← mergedPairs_append]
      exact inside.symm
    have middle := same_putEach (same_single k merges) fun u member => one.parts u (List.mem_cons_of_mem _ member)
    rw [mergedPairs_cons, mergedPairs_cons, putEach, putEach, merged_obj first, merged_obj second, putMerging_single,
      putMerging_twice] at split
    rw [mergedPairs_cons, putEach, merged_obj members, putMerging_single] at whole'
    rw [merged_obj, merged_obj]
    exact (split.trans middle).trans whole'.symm
  | @member before k v v' after _ ih =>
    obtain ⟨fields, rfl⟩ := copies.whole_obj
    have held : (k, v) ∈ before ++ (k, v) :: after := List.mem_append_right before List.mem_cons_self
    obtain ⟨w, there, inner⟩ := copies.members (k, v) held
    obtain ⟨inner', same⟩ := ih inner
    have rest : ∀ u ∈ before ++ after, u ∈ before ++ (k, v) :: after := by
      intro u member
      rcases List.mem_append.mp member with early | late
      · exact List.mem_append_left _ early
      · exact List.mem_append_right before (List.mem_cons_of_mem _ late)
    constructor
    · refine .of_members fun u member => ?_
      rcases List.mem_append.mp member with early | late
      · exact copies.members u (List.mem_append_left _ early)
      · rcases List.mem_cons.mp late with rfl | late
        · exact ⟨w, there, inner'⟩
        · exact copies.members u (rest u (List.mem_append_right before late))
    · have parts : Parts fields (mergedPairs after) :=
        (copies.subset fun u late => rest u (List.mem_append_right before late)).parts
      rw [merged_obj, merged_obj, mergedPairs_append, mergedPairs_append, putEach_append, putEach_append]
      exact same_putEach (same_putMerging (.refl _) k same inner'.part inner.part) parts
  | @item before v v' after _ ih =>
    cases copies with
    | flat flat => cases flat
    | @arr ws items lengths values same =>
      have bound : before.length < ws.length := by
        rw [lengths, List.length_append, List.length_cons]
        omega
      have inWhole : ws[before.length]? = some ws[before.length] := List.getElem?_eq_getElem bound
      obtain ⟨inner', same'⟩ := ih (values _ _ v inWhole getElem?_here)
      constructor
      · refine .arr ?_ (fun i w x there held => ?_) fun i w x there held => ?_
        · rw [lengths, List.length_append, List.length_append, List.length_cons, List.length_cons]
        · by_cases here : i = before.length
          · subst here
            rw [getElem?_here] at held
            rw [inWhole] at there
            rw [← Option.some.inj held, ← Option.some.inj there]
            exact inner'
          · rw [getElem?_elsewhere (v := v) here] at held
            exact values i w x there held
        · by_cases here : i = before.length
          · subst here
            rw [getElem?_here] at held
            rw [← Option.some.inj held]
            exact same'.trans (same _ w v there getElem?_here)
          · rw [getElem?_elsewhere (v := v) here] at held
            exact same i w x there held
      · rw [merged_arr, merged_arr]
        refine .arr (by simp) fun i x y held held' => ?_
        rw [List.getElem?_map] at held held'
        by_cases here : i = before.length
        · subst here
          rw [getElem?_here] at held held'
          rw [← Option.some.inj held, ← Option.some.inj held']
          exact same'
        · rw [getElem?_elsewhere (v := v) here, held'] at held
          rw [Option.some.inj held]
          exact .refl x

/-! ### Copies in order -/

/-- A name that is there already may be put to before what comes under other names. -/
theorem putMerging_comm {held : List (Text × Json)} (distinct : (held.map Prod.fst).Nodup) {k j : Text}
    (there : k ∈ held.map Prod.fst) (other : j ≠ k) (x y : Json) :
    putMerging (putMerging held j y) k x = putMerging (putMerging held k x) j y := by
  refine fields_ext (nodup_putMerging (nodup_putMerging distinct j y) k x) ?_ fun i => ?_
  · have still : k ∈ (putMerging held j y).map Prod.fst := by
      rw [names_putMerging]
      split
      · exact there
      · exact List.mem_append_left _ there
    rw [names_putMerging _ k, if_pos still, names_putMerging, names_putMerging _ j, names_putMerging _ k, if_pos there]
  · simp only [lookup_putMerging, if_neg other, if_neg (Ne.symm other)]
    split
    · rename_i atK
      rw [if_neg fun atJ => other (atJ.symm.trans atK)]
    · rfl

theorem putMerging_putEach {held between : List (Text × Json)} (distinct : (held.map Prod.fst).Nodup) {k : Text}
    (there : k ∈ held.map Prod.fst) (others : k ∉ between.map Prod.fst) (x : Json) :
    putMerging (putEach held between) k x = putEach (putMerging held k x) between := by
  induction between generalizing held with
  | nil => rfl
  | cons u between ih =>
    obtain ⟨j, y⟩ := u
    obtain ⟨other, others⟩ := not_or.mp (mt List.mem_cons.mpr others)
    have still : k ∈ (putMerging held j y).map Prod.fst := by
      rw [names_putMerging]
      split
      · exact there
      · exact List.mem_append_left _ there
    rw [putEach, putEach, ih (nodup_putMerging distinct j y) still others, putMerging_comm distinct there (Ne.symm other)]

theorem mem_names_putMerging (held : List (Text × Json)) (k : Text) (x : Json) : k ∈ (putMerging held k x).map Prod.fst := by
  rw [keys_iff_lookup, lookup_putMerging, if_pos rfl]
  exact Option.some_ne_none _

theorem names_mergedPairs (pairs : List (Text × Json)) : (mergedPairs pairs).map Prod.fst = pairs.map Prod.fst := by
  unfold mergedPairs
  rw [List.map_map]
  rfl

/-- In order the copies merge to just what the object merged to. -/
theorem SplitsInOrder.merged_eq {whole v v' : Json} (split : SplitsInOrder v v') (copies : Copies whole v) :
    merged v' = merged v := by
  induction split generalizing whole with
  | here before k first second between after others =>
    obtain ⟨fields, rfl⟩ := copies.whole_obj
    have held : (k, .obj (first ++ second)) ∈ before ++ (k, .obj (first ++ second)) :: (between ++ after) :=
      List.mem_append_right before List.mem_cons_self
    obtain ⟨w, there, object⟩ := copies.members _ held
    obtain ⟨inner, rfl⟩ := object.whole_obj
    have inFirst := (object.subset (List.subset_append_left first second)).part
    have inSecond := (object.subset (List.subset_append_right first second)).part
    have early : Parts fields (mergedPairs before) := (copies.subset (List.subset_append_left before _)).parts
    have fits : Part (.obj fields) (.obj (putEach [] (mergedPairs before))) := Part.nil.putEach early
    have inner' : Parts inner (mergedPairs first ++ mergedPairs second) := mergedPairs_append first second ▸ object.parts
    have others' : k ∉ (mergedPairs between).map Prod.fst := by
      rw [names_mergedPairs]
      exact others
    have distinct := nodup_putMerging fits.distinct k (merged (.obj first))
    have present := mem_names_putMerging (putEach [] (mergedPairs before)) k (merged (.obj first))
    -- Both copies, put to what stood under the name, make what the object made of it.
    have assoc := fits.joined_assoc (.single there inFirst) (.single there inSecond)
    rw [joined_obj, joined_obj, joined_obj, joined_obj] at assoc
    have together : putMerging (putMerging (putEach [] (mergedPairs before)) k (merged (.obj first))) k (merged (.obj second)) =
        putMerging (putEach [] (mergedPairs before)) k (merged (.obj (first ++ second))) := by
      have twice := putMerging_twice k (putEach [] (mergedPairs first)) (putEach [] (mergedPairs second))
      rw [← putEach_split inner', ← mergedPairs_append, ← merged_obj, ← merged_obj, ← merged_obj] at twice
      have inside : putEach [(k, merged (.obj first))] [(k, merged (.obj second))] = [(k, merged (.obj (first ++ second)))] := twice
      rw [inside] at assoc
      exact Json.obj.inj assoc
    rw [merged_obj, merged_obj, mergedPairs_append, mergedPairs_append, mergedPairs_cons, mergedPairs_cons,
      mergedPairs_append, mergedPairs_append, mergedPairs_cons, putEach_append, putEach_append, putEach, putEach,
      putEach_append, putEach_append, putEach, putMerging_putEach distinct present others', together]
  | member before k after _ ih =>
    obtain ⟨fields, rfl⟩ := copies.whole_obj
    obtain ⟨w, _, inner⟩ := copies.members _ (List.mem_append_right before List.mem_cons_self)
    rw [merged_obj, merged_obj, mergedPairs_append, mergedPairs_append, mergedPairs_cons, mergedPairs_cons, ih inner]
  | @item before v v' after _ ih =>
    cases copies with
    | flat flat => cases flat
    | @arr ws items lengths values _ =>
      have bound : before.length < ws.length := by
        rw [lengths, List.length_append, List.length_cons]
        omega
      have same := ih (values _ _ v (List.getElem?_eq_getElem bound) getElem?_here)
      rw [merged_arr, merged_arr, List.map_append, List.map_append, List.map_cons, List.map_cons, same]

/-! ### Whole replies -/

theorem Copies.self {v : Json} (distinct : Distinct v) : Copies v v := by
  induction v using inductTree with
  | flat v flat => exact .flat flat
  | arr items ih =>
    have each := distinctItems_iff.mp distinct
    refine .arr rfl (fun i w v here there => ?_) fun i w v here there => ?_
    · rw [here] at there
      have member := List.mem_of_getElem? here
      exact Option.some.inj there ▸ ih w member (each w member)
    · rw [here] at there
      rw [← Option.some.inj there, merged_distinct (each w (List.mem_of_getElem? here))]
      exact .refl w
  | obj fields ih =>
    have each := distinctFields_iff.mp distinct.2
    exact .of_members fun u member => ⟨u.2, List.lookup_of_mem distinct.1 member, ih u member (each u member)⟩

open Relation (ReflTransGen)

theorem splits_run {tree v : Json} (distinct : Distinct tree) (run : ReflTransGen Splits tree v) :
    Copies tree v ∧ Same (merged v) tree := by
  induction run with
  | refl => exact ⟨.self distinct, by rw [merged_distinct distinct]; exact .refl tree⟩
  | tail _ split ih =>
    obtain ⟨copies, same⟩ := ih
    obtain ⟨copies', same'⟩ := split.copies copies
    exact ⟨copies', same'.trans same⟩

theorem splitsInOrder_run {tree v : Json} (distinct : Distinct tree) (run : ReflTransGen SplitsInOrder tree v) :
    Copies tree v ∧ merged v = tree := by
  induction run with
  | refl => exact ⟨.self distinct, merged_distinct distinct⟩
  | tail _ split ih =>
    obtain ⟨copies, same⟩ := ih
    exact ⟨(split.splits.copies copies).1, (split.merged_eq copies).trans same⟩

theorem parseJsonReply_of_pairs {budget : Nat} {t : Text} {v : Json} (read : loadsPairs budget t = .ok v) :
    parseJsonReply budget t = .ok (merged v) := by
  rw [parseJsonReply_eq, read]
  rfl

/-- A reply whose objects come in copies reads as the tree they were copied from, down to the
order of members where the copies keep it; a reply that repeats no name reads as `json.loads`
reads it. -/
theorem repeated_names_lose_nothing (budget : Nat) (t : Text) :
    (∀ tree v, Distinct tree → loadsPairs budget t = .ok v → ReflTransGen Splits tree v →
      ∃ w, parseJsonReply budget t = .ok w ∧ Same w tree) ∧
    (∀ tree v, Distinct tree → loadsPairs budget t = .ok v → ReflTransGen SplitsInOrder tree v →
      parseJsonReply budget t = .ok tree) ∧
    ((∀ v, loadsPairs budget t = .ok v → Distinct v) → parseJsonReply budget t = loads budget t) := by
  refine ⟨fun tree v distinct read run => ?_, fun tree v distinct read run => ?_, fun distinct => ?_⟩
  · exact ⟨merged v, parseJsonReply_of_pairs read, (splits_run distinct run).2⟩
  · rw [parseJsonReply_of_pairs read, (splitsInOrder_run distinct run).2]
  · cases read : loadsPairs budget t with
    | ok v => exact parseJsonReply_distinct read (distinct v read)
    | error e =>
      rw [parseJsonReply_eq, loads_eq_pairs, read]
      rfl

/-- A channel as the device holds it, and as it sends it: in two halves, around another. -/
def channels : Json :=
  .obj [(text "a", .obj [(text "x", .int 1), (text "y", .int 3)]), (text "b", .int 2)]

def halves : Json :=
  .obj [(text "a", .obj [(text "x", .int 1)]), (text "b", .int 2), (text "a", .obj [(text "y", .int 3)])]

def sent : Text :=
  text "\x7b\"a\":\x7b\"x\":1\x7d,\"b\":2,\"a\":\x7b\"y\":3\x7d\x7d"

theorem loadsPairs_sent : loadsPairs 9 sent = .ok halves := rfl

theorem distinct_channels : Distinct channels := by
  refine ⟨by decide, ⟨by decide, trivial, trivial, trivial⟩, trivial, trivial⟩

theorem halves_split : SplitsInOrder channels halves :=
  .here [] (text "a") [(text "x", .int 1)] [(text "y", .int 3)] [(text "b", .int 2)] [] (by decide)

theorem repeated_names_lose_nothing_halves :
    (∃ w, parseJsonReply 9 sent = .ok w ∧ Same w channels) ∧ parseJsonReply 9 sent = .ok channels ∧
    parseJsonReply 9 (text "\x7b\"a\":1\x7d") = loads 9 (text "\x7b\"a\":1\x7d") := by
  have whole := repeated_names_lose_nothing 9 sent
  refine ⟨whole.1 channels halves distinct_channels loadsPairs_sent (.single halves_split.splits),
    whole.2.1 channels halves distinct_channels loadsPairs_sent (.single halves_split),
    (repeated_names_lose_nothing 9 (text "\x7b\"a\":1\x7d")).2.2 fun v read => ?_⟩
  have one : loadsPairs 9 (text "\x7b\"a\":1\x7d") = .ok (.obj [(text "a", .int 1)]) := rfl
  rw [one] at read
  rw [← Except.ok.inj read]
  exact ⟨by decide, trivial, trivial⟩

end OpenAvc.Driver.JsonReply
