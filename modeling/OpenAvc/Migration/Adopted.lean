import OpenAvc.Data.Attempted
import OpenAvc.Migration.Adoption

/-! The parents that are adopted form no loop and are the innermost ones; but an element that is in no loop itself
can lose its parent to one that its chain runs into. -/

namespace OpenAvc.Migration

open Chains (Ends after)

variable {els : List Placed} {el g : Placed}

/-- A group that an element lies fully inside of. -/
structure Around (els : List Placed) (el g : Placed) : Prop where
  mem : g ∈ els
  group : g.group = true
  other : g.index ≠ el.index
  named : g.id ≠ []
  covers : contains g.area el.area = true

theorem mem_ranked : g ∈ ranked els ↔ g ∈ els ∧ g.group = true := by
  rw [ranked, StableSort.mem_sortedBy, List.mem_filter]

/-- No group around an element is smaller than its innermost one. -/
theorem innermost_eq_some (found : innermost els el = some g) :
    Around els el g ∧ ∀ g', Around els el g' → g.area.cells ≤ g'.area.cells := by
  obtain ⟨holds, before, later, parts, none'⟩ := List.find?_eq_some_iff_append.mp found
  obtain ⟨other, named, covers⟩ := of_decide_eq_true holds
  have member : g ∈ ranked els := parts ▸ List.mem_append_right _ List.mem_cons_self
  obtain ⟨mem, group⟩ := mem_ranked.mp member
  refine ⟨⟨mem, group, other, named, covers⟩, fun g' around => ?_⟩
  have sorted := StableSort.pairwise_sortedBy (fun g : Placed => toLex (g.area.cells, g.index)) (els.filter (·.group))
  change (ranked els).Pairwise _ at sorted
  rw [parts, List.pairwise_append] at sorted
  have member' := mem_ranked.mpr ⟨around.mem, around.group⟩
  rw [parts] at member'
  rcases List.mem_append.mp member' with early | here
  · have unfit := none' g' early
    rw [decide_eq_true ⟨around.other, around.named, around.covers⟩] at unfit
    cases unfit
  · rcases List.mem_cons.mp here with rfl | late
    · exact le_rfl
    · have le := (List.pairwise_cons.mp sorted.2.1).1 g' late
      rcases Prod.Lex.le_iff.mp le with less | ⟨same, _⟩
      · exact less.le
      · exact same.le

theorem innermost_of_around (around : Around els el g) : ∃ g', innermost els el = some g' := by
  cases found : innermost els el with
  | some g' => exact ⟨g', rfl⟩
  | none =>
    have unfit := List.find?_eq_none.mp found g (mem_ranked.mpr ⟨around.mem, around.group⟩)
    exact absurd (decide_eq_true ⟨around.other, around.named, around.covers⟩) unfit

/-- What the first loop writes for an element. -/
def link (els : List Placed) (el : Placed) : Option (Text × Text) :=
  if el.id = [] then none else (innermost els el).map fun g => (el.id, g.id)

theorem suggested_eq : suggested els = (els.filterMap (link els)).foldl (fun parents u => Dict.set parents u.1 u.2) [] := by
  rw [List.foldl_filterMap, suggested]
  congr 1
  funext parents el
  unfold link
  split
  · rfl
  · cases innermost els el <;> rfl

theorem suggested_link {x p : Text} (found : (suggested els).lookup x = some p) :
    ∃ el ∈ els, el.id = x ∧ ∃ g, innermost els el = some g ∧ g.id = p := by
  rw [suggested_eq] at found
  rcases Dict.lookup_walk Prod.fst Prod.snd (els.filterMap (link els)) [] x with ⟨same, _⟩ | ⟨u, member, rfl, value⟩
  · cases found.symm.trans same
  · obtain rfl := Option.some.inj (found.symm.trans value)
    obtain ⟨el, inside, written⟩ := List.mem_filterMap.mp member
    unfold link at written
    split at written
    · cases written
    · obtain ⟨g, first, rfl⟩ := Option.map_eq_some_iff.mp written
      exact ⟨el, inside, rfl, g, first, rfl⟩

/-- An element inside a group is suggested a parent. -/
theorem suggested_of_around (member : el ∈ els) (named : el.id ≠ []) (around : Around els el g) :
    ∃ p, (suggested els).lookup el.id = some p := by
  obtain ⟨g', first⟩ := innermost_of_around around
  have written : link els el = some (el.id, g'.id) := by
    rw [link, if_neg named, first]
    rfl
  rw [suggested_eq]
  rcases Dict.lookup_walk Prod.fst Prod.snd (els.filterMap (link els)) [] el.id with ⟨_, none'⟩ | ⟨u, _, _, value⟩
  · exact absurd rfl (none' _ (List.mem_filterMap.mpr ⟨el, member, written⟩))
  · exact ⟨u.2, value⟩

theorem nodup_suggested : ((suggested els).map Prod.fst).Nodup := by
  have steps (l : List (Text × Text)) (d : Parents) (distinct : (d.map Prod.fst).Nodup) :
      ((l.foldl (fun parents u => Dict.set parents u.1 u.2) d).map Prod.fst).Nodup := by
    induction l generalizing d with
    | nil => exact distinct
    | cons u l ih => exact ih _ (Dict.nodup_set distinct _ _)
  rw [suggested_eq]
  exact steps _ [] List.nodup_nil

/-- The second loop cuts, for one key, the link whose chain does not end. -/
theorem lookup_breakLoop (parents : Parents) (x y : Text) :
    (breakLoop parents x).lookup y = Chains.cutAt (fun z => parents.lookup z) x y := by
  by_cases here : x ∈ parents.map Prod.fst
  · have closed := @Chains.closes_iff _ (fun z => parents.lookup z) x _ (parents.map Prod.fst)
      (fun _ _ found => List.mem_keys_of_lookup found) here
    rw [List.length_map] at closed
    unfold breakLoop
    split
    · rename_i loop
      rw [List.lookup_filter_keys (fun k => decide (k ≠ x)), Chains.cutAt]
      by_cases same : y = x
      · rw [if_neg (by simpa using same), if_pos ⟨same, closed.mp loop⟩]
      · rw [if_pos (by simpa using same), if_neg fun both => same both.1]
    · rename_i open'
      rw [Chains.cutAt, if_neg fun both => open' (closed.mpr both.2)]
  · have none' : parents.lookup x = none := by
      cases found : parents.lookup x with
      | none => rfl
      | some p => exact absurd (List.mem_keys_of_lookup found) here
    have ends : Ends (fun z => parents.lookup z) x := Chains.ends_iff.mpr fun z found => by rw [none'] at found; cases found
    have open' : Chains.closes (fun z => parents.lookup z) parents.length [x] none = false := by
      unfold Chains.closes
      rfl
    unfold breakLoop
    rw [none', open', if_neg (by simp), Chains.cutAt, if_neg fun both => both.2 ends]

theorem lookup_adopted (y : Text) :
    (adopted els).lookup y = Chains.cutAll (fun z => (suggested els).lookup z) ((suggested els).map Prod.fst) y := by
  have steps (order : List Text) (parents : Parents) :
      (fun z => (order.foldl breakLoop parents).lookup z) = Chains.cutAll (fun z => parents.lookup z) order := by
    induction order generalizing parents with
    | nil => rfl
    | cons x order ih =>
      have first : (fun z => (breakLoop parents x).lookup z) = Chains.cutAt (fun z => parents.lookup z) x :=
        funext (lookup_breakLoop parents x)
      show (fun z => (order.foldl breakLoop (breakLoop parents x)).lookup z) = _
      rw [ih, first]
      rfl
  exact congrFun (steps _ _) y

/-- No chain of parents comes back to where it began. -/
def Acyclic (parents : Parents) : Prop :=
  ∀ x n, after (fun z => parents.lookup z) (n + 1) x ≠ some x

/-- Every parent is that of an element with the child's id: a group around it, and none around it is smaller. -/
def Innermost (els : List Placed) (parents : Parents) : Prop :=
  ∀ x p, parents.lookup x = some p →
    ∃ el ∈ els, el.id = x ∧ ∃ g, g.id = p ∧ Around els el g ∧ ∀ g', Around els el g' → g.area.cells ≤ g'.area.cells

/-- Every element that is no group and lies inside one has a parent. -/
def Housed (els : List Placed) (parents : Parents) : Prop :=
  ∀ el ∈ els, el.group = false → el.id ≠ [] → (∃ g, Around els el g) → ∃ p, parents.lookup el.id = some p

/-- The innermost groups around an element that is no group, one around the other, come to an end, or to an id that
stands before the element's own. -/
def Spared (els : List Placed) : Prop :=
  ∀ el ∈ els, el.group = false → el.id ≠ [] → (∃ g, Around els el g) →
    Ends (fun z => (suggested els).lookup z) el.id ∨
      ∃ n z, after (fun z => (suggested els).lookup z) n el.id = some z ∧ z ∈ ((suggested els).map Prod.fst).takeWhile (· ≠ el.id)

theorem acyclic_adopted : Acyclic (adopted els) := by
  have same : (fun z => (adopted els).lookup z) = Chains.cutAll (fun z => (suggested els).lookup z) ((suggested els).map Prod.fst) :=
    funext lookup_adopted
  intro x n back
  rw [same] at back
  refine Chains.not_ends_of_return back ?_
  by_cases member : x ∈ (suggested els).map Prod.fst
  · exact Chains.ends_cutAll member
  · refine Chains.ends_iff.mpr fun y found => ?_
    exact absurd (List.mem_keys_of_lookup (Chains.cutAll_le found)) member

theorem innermost_adopted : Innermost els (adopted els) := by
  intro x p found
  rw [lookup_adopted] at found
  obtain ⟨el, member, here, g, first, parent⟩ := suggested_link (Chains.cutAll_le found)
  obtain ⟨around, least⟩ := innermost_eq_some first
  exact ⟨el, member, here, g, parent, around, least⟩

theorem housed_adopted_iff : Housed els (adopted els) ↔ Spared els := by
  have each (el : Placed) (member : el ∈ els) (named : el.id ≠ []) (inside : ∃ g, Around els el g) :
      (∃ p, (adopted els).lookup el.id = some p) ↔ (Ends (fun z => (suggested els).lookup z) el.id ∨
        ∃ n z, after (fun z => (suggested els).lookup z) n el.id = some z ∧
          z ∈ ((suggested els).map Prod.fst).takeWhile (· ≠ el.id)) := by
    obtain ⟨g, around⟩ := inside
    obtain ⟨p, found⟩ := suggested_of_around member named around
    obtain ⟨before, later, parts⟩ := List.append_of_mem (List.mem_keys_of_lookup found)
    have distinct := @nodup_suggested els
    rw [parts] at distinct
    have first : el.id ∉ before := fun early =>
      (List.nodup_cons.mp (List.nodup_middle.mp distinct)).1 (List.mem_append_left _ early)
    have early : ((suggested els).map Prod.fst).takeWhile (· ≠ el.id) = before := by
      have other : ∀ z ∈ before, decide (z ≠ el.id) = true := fun z member => decide_eq_true fun same => first (same ▸ member)
      rw [parts, List.takeWhile_append_of_pos other]
      simp
    have kept := @Chains.cutAll_kept_iff _ (fun z => (suggested els).lookup z) _ _ _ _ distinct found
    rw [← parts, ← lookup_adopted] at kept
    rw [early, ← kept]
    refine ⟨fun ⟨p', found'⟩ => ?_, fun found' => ⟨p, found'⟩⟩
    have same := Chains.cutAll_le ((@lookup_adopted els el.id).symm.trans found')
    exact Option.some.inj (found.symm.trans same) ▸ found'
  constructor
  · intro housed el member plain named inside
    exact (each el member named inside).mp (housed el member plain named inside)
  · intro spared el member plain named inside
    exact (each el member named inside).mpr (spared el member plain named inside)

/-- Without a group there is nothing to adopt into. -/
theorem adopted_of_no_group {elements : List Element} (placed : place elements = some els)
    (none' : ∀ el ∈ elements, el.isGroup = false) : adopted els = [] := by
  have plain : ∀ g ∈ els, g.group = false := by
    intro g member
    obtain ⟨u, inside, made⟩ := List.exists_of_mem_mapM placed member
    obtain ⟨area, _, same⟩ := Option.bind_eq_some_iff.mp made
    obtain rfl := Option.some.inj same
    exact none' u.1 (List.mem_of_getElem? (List.mem_zipIdx_iff_getElem?.mp inside))
  have nothing : suggested els = [] := by
    have unlinked : ∀ el ∈ els, link els el = none := by
      intro el _
      unfold link
      split
      · rfl
      · cases found : innermost els el with
        | none => rfl
        | some g =>
          have around := (innermost_eq_some found).1
          have group := around.group
          rw [plain g around.mem] at group
          cases group
    rw [suggested_eq, List.filterMap_eq_nil_iff.mpr unlinked]
    rfl
  rw [adopted, nothing]
  rfl

/-- The adopted parents form no loop and are innermost; every element inside a group has one exactly where the chain
of the groups around it ends, or comes to an id that was looked at before. -/
theorem adopt_iff {elements : List Element} {els : List Placed} (placed : place elements = some els) :
    ∃ parents, adopt elements = some parents ∧
      ((Acyclic parents ∧ Innermost els parents ∧ Housed els parents) ↔ Spared els) := by
  refine ⟨adopted els, ?_, ?_⟩
  · unfold adopt
    split
    · rename_i plain
      have none' : ∀ el ∈ elements, el.isGroup = false := fun el member => by simpa using List.all_eq_true.mp plain el member
      rw [adopted_of_no_group placed none']
    · rw [placed]
      rfl
  · exact ⟨fun all => housed_adopted_iff.mp all.2.2, fun spared => ⟨acyclic_adopted, innermost_adopted, housed_adopted_iff.mpr spared⟩⟩

/-- A button in two groups of one size, the groups listed first. -/
theorem adopt_iff_groups_first :
    ∃ parents, adopt [⟨text "g", text "group", .null⟩, ⟨text "h", text "group", .null⟩, ⟨text "b", text "button", .null⟩] = some parents ∧
      ((Acyclic parents ∧
          Innermost [⟨0, text "g", true, ⟨1, 1, 1, 1⟩⟩, ⟨1, text "h", true, ⟨1, 1, 1, 1⟩⟩, ⟨2, text "b", false, ⟨1, 1, 1, 1⟩⟩] parents ∧
          Housed [⟨0, text "g", true, ⟨1, 1, 1, 1⟩⟩, ⟨1, text "h", true, ⟨1, 1, 1, 1⟩⟩, ⟨2, text "b", false, ⟨1, 1, 1, 1⟩⟩] parents) ↔
        Spared [⟨0, text "g", true, ⟨1, 1, 1, 1⟩⟩, ⟨1, text "h", true, ⟨1, 1, 1, 1⟩⟩, ⟨2, text "b", false, ⟨1, 1, 1, 1⟩⟩]) :=
  adopt_iff (by decide)

/-- The same button before the groups is left without a parent. -/
theorem button_left_out :
    place [⟨text "b", text "button", .null⟩, ⟨text "g", text "group", .null⟩, ⟨text "h", text "group", .null⟩] =
        some [⟨0, text "b", false, ⟨1, 1, 1, 1⟩⟩, ⟨1, text "g", true, ⟨1, 1, 1, 1⟩⟩, ⟨2, text "h", true, ⟨1, 1, 1, 1⟩⟩] ∧
      adopt [⟨text "b", text "button", .null⟩, ⟨text "g", text "group", .null⟩, ⟨text "h", text "group", .null⟩] =
        some [(text "h", text "g")] ∧
      ¬Housed [⟨0, text "b", false, ⟨1, 1, 1, 1⟩⟩, ⟨1, text "g", true, ⟨1, 1, 1, 1⟩⟩, ⟨2, text "h", true, ⟨1, 1, 1, 1⟩⟩]
        [(text "h", text "g")] := by
  refine ⟨by decide, by decide, fun housed => ?_⟩
  obtain ⟨p, found⟩ := housed ⟨0, text "b", false, ⟨1, 1, 1, 1⟩⟩ (by decide) rfl (by decide)
    ⟨⟨1, text "g", true, ⟨1, 1, 1, 1⟩⟩, by decide, rfl, by decide, by decide, by decide⟩
  have none' : [(text "h", text "g")].lookup (text "b") = none := by decide
  cases found.symm.trans none'

end OpenAvc.Migration
