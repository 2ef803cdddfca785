import OpenAvc.Files.Written
import OpenAvc.Library.Saving

namespace OpenAvc.Library

open Storage

variable {s s' : Option FileTree} {t : FileTree} {p q : Path}

/-- None of the paths is another one or above it. -/
def Incomparable (ps : List Path) : Prop := ps.Pairwise fun p q => ¬p <+: q ∧ ¬q <+: p

theorem Incomparable.nodup {ps : List Path} (apart : Incomparable ps) : ps.Nodup := by
  refine List.Pairwise.imp ?_ apart
  rintro p q no rfl
  exact no.1 (List.prefix_refl p)

theorem incomparable_of_level {ps : List Path} (distinct : ps.Nodup) (level : ∀ p ∈ ps, ∀ q ∈ ps, q <+: p → q = p) :
    Incomparable ps := by
  refine List.Pairwise.imp_of_mem ?_ distinct
  intro p q member member' other
  exact ⟨fun inside => other (level q member' p member inside), fun inside => other (level p member q member' inside).symm⟩

theorem Incomparable.placed {ps : List Path} (apart : Incomparable ps) (name : String) :
    Incomparable (ps.map (name :: ·)) := by
  refine List.Pairwise.map _ ?_ apart
  intro p q no
  exact ⟨fun inside => no.1 (List.cons_prefix_cons.mp inside).2, fun inside => no.2 (List.cons_prefix_cons.mp inside).2⟩

/-- Paths placed in folders of different names. -/
theorem incomparable_flatMap (trees : List (String × List Path)) (names : (trees.map Prod.fst).Nodup)
    (each : ∀ tree ∈ trees, Incomparable tree.2) : Incomparable (trees.flatMap fun tree => tree.2.map (tree.1 :: ·)) := by
  induction trees with
  | nil => exact .nil
  | cons tree trees ih =>
    obtain ⟨fresh, names⟩ := List.nodup_cons.mp names
    rw [List.flatMap_cons]
    refine List.pairwise_append.mpr ⟨(each tree List.mem_cons_self).placed tree.1,
      ih names fun other member => each other (List.mem_cons_of_mem _ member), fun p member q member' => ?_⟩
    obtain ⟨p', _, rfl⟩ := List.mem_map.mp member
    obtain ⟨other, there, inside⟩ := List.mem_flatMap.mp member'
    obtain ⟨q', _, rfl⟩ := List.mem_map.mp inside
    have apart : tree.1 ≠ other.1 := fun same => fresh (same ▸ List.mem_map_of_mem (f := Prod.fst) there)
    exact ⟨fun starts => apart (List.cons_prefix_cons.mp starts).1,
      fun starts => apart (List.cons_prefix_cons.mp starts).1.symm⟩

/-! What is copied. -/

theorem files_incomparable (sound : t.Sound) : Incomparable (t.files.map Prod.fst) := by
  have apart := sound.files_apart
  refine incomparable_of_level apart.distinct ?_
  rintro _ member _ member' inside
  obtain ⟨u, here, rfl⟩ := List.mem_map.mp member
  obtain ⟨v, there, rfl⟩ := List.mem_map.mp member'
  exact apart.level u here v there inside

theorem below_paths {tree : Option FileTree} (sound : (tree.getD []).Sound) (keep : Path → Bool) :
    Incomparable ((Running.trees.below tree keep).map Prod.fst) ∧
      ∀ u ∈ Running.trees.below tree keep, u.1 ≠ [] := by
  unfold Running.trees.below
  constructor
  · rw [List.map_map]
    exact List.Pairwise.sublist (List.filter_sublist.map _) (files_incomparable sound)
  · intro u member
    obtain ⟨v, copied, rfl⟩ := List.mem_map.mp member
    exact sound.files_apart.named v (List.mem_of_mem_filter copied)

theorem Running.trees_paths (r : Running) : ∀ tree ∈ r.trees,
    Incomparable (tree.2.map Prod.fst) ∧ ∀ u ∈ tree.2, u.1 ≠ [] := by
  have sounds := r.sound
  simp only [List.forall_mem_cons, List.not_mem_nil, IsEmpty.forall_iff, implies_true, and_true] at sounds
  obtain ⟨scripts, assets, ui, themes⟩ := sounds
  simp only [Running.trees, List.forall_mem_cons, List.not_mem_nil, IsEmpty.forall_iff, implies_true, and_true]
  refine ⟨⟨?_, fun u member => scripts.named u (List.mem_of_mem_filter member)⟩, below_paths assets _, below_paths ui _,
    below_paths themes _⟩
  have distinct := scripts.distinct.sublist ((List.filter_sublist (l := r.scripts.getD [])
    (p := fun u => u.1.length = 1 ∧ isScript (u.1.getLast?.getD ""))).map Prod.fst)
  refine incomparable_of_level distinct fun p member q member' inside => ?_
  -- each is one name
  have flat : ∀ p ∈ ((r.scripts.getD []).filter fun u => u.1.length = 1 ∧ isScript (u.1.getLast?.getD "")).map Prod.fst,
      p.length = 1 := by
    intro p member
    obtain ⟨u, copied, rfl⟩ := List.mem_map.mp member
    have kept := (List.mem_filter.mp copied).2
    rw [decide_eq_true_eq] at kept
    exact kept.1
  exact inside.eq_of_length (by rw [flat p member, flat q member'])

/-- What is copied lies in one of the four folders. -/
theorem Running.mem_sources {r : Running} {u : Path × Entry} (member : u ∈ r.sources) :
    ∃ name ∈ ["scripts", "assets", "ui", "themes"], ∃ p, p ≠ [] ∧ u.1 = name :: p := by
  obtain ⟨tree, there, inside⟩ := List.mem_flatMap.mp member
  obtain ⟨w, copied, rfl⟩ := List.mem_map.mp inside
  have name : tree.1 ∈ r.trees.map Prod.fst := List.mem_map_of_mem there
  exact ⟨tree.1, name, w.1, (r.trees_paths tree there).2 w copied, rfl⟩

theorem Running.sources_incomparable (r : Running) : Incomparable (r.sources.map Prod.fst) := by
  have whole := incomparable_flatMap (r.trees.map fun tree => (tree.1, tree.2.map Prod.fst))
    (by rw [List.map_map]; exact (by decide : ["scripts", "assets", "ui", "themes"].Nodup))
    (by
      intro tree member
      obtain ⟨tree, there, rfl⟩ := List.mem_map.mp member
      exact (r.trees_paths tree there).1)
  unfold Running.sources
  rw [List.map_flatMap]
  rw [List.flatMap_map] at whole
  simp only [List.map_map] at whole ⊢
  exact whole

variable {copied : List (Path × Entry)} {fate : Path → Option (Nat × Stop)}

theorem copyEach_some (fate : Path → Option (Nat × Stop)) (copied : List (Path × Entry)) (there : s.isSome) :
    (copyEach fate copied s).1.isSome := by
  induction copied generalizing s with
  | nil => exact there
  | cons u copied ih =>
    obtain ⟨q, e⟩ := u
    cases e with
    | folder => exact there
    | file bytes =>
      have next := perform_some (writeSteps q bytes) (fate q) there
      unfold copyEach
      split
      · rename_i s₁ one
        rw [one] at next
        exact ih next
      · exact next

theorem copyEach_others (fate : Path → Option (Nat × Stop)) (others : p ∉ copied.map Prod.fst) :
    ((copyEach fate copied s).1.getD []).file? p = (s.getD []).file? p := by
  induction copied generalizing s with
  | nil => rfl
  | cons u copied ih =>
    obtain ⟨q, e⟩ := u
    have other : p ≠ q := fun same => others (same ▸ List.mem_cons_self)
    have rest : p ∉ copied.map Prod.fst := fun member => others (List.mem_cons_of_mem _ member)
    cases e with
    | folder => rfl
    | file bytes =>
      have next := write_others (s := s) bytes (fate q) other
      unfold copyEach
      split
      · rename_i s₁ one
        rw [one] at next
        exact (ih rest).trans next
      · exact next

/-- Copying that comes to its end has copied all. -/
theorem copyEach_holds (distinct : (copied.map Prod.fst).Nodup) (ended : copyEach fate copied s = (s', none))
    {u : Path × Entry} (member : u ∈ copied) : (s'.getD []).lookup u.1 = some u.2 := by
  induction copied generalizing s with
  | nil => exact absurd member List.not_mem_nil
  | cons v copied ih =>
    obtain ⟨q, e⟩ := v
    obtain ⟨fresh, later⟩ := List.nodup_cons.mp distinct
    cases e with
    | folder => cases ended
    | file bytes =>
      unfold copyEach at ended
      split at ended
      · rename_i s₁ one
        rcases List.mem_cons.mp member with rfl | rest
        · obtain ⟨t, rfl, all⟩ := write_file? one
          have kept := copyEach_others (s := some t) fate fresh
          rw [ended, Option.getD_some, all, if_pos rfl] at kept
          exact FileTree.file?_eq_some.mp kept
        · exact ih later ended rest
      · rename_i notEnded
        exact absurd ended (notEnded s')

/-! Copying into a folder where nothing is in the way. -/

/-- No file is on the way to any of the paths, and no folder in its place. -/
def Free (ps : List Path) (t : FileTree) : Prop :=
  ∀ p ∈ ps, p ≠ [] ∧ (∀ q ∈ above p, q ≠ [] → t.file? q = none) ∧ t.lookup p ≠ some .folder

/-- Copying of files only stops where the fate of one has it. -/
theorem copyEach_stop (apart : Incomparable (copied.map Prod.fst)) (free : Free (copied.map Prod.fst) t)
    (files : ∀ u ∈ copied, u.2 ≠ .folder) {stop : Stop} (stops : (copyEach fate copied (some t)).2 = some stop) :
    ∃ p n, fate p = some (n, stop) := by
  induction copied generalizing t with
  | nil => cases stops
  | cons u copied ih =>
    obtain ⟨q, e⟩ := u
    obtain ⟨beside, later⟩ := List.pairwise_cons.mp apart
    cases e with
    | folder => exact absurd rfl (files _ List.mem_cons_self)
    | file bytes =>
      obtain ⟨named, clear, vacant⟩ := free q List.mem_cons_self
      obtain ⟨t', runs, all⟩ := @perform_write q (some t) bytes named clear vacant
      unfold copyEach at stops
      split at stops
      · rename_i s₁ one
        have same := (perform_ended one).symm.trans runs
        cases same
        refine ih later (fun p member => ?_) (fun v member => files v (List.mem_cons_of_mem _ member)) stops
        obtain ⟨named', clear', vacant'⟩ := free p (List.mem_cons_of_mem _ member)
        obtain ⟨not_above, not_below⟩ := beside p member
        rw [Option.getD_some] at all
        refine ⟨named', fun r up named => ?_, ?_⟩
        · have other : r ≠ q := by
            rintro rfl
            exact not_above (prefix_of_above up)
          have before := clear' r up named
          unfold FileTree.file? at before ⊢
          rw [all, if_neg other]
          cases found : t.lookup r with
          | none =>
            by_cases made : r ≠ [] ∧ r ∈ above q
            · simp only [if_pos made, Option.none_or]
            · simp only [if_neg made, Option.none_or]
          | some e =>
            rw [found] at before
            rw [Option.some_or]
            exact before
        · have other : p ≠ q := by
            rintro rfl
            exact not_below (List.prefix_refl p)
          have outside : ¬(p ≠ [] ∧ p ∈ above q) := fun made => not_below (prefix_of_above made.2)
          rw [all, if_neg other, if_neg outside, Option.or_none]
          exact vacant'
      · rename_i stopped
        cases ended : perform (writeSteps q bytes) (fate q) (some t) with
        | mk s₁ stop' =>
          rw [ended] at stops
          obtain rfl : stop' = some stop := stops
          obtain ⟨n, fated⟩ := perform_stop runs ended
          exact ⟨q, n, fated⟩

end OpenAvc.Library
