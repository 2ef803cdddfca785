import OpenAvc.Restore.Restoring

namespace OpenAvc.Restore

open Storage

variable {svgProblem : Bytes → Bool} {archive : List Member} {s s' s'' : Room} {attempts : List Attempt} {tree : Tree}

/-- The parts of a room that a restore replaces. -/
inductive Part
  | project
  | tree (t : Tree)
  | state
  deriving DecidableEq

/-- The parts in the order they are replaced. -/
def order : List Part := [.project, .tree .scripts, .tree .assets, .tree .ui, .tree .themes, .state]

/-- A tree has just the files that were written there. -/
def Held (attempts : List Attempt) (tree : Tree) (s : Room) : Prop :=
  ∃ t, s.live tree = some t ∧ ∀ p, t.file? p = heldAt attempts p

/-- A part is as the backup holds it: a file has the bytes of its member, or is not there
where it has none, and a tree has just the files written there, each as the last
of its members. -/
def AsHeld (svgProblem : Bytes → Bool) (archive : List Member) (s : Room) : Part → Prop
  | .project => s.project = readMember archive "project.avc"
  | .tree t => Held (t.writes svgProblem archive) t s
  | .state => s.state = readMember archive "state.json"

/-- A part is as it was. -/
def Same (s s' : Room) : Part → Prop
  | .project => s'.project = s.project
  | .tree t => s'.live t = s.live t
  | .state => s'.state = s.state

/-- A tree is not in its place: what was there stands beside it, as `.restore-old`. -/
def Aside (s s' : Room) (part : Part) : Prop :=
  ∃ t, part = .tree t ∧ s'.live t = none ∧ s'.old t = s.live t

theorem Same.refl (s : Room) (part : Part) : Same s s part := by
  cases part <;> exact rfl

theorem Same.trans {part : Part} (first : Same s s' part) (second : Same s' s'' part) : Same s s'' part := by
  cases part <;> exact Eq.trans second first

theorem AsHeld.same {part : Part} (held : AsHeld svgProblem archive s part) (same : Same s s' part) :
    AsHeld svgProblem archive s' part := by
  cases part with
  | project => exact Eq.trans same held
  | state => exact Eq.trans same held
  | tree t =>
    obtain ⟨tree, here, all⟩ := held
    exact ⟨tree, Eq.trans same here, all⟩

/-! What is written of the members. -/

theorem heldAt_cons (a : Attempt) (attempts : List Attempt) (p : Path) :
    heldAt (a :: attempts) p = (heldAt attempts p).or (a.bind fun u => if u.1 = p then some u.2 else none) := by
  unfold heldAt
  rw [List.reverse_cons, List.findSome?_append]
  cases found : a.bind fun u => if u.1 = p then some u.2 else none <;> simp [found]

/-- Members that are all written make the files they hold. -/
theorem writeAll_held {fate : Nat → Option Nat} {i : Nat} {t : FileTree} {staging : Option FileTree}
    (ended : writeAll fate i attempts (some t) = (staging, none)) :
    ∃ t', staging = some t' ∧ ∀ p, t'.file? p = (heldAt attempts p).or (t.file? p) := by
  induction attempts generalizing i t with
  | nil =>
    cases ended
    exact ⟨t, rfl, fun p => rfl⟩
  | cons a attempts ih =>
    cases a with
    | none => cases ended
    | some u =>
      obtain ⟨q, bytes⟩ := u
      unfold writeAll at ended
      split at ended
      · rename_i s₁ written
        obtain ⟨t₁, rfl, one⟩ := write_file? written
        obtain ⟨t', rfl, all⟩ := ih ended
        refine ⟨t', rfl, fun p => ?_⟩
        rw [all, one, heldAt_cons, Option.getD_some, Option.bind_some]
        by_cases here : p = q
        · rw [if_pos here, if_pos here.symm]
          cases heldAt attempts p <;> rfl
        · rw [if_neg here, if_neg (Ne.symm here), Option.or_none]
      · cases ended

/-! One tree. -/

/-- Only one tree's folders are touched. -/
def Within (tree : Tree) (s s' : Room) : Prop :=
  s'.project = s.project ∧ s'.state = s.state ∧ ∀ t, t ≠ tree → s'.live t = s.live t

theorem Within.others (within : Within tree s s') {part : Part} (other : part ≠ .tree tree) : Same s s' part := by
  cases part with
  | project => exact within.1
  | state => exact within.2.1
  | tree t => exact within.2.2 t fun same => other (same ▸ rfl)

theorem replace_eq_some {works : Bool} {source target moved : Option FileTree} (does : replace works source target = some moved) :
    moved = source := by
  unfold replace at does
  split at does
  · cases does; rfl
  · cases does

theorem failIf_ends {fails : Bool} {e : Exc} {Q : Except Exc Unit → Room → Prop} (bad : fails = true → Q (.error e) s)
    (good : fails = false → Q (.ok ()) s) : (failIf fails e).Ends s Q := by
  cases fails with
  | true => exact bad rfl
  | false => exact good rfl

/-- Before its old folder is gone, a tree is in its place or beside it. -/
def Stands (tree : Tree) (s s' : Room) : Prop :=
  s'.live tree = s.live tree ∨ s'.live tree = none ∧ s'.old tree = s.live tree

theorem setAside_ends (f : Swap) : (setAside tree f).Ends s fun r s' => Within tree s s' ∧ s'.fresh = s.fresh ∧
    match r with
    | .ok moved => s'.live tree = none ∧ (if moved then s'.old tree = s.live tree else s.live tree = none)
    | .error _ => s' = s := by
  unfold setAside
  rw [EStateM.ends_bind, EStateM.ends_get]
  refine EStateM.ends_ite.mpr ⟨fun absent => ?_, fun there => ?_⟩
  · have none : s.live tree = none := Option.isNone_iff_eq_none.mp absent
    exact ⟨⟨rfl, rfl, fun t _ => rfl⟩, rfl, none, none⟩
  · cases does : replace f.aside (s.live tree) (s.old tree) with
    | none => exact ⟨⟨rfl, rfl, fun t _ => rfl⟩, rfl, rfl⟩
    | some aside =>
      have same := replace_eq_some does
      refine ⟨⟨rfl, rfl, fun t other => Function.update_of_ne other _ _⟩, rfl, Function.update_self .., ?_⟩
      rw [if_pos rfl, same]
      exact Function.update_self ..

theorem putBack_ends (f : Swap) (moved : Bool) : (putBack tree f moved).Ends s fun _ s' => Within tree s s' ∧
    (s' = s ∨ moved = true ∧ s'.live tree = s.old tree) := by
  unfold putBack
  rw [EStateM.ends_bind, EStateM.ends_get]
  refine EStateM.ends_ite.mpr ⟨fun gone => ?_, fun _ => ⟨⟨rfl, rfl, fun t _ => rfl⟩, Or.inl rfl⟩⟩
  cases does : replace f.back (s.old tree) none with
  | none => exact ⟨⟨rfl, rfl, fun t _ => rfl⟩, Or.inl rfl⟩
  | some live =>
    refine ⟨⟨rfl, rfl, fun t other => Function.update_of_ne other _ _⟩, Or.inr ⟨gone.1, ?_⟩⟩
    rw [← replace_eq_some does]
    exact Function.update_self ..

theorem putIn_ends (f : Swap) (moved : Bool) : (putIn tree f moved).Ends s fun r s' => Within tree s s' ∧
    match r with
    | .ok _ => s'.live tree = s.fresh tree ∧ (s.fresh tree).isSome
    | .error _ => s' = s ∨ moved = true ∧ s'.live tree = s.old tree := by
  unfold putIn
  rw [EStateM.ends_bind, EStateM.ends_get]
  dsimp only
  cases does : replace f.into (s.fresh tree) (s.live tree) with
  | some live =>
    have same := replace_eq_some does
    refine ⟨⟨rfl, rfl, fun t other => Function.update_of_ne other _ _⟩, ?_, ?_⟩
    · rw [← same]
      exact Function.update_self ..
    · unfold replace at does
      split at does
      · rename_i fresh _; rw [fresh]; rfl
      · cases does
  | none =>
    rw [EStateM.ends_bind]
    refine (putBack_ends f moved).mono fun r s' back => ?_
    cases r with
    | ok _ => exact back
    | error _ => exact back

theorem removeOld_ends (left : Option (Path → Bool)) : (removeOld tree left).Ends s fun r s' => Within tree s s' ∧
    s'.fresh = s.fresh ∧ s'.live tree = s.live tree ∧ r = .ok () :=
  ⟨⟨rfl, rfl, fun _ _ => rfl⟩, rfl, rfl, rfl⟩

theorem Within.trans (first : Within tree s s') (second : Within tree s' s'') : Within tree s s'' :=
  ⟨second.1.trans first.1, second.2.1.trans first.2.1, fun t other => (second.2.2 t other).trans (first.2.2 t other)⟩

/-- What is put in the place of a tree is there as a whole, or the tree stands. -/
theorem swapDir_ends (f : Swap) : (swapDir tree f).Ends s fun r s' => Within tree s s' ∧
    match r with
    | .ok _ => s'.live tree = s.fresh tree ∧ (s.fresh tree).isSome
    | .error _ => Stands tree s s' := by
  unfold swapDir
  rw [EStateM.ends_bind]
  refine (removeOld_ends f.clearOld).mono fun r₁ s₁ cleared => ?_
  obtain ⟨within₁, fresh₁, live₁, rfl⟩ := cleared
  dsimp only
  rw [EStateM.ends_bind]
  refine (setAside_ends f).mono fun r₂ s₂ aside => ?_
  obtain ⟨within₂, fresh₂, moved⟩ := aside
  have within := within₁.trans within₂
  cases r₂ with
  | error e =>
    have same : s₂ = s₁ := moved
    rw [same] at within ⊢
    exact ⟨within, Or.inl live₁⟩
  | ok moved₂ =>
    dsimp only at moved ⊢
    obtain ⟨gone, kept⟩ := moved
    rw [EStateM.ends_bind]
    refine (putIn_ends f moved₂).mono fun r₃ s₃ placed => ?_
    obtain ⟨within₃, placed⟩ := placed
    cases r₃ with
    | error e =>
      refine ⟨within.trans within₃, ?_⟩
      rw [live₁] at kept
      rcases placed with rfl | ⟨rfl, back⟩
      · cases moved₂ with
        | false => exact Or.inl (gone.trans kept.symm)
        | true => exact Or.inr ⟨gone, kept⟩
      · exact Or.inl (back.trans kept)
    | ok u =>
      dsimp only at placed ⊢
      rw [fresh₂, fresh₁] at placed
      refine EStateM.ends_ite.mpr ⟨fun _ => ?_, fun _ => ⟨within.trans within₃, placed⟩⟩
      refine (removeOld_ends f.dropOld).mono fun r₄ s₄ dropped => ?_
      obtain ⟨within₄, _, live₄, rfl⟩ := dropped
      exact ⟨(within.trans within₃).trans within₄, live₄.trans placed.1, placed.2⟩

theorem restoreTree_ends {f : Swap} (clears : f.clearNew = none) : (restoreTree attempts tree f).Ends s fun r s' =>
    Within tree s s' ∧
    match r with
    | .ok _ => Held attempts tree s'
    | .error _ => Stands tree s s' := by
  unfold restoreTree
  rw [EStateM.ends_bind, EStateM.ends_modify]
  dsimp only
  rw [EStateM.ends_bind]
  refine failIf_ends (fun _ => ⟨⟨rfl, rfl, fun _ _ => rfl⟩, Or.inl rfl⟩) fun _ => ?_
  dsimp only
  rw [EStateM.ends_bind, EStateM.ends_get]
  dsimp only
  rw [EStateM.ends_bind, EStateM.ends_set]
  dsimp only
  have empty : (Function.update s.fresh tree (removed f.clearNew (s.fresh tree)) tree).getD [] = [] := by
    rw [Function.update_self, clears]
    rfl
  rw [empty]
  cases wrote : writeAll f.writes 0 attempts (some []) with
  | mk staging stop =>
    cases stop with
    | some e => exact ⟨⟨rfl, rfl, fun _ _ => rfl⟩, Or.inl rfl⟩
    | none =>
      obtain ⟨t, rfl, holds⟩ := writeAll_held wrote
      refine (swapDir_ends f).mono fun r s' swapped => ?_
      obtain ⟨within, placed⟩ := swapped
      refine ⟨within, ?_⟩
      cases r with
      | error e => exact placed
      | ok u =>
        refine ⟨t, placed.1.trans (Function.update_self ..), fun p => ?_⟩
        rw [holds]
        exact Option.or_none

/-! One file. -/

/-- `_atomic_write_bytes` writes the whole file, or fails. -/
def Write.Whole : Write → Prop
  | .short _ => False
  | _ => True

theorem atomicWriteBytes_ends {f : Write} (whole : f.Whole) (bytes : Bytes) : (atomicWriteBytes f bytes).Ends s
    fun r s' => s' = s ∧ ∀ written, r = .ok written → written = some bytes := by
  cases f with
  | done => exact ⟨rfl, fun _ same => (Except.ok.inj same).symm⟩
  | fails => exact ⟨rfl, fun _ impossible => nomatch impossible⟩
  | short n => exact whole.elim

theorem restoreProject_ends {f : Write} (whole : f.Whole) : (restoreProject archive f).Ends s fun r s' =>
    s'.live = s.live ∧ s'.state = s.state ∧
    match r with
    | .ok _ => s'.project = readMember archive "project.avc"
    | .error _ => s'.project = s.project := by
  unfold restoreProject
  cases reads : readMember archive "project.avc" with
  | none => exact ⟨rfl, rfl, rfl⟩
  | some bytes =>
    dsimp only
    rw [EStateM.ends_bind]
    refine (atomicWriteBytes_ends whole bytes).mono fun r s' wrote => ?_
    obtain ⟨rfl, all⟩ := wrote
    cases r with
    | error e => exact ⟨rfl, rfl, rfl⟩
    | ok written => exact ⟨rfl, rfl, all written rfl⟩

theorem readMember_none {name : String} (none : ¬(archive.any fun m => m.name = name) = true) :
    readMember archive name = .none := by
  unfold readMember
  have absent : (archive.reverse.find? fun m => m.name = name) = .none := by
    refine List.find?_eq_none.mpr fun m member named => none ?_
    exact List.any_eq_true.mpr ⟨m, List.mem_reverse.mp member, named⟩
  rw [absent]
  rfl

theorem restoreState_ends {f : Write} (whole : f.Whole) : (restoreState archive f).Ends s fun r s' =>
    s'.live = s.live ∧ s'.project = s.project ∧
    match r with
    | .ok _ => s'.state = readMember archive "state.json"
    | .error _ => s'.state = s.state := by
  unfold restoreState
  refine EStateM.ends_ite.mpr ⟨fun _ => ?_, fun absent => ?_⟩
  · cases reads : readMember archive "state.json" with
    | none => exact ⟨rfl, rfl, rfl⟩
    | some bytes =>
      dsimp only
      rw [EStateM.ends_bind]
      refine (atomicWriteBytes_ends whole bytes).mono fun r s' wrote => ?_
      obtain ⟨rfl, all⟩ := wrote
      cases r with
      | error e => exact ⟨rfl, rfl, rfl⟩
      | ok written => exact ⟨rfl, rfl, all written rfl⟩
  · have none := readMember_none absent
    cases f with
    | fails => exact ⟨rfl, rfl, rfl⟩
    | done => exact ⟨rfl, rfl, none.symm⟩
    | short n => exact whole.elim

/-! The parts one after another. -/

/-- What replaces one part. -/
def replacePart (svgProblem : Bytes → Bool) (archive : List Member) (f : Fates) : Part → Op Unit
  | .project => restoreProject archive f.project
  | .tree t => restoreTree (t.writes svgProblem archive) t (f.trees t)
  | .state => restoreState archive f.state

/-- No file operation goes half way. -/
structure Fates.Steady (f : Fates) : Prop where
  project : f.project.Whole
  trees : ∀ t, (f.trees t).clearNew = none
  state : f.state.Whole

theorem replacePart_ends {f : Fates} (steady : f.Steady) (part : Part) :
    (replacePart svgProblem archive f part).Ends s fun r s' => (∀ other, other ≠ part → Same s s' other) ∧
    match r with
    | .ok _ => AsHeld svgProblem archive s' part
    | .error _ => Same s s' part ∨ Aside s s' part := by
  cases part with
  | project =>
    refine (restoreProject_ends steady.project).mono fun r s' ends => ?_
    obtain ⟨live, state, ends⟩ := ends
    refine ⟨fun other apart => ?_, ?_⟩
    · cases other with
      | project => exact absurd rfl apart
      | tree t => exact congrFun live t
      | state => exact state
    · cases r with
      | ok u => exact ends
      | error e => exact Or.inl ends
  | tree t =>
    refine (restoreTree_ends (steady.trees t)).mono fun r s' ends => ?_
    obtain ⟨within, ends⟩ := ends
    refine ⟨fun other apart => within.others apart, ?_⟩
    cases r with
    | ok u => exact ends
    | error e =>
      rcases ends with same | ⟨gone, beside⟩
      · exact Or.inl same
      · exact Or.inr ⟨t, rfl, gone, beside⟩
  | state =>
    refine (restoreState_ends steady.state).mono fun r s' ends => ?_
    obtain ⟨live, project, ends⟩ := ends
    refine ⟨fun other apart => ?_, ?_⟩
    · cases other with
      | project => exact project
      | tree t => exact congrFun live t
      | state => exact absurd rfl apart
    · cases r with
      | ok u => exact ends
      | error e => exact Or.inl ends

/-- Parts replaced in an order: those before some point are as held, those after it
as they were. -/
def replaceAll (svgProblem : Bytes → Bool) (archive : List Member) (f : Fates) : List Part → Op Unit
  | [] => pure ()
  | part :: rest => do
    replacePart svgProblem archive f part
    replaceAll svgProblem archive f rest

theorem replaceAll_ends {f : Fates} (steady : f.Steady) {ps : List Part} (distinct : ps.Nodup) :
    (replaceAll svgProblem archive f ps).Ends s fun r s' => (∀ other, other ∉ ps → Same s s' other) ∧
    match r with
    | .ok _ => ∀ part ∈ ps, AsHeld svgProblem archive s' part
    | .error _ => ∃ before part after, ps = before ++ part :: after ∧
        (∀ p ∈ before, AsHeld svgProblem archive s' p) ∧ (Same s s' part ∨ Aside s s' part) ∧
        ∀ p ∈ after, Same s s' p := by
  induction ps generalizing s with
  | nil => exact ⟨fun other _ => Same.refl s other, fun part member => nomatch member⟩
  | cons part ps ih =>
    obtain ⟨apart, distinct⟩ := List.nodup_cons.mp distinct
    unfold replaceAll
    rw [EStateM.ends_bind]
    refine (replacePart_ends steady part).mono fun r₁ s₁ first => ?_
    obtain ⟨others, first⟩ := first
    cases r₁ with
    | error e =>
      refine ⟨fun other out => others other (List.ne_of_not_mem_cons out), [], part, ps, rfl, ?_, first, ?_⟩
      · exact fun p member => nomatch member
      · exact fun p member => others p fun same => apart (same ▸ member)
    | ok u =>
      dsimp only at first ⊢
      refine (ih distinct).mono fun r s' rest => ?_
      obtain ⟨kept, rest⟩ := rest
      have early : AsHeld svgProblem archive s' part := first.same (kept part apart)
      refine ⟨fun other out => ?_, ?_⟩
      · have out := not_or.mp (mt List.mem_cons.mpr out)
        exact (others other out.1).trans (kept other out.2)
      · cases r with
        | ok u =>
          intro p member
          rcases List.mem_cons.mp member with rfl | later
          · exact early
          · exact rest p later
        | error e =>
          obtain ⟨before, failed, after, split, held, stands, same⟩ := rest
          have unmoved : ∀ p ∈ ps, Same s s₁ p := fun p member => others p fun same => apart (same ▸ member)
          refine ⟨part :: before, failed, after, by rw [split, List.cons_append], ?_, ?_, ?_⟩
          · intro p member
            rcases List.mem_cons.mp member with rfl | later
            · exact early
            · exact held p later
          · have here := unmoved failed (by rw [split]; exact List.mem_append_right _ List.mem_cons_self)
            rcases stands with same | ⟨t, rfl, gone, beside⟩
            · exact Or.inl (here.trans same)
            · exact Or.inr ⟨t, rfl, gone, beside.trans here⟩
          · intro p member
            have here := unmoved p (by rw [split]; exact List.mem_append_right _ (List.mem_cons_of_mem _ member))
            exact here.trans (same p member)

/-- A room with a script, and a backup whose script cannot be read. -/
def scripted : Room :=
  ⟨some [0], none, Function.update (fun _ => none) .scripts (some [(["a.py"], .file [0])]), fun _ => none, fun _ => none⟩

def damaged : List Member := [⟨"project.avc", some [1]⟩, ⟨"scripts/a.py", none⟩]

end OpenAvc.Restore
