import OpenAvc.Library.Unfailing

namespace OpenAvc.Library

open Storage
open OpenAvc.Logins (Exc Fernet Python Registry System)
open OpenAvc.Updater (Cut)

variable {P : Python} {F : Fernet} {R : Registry} {sid : Text} {s s' : Copies} {place : Place}
  {r : Running} {created : Text} {f : Replacing} {old new : FileTree}

theorem rmtree_ends (fate : Option Cut) (place : Place) (s : Copies) : (rmtree fate place).Ends s fun result s' =>
    Within place s s' ∧ (∀ e, result ≠ .error (.raises e)) ∧
      (result = .ok () → (∀ cut, fate = some cut → cut.stop ≠ .os) → s'.folder place = none) := by
  have start := Within.refl place s
  unfold rmtree
  rw [EStateM.ends_bind, EStateM.ends_get]
  cases fate with
  | none => exact ⟨start.update none, fun _ other => (by cases other), fun _ _ => Function.update_self ..⟩
  | some cut =>
    show EStateM.Ends _ _ _
    rw [EStateM.ends_bind, EStateM.ends_set]
    dsimp only
    rw [EStateM.ends_ite]
    constructor
    · exact fun _ => ⟨start.update _, fun _ other => (by cases other), fun other => by cases other⟩
    · intro survives
      refine ⟨start.update _, fun _ other => (by cases other), fun _ unfailing => ?_⟩
      have os : cut.stop = .os := by
        cases stop : cut.stop with
        | os => rfl
        | killed => exact absurd stop survives
      exact absurd os (unfailing cut rfl)

theorem rename_ends (fate : Option Stop) {source target : Place} (apart : source ≠ target) (s : Copies) :
    (rename fate source target).Ends s fun result s' =>
      (result = .ok () ∧ s'.system = s.system ∧ ∃ tree, s.folder source = some tree ∧ s'.folder target = some tree ∧
        s'.folder source = none ∧ ∀ q, q ≠ source → q ≠ target → s'.folder q = s.folder q) ∨
      (∃ halt, result = .error halt ∧ s' = s ∧ ∀ e, halt = .raises e →
        fate = some .os ∨ s.folder source = none ∨ (s.folder target).getD [] ≠ []) := by
  unfold rename
  rw [EStateM.ends_bind, ends_proceed]
  cases fate with
  | some stop =>
    cases stop with
    | os => exact Or.inr ⟨_, rfl, rfl, fun _ _ => Or.inl rfl⟩
    | killed => exact Or.inr ⟨_, rfl, rfl, fun _ other => by cases other⟩
  | none =>
    show EStateM.Ends _ _ _
    rw [EStateM.ends_bind, EStateM.ends_get]
    dsimp only
    split
    · rename_i tree here empty
      refine Or.inl ⟨rfl, rfl, tree, here, Function.update_self .., ?_, fun q other other' => ?_⟩
      · exact (Function.update_of_ne apart _ _).trans (Function.update_self ..)
      · exact (Function.update_of_ne other' _ _).trans (Function.update_of_ne other _ _)
    · rename_i blocked
      refine Or.inr ⟨_, rfl, rfl, fun _ _ => Or.inr ?_⟩
      cases here : s.folder source with
      | none => exact Or.inl rfl
      | some tree => exact Or.inr fun empty => blocked tree here empty

theorem tidy_ends (f : Replacing) (s : Copies) : (tidy f).Ends s fun result s' =>
    s'.folder .project = s.folder .project ∧ s'.system = s.system ∧ ∀ e, result ≠ .error (.raises e) := by
  unfold tidy
  rw [EStateM.ends_bind]
  refine (rmtree_ends f.tidyPrevious .previous s).mono fun result s₁ first => ?_
  obtain ⟨within, goes, _⟩ := first
  cases result with
  | error e => exact ⟨within.1 _ (by decide), within.2, goes⟩
  | ok =>
    refine (rmtree_ends f.tidyStaging .staging s₁).mono fun result s₂ second => ?_
    exact ⟨(second.1.1 _ (by decide)).trans (within.1 _ (by decide)), second.1.2.trans within.2, second.2.1⟩

/-- The clean-up before an exception goes on. -/
theorem tidy_raise_ends (f : Replacing) (s : Copies) (e : Exc) :
    (do tidy f; throw (.raises e) : Op Unit).Ends s fun _ s' =>
      s'.folder .project = s.folder .project ∧ s'.system = s.system := by
  rw [EStateM.ends_bind]
  refine (tidy_ends f s).mono fun result s₁ kept => ?_
  cases result with
  | error e => exact ⟨kept.1, kept.2.1⟩
  | ok => exact ⟨kept.1, kept.2.1⟩

/-- With the old tree set aside, the new one is put in place, or the old one is put back
or stays aside, unless the rename that is to put it back fails. -/
theorem putIn_ends (gone : s.folder .project = none) (aside : s.folder .previous = some old)
    (built : s.folder .staging = some new) (undone : f.into = some .os → f.back ≠ some .os) :
    (finallyDo (undoing (rename f.into .staging .project) (rename f.back .previous .project)) (tidy f)).Ends s
      fun result s' => s'.system = s.system ∧
        (s'.folder .project = some old ∨ s'.folder .previous = some old ∨ s'.folder .project = some new) ∧
        (f.into ≠ some .os → ∀ e, result ≠ .error (.raises e)) := by
  rw [ends_finallyDo, ends_undoing]
  refine (rename_ends f.into (by decide) s).mono fun result s₁ first => ?_
  rcases first with ⟨rfl, system, tree, here, placed, -, -⟩ | ⟨halt, rfl, rfl, raises⟩
  · obtain rfl := Option.some.inj (built.symm.trans here)
    refine (tidy_ends f s₁).mono fun result s₂ kept => ?_
    exact ⟨kept.2.1.trans system, Or.inr (Or.inr (kept.1.trans placed)), fun _ => kept.2.2⟩
  · cases halt with
    | dies => exact ⟨rfl, Or.inr (Or.inl aside), fun _ _ other => by cases other⟩
    | raises e =>
      have failed : f.into = some .os := by
        rcases raises e rfl with os | missing | full
        · exact os
        · rw [built] at missing
          cases missing
        · rw [gone] at full
          exact absurd rfl full
      dsimp only
      rw [EStateM.ends_bind]
      refine (rename_ends f.back (by decide) s₁).mono fun result s₂ second => ?_
      rcases second with ⟨rfl, system, tree, here, placed, -, -⟩ | ⟨halt, rfl, rfl, raises⟩
      · obtain rfl := Option.some.inj (aside.symm.trans here)
        dsimp only
        rw [EStateM.ends_throw]
        refine (tidy_raise_ends f s₂ e).mono fun result s₃ kept => ?_
        exact ⟨kept.2.trans system, Or.inl (kept.1.trans placed), fun goes => absurd failed goes⟩
      · cases halt with
        | dies => exact ⟨rfl, Or.inr (Or.inl aside), fun goes => absurd failed goes⟩
        | raises e' =>
          rcases raises e' rfl with os | missing | full
          · exact absurd os (undone failed)
          · rw [aside] at missing
            cases missing
          · rw [gone] at full
            exact absurd rfl full

/-- The swap leaves the old tree or the new one. -/
theorem swapIn_ends (there : s.folder .project = some old) (built : s.folder .staging = some new)
    (undone : f.into = some .os → f.back ≠ some .os) : (swapIn f).Ends s fun result s' => s'.system = s.system ∧
      (s'.folder .project = some old ∨ s'.folder .previous = some old ∨ s'.folder .project = some new) ∧
      ((s.folder .previous).getD [] = [] → f.aside ≠ some .os → f.into ≠ some .os →
        ∀ e, result ≠ .error (.raises e)) := by
  unfold swapIn
  rw [EStateM.ends_bind]
  refine (rename_ends f.aside (by decide) s).mono fun result s₁ first => ?_
  rcases first with ⟨rfl, system, tree, here, aside, gone, others⟩ | ⟨halt, rfl, rfl, raises⟩
  · obtain rfl := Option.some.inj (there.symm.trans here)
    have staged := (others .staging (by decide) (by decide)).trans built
    refine (putIn_ends gone aside staged undone).mono fun result s₂ kept => ?_
    exact ⟨kept.1.trans system, kept.2.1, fun _ _ goes => kept.2.2 goes⟩
  · refine ⟨rfl, Or.inl there, fun empty goes _ e raised => ?_⟩
    cases raised
    rcases raises e rfl with os | missing | full
    · exact goes os
    · rw [there] at missing
      cases missing
    · exact full empty

/-- Reading the date changes nothing. -/
theorem carriedOver_ends (tree : Option FileTree) (now : Text) (reads : Option Stop) :
    (carriedOver P tree now reads).Ends s fun _ s' => s' = s := by
  unfold carriedOver
  split
  · exact rfl
  · exact rfl
  · split
    · exact rfl
    · exact rfl

/-- No file operation of the call from the filing of the logins on fails. -/
structure Smooth (R : Registry) (sid : Text) (r : Running) (created : Text) (f : Replacing) : Prop extends
    Unfailing R sid r created f.toWriting where
  staging : ∀ cut, f.clearStaging = some cut → cut.stop ≠ .os
  previous : ∀ cut, f.clearPrevious = some cut → cut.stop ≠ .os
  aside : f.aside ≠ some .os
  into : f.into ≠ some .os

/-- The tree under the id is one that `r` was written as by this call. -/
def Built (P : Python) (F : Fernet) (R : Registry) (sid : Text) (r : Running) (f : Replacing) (s s' : Copies) : Prop :=
  ∃ created, carriedOver P (s.folder .project) r.now f.reads s = .ok created s ∧ ∃ data data' system t,
    r.dumped sid created = .ok data ∧
    fileLibraryLogins P F R sid data { s.system with faults := f.logins } = .ok data' system ∧
    s'.folder .project = some t ∧ r.whole data' t = true

/-- A replace of a tree leaves it, or the new one, under the id, or the old one beside it,
and it only raises with the logins as they were. -/
theorem replaceInLibrary_ends (there : s.folder .project = some old) (undone : f.into = some .os → f.back ≠ some .os)
    (filed : ∀ created s', carriedOver P (s.folder .project) r.now f.reads s = .ok created s' →
      (∀ data, r.dumped sid created = .ok data → Settled P F R sid data { s.system with faults := f.logins }) ∨
        Smooth R sid r created f) : (replaceInLibrary P F R sid r f).Ends s fun result s' =>
      (s'.folder .project = some old ∨ s'.folder .previous = some old ∨ Built P F R sid r f s s') ∧
      ∀ e, result = .error (.raises e) → s'.system.disk = s.system.disk := by
  unfold replaceInLibrary
  rw [EStateM.ends_bind, ends_proceed]
  cases f.looks with
  | some stop => exact ⟨Or.inl there, fun _ _ => rfl⟩
  | none =>
    show EStateM.Ends _ _ _
    rw [EStateM.ends_bind, EStateM.ends_get]
    show EStateM.Ends (ite _ _ _) _ _
    rw [EStateM.ends_ite]
    refine ⟨fun _ => ⟨Or.inl there, fun _ _ => rfl⟩, fun _ => ?_⟩
    have unchanged := carriedOver_ends (P := P) (s := s) (s.folder .project) r.now f.reads
    cases carries : carriedOver P (s.folder .project) r.now f.reads s with
    | error halt s' =>
      rw [EStateM.ends_of_error carries] at unchanged
      subst unchanged
      rw [EStateM.ends_bind_of_error carries]
      exact ⟨Or.inl there, fun _ _ => rfl⟩
    | ok created s' =>
      rw [EStateM.ends_of_ok carries] at unchanged
      subst unchanged
      rw [EStateM.ends_bind_of_ok carries, EStateM.ends_bind]
      refine (rmtree_ends f.clearStaging .staging s').mono fun result s₁ first => ?_
      have there₁ := (first.1.1 .project (by decide)).trans there
      cases result with
      | error halt => exact ⟨Or.inl there₁, fun _ _ => congrArg Logins.System.disk first.1.2⟩
      | ok =>
        dsimp only
        rw [EStateM.ends_bind]
        refine (rmtree_ends f.clearPrevious .previous s₁).mono fun result s₂ second => ?_
        have there₂ := (second.1.1 .project (by decide)).trans there₁
        have system := second.1.2.trans first.1.2
        cases result with
        | error halt => exact ⟨Or.inl there₂, fun _ _ => congrArg Logins.System.disk system⟩
        | ok =>
          dsimp only
          rw [EStateM.ends_bind]
          have cleared : Smooth R sid r created f → s₂.folder .staging = none := fun smooth =>
            (second.1.1 .staging (by decide)).trans (first.2.2 rfl smooth.staging)
          have writes := writeProjectTree_ends P F R sid .staging r created f.toWriting s₂
          have settles := @writeProjectTree_settled P F R sid s₂ r created f.toWriting .staging
          rw [system] at writes settles
          cases ran : writeProjectTree P F R sid .staging r created f.toWriting s₂ with
          | error halt s₃ =>
            rw [EStateM.ends_of_error ran] at writes settles
            rw [EStateM.ends_of_error ran]
            refine ⟨Or.inl ((writes.1 .project (by decide)).trans there₂), fun e raises => ?_⟩
            rcases filed created s' carries with settled | smooth
            · exact settles settled
            · have returns := writeProjectTree_returns (P := P) (F := F) (cleared smooth) smooth.toUnfailing
              rw [EStateM.ends_of_error ran] at returns
              exact congrArg Logins.System.disk ((returns e raises).trans system)
          | ok _ s₃ =>
            rw [EStateM.ends_of_ok ran] at writes settles
            rw [EStateM.ends_of_ok ran]
            have there₃ := (writes.1 .project (by decide)).trans there₂
            obtain ⟨data, data', system', t, dumped, files, built, whole⟩ := writes.2 rfl
            refine (swapIn_ends there₃ built undone).mono fun result s₄ swapped => ?_
            refine ⟨?_, fun e raises => ?_⟩
            · rcases swapped.2.1 with old | aside | new
              · exact Or.inl old
              · exact Or.inr (Or.inl aside)
              · exact Or.inr (Or.inr ⟨created, carries, data, data', system', t, dumped, files, new, whole⟩)
            · rcases filed created s' carries with settled | smooth
              · exact (congrArg Logins.System.disk swapped.1).trans (settles settled)
              · have empty : s₃.folder .previous = none :=
                  (writes.1 .previous (by decide)).trans (second.2.2 rfl smooth.previous)
                exact absurd raises (swapped.2.2 (by rw [empty]; rfl) smooth.aside smooth.into e)

end OpenAvc.Library
