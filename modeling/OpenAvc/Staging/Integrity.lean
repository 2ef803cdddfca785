import OpenAvc.Staging.Uploads

/-! What holds of the staging folder in careful runs. -/

namespace OpenAvc.Staging

open FileStaging

variable {s s' s'' : FileStaging} {works : Path → Bool} {deletes deletes' : Nat → Prop}

/-- Every file is accounted for, and no upload that is tracked is kept for a sweep. -/
structure Tidy (s : FileStaging) : Prop where
  owned : ∀ p, s.files p ≠ none → Accounted s p
  apart : ∀ id ∈ s.tracked, Path.part id ∉ s.stale

/-- What deleting leaves: uploads are dropped and their files with them, but for the files of those
that are still tracked. Only the uploads in `deletes` lose a file that was accounted for. -/
structure Trims (deletes : Nat → Prop) (s s' : FileStaging) : Prop where
  uploads : s'.uploads = s.uploads
  tracked : ∀ id ∈ s'.tracked, id ∈ s.tracked
  kept : ∀ id ∈ s'.tracked, s'.files (.part id) = s.files (.part id)
  stale : ∀ id, Path.part id ∈ s'.stale → Path.part id ∈ s.stale ∨ id ∈ s.tracked
  tidy : Tidy s'
  still : ∀ id, ¬deletes id → Accounted s (.part id) → Accounted s' (.part id)

theorem Trims.refl (tidy : Tidy s) : Trims deletes s s :=
  ⟨rfl, fun _ member => member, fun _ _ => rfl, fun _ member => Or.inl member, tidy, fun _ _ there => there⟩

theorem Trims.trans (first : Trims deletes s s') (second : Trims deletes' s' s'') :
    Trims (fun id => deletes id ∨ deletes' id) s s'' where
  uploads := second.uploads.trans first.uploads
  tracked id member := first.tracked id (second.tracked id member)
  kept id member := (second.kept id member).trans (first.kept id (second.tracked id member))
  stale id member := by
    rcases second.stale id member with before | before
    · exact first.stale id before
    · exact Or.inr (first.tracked id before)
  tidy := second.tidy
  still id spared there := by
    obtain ⟨one, two⟩ := not_or.mp spared
    exact second.still id two (first.still id one there)

theorem Trims.mono (trims : Trims deletes s s') (more : ∀ id, deletes id → deletes' id) : Trims deletes' s s' :=
  { trims with still := fun id spared => trims.still id fun deleted => spared (more id deleted) }

theorem mem_stale_unlink {p q : Path} : q ∈ (s.unlink works p).stale ↔ q ∈ s.stale ∨ works p = false ∧ q = p := by
  unfold unlink
  split
  · rename_i gone
    simp [gone]
  · rename_i stays
    dsimp only
    split
    · rename_i there
      exact ⟨Or.inl, fun either => either.elim id fun same => same.2 ▸ there⟩
    · simp [stays]

theorem files_unlink (p q : Path) : (s.unlink works p).files q = if works p = true ∧ q = p then none else s.files q := by
  unfold unlink
  split
  · rename_i gone
    show Function.update s.files p none q = _
    rw [Function.update_apply]
    simp [gone]
  · rename_i stays
    simp [stays]

theorem discard_trims (works : Path → Bool) (tidy : Tidy s) (id : Nat) :
    Trims (fun x => x = id ∧ works (.part id) = true) s (s.discard works id) := by
  unfold FileStaging.discard
  split
  · rename_i here
    have uploads : (unlink { s with tracked := s.tracked.filter (· ≠ id) } works (.part id)).uploads = s.uploads := by
      unfold unlink
      split <;> rfl
    have tracked : (unlink { s with tracked := s.tracked.filter (· ≠ id) } works (.part id)).tracked =
        s.tracked.filter (· ≠ id) := by
      unfold unlink
      split <;> rfl
    have held : (unlink { s with tracked := s.tracked.filter (· ≠ id) } works (.part id)).held = s.held := by
      unfold unlink
      split <;> rfl
    -- Only the upload's own path changes its owner.
    have moves (p : Path) (spared : ¬(p = .part id ∧ works (.part id) = true)) (there : Accounted s p) :
        Accounted (unlink { s with tracked := s.tracked.filter (· ≠ id) } works (.part id)) p := by
      unfold Accounted
      rw [tracked, held, mem_stale_unlink]
      rcases there with ⟨other, member, rfl⟩ | returned | old
      · by_cases same : other = id
        · subst same
          exact Or.inr (Or.inr (Or.inr ⟨Bool.eq_false_iff.mpr fun gone => spared ⟨rfl, gone⟩, rfl⟩))
        · exact Or.inl ⟨other, List.mem_filter.mpr ⟨member, decide_eq_true same⟩, rfl⟩
      · exact Or.inr (Or.inl returned)
      · exact Or.inr (Or.inr (Or.inl old))
    refine ⟨uploads, ?_, ?_, ?_, ⟨?_, ?_⟩, ?_⟩
    · intro x member
      rw [tracked] at member
      exact (List.mem_filter.mp member).1
    · intro x member
      rw [tracked] at member
      have other : x ≠ id := of_decide_eq_true (List.mem_filter.mp member).2
      rw [files_unlink, if_neg fun both => other (Path.part.inj both.2)]
    · intro x member
      rcases mem_stale_unlink.mp member with old | ⟨_, same⟩
      · exact Or.inl old
      · cases same
        exact Or.inr here
    · intro p there
      rw [files_unlink] at there
      by_cases gone : works (.part id) = true ∧ p = .part id
      · rw [if_pos gone] at there
        exact absurd rfl there
      · rw [if_neg gone] at there
        exact moves p (fun both => gone ⟨both.2, both.1⟩) (tidy.owned p there)
    · intro x member old
      rw [tracked] at member
      obtain ⟨before, other⟩ := List.mem_filter.mp member
      rcases mem_stale_unlink.mp old with old | ⟨_, same⟩
      · exact tidy.apart x before old
      · exact of_decide_eq_true other (Path.part.inj same)
    · exact fun x spared there => moves (.part x) (fun both => spared ⟨Path.part.inj both.1, both.2⟩) there
  · exact Trims.refl tidy

theorem release_trims (works : Path → Bool) (tidy : Tidy s) (id : Nat) :
    Trims (fun _ => False) s (s.release works id) := by
  unfold FileStaging.release
  split
  · have uploads : (unlink { s with held := s.held.filter (·.1 ≠ id) } works (.out id)).uploads = s.uploads := by
      unfold unlink
      split <;> rfl
    have tracked : (unlink { s with held := s.held.filter (·.1 ≠ id) } works (.out id)).tracked = s.tracked := by
      unfold unlink
      split <;> rfl
    have held : (unlink { s with held := s.held.filter (·.1 ≠ id) } works (.out id)).held = s.held.filter (·.1 ≠ id) := by
      unfold unlink
      split <;> rfl
    have stale (x : Nat) (member : Path.part x ∈ (unlink { s with held := s.held.filter (·.1 ≠ id) } works (.out id)).stale) :
        Path.part x ∈ s.stale := by
      rcases mem_stale_unlink.mp member with old | ⟨_, same⟩
      · exact old
      · cases same
    refine ⟨uploads, ?_, ?_, fun x member => Or.inl (stale x member), ⟨?_, ?_⟩, ?_⟩
    · intro x member
      rwa [tracked] at member
    · intro x _
      rw [files_unlink, if_neg fun both => nomatch both.2]
    · intro p there
      rw [files_unlink] at there
      by_cases gone : works (.out id) = true ∧ p = .out id
      · rw [if_pos gone] at there
        exact absurd rfl there
      · rw [if_neg gone] at there
        unfold Accounted
        rw [tracked, held, mem_stale_unlink]
        rcases tidy.owned p there with upload | ⟨h, member, rfl⟩ | old
        · exact Or.inl upload
        · by_cases same : h.1 = id
          · refine Or.inr (Or.inr (Or.inr ⟨Bool.eq_false_iff.mpr fun works => gone ⟨works, ?_⟩, ?_⟩))
            · rw [same]
            · rw [same]
          · exact Or.inr (Or.inl ⟨h, List.mem_filter.mpr ⟨member, decide_eq_true same⟩, rfl⟩)
        · exact Or.inr (Or.inr (Or.inl old))
    · intro x member old
      rw [tracked] at member
      exact tidy.apart x member (stale x old)
    · intro x _ there
      unfold Accounted
      rw [tracked, mem_stale_unlink]
      rcases there with upload | ⟨h, _, same⟩ | old
      · exact Or.inl upload
      · cases same
      · exact Or.inr (Or.inr (Or.inl old))
  · exact Trims.refl tidy

theorem retry_trims (works : Path → Bool) (tidy : Tidy s) :
    Trims (fun id => Path.part id ∈ s.stale ∧ works (.part id) = true) s (s.retry works) := by
  refine ⟨rfl, fun _ member => member, ?_, fun id member => Or.inl (List.mem_filter.mp member).1, ⟨?_, ?_⟩, ?_⟩
  · intro id member
    exact if_neg fun both => tidy.apart id member both.1
  · intro p there
    have spared : ¬(p ∈ s.stale ∧ works p = true) := fun gone => there (if_pos gone)
    have before : s.files p ≠ none := by
      have same : (s.retry works).files p = s.files p := if_neg spared
      rwa [same] at there
    rcases tidy.owned p before with upload | returned | old
    · exact Or.inl upload
    · exact Or.inr (Or.inl returned)
    · exact Or.inr (Or.inr (List.mem_filter.mpr ⟨old, by simpa using fun works => spared ⟨old, works⟩⟩))
  · exact fun id member old => tidy.apart id member (List.mem_filter.mp old).1
  · intro id spared there
    rcases there with upload | returned | old
    · exact Or.inl upload
    · exact Or.inr (Or.inl returned)
    · exact Or.inr (Or.inr (List.mem_filter.mpr ⟨old, by simpa using fun works => spared ⟨old, works⟩⟩))

theorem discards_trims (works : Path → Bool) (tidy : Tidy s) (ids : List Nat) :
    Trims (fun x => x ∈ ids ∧ works (.part x) = true) s (ids.foldl (fun s id => s.discard works id) s) := by
  induction ids generalizing s with
  | nil => exact Trims.refl tidy
  | cons id ids ih =>
    have first := discard_trims works tidy id
    refine (first.trans (ih first.tidy)).mono fun x either => ?_
    rcases either with ⟨rfl, gone⟩ | ⟨member, gone⟩
    · exact ⟨List.mem_cons_self, gone⟩
    · exact ⟨List.mem_cons_of_mem _ member, gone⟩

theorem releases_trims (works : Path → Bool) (tidy : Tidy s) (ids : List Nat) : Trims (fun _ => False) s
    (ids.foldl (fun s id => s.release works id) s) := by
  induction ids generalizing s with
  | nil => exact Trims.refl tidy
  | cons id ids ih =>
    have first := release_trims works tidy id
    exact (first.trans (ih first.tidy)).mono fun _ either => either.elim (fun gone => gone) fun gone => gone

/-- A sweep deletes what is kept for it and what is idle, where it can. -/
theorem sweep_trims (works : Path → Bool) (tidy : Tidy s) (now : Nat) : Trims (fun id => works (.part id) = true ∧
    (Path.part id ∈ s.stale ∨ id ∈ s.idle now)) s (s.sweep now works) := by
  have first := retry_trims works tidy
  have second := discards_trims works first.tidy ((s.retry works).idle now)
  have third := releases_trims works second.tidy
    ((((s.retry works).idle now).foldl (fun s id => s.discard works id) (s.retry works)).expired now)
  refine ((first.trans second).trans third).mono fun id either => ?_
  rcases either with (⟨old, gone⟩ | ⟨idle, gone⟩) | impossible
  · exact ⟨gone, Or.inl old⟩
  · exact ⟨gone, Or.inr idle⟩
  · exact impossible.elim

/-! Uploads. -/

/-- The bytes of the chunk that is on its way, when the thread has added them. -/
def Upload.added (u : Upload) : Bytes :=
  match u.inFlight with
  | some ⟨data, some true⟩ => data
  | _ => []

/-- What holds of every upload: its counter counts the chunks, and a chunk on its way fits. -/
structure Upload.Sound (u : Upload) : Prop where
  counted : u.received = u.content.length
  inOrder : InOrder u.accepted
  fits : ∀ data ran, u.inFlight = some ⟨data, ran⟩ → u.received + data.length ≤ u.size

/-- What holds in every state of a careful run. -/
structure Inv (s : FileStaging) : Prop where
  tidy : Tidy s
  known : ∀ id ∈ s.tracked, ∃ u, s.uploads id = some u
  old : ∀ id, Path.part id ∈ s.stale → ∃ u, s.uploads id = some u
  sound : ∀ id u, s.uploads id = some u → u.Sound
  staged : ∀ id ∈ s.tracked, ∀ u, s.uploads id = some u → s.files (.part id) = some (u.content ++ u.added)
  queued : ∀ id u data, s.uploads id = some u → u.inFlight = some ⟨data, none⟩ → Accounted s (.part id)

theorem Inv.trims (inv : Inv s) (trims : Trims deletes s s')
    (spared : ∀ id u data, s.uploads id = some u → u.inFlight = some ⟨data, none⟩ → ¬deletes id) : Inv s' where
  tidy := trims.tidy
  known id member := by
    rw [trims.uploads]
    exact inv.known id (trims.tracked id member)
  old id member := by
    rw [trims.uploads]
    rcases trims.stale id member with before | before
    · exact inv.old id before
    · exact inv.known id before
  sound id u here := inv.sound id u (trims.uploads ▸ here)
  staged id member u here := by
    rw [trims.uploads] at here
    rw [trims.kept id member]
    exact inv.staged id (trims.tracked id member) u here
  queued id u data here waits := by
    rw [trims.uploads] at here
    exact trims.still id (spared id u data here waits) (inv.queued id u data here waits)

/-- An upload changes, and no file and no key. -/
theorem Inv.setUpload (inv : Inv s) {id : Nat} {u u' : Upload} (here : s.uploads id = some u) (sound : u'.Sound)
    (same : u'.content ++ u'.added = u.content ++ u.added)
    (queued : ∀ data, u'.inFlight = some ⟨data, none⟩ → Accounted s (.part id)) : Inv (s.setUpload id u') where
  tidy := ⟨inv.tidy.owned, inv.tidy.apart⟩
  known x member := by
    by_cases changed : x = id
    · exact ⟨u', changed ▸ Function.update_self ..⟩
    · obtain ⟨v, found⟩ := inv.known x member
      exact ⟨v, (Function.update_of_ne changed _ _).trans found⟩
  old x member := by
    by_cases changed : x = id
    · exact ⟨u', changed ▸ Function.update_self ..⟩
    · obtain ⟨v, found⟩ := inv.old x member
      exact ⟨v, (Function.update_of_ne changed _ _).trans found⟩
  sound x v found := by
    by_cases changed : x = id
    · subst changed
      cases (Function.update_self ..).symm.trans found
      exact sound
    · exact inv.sound x v ((Function.update_of_ne changed _ _).symm.trans found)
  staged x member v found := by
    by_cases changed : x = id
    · subst changed
      cases (Function.update_self ..).symm.trans found
      rw [same]
      exact inv.staged x member u here
    · exact inv.staged x member v ((Function.update_of_ne changed _ _).symm.trans found)
  queued x v data found waits := by
    by_cases changed : x = id
    · subst changed
      cases (Function.update_self ..).symm.trans found
      exact queued data waits
    · exact inv.queued x v data ((Function.update_of_ne changed _ _).symm.trans found) waits

theorem InOrder.concat {chunks : List (Nat × Bytes)} (inOrder : InOrder chunks) (data : Bytes) :
    InOrder (chunks ++ [((chunks.map Prod.snd).flatten.length, data)]) := by
  intro before chunk after split
  rcases List.append_eq_append_iff.mp split with ⟨rest, rfl, last⟩ | ⟨rest, rfl, more⟩
  · cases rest with
    | nil =>
      cases last
      rw [List.append_nil]
    | cons c rest =>
      rw [List.cons_append, List.cons.injEq] at last
      obtain ⟨_, impossible⟩ := last
      have length := congrArg List.length impossible
      simp at length
  · cases rest with
    | nil =>
      cases more
      simp
    | cons c rest =>
      cases more
      exact inOrder before chunk rest rfl

theorem Upload.Sound.enter {u : Upload} (sound : u.Sound) (free : u.inFlight = none) (offset : Nat) (data : Bytes) :
    (u.enter offset data).Sound ∧ (u.enter offset data).content ++ (u.enter offset data).added = u.content ++ u.added := by
  unfold Upload.enter
  split
  · exact ⟨sound, rfl⟩
  · rename_i taken
    refine ⟨⟨sound.counted, sound.inOrder, fun other ran here => ?_⟩, ?_⟩
    · cases here
      unfold Upload.refuses at taken
      rw [decide_eq_true_eq] at taken
      obtain ⟨_, taken⟩ := not_or.mp taken
      obtain ⟨_, room⟩ := not_or.mp taken
      exact Nat.not_lt.mp room
    · have nothing : u.added = [] := by
        unfold Upload.added
        rw [free]
      rw [nothing]
      rfl

theorem Upload.Sound.write {u : Upload} (sound : u.Sound) (offset : Nat) (data : Bytes) :
    (u.write offset data).Sound ∧ (u.write offset data).content ++ (u.write offset data).added = u.content ++ u.added := by
  unfold Upload.write
  split
  · rename_i free
    exact sound.enter free.1 offset data
  · exact ⟨⟨sound.counted, sound.inOrder, sound.fits⟩, rfl⟩

/-- What the write comes back to is what the thread has added. -/
theorem Upload.Sound.finish {u : Upload} (sound : u.Sound) {append : Append} (here : u.inFlight = some append)
    (ran : append.ran.isSome) (now : Nat) : (u.finish now append).Sound ∧
    (u.finish now append).content ++ (u.finish now append).added = u.content ++ u.added := by
  obtain ⟨data, ran'⟩ := append
  unfold Upload.finish
  split
  · rename_i whole
    have added : u.added = data := by
      unfold Upload.added
      cases whole
      rw [here]
    have content : ((u.accepted ++ [(u.received, data)]).map Prod.snd).flatten = u.content ++ data := by
      rw [List.map_append, List.flatten_append]
      simp [Upload.content]
    refine ⟨⟨?_, ?_, fun other ran here => nomatch here⟩, ?_⟩
    · show u.received + data.length = ((u.accepted ++ [(u.received, data)]).map Prod.snd).flatten.length
      rw [content, List.length_append, sound.counted]
    · have counted := sound.counted
      have next := sound.inOrder.concat data
      change InOrder (u.accepted ++ [(u.content.length, data)]) at next
      rw [← counted] at next
      exact next
    · show ((u.accepted ++ [(u.received, data)]).map Prod.snd).flatten ++ [] = u.content ++ u.added
      rw [content, added, List.append_nil]
  · rename_i failed
    have added : u.added = [] := by
      unfold Upload.added
      rw [here]
      cases ran' with
      | none => rfl
      | some b =>
        cases b with
        | false => rfl
        | true => exact absurd rfl failed
    refine ⟨⟨sound.counted, sound.inOrder, fun other ran here => nomatch here⟩, ?_⟩
    rw [added]
    rfl

/-! Runs. -/

/-- The file of this upload is deleted. -/
def Deletes (s : FileStaging) : Label → Nat → Prop
  | .discard x works, id => x = id ∧ works (.part id) = true
  | .sweep now works, id | .start _ _ now works, id | .hold _ _ _ now works, id =>
    works (.part id) = true ∧ (Path.part id ∈ s.stale ∨ id ∈ s.idle now)
  | _, _ => False

/-- No file is deleted that a chunk is on its way to; no write gets the lock of an upload that is
gone, unless it is refused; and no write to a file fails when it has written a part. -/
def Careful (s : FileStaging) (l : Label) : Prop :=
  (∀ id u data, s.uploads id = some u → u.inFlight = some ⟨data, none⟩ → ¬Deletes s l id) ∧
  match l with
  | .resume id => ∀ u offset data rest, s.uploads id = some u → u.waiting = (offset, data) :: rest →
      u.refuses offset data = false → Accounted s (.part id)
  | .append id written => ∀ n, written = some n → id ∈ s.tracked → n = 0
  | .hold _ _ written _ _ => written = none
  | _ => True

theorem Inv.sweep (inv : Inv s) (works : Path → Bool) {now : Nat} (spared : ∀ id u data, s.uploads id = some u →
    u.inFlight = some ⟨data, none⟩ → ¬(works (.part id) = true ∧ (Path.part id ∈ s.stale ∨ id ∈ s.idle now))) :
    Inv (s.sweep now works) ∧ (s.sweep now works).uploads = s.uploads := by
  have trims := sweep_trims works inv.tidy now
  exact ⟨inv.trims trims spared, trims.uploads⟩

/-- A new upload, with its empty file. -/
theorem Inv.opened (inv : Inv s) {id : Nat} (fresh : s.uploads id = none) (size now : Nat) :
    Inv { s.setUpload id { size, touched := now } with
      tracked := s.tracked ++ [id], files := Function.update s.files (.part id) (some []) } := by
  have other {x : Nat} {u : Upload} (here : s.uploads x = some u) : x ≠ id := by
    rintro rfl
    cases fresh.symm.trans here
  have before {x : Nat} (member : x ∈ s.tracked) : x ≠ id := by
    obtain ⟨u, here⟩ := inv.known x member
    exact other here
  have found {x : Nat} {v : Upload} (here : Function.update s.uploads id (some { size, touched := now }) x = some v) :
      (x = id ∧ v = { size, touched := now }) ∨ s.uploads x = some v := by
    by_cases new : x = id
    · subst new
      rw [Function.update_self, Option.some.injEq] at here
      exact Or.inl ⟨rfl, here.symm⟩
    · exact Or.inr ((Function.update_of_ne new _ _).symm.trans here)
  have grows {p : Path} (there : Accounted s p) : Accounted { s.setUpload id { size, touched := now } with
      tracked := s.tracked ++ [id], files := Function.update s.files (.part id) (some []) } p := by
    rcases there with ⟨x, member, same⟩ | returned | old
    · exact Or.inl ⟨x, List.mem_append_left _ member, same⟩
    · exact Or.inr (Or.inl returned)
    · exact Or.inr (Or.inr old)
  refine ⟨⟨fun p there => ?_, fun x member old => ?_⟩, fun x member => ?_, fun x old => ?_, fun x v here => ?_,
    fun x member v here => ?_, fun x v data here waits => ?_⟩
  · by_cases new : p = .part id
    · exact Or.inl ⟨id, List.mem_append_right _ List.mem_cons_self, new⟩
    · change Function.update s.files (.part id) (some []) p ≠ none at there
      rw [Function.update_of_ne new] at there
      exact grows (inv.tidy.owned p there)
  · rcases List.mem_append.mp member with member | new
    · exact inv.tidy.apart x member old
    · obtain ⟨u, here⟩ := inv.old x old
      exact other here (List.mem_singleton.mp new)
  · by_cases new : x = id
    · subst new
      exact ⟨_, Function.update_self ..⟩
    · rcases List.mem_append.mp member with member | same
      · obtain ⟨u, here⟩ := inv.known x member
        exact ⟨u, (Function.update_of_ne new _ _).trans here⟩
      · exact absurd (List.mem_singleton.mp same) new
  · obtain ⟨u, here⟩ := inv.old x old
    exact ⟨u, (Function.update_of_ne (other here) _ _).trans here⟩
  · rcases found here with ⟨rfl, rfl⟩ | here
    · exact ⟨rfl, fun before chunk after split => (by simp at split), fun data ran inFlight => nomatch inFlight⟩
    · exact inv.sound x v here
  · rcases found here with ⟨rfl, rfl⟩ | here
    · exact Function.update_self ..
    · have new := other here
      rcases List.mem_append.mp member with member | same
      · exact (Function.update_of_ne (fun same => new (Path.part.inj same)) _ _).trans (inv.staged x member v here)
      · exact absurd (List.mem_singleton.mp same) new
  · rcases found here with ⟨rfl, rfl⟩ | here
    · cases waits
    · exact grows (inv.queued x v data here waits)

/-- A returned file, with its file. -/
theorem Inv.holds (inv : Inv s) (id : Nat) (data : Bytes) (expires : Nat) : Inv { s with
    held := s.held ++ [(id, expires)], files := Function.update s.files (.out id) (some data) } := by
  have grows {p : Path} (there : Accounted s p) : Accounted { s with
      held := s.held ++ [(id, expires)], files := Function.update s.files (.out id) (some data) } p := by
    rcases there with upload | ⟨h, member, same⟩ | old
    · exact Or.inl upload
    · exact Or.inr (Or.inl ⟨h, List.mem_append_left _ member, same⟩)
    · exact Or.inr (Or.inr old)
  refine ⟨⟨fun p there => ?_, inv.tidy.apart⟩, inv.known, inv.old, inv.sound, fun x member u here => ?_,
    fun x u data here waits => grows (inv.queued x u data here waits)⟩
  · by_cases new : p = .out id
    · exact Or.inr (Or.inl ⟨(id, expires), List.mem_append_right _ List.mem_cons_self, new⟩)
    · change Function.update s.files (.out id) (some data) p ≠ none at there
      rw [Function.update_of_ne new] at there
      exact grows (inv.tidy.owned p there)
  · have other : Path.part x ≠ .out id := Path.noConfusion
    show Function.update s.files (.out id) (some data) (.part x) = _
    rw [Function.update_of_ne other]
    exact inv.staged x member u here

/-- The thread runs: the chunk is added to the file, or nothing of it. -/
theorem Inv.append (inv : Inv s) {id : Nat} {u : Upload} {data : Bytes} (here : s.uploads id = some u)
    (waits : u.inFlight = some ⟨data, none⟩) {written : Option Nat}
    (careful : ∀ n, written = some n → id ∈ s.tracked → n = 0) : Inv (s.append id u data written) := by
  have sound := inv.sound id u here
  have there := inv.queued id u data here waits
  have nothing : u.added = [] := by
    unfold Upload.added
    rw [waits]
  have changed : Inv (s.setUpload id { u with inFlight := some ⟨data, some false⟩ }) := by
    refine inv.setUpload here ⟨sound.counted, sound.inOrder, fun other ran same => ?_⟩ ?_ fun other same => nomatch same
    · cases same
      exact sound.fits data none waits
    · rw [nothing]
      rfl
  have found {x : Nat} {v : Upload} (at' : (s.append id u data written).uploads x = some v) :
      (x = id ∧ v = { u with inFlight := some ⟨data, some written.isNone⟩ }) ∨ (x ≠ id ∧ s.uploads x = some v) := by
    change Function.update s.uploads id (some { u with inFlight := some ⟨data, some written.isNone⟩ }) x = some v at at'
    by_cases same : x = id
    · subst same
      rw [Function.update_self, Option.some.injEq] at at'
      exact Or.inl ⟨rfl, at'.symm⟩
    · rw [Function.update_of_ne same] at at'
      exact Or.inr ⟨same, at'⟩
  have known (x : Nat) (v : Upload) (known : s.uploads x = some v) : ∃ v, (s.append id u data written).uploads x = some v := by
    change ∃ v, Function.update s.uploads id (some { u with inFlight := some ⟨data, some written.isNone⟩ }) x = some v
    by_cases same : x = id
    · subst same
      exact ⟨_, Function.update_self ..⟩
    · exact ⟨v, by rw [Function.update_of_ne same, known]⟩
  refine ⟨⟨fun p full => ?_, inv.tidy.apart⟩, fun x member => ?_, fun x old => ?_, fun x v at' => ?_,
    fun x member v at' => ?_, fun x v other at' queued => ?_⟩
  · by_cases own : p = .part id
    · subst own
      exact there
    · change Function.update s.files (.part id) _ p ≠ none at full
      rw [Function.update_of_ne own] at full
      exact inv.tidy.owned p full
  · obtain ⟨v, before⟩ := inv.known x member
    exact known x v before
  · obtain ⟨v, before⟩ := inv.old x old
    exact known x v before
  · rcases found at' with ⟨rfl, rfl⟩ | ⟨_, before⟩
    · refine ⟨sound.counted, sound.inOrder, fun other ran same => ?_⟩
      cases same
      exact sound.fits data none waits
    · exact inv.sound x v before
  · rcases found at' with ⟨rfl, rfl⟩ | ⟨other, before⟩
    · have file := inv.staged x member u here
      rw [nothing, List.append_nil] at file
      show Function.update s.files (.part x) _ (.part x) = _
      rw [Function.update_self, file, Option.getD_some]
      cases written with
      | none => rfl
      | some n =>
        rw [careful n rfl member]
        rfl
    · have apart : Path.part x ≠ .part id := fun same => other (Path.part.inj same)
      show Function.update s.files (.part id) _ (.part x) = _
      rw [Function.update_of_ne apart]
      exact inv.staged x member v before
  · rcases found at' with ⟨rfl, rfl⟩ | ⟨_, before⟩
    · cases queued
    · exact inv.queued x v other before queued

theorem Inv.next (inv : Inv s) {l : Label} (careful : Careful s l) (step : staging.next s l = some s') : Inv s' := by
  obtain ⟨spared, careful⟩ := careful
  change s.next l = some s' at step
  cases l with
  | start id size now works =>
    simp only [FileStaging.next] at step
    split at step
    · rename_i fresh
      cases step
      obtain ⟨swept, same⟩ := inv.sweep works spared
      refine swept.opened ?_ size now
      rw [same]
      exact Option.isNone_iff_eq_none.mp fresh
    · cases step
  | write id offset data =>
    simp only [FileStaging.next] at step
    split at step
    · rename_i member
      obtain ⟨u, here, rfl⟩ := Option.map_eq_some_iff.mp step
      obtain ⟨sound, same⟩ := (inv.sound id u here).write offset data
      exact inv.setUpload here sound same fun _ _ => Or.inl ⟨id, member, rfl⟩
    · cases step
      exact inv
  | resume id =>
    simp only [FileStaging.next] at step
    obtain ⟨u, here, step⟩ := Option.bind_eq_some_iff.mp step
    split at step
    · rename_i offset data rest free waits
      cases step
      have sound := inv.sound id u here
      have shorter : ({ u with waiting := rest } : Upload).Sound := ⟨sound.counted, sound.inOrder, sound.fits⟩
      obtain ⟨entered, same⟩ := shorter.enter free offset data
      refine inv.setUpload here entered same fun other queued => ?_
      refine careful u offset data rest here waits (Bool.eq_false_iff.mpr fun refused => ?_)
      have refused' : ({ u with waiting := rest } : Upload).refuses offset data = true := refused
      rw [Upload.enter, if_pos refused', free] at queued
      cases queued
    · cases step
  | append id written =>
    simp only [FileStaging.next] at step
    obtain ⟨u, here, step⟩ := Option.bind_eq_some_iff.mp step
    split at step
    · rename_i data waits
      cases step
      exact inv.append here waits careful
    · cases step
  | finish id now =>
    simp only [FileStaging.next] at step
    obtain ⟨u, here, step⟩ := Option.bind_eq_some_iff.mp step
    split at step
    · rename_i data ran inFlight
      cases step
      obtain ⟨sound, same⟩ := (inv.sound id u here).finish inFlight rfl now
      refine inv.setUpload here sound same fun other queued => ?_
      unfold Upload.finish at queued
      split at queued <;> cases queued
    · cases step
  | take id =>
    simp only [FileStaging.next] at step
    obtain ⟨u, here, rfl⟩ := Option.map_eq_some_iff.mp step
    split
    · have sound := inv.sound id u here
      exact inv.setUpload here ⟨sound.counted, sound.inOrder, sound.fits⟩ rfl fun data => inv.queued id u data here
    · exact inv
  | untake id now =>
    simp only [FileStaging.next] at step
    obtain ⟨u, here, rfl⟩ := Option.map_eq_some_iff.mp step
    split
    · have sound := inv.sound id u here
      exact inv.setUpload here ⟨sound.counted, sound.inOrder, sound.fits⟩ rfl fun data => inv.queued id u data here
    · exact inv
  | discard id works =>
    cases step
    refine inv.trims (discard_trims works inv.tidy id) fun x u data here queued gone => ?_
    exact spared x u data here queued ⟨gone.1.symm, gone.1 ▸ gone.2⟩
  | sweep now works =>
    cases step
    exact (inv.sweep works spared).1
  | hold id data written now works =>
    cases step
    have whole : written = none := careful
    subst whole
    exact (inv.sweep works spared).1.holds id data _
  | release id works =>
    cases step
    exact inv.trims (release_trims works inv.tidy id) fun _ _ _ _ _ gone => gone

theorem Inv.integrity (inv : Inv s) : Integrity s where
  owned := inv.tidy.owned
  complete id member u here complete := by
    have sound := inv.sound id u here
    have full : u.received = u.size := of_decide_eq_true complete
    have file := inv.staged id member u here
    have empty : u.added = [] := by
      unfold Upload.added
      split
      · rename_i data inFlight
        have fits := sound.fits data (some true) inFlight
        exact List.length_eq_zero_iff.mp (by omega)
      · rfl
    rw [empty, List.append_nil] at file
    exact ⟨file, sound.counted.symm.trans full, sound.inOrder⟩

/-- In every careful run a complete upload's file is what was sent, and no file is left over. -/
theorem uploads_keep_integrity (reach : Run.Reach staging Careful s) : Integrity s := by
  have inv : Inv s := by
    refine reach.invariant (fun s start => ?_) fun s l s' _ inv careful step => inv.next careful step
    cases start
    refine ⟨⟨fun p full => absurd rfl full, fun id member => absurd member List.not_mem_nil⟩,
      fun id member => absurd member List.not_mem_nil, fun id old => absurd old List.not_mem_nil,
      fun id u here => (nomatch here), fun id member => absurd member List.not_mem_nil, fun id u data here => (nomatch here)⟩
  exact inv.integrity

/-- Four bytes sent in two chunks, the second one again when the thread of the first try failed
before it had written any. -/
theorem resent_whole : ∃ s, Integrity s ∧ s.files (.part 0) = some [1, 2, 3, 4] := by
  have quiet {s : FileStaging} : ∀ (id : Nat) (u : Upload) (data : Bytes), s.uploads id = some u →
      u.inFlight = some ⟨data, none⟩ → ¬False := fun _ _ _ _ _ gone => gone
  have empty : Run.Reach staging Careful {} := .init rfl
  have opened : Run.Reach staging Careful _ := .step (l := .start 0 4 0 fun _ => true) empty
    ⟨fun id u data here => (nomatch here), trivial⟩ rfl
  have first : Run.Reach staging Careful _ := .step (l := .write 0 0 [1, 2]) opened ⟨quiet, trivial⟩ rfl
  have added : Run.Reach staging Careful _ := .step (l := .append 0 none) first ⟨quiet, fun n same => (nomatch same)⟩ rfl
  have taken : Run.Reach staging Careful _ := .step (l := .finish 0 1) added ⟨quiet, trivial⟩ rfl
  have second : Run.Reach staging Careful _ := .step (l := .write 0 2 [3, 4]) taken ⟨quiet, trivial⟩ rfl
  have failed : Run.Reach staging Careful _ := .step (l := .append 0 (some 0)) second
    ⟨quiet, fun n same _ => (Option.some.inj same).symm⟩ rfl
  have refused : Run.Reach staging Careful _ := .step (l := .finish 0 2) failed ⟨quiet, trivial⟩ rfl
  have again : Run.Reach staging Careful _ := .step (l := .write 0 2 [3, 4]) refused ⟨quiet, trivial⟩ rfl
  have added' : Run.Reach staging Careful _ := .step (l := .append 0 none) again ⟨quiet, fun n same => (nomatch same)⟩ rfl
  have complete : Run.Reach staging Careful _ := .step (l := .finish 0 3) added' ⟨quiet, trivial⟩ rfl
  exact ⟨_, uploads_keep_integrity complete, rfl⟩

/-- The thread fails when it has written two bytes, and the chunk is sent again. -/
def partly : List Label :=
  [.start 0 4 0 fun _ => true, .write 0 0 [1, 2, 3, 4], .append 0 (some 2), .finish 0 1, .write 0 0 [1, 2, 3, 4],
    .append 0 none, .finish 0 2]

/-- An upload is discarded while a chunk is on its way, and the thread makes the file again. -/
def overtaken : List Label :=
  [.start 0 4 0 fun _ => true, .write 0 0 [1, 2, 3, 4], .discard 0 fun _ => true, .append 0 none, .finish 0 1]

theorem upload_corrupted : (¬∀ s, Run.Reach staging Run.always s → ∀ id ∈ s.tracked, ∀ u, s.uploads id = some u →
      u.complete = true → s.files (.part id) = some u.content) ∧
    ¬∀ s, Run.Reach staging Run.always s → ∀ p, s.files p ≠ none → Accounted s p := by
  have start : Run.Reach staging Run.always {} := .init rfl
  constructor
  · intro all
    obtain ⟨s, run, tracked, u, here, complete, content, file⟩ : ∃ s, staging.run Run.always {} partly = some s ∧
        s.tracked = [0] ∧ ∃ u, s.uploads 0 = some u ∧ u.complete = true ∧ u.content = [1, 2, 3, 4] ∧
          s.files (.part 0) = some [1, 2, 1, 2, 3, 4] := ⟨_, rfl, rfl, _, rfl, rfl, rfl, rfl⟩
    have same := all s (start.run run) 0 (by rw [tracked]; decide) u here complete
    rw [content, file] at same
    exact absurd same (by decide)
  · intro all
    obtain ⟨s, run, tracked, held, stale, file⟩ : ∃ s, staging.run Run.always {} overtaken = some s ∧
        s.tracked = [] ∧ s.held = [] ∧ s.stale = [] ∧ s.files (.part 0) = some [1, 2, 3, 4] :=
      ⟨_, rfl, rfl, rfl, rfl, rfl⟩
    rcases all s (start.run run) (.part 0) (by rw [file]; decide) with ⟨id, member, _⟩ | ⟨h, member, _⟩ | member
    · rw [tracked] at member
      cases member
    · rw [held] at member
      cases member
    · rw [stale] at member
      cases member

end OpenAvc.Staging
