import OpenAvc.Panels.Approvals

namespace OpenAvc.Panels

variable {L : Library} {s s' : State} {t : Store} {log : List Event}

theorem approved_of_issued {d secret : Text} (issued : issuedSecret log d = some secret) :
    ∃ time, .approved d secret time ∈ log := by
  induction log with
  | nil => cases issued
  | cons e log ih =>
    have later : issuedSecret log d = some secret → ∃ time, .approved d secret time ∈ e :: log := fun issued => by
      obtain ⟨time, there⟩ := ih issued
      exact ⟨time, List.mem_cons_of_mem _ there⟩
    cases e with
    | given => exact later issued
    | restarted => exact later issued
    | approved d' secret' time =>
      rw [issuedSecret] at issued
      split at issued
      · rename_i same
        cases issued
        exact ⟨time, by rw [same]; exact List.mem_cons_self⟩
      · exact later issued
    | revoked d' =>
      rw [issuedSecret] at issued
      split at issued
      · cases issued
      · exact later issued

theorem mem_secretsOf {e : Event} {secret : Text} (member : e ∈ log) (holds : e.secret? = some secret) :
    secret ∈ secretsOf log := List.mem_filterMap.mpr ⟨e, member, holds⟩

/-- A secret is drawn for one purpose. -/
theorem event_of_secret (distinct : (secretsOf log).Nodup) {e e' : Event} {secret : Text} (member : e ∈ log)
    (member' : e' ∈ log) (holds : e.secret? = some secret) (holds' : e'.secret? = some secret) : e = e' := by
  induction log with
  | nil => cases member
  | cons a log ih =>
    unfold secretsOf at distinct
    rw [List.filterMap_cons] at distinct
    rcases List.mem_cons.mp member with rfl | later
    · rcases List.mem_cons.mp member' with rfl | later'
      · rfl
      · rw [holds] at distinct
        exact absurd (mem_secretsOf later' holds') (List.nodup_cons.mp distinct).1
    · rcases List.mem_cons.mp member' with rfl | later'
      · rw [holds'] at distinct
        exact absurd (mem_secretsOf later holds) (List.nodup_cons.mp distinct).1
      · refine ih ?_ later later'
        split at distinct
        · exact distinct
        · exact (List.nodup_cons.mp distinct).2

/-- The record behind a secret that an approval issued. -/
theorem Sound.issued (sound : Sound L ⟨t, log⟩) {id secret : Text} (issued : issuedSecret log id = some secret) :
    ∃ d, t.devices.lookup id = some d ∧ d.status = .approved ∧ d.id = id ∧ drawsId id = true ∧
      Hashes L secret d.secretHash := by
  obtain ⟨d, member, status⟩ := sound.book.present id secret issued
  have record := sound.book.records _ member
  obtain ⟨secret', issued', hashes, _⟩ := record.admitted status
  rw [issued] at issued'
  cases issued'
  exact ⟨d, sound.book.lookup.mpr member, status, record.named, record.drawn, hashes⟩

/-- A cookie is admitted when it holds the secret that the device's approval issued. -/
theorem Sound.verify_iff (sound : Sound L ⟨t, log⟩) (value : Option Text) (id : Text) :
    (t.verify L value).map PanelDevice.id = some id ↔
      ∃ secret, issuedSecret log id = some secret ∧ value = some (cookieValue id secret) := by
  constructor
  · intro verified
    obtain ⟨d, admits, rfl⟩ := Option.map_eq_some_iff.mp verified
    unfold Store.verify at admits
    split at admits
    · cases admits
    · rename_i parts splits
      split at admits
      · cases admits
      · rename_i device here
        split at admits
        · cases admits
        · rename_i status
          split at admits
          · cases admits
          · rename_i verified
            cases admits
            have record := sound.book.records _ (sound.book.lookup.mp here)
            obtain ⟨secret, issued, hashes, _⟩ := record.admitted (not_not.mp status)
            have same := (hashes.verify parts.2).mp (by simpa using verified)
            refine ⟨secret, record.named ▸ issued, ?_⟩
            rw [record.named, ← same]
            exact cookie_of_split splits
  · rintro ⟨secret, issued, rfl⟩
    obtain ⟨d, here, status, named, drawn, hashes⟩ := sound.issued issued
    have nonempty : secret ≠ [] := by
      obtain ⟨_, _, _, nonempty, _⟩ := hashes
      exact nonempty
    unfold Store.verify
    rw [splitCookieValue_cookie drawn nonempty]
    simp [here, status, named, (hashes.verify secret).mpr rfl]

theorem matchValue_some {value : Option Text} {now : Int} {device : PanelDevice} {how : Store.How}
    (matches' : t.matchValue L value now = some (device, how)) :
    ∃ parts, splitCookieValue value = some parts ∧ t.devices.lookup parts.1 = some device ∧
      (how = .handoff → device.handoffHash ≠ [] ∧ now < device.handoffUntil ∧
        verifyApiKey L parts.2 device.handoffHash = true) := by
  unfold Store.matchValue at matches'
  split at matches'
  · cases matches'
  · rename_i parts splits
    split at matches'
    · cases matches'
    · rename_i d here
      split at matches'
      · cases matches'
        exact ⟨parts, splits, here, nofun⟩
      · split at matches'
        · rename_i handoff
          cases matches'
          exact ⟨parts, splits, here, fun _ => handoff⟩
        · cases matches'

/-- The cookie that a check-in of a known device sets. -/
theorem checkInKnown_cookie {value : Option Text} {now : Now} {device : PanelDevice} {how : Store.How} {cookie : Text}
    (sets : (t.checkInKnown L value now device how).1.setCookie = some cookie) : value = some cookie ∨
      device.status = .approved ∧ how = .handoff ∧ cookie = cookieValue device.id device.handoffSecret := by
  unfold Store.checkInKnown at sets
  split at sets
  · rename_i status
    split at sets
    · exact Or.inr ⟨status, rfl, (Option.some.inj sets).symm⟩
    · split at sets
      · exact Or.inl sets
      · cases sets
  · cases sets
  · cases sets

/-- A check-in hands an approval's secret to one that presents it, or, while
the handoff lasts, to one that presents the secret the device held before. -/
theorem Sound.handed (sound : Sound L ⟨t, log⟩) {value : Option Text} {address userAgent : Text} {now : Now}
    {draw : Store.Draw} (step : Panels.next L ⟨t, log⟩ (.checkIn value address userAgent now draw) = some s')
    {id secret : Text} (issued : issuedSecret log id = some secret)
    (sets : (t.checkIn L value address userAgent now draw).1.setCookie = some (cookieValue id secret)) :
    value = some (cookieValue id secret) ∨ ∃ held time, value = some (cookieValue id held) ∧
      .given id held ∈ log ∧ .approved id secret time ∈ sinceStart log ∧ now.monotonic < time + handoffTtl := by
  obtain ⟨_, _, _, _, drawn, _⟩ := sound.issued issued
  unfold Panels.next at step
  dsimp only at step
  unfold Store.checkIn at sets step
  cases known : t.matchValue L value now.monotonic with
  | some found =>
    obtain ⟨device, how⟩ := found
    rw [known] at sets
    rcases checkInKnown_cookie sets with presented | ⟨status, rfl, same⟩
    · exact Or.inl presented
    · obtain ⟨parts, splits, there, handoff⟩ := matchValue_some known
      obtain ⟨held', before, verifies⟩ := handoff rfl
      have record := sound.book.records _ (sound.book.lookup.mp there)
      obtain ⟨secret', issued', hashes', kept⟩ := record.admitted status
      obtain ⟨rfl, held, time, given, hashesHeld, approval, until'⟩ := kept held'
      obtain ⟨rfl, rfl⟩ := cookieValue_inj drawn (record.named ▸ record.drawn) same
      refine Or.inr ⟨held, time, ?_, record.named ▸ given, record.named ▸ approval, until' ▸ before⟩
      rw [record.named, ← (hashesHeld.verify parts.2).mp verifies]
      exact cookie_of_split splits
  | none =>
    rw [known] at sets step
    dsimp only at sets step
    split at sets
    · cases sets
    · rename_i room
      rw [if_neg room] at step
      split at sets
      · cases sets
      · rename_i roomHere
        rw [if_neg roomHere, if_pos rfl] at step
        split at step
        · rename_i fresh
          obtain ⟨drawn', unused, _⟩ := fresh
          obtain ⟨rfl, _⟩ := cookieValue_inj drawn' drawn (Option.some.inj sets)
          rw [(sound.book.unknown unused).2] at issued
          cases issued
        · cases step

/-- Only an approval admits a panel: whatever calls and restarts came before,
`verify` knows a device by the secret its approval issued, as long as it was
not revoked; a check-in hands that secret to nobody else than the device that
waited for it; and the waiting devices are few, under different codes. -/
theorem only_approval_admits (reach : Run.Reach (machine L) Run.always s) :
    (∀ value id, (s.store.verify L value).map PanelDevice.id = some id ↔
      ∃ secret, issuedSecret s.log id = some secret ∧ value = some (cookieValue id secret)) ∧
    (∀ value address userAgent now draw s', next L s (.checkIn value address userAgent now draw) = some s' →
      ∀ id secret, issuedSecret s.log id = some secret →
        (s.store.checkIn L value address userAgent now draw).1.setCookie = some (cookieValue id secret) →
          value = some (cookieValue id secret) ∨ ∃ held time, value = some (cookieValue id held) ∧
            .given id held ∈ s.log ∧ .approved id secret time ∈ sinceStart s.log ∧
              now.monotonic < time + 15 * 60 * second) ∧
    (∀ id d, s.store.devices.lookup id = some d → d.status ≠ .approved →
      ∀ secret, s.store.verify L (some (cookieValue id secret)) = none) ∧
    (∀ id id' secret, .given id secret ∈ s.log → issuedSecret s.log id' ≠ some secret) ∧
    s.store.pendings.length ≤ 50 ∧
    (∀ address, (s.store.pendings.filter fun d => d.address = address).length ≤ 3) ∧
    s.store.liveCodes.Nodup := by
  have sound := sound_of_reach reach
  refine ⟨sound.verify_iff, fun _ _ _ _ _ _ step _ _ => sound.handed step, ?_, ?_, sound.book.pending,
    sound.book.address, sound.book.codes⟩
  · intro id d here waits secret
    have record := sound.book.records _ (sound.book.lookup.mp here)
    cases verified : s.store.verify L (some (cookieValue id secret)) with
    | none => rfl
    | some d' =>
      obtain ⟨secret', issued, same⟩ :=
        (sound.verify_iff (some (cookieValue id secret)) d'.id).mp (by rw [verified]; rfl)
      obtain ⟨_, _, _, _, drawn, _⟩ := sound.issued issued
      obtain ⟨rfl, _⟩ := cookieValue_inj record.drawn drawn (Option.some.inj same)
      rw [(record.waiting waits).1] at issued
      cases issued
  · intro id id' secret given issued
    obtain ⟨time, approval⟩ := approved_of_issued issued
    exact absurd (event_of_secret sound.secrets given approval rfl rfl) nofun

/-- A digest that shows its text, moved past the dollar sign, to run calls on. -/
def Library.plain : Library where
  digest _ t := 97 :: t.map (· + 37)
  base64 t := 36 ∉ t
  parseIso _ := none
  base64_plain _ encoded := of_decide_eq_true encoded
  base64_digest _ t := by simp
  digest_nonempty _ _ := List.cons_ne_nil _ _
  digest_injective _ t t' same := by
    have shifted : Function.Injective fun c : Nat => c + 37 := fun a b same => Nat.add_right_cancel same
    exact List.map_injective_iff.mpr shifted (List.cons.inj same).2

/-- A panel that checks in, is approved and checks in again with what it held. -/
def approvedPanel : List Call :=
  let now (time : Int) : Now := { monotonic := time, wall := 0, stamp := [] }
  let draw : Store.Draw := { id := text "pd_0123456789", secret := text "held", salt := text "salt", code := 482915 }
  [.checkIn none (text "10.0.0.7") (text "Android") (now 0) draw,
    .approve (text "pd_0123456789") none (text "admin") (now 1) (text "issued") (text "salt"),
    .checkIn (some (text "pd_0123456789.held")) (text "10.0.0.7") (text "Android") (now 2) draw]

/-- The panel is admitted with the cookie it was handed. -/
theorem approved_panel_admitted : ∃ s, (machine Library.plain).run Run.always {} approvedPanel = some s ∧
    (s.store.verify Library.plain (some (text "pd_0123456789.issued"))).map PanelDevice.id =
      some (text "pd_0123456789") := by
  have runs : ((machine Library.plain).run Run.always {} approvedPanel).isSome = true := by decide +kernel
  obtain ⟨s, run⟩ := Option.isSome_iff_exists.mp runs
  have issued : (((machine Library.plain).run Run.always {} approvedPanel).bind fun s =>
      issuedSecret s.log (text "pd_0123456789")) = some (text "issued") := by decide +kernel
  rw [run] at issued
  have reach : Run.Reach (machine Library.plain) Run.always s := (Run.Reach.init rfl).run run
  exact ⟨s, run, ((only_approval_admits reach).1 _ _).mpr ⟨_, issued, by decide⟩⟩

end OpenAvc.Panels
