import OpenAvc.Library.Saving
import OpenAvc.Logins.Filing

namespace OpenAvc.Library

open OpenAvc.Logins (Disk Entries Exc Fernet FoundLogin Key Owner Python Registry System)

variable {P : Python} {F : Fernet} {R : Registry} {sid : Text} {data : Json} {system : System}

/-- The entries once the logins of the running project are those of library copy `sid`. -/
def filedUnder (sid : Text) (present : Owner → Bool) (entries : Entries) : Entries :=
  let copies (u : Key × Logins.Entry) : Option (Key × Logins.Entry) :=
    if u.1.1 = none ∧ u.2.fields ≠ [] ∧ present u.1.2 then some ((some sid, u.1.2), ⟨u.2.fields, none⟩) else none
  (entries.filterMap copies).foldl (fun d u => Dict.set d u.1 u.2) (entries.filter fun u => u.1.1 ≠ some sid)

/-- There is nothing to file: the project has no login in the clear, and the copy's
logins are the running project's already. -/
structure Settled (P : Python) (F : Fernet) (R : Registry) (sid : Text) (data : Json) (system : System) : Prop where
  marked : ∀ found, Logins.findLogins R (fun _ => false) data = .ok found → found = []
  same : ∀ present system', inProject data = .ok present → Logins.load P F system = .ok () system' →
    Logins.sameEntries (filedUnder sid present system'.store.entries) system'.store.entries = true

theorem load_disk (system : System) : (Logins.load P F).Ends system fun _ system' => system'.disk = system.disk := by
  unfold Logins.load
  rw [EStateM.ends_bind, EStateM.ends_get]
  dsimp only
  split
  · rfl
  · rw [EStateM.ends_bind, Logins.updateStore, EStateM.ends_modify]
    dsimp only
    rw [EStateM.ends_bind]
    refine (Logins.steady_opened _).mono fun r s₁ kept => ?_
    cases r with
    | error e => exact kept.1
    | ok found => exact kept.1

theorem Settled.fileLibrary (settled : Settled P F R sid data system) {present : Owner → Bool}
    (reads : inProject data = .ok present) :
    (Logins.fileLibrary P F sid present).Ends system fun _ system' => system'.disk = system.disk := by
  unfold Logins.fileLibrary
  have kept := load_disk (P := P) (F := F) system
  cases loads : Logins.load P F system with
  | error e s₁ =>
    rw [EStateM.ends_of_error loads] at kept
    rw [EStateM.ends_bind_of_error loads]
    exact kept
  | ok _ s₁ =>
    rw [EStateM.ends_of_ok loads] at kept
    rw [EStateM.ends_bind_of_ok loads]
    have same := settled.same present s₁ reads loads
    unfold filedUnder at same
    unfold Logins.commitCopies
    rw [EStateM.ends_bind, EStateM.ends_get]
    dsimp only
    rw [EStateM.ends_ite]
    exact ⟨fun differs => absurd same differs, fun _ => kept⟩

/-- Filing what is filed already leaves the files of the data folder as they are. -/
theorem Settled.disk (settled : Settled P F R sid data system) :
    (fileLibraryLogins P F R sid data).Ends system fun _ system' => system'.disk = system.disk := by
  have filing : (Logins.orElse (do
      Logins.fileLibrary P F sid (← Logins.Op.ofExcept (inProject data))
      return true) false).Ends system fun _ system' => system'.disk = system.disk := by
    refine Logins.ends_orElse ?_
    cases reads : inProject data with
    | error e => exact ⟨fun _ => rfl, fun _ => rfl⟩
    | ok present =>
      show EStateM.Ends _ _ _
      rw [EStateM.ends_bind_of_ok (x := Logins.Op.ofExcept (Except.ok present)) (a := present) (t := system) rfl,
        EStateM.ends_bind]
      refine (settled.fileLibrary reads).mono fun r system' kept => ?_
      cases r with
      | error e => exact ⟨fun _ => kept, fun _ => kept⟩
      | ok => exact kept
  unfold fileLibraryLogins
  rw [EStateM.ends_bind]
  refine filing.mono fun r system' kept => ?_
  cases r with
  | error e => exact kept
  | ok filed =>
    dsimp only
    rw [EStateM.ends_ite]
    refine ⟨fun _ => ?_, fun _ => kept⟩
    unfold Logins.moveLogins
    rw [EStateM.ends_bind]
    cases finds : Logins.findLogins R (fun _ => false) data with
    | error e => exact kept
    | ok found =>
      have none := settled.marked found finds
      subst none
      exact kept

/-- Where the walk over the project does not fail, filing hands on the project as it is
or with its logins marked; only an interrupt stops it. -/
theorem fileLibraryLogins_returns (P : Python) (F : Fernet) (sid : Text) (system : System) {found : List FoundLogin} {marked : Json}
    (finds : Logins.findLogins R (fun _ => false) data = .ok found) (marks : Logins.markedCopy data found = .ok marked) :
    (fileLibraryLogins P F R sid data).Ends system fun r _ =>
      r = .ok data ∨ r = .ok marked ∨ r = .error .interrupt := by
  have caught : ∀ {α : Type} (op : Logins.Op α) (a : α) (s : System),
      (Logins.orElse op a).Ends s fun r _ => (∃ b, r = .ok b) ∨ r = .error .interrupt := by
    intro α op a s
    refine Logins.ends_orElse ?_
    unfold EStateM.Ends
    cases op s with
    | ok b s' => exact Or.inl ⟨b, rfl⟩
    | error e s' =>
      refine ⟨fun _ => Or.inl ⟨a, rfl⟩, fun escapes => Or.inr ?_⟩
      cases e
      case interrupt => rfl
      all_goals cases escapes
  unfold fileLibraryLogins
  rw [EStateM.ends_bind]
  refine (caught _ _ _).mono fun r system' ends => ?_
  rcases ends with ⟨filed, rfl⟩ | rfl
  · dsimp only
    rw [EStateM.ends_ite]
    refine ⟨fun _ => ?_, fun _ => Or.inl rfl⟩
    unfold Logins.moveLogins
    rw [finds, EStateM.ends_bind_of_ok (x := Logins.Op.ofExcept (Except.ok found)) (a := found) (t := system') rfl,
      EStateM.ends_ite]
    refine ⟨fun _ => Or.inl rfl, fun _ => ?_⟩
    rw [EStateM.ends_bind]
    refine (caught _ _ _).mono fun r system'' ends => ?_
    rcases ends with ⟨stored, rfl⟩ | rfl
    · dsimp only
      rw [EStateM.ends_ite]
      refine ⟨fun _ => Or.inl rfl, fun _ => ?_⟩
      rw [marks]
      exact Or.inr (Or.inl rfl)
    · exact Or.inr (Or.inr rfl)
  · exact Or.inr (Or.inr rfl)

end OpenAvc.Library
