import Mathlib.Data.List.Forall2
import Mathlib.Data.List.ReduceOption

/-! A function tried on each item of a list, which may fail on one. -/

theorem Except.bind_eq_ok.{u, v} {ε : Type v} {α β : Type u} {x : Except ε α} {f : α → Except ε β} {b : β} :
    (x >>= f) = .ok b ↔ ∃ a, x = .ok a ∧ f a = .ok b := by
  cases x with
  | error e => exact ⟨fun ran => (nomatch ran), fun ⟨_, ran, _⟩ => (nomatch ran)⟩
  | ok a => exact ⟨fun ran => ⟨a, rfl, ran⟩, fun ⟨_, same, ran⟩ => Except.ok.inj same ▸ ran⟩

namespace List

section Related

variable {α β γ : Type*} {R : α → β → Prop} {l : List α} {r : List β}

theorem Forall₂.exists_right (all : Forall₂ R l r) {a : α} (member : a ∈ l) : ∃ b ∈ r, R a b := by
  induction all with
  | nil => cases member
  | cons first _ ih =>
    rcases mem_cons.mp member with rfl | later
    · exact ⟨_, mem_cons_self, first⟩
    · obtain ⟨b, inside, related⟩ := ih later
      exact ⟨b, mem_cons_of_mem _ inside, related⟩

theorem Forall₂.exists_left (all : Forall₂ R l r) {b : β} (member : b ∈ r) : ∃ a ∈ l, R a b :=
  Forall₂.exists_right (R := fun b a => R a b) (Forall₂.flip all) member

/-- The results of those that are kept, in their order. -/
theorem Forall₂.map_reduceOption {S : α → Option β → Prop} {made : List (Option β)} (all : Forall₂ S l made)
    (keep : α → Bool) (f : α → γ) (g : β → γ) (dropped : ∀ a m, S a m → keep a = false → m = none)
    (kept : ∀ a m, S a m → keep a = true → ∃ b, m = some b ∧ g b = f a) :
    made.reduceOption.map g = (l.filter keep).map f := by
  induction all with
  | nil => rfl
  | @cons a m l made first _ ih =>
    cases keeps : keep a with
    | false =>
      rw [dropped a m first keeps, reduceOption_cons_of_none, filter_cons_of_neg (by simp [keeps])]
      exact ih
    | true =>
      obtain ⟨b, rfl, same⟩ := kept a m first keeps
      rw [reduceOption_cons_of_some, filter_cons_of_pos keeps, map_cons, map_cons, ih, same]

end Related

variable {α β : Type*} {f : α → Option β} {l : List α} {r : List β}

theorem mapM_eq_some : l.mapM f = some r ↔ Forall₂ (fun a b => f a = some b) l r := by
  induction l generalizing r with
  | nil =>
    rw [mapM_nil, forall₂_nil_left_iff]
    exact ⟨fun same => (Option.some.inj same).symm, fun same => same ▸ rfl⟩
  | cons a l ih =>
    rw [mapM_cons, forall₂_cons_left_iff]
    constructor
    · intro all
      obtain ⟨b, first, all⟩ := Option.bind_eq_some_iff.mp all
      obtain ⟨s, rest, all⟩ := Option.bind_eq_some_iff.mp all
      exact ⟨b, s, first, ih.mp rest, (Option.some.inj all).symm⟩
    · rintro ⟨b, s, first, rest, rfl⟩
      rw [first, ih.mpr rest]
      rfl

theorem exists_of_mapM (all : l.mapM f = some r) {a : α} (member : a ∈ l) : ∃ b ∈ r, f a = some b :=
  Forall₂.exists_right (mapM_eq_some.mp all) member

theorem exists_of_mem_mapM (all : l.mapM f = some r) {b : β} (member : b ∈ r) : ∃ a ∈ l, f a = some b :=
  Forall₂.exists_left (mapM_eq_some.mp all) member

/-- It succeeds on the list where it does on every item. -/
theorem exists_mapM (all : ∀ a ∈ l, ∃ b, f a = some b) : ∃ r, l.mapM f = some r := by
  induction l with
  | nil => exact ⟨[], rfl⟩
  | cons a l ih =>
    obtain ⟨b, first⟩ := all a mem_cons_self
    obtain ⟨r, rest⟩ := ih fun c member => all c (mem_cons_of_mem _ member)
    exact ⟨b :: r, by rw [mapM_cons, first, rest]; rfl⟩

section Except

variable {ε : Type*} {f : α → Except ε β} {l : List α} {r : List β}

theorem mapM_eq_ok : l.mapM f = .ok r ↔ Forall₂ (fun a b => f a = .ok b) l r := by
  induction l generalizing r with
  | nil =>
    rw [mapM_nil, forall₂_nil_left_iff]
    exact ⟨fun same => (Except.ok.inj same).symm, fun same => same ▸ rfl⟩
  | cons a l ih =>
    rw [mapM_cons, forall₂_cons_left_iff]
    constructor
    · intro all
      obtain ⟨b, first, all⟩ := Except.bind_eq_ok.mp all
      obtain ⟨s, rest, all⟩ := Except.bind_eq_ok.mp all
      exact ⟨b, s, first, ih.mp rest, (Except.ok.inj all).symm⟩
    · rintro ⟨b, s, first, rest, rfl⟩
      rw [first, ih.mpr rest]
      rfl

theorem exists_mapM_ok (all : ∀ a ∈ l, ∃ b, f a = .ok b) : ∃ r, l.mapM f = .ok r := by
  induction l with
  | nil => exact ⟨[], rfl⟩
  | cons a l ih =>
    obtain ⟨b, first⟩ := all a mem_cons_self
    obtain ⟨r, rest⟩ := ih fun c member => all c (mem_cons_of_mem _ member)
    exact ⟨b :: r, by rw [mapM_cons, first, rest]; rfl⟩

/-- A fold whose steps all succeed, with what they keep. -/
theorem exists_foldlM_ok {P : β → Prop} {g : β → α → Except ε β}
    (step : ∀ b, P b → ∀ a ∈ l, ∃ c, g b a = .ok c ∧ P c) {b : β} (start : P b) :
    ∃ c, l.foldlM g b = .ok c ∧ P c := by
  induction l generalizing b with
  | nil => exact ⟨b, rfl, start⟩
  | cons a l ih =>
    obtain ⟨c, first, kept⟩ := step b start a mem_cons_self
    obtain ⟨d, rest, holds⟩ := ih (fun b holds a member => step b holds a (mem_cons_of_mem _ member)) kept
    exact ⟨d, by rw [foldlM_cons, first]; exact rest, holds⟩

end Except

end List
