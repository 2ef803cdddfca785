import Mathlib.Logic.Basic

/-! Where a computation with state and exceptions ends, and with what. -/

namespace EStateM

variable {ε σ α β : Type} {s : σ} {Q Q' : Except ε α → σ → Prop}

/-- `x` started in `s` ends with a result and in a state that `Q` holds of. -/
def Ends (x : EStateM ε σ α) (s : σ) (Q : Except ε α → σ → Prop) : Prop :=
  match x s with
  | .ok a s' => Q (.ok a) s'
  | .error e s' => Q (.error e) s'

/-- What `x` returns or raises. -/
def reply (x : EStateM ε σ α) (s : σ) : Except ε α :=
  match x s with
  | .ok a _ => .ok a
  | .error e _ => .error e

/-- The state `x` leaves behind. -/
def after (x : EStateM ε σ α) (s : σ) : σ :=
  match x s with
  | .ok _ s' => s'
  | .error _ s' => s'

theorem ends_iff {x : EStateM ε σ α} : x.Ends s Q ↔ Q (x.reply s) (x.after s) := by
  unfold Ends reply after
  cases x s <;> rfl

theorem ends_of_ok {x : EStateM ε σ α} {a : α} {t : σ} (ran : x s = .ok a t) : x.Ends s Q ↔ Q (.ok a) t := by
  unfold Ends
  rw [ran]

theorem ends_of_error {x : EStateM ε σ α} {e : ε} {t : σ} (ran : x s = .error e t) : x.Ends s Q ↔ Q (.error e) t := by
  unfold Ends
  rw [ran]

theorem after_of_ok {x : EStateM ε σ α} {a : α} {t : σ} (ran : x s = .ok a t) : x.after s = t := by
  unfold after
  rw [ran]

theorem after_of_error {x : EStateM ε σ α} {e : ε} {t : σ} (ran : x s = .error e t) : x.after s = t := by
  unfold after
  rw [ran]

theorem Ends.mono {x : EStateM ε σ α} (ends : x.Ends s Q) (weaker : ∀ r s', Q r s' → Q' r s') : x.Ends s Q' := by
  rw [ends_iff] at ends ⊢
  exact weaker _ _ ends

@[simp] theorem ends_pure (a : α) : (pure a : EStateM ε σ α).Ends s Q ↔ Q (.ok a) s := Iff.rfl

@[simp] theorem ends_throw (e : ε) : (throw e : EStateM ε σ α).Ends s Q ↔ Q (.error e) s := Iff.rfl

@[simp] theorem ends_get {Q : Except ε σ → σ → Prop} : (get : EStateM ε σ σ).Ends s Q ↔ Q (.ok s) s := Iff.rfl

@[simp] theorem ends_modify {Q : Except ε PUnit → σ → Prop} (f : σ → σ) :
    (modify f : EStateM ε σ PUnit).Ends s Q ↔ Q (.ok ⟨⟩) (f s) := Iff.rfl

@[simp] theorem ends_set {Q : Except ε PUnit → σ → Prop} (t : σ) :
    (set t : EStateM ε σ PUnit).Ends s Q ↔ Q (.ok ⟨⟩) t := Iff.rfl

/-- A sequence ends where its second part does, unless the first part raises. -/
@[simp] theorem ends_bind (x : EStateM ε σ α) (f : α → EStateM ε σ β) {Q : Except ε β → σ → Prop} :
    (x >>= f).Ends s Q ↔ x.Ends s fun r s' => match r with
      | .ok a => (f a).Ends s' Q
      | .error e => Q (.error e) s' := by
  unfold Ends
  simp only [bind, EStateM.bind]
  cases x s <;> rfl

@[simp] theorem ends_map (x : EStateM ε σ α) (f : α → β) {Q : Except ε β → σ → Prop} :
    (f <$> x).Ends s Q ↔ x.Ends s fun r s' => Q (r.map f) s' := by
  unfold Ends
  simp only [Functor.map, EStateM.map]
  cases x s <;> rfl

theorem ends_ite {c : Prop} [Decidable c] {x y : EStateM ε σ α} :
    (if c then x else y).Ends s Q ↔ (c → x.Ends s Q) ∧ (¬c → y.Ends s Q) := by
  by_cases h : c <;> simp [h]

theorem bind_of_ok {x : EStateM ε σ α} {a : α} {t : σ} (first : x s = .ok a t) (f : α → EStateM ε σ β) :
    (x >>= f) s = f a t := by
  simp only [bind, EStateM.bind, first]

theorem bind_of_error {x : EStateM ε σ α} {e : ε} {t : σ} (first : x s = .error e t) (f : α → EStateM ε σ β) :
    (x >>= f) s = .error e t := by
  simp only [bind, EStateM.bind, first]

theorem ends_bind_of_ok {x : EStateM ε σ α} {a : α} {t : σ} (first : x s = .ok a t) {f : α → EStateM ε σ β}
    {Q : Except ε β → σ → Prop} : (x >>= f).Ends s Q ↔ (f a).Ends t Q := by
  unfold Ends
  rw [bind_of_ok first]

theorem ends_bind_of_error {x : EStateM ε σ α} {e : ε} {t : σ} (first : x s = .error e t) {f : α → EStateM ε σ β}
    {Q : Except ε β → σ → Prop} : (x >>= f).Ends s Q ↔ Q (.error e) t := by
  unfold Ends
  rw [bind_of_error first]

theorem get_bind (f : σ → EStateM ε σ α) : (get >>= f) s = f s s := rfl

/-- A sequence returns when both its parts do. -/
theorem bind_eq_ok {x : EStateM ε σ α} {f : α → EStateM ε σ β} {b : β} {s' : σ} :
    (x >>= f) s = .ok b s' ↔ ∃ a t, x s = .ok a t ∧ f a t = .ok b s' := by
  simp only [bind, EStateM.bind]
  cases x s with
  | ok a t =>
    constructor
    · exact fun returns => ⟨a, t, rfl, returns⟩
    · rintro ⟨_, _, same, returns⟩
      cases same
      exact returns
  | error e t => simp

theorem pure_eq_ok {a b : α} {s' : σ} : (pure a : EStateM ε σ α) s = .ok b s' ↔ a = b ∧ s = s' := by
  simp [pure, EStateM.pure]

end EStateM
