import OpenAvc.Data.JsonPath
import OpenAvc.Redaction.Masking

/-! What a masked copy keeps of the config it was made of. -/

namespace OpenAvc.Redaction

open Json (Path Step)

variable {py : Python}

/-- What is shown masked. -/
def isCredential (py : Python) (secret : Bool) : Json → Bool
  | .str t => (secret && t ≠ []) || passwords py.word t ≠ []
  | .int _ | .float _ | .constant _ => secret
  | _ => false

mutual

/-- No credential is literally the mask. -/
def NoMask (py : Python) : Bool → Json → Prop
  | secret, .obj fields => NoMaskFields py secret fields
  | secret, .arr items => NoMaskItems py secret items
  | secret, .str t => if secret then t ≠ redacted else redacted ∉ passwords py.word t
  | _, _ => True

def NoMaskFields (py : Python) : Bool → List (Text × Json) → Prop
  | _, [] => True
  | secret, (key, item) :: fields => NoMask py (secret || namedSecret py key) item ∧ NoMaskFields py secret fields

def NoMaskItems (py : Python) : Bool → List Json → Prop
  | _, [] => True
  | secret, item :: items => NoMask py secret item ∧ NoMaskItems py secret items

end

mutual

/-- Wherever `v` has a credential, what its masked form is paired with has the same one. -/
def Own (py : Python) : Bool → Json → Json → Prop
  | secret, .obj fields, stored => OwnFields py secret fields stored
  | secret, .arr items, stored => OwnItems py secret 0 items (itemsOf stored)
  | secret, v, stored => isCredential py secret v = true → stored = v

def OwnFields (py : Python) : Bool → List (Text × Json) → Json → Prop
  | _, [], _ => True
  | secret, (key, item) :: fields, stored =>
    Own py (secret || namedSecret py key) item ((stored.get? key).getD .null) ∧ OwnFields py secret fields stored

def OwnItems (py : Python) : Bool → Nat → List Json → List Json → Prop
  | _, _, [], _ => True
  | secret, index, item :: items, stored =>
    Own py secret item (matchingItem (maskSecrets py secret item) stored index) ∧ OwnItems py secret (index + 1) items stored

end

/-- The masked copy, sent back as it is, gives the config again and types no credential. -/
def RoundTrips (py : Python) (c : Json) : Prop :=
  keepMasked py false [] (maskSecrets py false c) c = (c, []) ∧ typedSecrets py false [] (maskSecrets py false c) c = []

/-! ### The copy as it is -/

theorem keepMasked_redacted {v stored : Json} {path : Text} (credential : restorable v = true) :
    keepMasked py true path (.str redacted) stored = (v, []) ↔ stored = v := by
  have self : redacted <:+: redacted := List.infix_rfl
  simp only [keepMasked, keepText, self, not_true, if_false, and_self, if_true]
  by_cases saved : restorable stored = true
  · simp [saved]
  · rw [if_neg saved]
    refine iff_of_false (by simp) fun same => ?_
    rw [same] at saved
    exact saved credential

theorem keepText_plain {secret : Bool} {t : Text} {stored : Json} (plain : ¬redacted <:+: t) :
    keepText py secret t stored = (.str t, false) :=
  if_pos plain

theorem keepMasked_url {t : Text} {stored : Json} {path : Text} :
    keepMasked py false path (.str (maskUrlPassword py.word t)) stored = (.str t, []) ↔
      (passwords py.word t ≠ [] → stored = .str t) := by
  by_cases plain : passwords py.word t = []
  · refine iff_of_true ?_ fun some => absurd plain some
    rw [mask_eq_self plain]
    simp only [keepMasked, keepText, plain]
    split <;> simp
  · obtain ⟨password, member⟩ := List.exists_mem_of_ne_nil _ plain
    have shown : redacted ∈ passwords py.word (maskUrlPassword py.word t) := by
      rw [passwords_mask]
      exact List.mem_map.mpr ⟨password, member, rfl⟩
    have inside := infix_of_password shown
    simp only [keepMasked, keepText, inside, shown, not_true, if_false, Bool.false_eq_true, and_false]
    cases stored with
    | str u =>
      by_cases same : maskUrlPassword py.word u = maskUrlPassword py.word t
      · simp [same, plain]
      · refine iff_of_false (by simp [same]) fun own => ?_
        exact same (congrArg _ (Json.str.inj (own plain)))
    | _ => simp [plain]

mutual

/-- The masked copy gives a value again just if what it is paired with has its credentials. -/
theorem keepMasked_mask (secret : Bool) (path : Text) (v stored : Json) (noMask : NoMask py secret v) :
    keepMasked py secret path (maskSecrets py secret v) stored = (v, []) ↔ Own py secret v stored := by
  match v with
  | .null => simp [maskSecrets, keepMasked, Own, isCredential]
  | .bool b => simp [maskSecrets, keepMasked, Own, isCredential]
  | .int n =>
    cases secret with
    | true =>
      rw [maskSecrets, if_pos rfl, keepMasked_redacted rfl]
      simp [Own, isCredential]
    | false => simp [maskSecrets, keepMasked, Own, isCredential]
  | .float d =>
    cases secret with
    | true =>
      rw [maskSecrets, if_pos rfl, keepMasked_redacted rfl]
      simp [Own, isCredential]
    | false => simp [maskSecrets, keepMasked, Own, isCredential]
  | .constant name =>
    cases secret with
    | true =>
      rw [maskSecrets, if_pos rfl, keepMasked_redacted rfl]
      simp [Own, isCredential]
    | false => simp [maskSecrets, keepMasked, Own, isCredential]
  | .str t =>
    cases secret with
    | true =>
      by_cases empty : t = []
      · have plain : ¬redacted <:+: ([] : Text) := by decide
        have none' : passwords py.word [] = [] := rfl
        rw [empty, maskSecrets, if_neg (by simp), mask_eq_self none', keepMasked, keepText_plain plain]
        simp [Own, isCredential, none']
      · have kept : restorable (.str t) = true := by
          rw [NoMask, if_pos rfl] at noMask
          simp [restorable, empty, noMask]
        rw [maskSecrets, if_pos ⟨rfl, empty⟩, keepMasked_redacted kept]
        simp [Own, isCredential, empty]
    | false =>
      rw [maskSecrets, if_neg (by simp), keepMasked_url]
      simp [Own, isCredential]
  | .arr items =>
    have all := keepItems_mask secret path 0 items (itemsOf stored) noMask
    rw [maskSecrets, keepMasked, Own, ← all]
    simp only [Prod.ext_iff, Json.arr.injEq]
  | .obj fields =>
    have all := keepFields_mask secret path fields stored noMask
    rw [maskSecrets, keepMasked, Own, ← all]
    simp only [Prod.ext_iff, Json.obj.injEq]

theorem keepFields_mask (secret : Bool) (path : Text) (fields : List (Text × Json)) (stored : Json)
    (noMask : NoMaskFields py secret fields) :
    keepFields py secret path (maskFields py secret fields) stored = (fields, []) ↔ OwnFields py secret fields stored := by
  match fields, noMask with
  | [], _ => simp [maskFields, keepFields, OwnFields]
  | (key, item) :: fields, ⟨here, rest⟩ =>
    have first := keepMasked_mask (secret || namedSecret py key) (fieldPath path key) item ((stored.get? key).getD .null) here
    have later := keepFields_mask secret path fields stored rest
    rw [maskFields, keepFields, OwnFields, ← first, ← later]
    simp only [Prod.ext_iff, List.cons.injEq, List.append_eq_nil_iff, true_and]
    tauto

theorem keepItems_mask (secret : Bool) (path : Text) (index : Nat) (items stored : List Json)
    (noMask : NoMaskItems py secret items) :
    keepItems py secret path index (maskItems py secret items) stored = (items, []) ↔ OwnItems py secret index items stored := by
  match items, noMask with
  | [], _ => simp [maskItems, keepItems, OwnItems]
  | item :: items, ⟨here, rest⟩ =>
    have first := keepMasked_mask secret (itemPath path index) item (matchingItem (maskSecrets py secret item) stored index) here
    have later := keepItems_mask secret path (index + 1) items stored rest
    rw [maskItems, keepItems, OwnItems, ← first, ← later]
    simp only [Prod.ext_iff, List.cons.injEq, List.append_eq_nil_iff]
    tauto

end

theorem typedSecrets_str (secret : Bool) (path t : Text) (stored : Json) :
    typedSecrets py secret path (.str t) stored = typedValue py secret path (.str t) stored := by
  rw [typedSecrets] <;> nofun

theorem typedValue_redacted {path : Text} {stored : Json} : typedValue py true path (.str redacted) stored = [] := by
  unfold typedValue
  split
  · rfl
  · exact if_pos (by simp)

theorem typedValue_url {path t : Text} {stored : Json} :
    typedValue py false path (.str (maskUrlPassword py.word t)) stored = [] := by
  unfold typedValue
  split
  · rfl
  · simp [passwords_mask]

mutual

/-- The masked copy types no credential, whatever it is compared with. -/
theorem typedSecrets_mask (secret : Bool) (path : Text) (v stored : Json) :
    typedSecrets py secret path (maskSecrets py secret v) stored = [] := by
  match v with
  | .null => rfl
  | .bool b => rfl
  | .int n =>
    cases secret with
    | true => exact (typedSecrets_str true path redacted stored).trans typedValue_redacted
    | false => simp [maskSecrets, typedSecrets, typedValue]
  | .float d =>
    cases secret with
    | true => exact (typedSecrets_str true path redacted stored).trans typedValue_redacted
    | false => simp [maskSecrets, typedSecrets, typedValue]
  | .constant name =>
    cases secret with
    | true => exact (typedSecrets_str true path redacted stored).trans typedValue_redacted
    | false => simp [maskSecrets, typedSecrets, typedValue]
  | .str t =>
    cases secret with
    | true =>
      by_cases empty : t = []
      · have none' : passwords py.word [] = [] := rfl
        rw [empty, maskSecrets, if_neg (by simp), mask_eq_self none', typedSecrets_str]
        simp [typedValue]
      · rw [maskSecrets, if_pos ⟨rfl, empty⟩, typedSecrets_str, typedValue_redacted]
    | false => rw [maskSecrets, if_neg (by simp), typedSecrets_str, typedValue_url]
  | .arr items => exact typedItems_mask secret path 0 items (itemsOf stored)
  | .obj fields => exact typedFields_mask secret path fields stored

theorem typedFields_mask (secret : Bool) (path : Text) (fields : List (Text × Json)) (stored : Json) :
    typedFields py secret path (maskFields py secret fields) stored = [] := by
  match fields with
  | [] => rfl
  | (key, item) :: fields =>
    rw [maskFields, typedFields, typedSecrets_mask _ _ item, typedFields_mask secret path fields, List.append_nil]

theorem typedItems_mask (secret : Bool) (path : Text) (index : Nat) (items stored : List Json) :
    typedItems py secret path index (maskItems py secret items) stored = [] := by
  match items with
  | [] => rfl
  | item :: items =>
    rw [maskItems, typedItems, typedSecrets_mask _ _ item, typedItems_mask secret path (index + 1) items, List.append_nil]

end

theorem roundTrips_iff {c : Json} (noMask : NoMask py false c) : RoundTrips py c ↔ Own py false c c := by
  rw [RoundTrips, keepMasked_mask false [] c c noMask, typedSecrets_mask]
  exact and_iff_left rfl

end OpenAvc.Redaction
