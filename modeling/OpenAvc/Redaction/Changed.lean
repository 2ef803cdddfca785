import OpenAvc.Redaction.Kept

/-! What a masked copy keeps after it was changed. -/

namespace OpenAvc.Redaction

open Json (Path Step)

variable {py : Python}

def keyOf : Step → Option Text
  | .key k => some k
  | .idx _ => none

/-- Whether the fields down to a place name a credential. -/
def secretAt (py : Python) : Bool → Path → Bool
  | secret, [] => secret
  | secret, .key k :: p => secretAt py (secret || namedSecret py k) p
  | secret, .idx _ :: p => secretAt py secret p

/-- A place as it is reported. -/
def pathText : Text → Path → Text
  | path, [] => path
  | path, .key k :: p => pathText (fieldPath path k) p
  | path, .idx i :: p => pathText (itemPath path i) p

/-- The saved value that a place of the incoming config is paired with. -/
def pairedAt : Json → Json → Path → Json
  | stored, _, [] => stored
  | stored, .obj fields, .key k :: p => pairedAt ((stored.get? k).getD .null) ((fields.lookup k).getD .null) p
  | stored, .arr items, .idx i :: p =>
    pairedAt (matchingItem (items.getD i .null) (itemsOf stored) i) (items.getD i .null) p
  | _, _, _ => .null

theorem secretAt_congr {p q : Path} (same : p.map keyOf = q.map keyOf) (secret : Bool) : secretAt py secret p = secretAt py secret q := by
  induction p generalizing q secret with
  | nil =>
    cases q with
    | nil => rfl
    | cons s q => cases same
  | cons s p ih =>
    cases q with
    | nil => cases same
    | cons s' q =>
      obtain ⟨here, later⟩ := List.cons.inj same
      cases s with
      | key k =>
        cases s' with
        | key k' =>
          have equal : k = k' := Option.some.inj here
          rw [equal]
          exact ih later _
        | idx i => cases here
      | idx i =>
        cases s' with
        | key k' => cases here
        | idx i' => exact ih later _

theorem keepFields_lookup {secret : Bool} {path key : Text} {fields : List (Text × Json)} {stored v : Json}
    (found : fields.lookup key = some v) :
    let kept := keepMasked py (secret || namedSecret py key) (fieldPath path key) v ((stored.get? key).getD .null)
    (keepFields py secret path fields stored).1.lookup key = some kept.1 ∧ kept.2 ⊆ (keepFields py secret path fields stored).2 := by
  induction fields with
  | nil => cases found
  | cons u fields ih =>
    obtain ⟨name, item⟩ := u
    rw [keepFields]
    by_cases here : key = name
    · rw [here, List.lookup_cons_self] at found
      cases found
      rw [here, List.lookup_cons_self]
      exact ⟨rfl, List.subset_append_left _ _⟩
    · rw [List.lookup_cons, beq_eq_false_iff_ne.mpr here] at found
      obtain ⟨at_, reported⟩ := ih found
      rw [List.lookup_cons, beq_eq_false_iff_ne.mpr here]
      exact ⟨at_, List.subset_append_of_subset_right _ reported⟩

theorem keepItems_getElem? {secret : Bool} {path : Text} {items stored : List Json} {v : Json} {i : Nat}
    (found : items[i]? = some v) (index : Nat) :
    let kept := keepMasked py secret (itemPath path (index + i)) v (matchingItem v stored (index + i))
    (keepItems py secret path index items stored).1[i]? = some kept.1 ∧
      kept.2 ⊆ (keepItems py secret path index items stored).2 := by
  induction items generalizing i index with
  | nil => cases found
  | cons item items ih =>
    rw [keepItems]
    cases i with
    | zero =>
      cases found
      exact ⟨rfl, List.subset_append_left _ _⟩
    | succ i =>
      have later := ih (i := i) found (index + 1)
      have place : index + 1 + i = index + (i + 1) := by omega
      rw [place] at later
      exact ⟨later.1, List.subset_append_of_subset_right _ later.2⟩

/-- A text at a place is kept by the value it is paired with there. -/
theorem keepMasked_node {secret : Bool} {path t : Text} {incoming stored : Json} {p : Path}
    (here : incoming.node p = some (.str t)) :
    let kept := keepText py (secretAt py secret p) t (pairedAt stored incoming p)
    (keepMasked py secret path incoming stored).1.node p = some kept.1 ∧
      (kept.2 = true → pathText path p ∈ (keepMasked py secret path incoming stored).2) := by
  induction p generalizing secret path incoming stored with
  | nil =>
    rw [Json.node_nil, Option.some.injEq] at here
    rw [here, keepMasked]
    refine ⟨Json.node_nil _, fun reported => ?_⟩
    simp only [secretAt, pairedAt, pathText] at reported ⊢
    rw [if_pos reported]
    exact List.mem_singleton_self _
  | cons s p ih =>
    cases incoming with
    | obj fields =>
      cases s with
      | key k =>
        obtain ⟨v, found, below⟩ := Option.bind_eq_some_iff.mp here
        obtain ⟨at_, reported⟩ := @keepFields_lookup py secret path k fields stored v found
        obtain ⟨value, missed⟩ := @ih (secret || namedSecret py k) (fieldPath path k) v ((stored.get? k).getD .null) below
        rw [keepMasked, secretAt, pairedAt, found, Option.getD_some, Json.node_obj_key, at_, Option.bind_some]
        exact ⟨value, fun unresolved => reported (missed unresolved)⟩
      | idx i => cases here
    | arr items =>
      cases s with
      | key k => cases here
      | idx i =>
        obtain ⟨v, found, below⟩ := Option.bind_eq_some_iff.mp here
        obtain ⟨at_, reported⟩ := @keepItems_getElem? py secret path items (itemsOf stored) v i found 0
        rw [Nat.zero_add] at at_ reported
        obtain ⟨value, missed⟩ := @ih secret (itemPath path i) v (matchingItem v (itemsOf stored) i) below
        have item : items.getD i .null = v := by rw [List.getD_eq_getElem?_getD, found, Option.getD_some]
        rw [keepMasked, secretAt, pairedAt, item, Json.node_arr_idx, at_, Option.bind_some]
        exact ⟨value, fun unresolved => reported (missed unresolved)⟩
    | _ => cases s <;> cases here

theorem noMaskFields_lookup {secret : Bool} {fields : List (Text × Json)} {k : Text} {v : Json} (noMask : NoMaskFields py secret fields)
    (found : fields.lookup k = some v) : NoMask py (secret || namedSecret py k) v := by
  induction fields with
  | nil => cases found
  | cons u fields ih =>
    obtain ⟨name, item⟩ := u
    by_cases here : k = name
    · rw [here, List.lookup_cons_self] at found
      cases found
      rw [here]
      exact noMask.1
    · rw [List.lookup_cons, beq_eq_false_iff_ne.mpr here] at found
      exact ih noMask.2 found

theorem noMaskItems_mem {secret : Bool} {items : List Json} {v : Json} (noMask : NoMaskItems py secret items) (member : v ∈ items) :
    NoMask py secret v := by
  induction items with
  | nil => cases member
  | cons item items ih =>
    rcases List.mem_cons.mp member with rfl | later
    · exact noMask.1
    · exact ih noMask.2 later

/-- What an entry is paired with is one of the saved ones, or nothing. -/
theorem matchingItem_mem (item : Json) (stored : List Json) (index : Nat) :
    matchingItem item stored index ∈ stored ∨ matchingItem item stored index = .null := by
  have position : stored.getD index .null ∈ stored ∨ stored.getD index .null = .null := by
    rw [List.getD_eq_getElem?_getD]
    cases found : stored[index]? with
    | none => exact Or.inr rfl
    | some v => exact Or.inl (List.mem_of_getElem? found)
  unfold matchingItem
  split
  · split
    · exact position
    · cases found : List.findSome? _ _ with
      | none => exact Or.inr rfl
      | some v =>
        obtain ⟨u, _, hit⟩ := List.exists_of_findSome?_eq_some found
        exact Or.inl (List.mem_of_find?_eq_some hit)
  · exact position

/-- What a place is paired with has no credential that is literally the mask either. -/
theorem noMask_pairedAt {secret : Bool} {stored incoming : Json} {p : Path} (noMask : NoMask py secret stored) :
    NoMask py (secretAt py secret p) (pairedAt stored incoming p) := by
  induction p generalizing secret stored incoming with
  | nil => exact noMask
  | cons s p ih =>
    have null (secret : Bool) : NoMask py secret .null := by simp [NoMask]
    cases incoming with
    | obj fields =>
      cases s with
      | key k =>
        rw [secretAt, pairedAt]
        refine ih ?_
        cases stored with
        | obj saved =>
          cases found : (Json.obj saved).get? k with
          | none => exact null _
          | some v =>
            rw [NoMask] at noMask
            exact noMaskFields_lookup noMask found
        | _ => exact null _
      | idx i => exact null _
    | arr items =>
      cases s with
      | key k => exact null _
      | idx i =>
        rw [secretAt, pairedAt]
        refine ih ?_
        rcases matchingItem_mem (items.getD i .null) (itemsOf stored) i with member | none'
        · cases stored with
          | arr saved =>
            rw [NoMask] at noMask
            exact noMaskItems_mem noMask member
          | _ => cases member
        · rw [none']
          exact null _
    | _ => cases s <;> exact null _

/-- The mask at `p` of a changed copy is the one that stood at `q` for the credential `o`: in
the same fields, of an entry that may have moved in its list. -/
structure Left (py : Python) (c changed : Json) (p q : Path) (o : Json) (t : Text) : Prop where
  fields : p.map keyOf = q.map keyOf
  origin : c.node q = some o
  credential : isCredential py (secretAt py false q) o = true
  here : changed.node p = some (.str t)
  mask : if secretAt py false q then t = redacted else redacted ∈ passwords py.word t

/-- The credential of two values: all of a field that names one, the passwords in another. -/
def SameCredential (py : Python) (secret : Bool) (v o : Json) : Prop :=
  if secret then v = o else ∃ u u', v = .str u ∧ o = .str u' ∧ passwords py.word u = passwords py.word u'

/-- At `p`, the credential `o` is saved, or the mask is left and the place reported. -/
def Kept (py : Python) (c changed : Json) (p : Path) (o : Json) (t : Text) : Prop :=
  ∃ v, (keepMasked py false [] changed c).1.node p = some v ∧
    (SameCredential py (secretAt py false p) v o ∨ v = .str t ∧ pathText [] p ∈ (keepMasked py false [] changed c).2)

/-- A saved value that is put in the place of a masked text. -/
def Stands (py : Python) (secret : Bool) (t : Text) (w : Json) : Prop :=
  if secret then restorable w = true else ∃ u, w = .str u ∧ maskUrlPassword py.word u = t

/-- What a place is paired with does not stand for its mask, or has the credential itself. -/
def Paired (py : Python) (c changed : Json) (p : Path) (o : Json) (t : Text) : Prop :=
  Stands py (secretAt py false p) t (pairedAt c changed p) → SameCredential py (secretAt py false p) (pairedAt c changed p) o

theorem keepText_redacted (stored : Json) :
    keepText py true redacted stored = if restorable stored then (stored, false) else (.str redacted, true) := by
  have self : redacted <:+: redacted := List.infix_rfl
  unfold keepText
  rw [if_neg (not_not.mpr self), if_pos ⟨rfl, rfl⟩]

theorem keepText_url {t : Text} (mask : redacted ∈ passwords py.word t) (stored : Json) :
    (∃ u, stored = .str u ∧ maskUrlPassword py.word u = t ∧ keepText py false t stored = (stored, false)) ∨
      (∀ u, stored = .str u → maskUrlPassword py.word u ≠ t) ∧ keepText py false t stored = (.str t, true) := by
  have inside := infix_of_password mask
  unfold keepText
  rw [if_neg (not_not.mpr inside), if_neg (by simp), if_neg (not_not.mpr mask)]
  cases stored with
  | str u =>
    by_cases same : maskUrlPassword py.word u = t
    · exact Or.inl ⟨u, rfl, same, if_pos same⟩
    · refine Or.inr ⟨fun u' equal => ?_, if_neg same⟩
      cases equal
      exact same
  | _ => exact Or.inr ⟨nofun, rfl⟩

theorem kept_iff {c changed o : Json} {p q : Path} {t : Text} (noMask : NoMask py false c) (left : Left py c changed p q o t) :
    Kept py c changed p o t ↔ Paired py c changed p o t := by
  obtain ⟨value, reported⟩ := @keepMasked_node py false [] t changed c p left.here
  have paired := @noMask_pairedAt py false c changed p noMask
  have mask := left.mask
  rw [← secretAt_congr left.fields] at mask
  unfold Kept Paired
  rw [value]
  simp only [Option.some.injEq, exists_eq_left']
  cases secret : secretAt py false p with
  | true =>
    rw [secret, if_pos rfl] at mask
    rw [secret, mask, keepText_redacted] at reported
    rw [mask, keepText_redacted]
    by_cases saved : restorable (pairedAt c changed p) = true
    · have real : pairedAt c changed p ≠ .str redacted := by
        intro same
        rw [same] at saved
        exact absurd saved (by decide)
      simp [saved, Stands, real]
    · rw [if_neg saved] at reported ⊢
      exact iff_of_true (Or.inr ⟨rfl, reported rfl⟩) fun stands => absurd stands saved
  | false =>
    rw [secret, if_neg Bool.false_ne_true] at mask
    rw [secret] at paired reported
    rcases keepText_url mask (pairedAt c changed p) with ⟨u, shape, masked, kept⟩ | ⟨other, kept⟩
    · have real : pairedAt c changed p ≠ .str t := by
        intro same
        rw [same, NoMask, if_neg Bool.false_ne_true] at paired
        exact paired mask
      have stands : Stands py false t (pairedAt c changed p) := ⟨u, shape, masked⟩
      rw [kept]
      simp only [real, false_and, or_false]
      exact ⟨fun own _ => own, fun own => own stands⟩
    · rw [kept] at reported ⊢
      refine iff_of_true (Or.inr ⟨rfl, reported rfl⟩) fun stands => ?_
      obtain ⟨u, equal, masked⟩ := stands
      exact absurd masked (other u equal)

/-- What Python does with names of ASCII. -/
def ascii : Python where
  word c := isLetter c || isDigit c || c = 95
  lower t := t.map fun c => if 65 ≤ c ∧ c ≤ 90 then c + 32 else c

/-- A stream with an id of its own, or the id of a device. -/
def stream (idKey id password : String) : Json :=
  .obj [(text idKey, .str (text id)), (text "password", .str (text password))]

def streams (items : List Json) : Json :=
  .obj [(text "streams", .arr items)]

def passwordOf (i : Nat) : Path :=
  [.key (text "streams"), .idx i, .key (text "password")]

end OpenAvc.Redaction
