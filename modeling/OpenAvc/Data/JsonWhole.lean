import OpenAvc.Data.JsonSorted
import OpenAvc.Data.Utf16

/-! Which texts `json.dumps` writes so that they are read as they were. -/

namespace Json

open Scan Utf16

/-- No high surrogate comes right before a low one. -/
def Whole (t : Text) : Prop :=
  (∀ c ∈ t, c < 0x110000) ∧ t.IsChain fun c d => ¬Pair c d

instance (t : Text) : Decidable (Whole t) := inferInstanceAs (Decidable (_ ∧ _))

/-- What a reader has read, the last character first. -/
def WholeSoFar (read : Text) : Prop :=
  (∀ c ∈ read, c < 0x110000) ∧ read.IsChain fun d c => ¬Pair c d

theorem whole_reverse {read : Text} : Whole read.reverse ↔ WholeSoFar read := by
  unfold Whole WholeSoFar
  rw [List.isChain_reverse]
  simp only [List.mem_reverse]

theorem WholeSoFar.pushCode {read : Text} {code : Nat} (whole : WholeSoFar read) (unit : code < 0x10000) :
    WholeSoFar (pushCode code read) := by
  obtain ⟨bounded, apart⟩ := whole
  cases read with
  | nil => exact ⟨by simpa [Scan.pushCode] using (by omega), List.isChain_singleton _⟩
  | cons high read =>
    have bound := bounded high List.mem_cons_self
    simp only [Scan.pushCode]
    by_cases joins : 0xdc00 ≤ code ∧ code ≤ 0xdfff ∧ 0xd800 ≤ high ∧ high ≤ 0xdbff
    · rw [if_pos joins]
      refine ⟨fun c member => ?_, ?_⟩
      · rcases List.mem_cons.mp member with same | later
        · rw [same]
          omega
        · exact bounded c (List.mem_cons_of_mem _ later)
      · cases read with
        | nil => exact List.isChain_singleton _
        | cons c read =>
          refine List.isChain_cons_cons.mpr ⟨fun pair => ?_, (List.isChain_cons_cons.mp apart).2⟩
          have low := pair.2
          unfold isLow at low
          omega
    · rw [if_neg joins]
      refine ⟨fun c member => ?_, List.isChain_cons_cons.mpr ⟨fun pair => joins ?_, apart⟩⟩
      · rcases List.mem_cons.mp member with rfl | later
        · omega
        · exact bounded c later
      · unfold Pair isHigh isLow at pair
        omega

theorem WholeSoFar.push {read : Text} (whole : WholeSoFar read) (c : Nat) : WholeSoFar (push c read) := by
  obtain ⟨bounded, apart⟩ := whole
  unfold Scan.push
  split
  · rename_i plain
    refine ⟨fun d member => ?_, ?_⟩
    · rcases List.mem_cons.mp member with rfl | later
      · omega
      · exact bounded d later
    · cases read with
      | nil => exact List.isChain_singleton _
      | cons d read =>
        refine List.isChain_cons_cons.mpr ⟨fun pair => ?_, apart⟩
        have low := pair.2
        unfold isLow at low
        omega
  · split
    · exact WholeSoFar.pushCode ⟨bounded, apart⟩ ‹_›
    · exact (WholeSoFar.pushCode ⟨bounded, apart⟩ (by omega)).pushCode (by omega)

/-- Whatever is written, it is read as a whole text. -/
theorem whole_rejoin (t : Text) : Whole (rejoin t) := by
  have pushed (read : Text) (whole : WholeSoFar read) : WholeSoFar (t.foldl (fun read c => push c read) read) := by
    induction t generalizing read with
    | nil => exact whole
    | cons c t ih => exact ih _ (whole.push c)
  exact whole_reverse.mpr (pushed [] ⟨fun _ member => absurd member List.not_mem_nil, List.isChain_nil⟩)

theorem rejoin_whole {t : Text} (whole : Whole t) : rejoin t = t := by
  have pushed (t read : Text) (whole : Whole (read.reverse ++ t)) :
      t.foldl (fun read c => push c read) read = t.reverse ++ read := by
    induction t generalizing read with
    | nil => rfl
    | cons c t ih =>
      obtain ⟨bounded, apart⟩ := whole
      have bound : c < 0x110000 := bounded c (by simp)
      have taken : push c read = c :: read := by
        by_cases plain : scalar c = true
        · exact push_scalar plain read
        · simp only [scalar, decide_eq_true_eq] at plain
          unfold Scan.push
          rw [if_neg (by omega), if_pos (by omega)]
          cases read with
          | nil => rfl
          | cons d read =>
            have joined := (List.isChain_split.mp (by simpa using apart : ((read.reverse ++ d :: c :: t).IsChain _))).2
            have other := (List.isChain_cons_cons.mp joined).1
            simp only [Scan.pushCode]
            rw [if_neg]
            unfold Pair isHigh isLow at other
            omega
      rw [List.foldl_cons, taken, ih (c :: read) ⟨by simpa using bounded, by simpa using apart⟩]
      simp
  rw [rejoin, pushed t [] whole, List.append_nil, List.reverse_reverse]

/-- A text is read as it was where it is whole. -/
theorem rejoin_eq_iff {t : Text} : rejoin t = t ↔ Whole t :=
  ⟨fun same => same ▸ whole_rejoin t, rejoin_whole⟩

mutual

/-- A value is read as it was where its texts are. -/
theorem readBack_of_texts {L : Layout} (v : Json) (distinct : Distinct v) (kept : ∀ t ∈ texts v, rejoinAs L t = t) :
    readBack L v = v := by
  match v, distinct with
  | .null, _ | .bool _, _ | .int _, _ | .float _, _ | .constant _, _ => rfl
  | .str s, _ => rw [readBack, kept s List.mem_cons_self]
  | .arr items, distinct => rw [readBack, readBackItems_of_texts items distinct kept]
  | .obj fields, ⟨names, distinct⟩ =>
    rw [readBack, readBackFields_of_texts fields [] names distinct kept, List.nil_append]

theorem readBackItems_of_texts {L : Layout} (items : List Json) (distinct : DistinctItems items)
    (kept : ∀ t ∈ textsItems items, rejoinAs L t = t) : readBackItems L items = items := by
  match items, distinct with
  | [], _ => rfl
  | v :: items, ⟨first, rest⟩ =>
    rw [readBackItems, readBack_of_texts v first fun t member => kept t (List.mem_append_left _ member),
      readBackItems_of_texts items rest fun t member => kept t (List.mem_append_right _ member)]

theorem readBackFields_of_texts {L : Layout} (fields done : List (Text × Json))
    (names : ((done ++ fields).map Prod.fst).Nodup) (distinct : DistinctFields fields)
    (kept : ∀ t ∈ textsFields fields, rejoinAs L t = t) : readBackFields L done fields = done ++ fields := by
  match fields, distinct with
  | [], _ => rw [readBackFields, List.append_nil]
  | (k, v) :: fields, ⟨first, rest⟩ =>
    have absent : k ∉ done.map Prod.fst := by
      intro member
      rw [List.map_append, List.nodup_append] at names
      exact names.2.2 _ member _ List.mem_cons_self rfl
    have inside (t : Text) (member : t ∈ texts v) : rejoinAs L t = t :=
      kept t (List.mem_cons_of_mem _ (List.mem_append_left _ member))
    have later (t : Text) (member : t ∈ textsFields fields) : rejoinAs L t = t :=
      kept t (List.mem_cons_of_mem _ (List.mem_append_right _ member))
    rw [readBackFields, kept k List.mem_cons_self, readBack_of_texts v first inside, Dict.set_of_not_mem absent v,
      readBackFields_of_texts fields _ (by rwa [List.append_assoc]) rest later, List.append_assoc]
    rfl

end

theorem mem_textsFields {fields : List (Text × Json)} {t : Text} :
    t ∈ textsFields fields ↔ ∃ u ∈ fields, t = u.1 ∨ t ∈ texts u.2 := by
  rw [textsFields_eq_flatMap]
  simp

theorem mem_textsItems {items : List Json} {t : Text} : t ∈ textsItems items ↔ ∃ v ∈ items, t ∈ texts v := by
  induction items with
  | nil => simp [textsItems]
  | cons v items ih => simp [textsItems, ih]

mutual

/-- What is read from a text in ASCII has whole texts. -/
theorem whole_readBack {L : Layout} (ascii : L.ensureAscii = true) (v : Json) : ∀ t ∈ texts (readBack L v), Whole t := by
  match v with
  | .null | .bool _ | .int _ | .float _ | .constant _ => exact fun _ member => absurd member List.not_mem_nil
  | .str s =>
    intro t member
    rw [List.mem_singleton.mp member, rejoinAs_of_ascii ascii]
    exact whole_rejoin s
  | .arr items => exact whole_readBackItems ascii items
  | .obj fields => exact whole_readBackFields ascii fields [] fun _ member => absurd member List.not_mem_nil

theorem whole_readBackItems {L : Layout} (ascii : L.ensureAscii = true) (items : List Json) :
    ∀ t ∈ textsItems (readBackItems L items), Whole t := by
  match items with
  | [] => exact fun _ member => absurd member List.not_mem_nil
  | v :: items =>
    intro t member
    rcases List.mem_append.mp member with first | later
    · exact whole_readBack ascii v t first
    · exact whole_readBackItems ascii items t later

theorem whole_readBackFields {L : Layout} (ascii : L.ensureAscii = true) (fields done : List (Text × Json))
    (before : ∀ t ∈ textsFields done, Whole t) : ∀ t ∈ textsFields (readBackFields L done fields), Whole t := by
  match fields with
  | [] => exact before
  | (k, v) :: fields =>
    refine whole_readBackFields ascii fields _ fun t member => ?_
    obtain ⟨u, inside, here⟩ := mem_textsFields.mp member
    rcases Dict.mem_set inside with rfl | old
    · rcases here with rfl | within
      · rw [rejoinAs_of_ascii ascii]
        exact whole_rejoin k
      · exact whole_readBack ascii v t within
    · exact before t (mem_textsFields.mpr ⟨u, old, here⟩)

end

/-- What is written with sorted keys is read as the value in order. -/
theorem loads_dumps_sorted {L : Layout} (sorts : L.sortKeys = true) {budget : Nat} {v : Json} (readable : Readable budget v) :
    loads budget (dumps L v) = .ok (readBack L.unsorted (sorted v)) := by
  have read := @loads_dumps_readBack L.unsorted rfl budget _ (readable.sorted v)
  rwa [dumps, ← Layout.dump_sorted sorts] at read

/-- A line end after what is written does not matter. -/
theorem loads_dumps_newline {L : Layout} (plain : L.sortKeys = false) {budget : Nat} {v : Json} (readable : Readable budget v) :
    loads budget (dumps L v ++ [10]) = .ok (readBack L v) := by
  obtain ⟨s, scans, ended⟩ : ∃ s, Scans budget ⟨[], .value⟩ (dumps L v) s ∧ Ended (readBack L v) [] s :=
    L.scans_dump plain v [] 0 readable
  have last : Scans budget s [10] (give (readBack L v) []) := ended.scans (by decide) (.char rfl)
  have whole := scans.append last
  have noMark : (dumps L v ++ [10]).head? ≠ some 0xfeff := by
    intro mark
    obtain ⟨t, same⟩ := List.head?_eq_some_iff.mp mark
    rw [same] at whole
    obtain ⟨s', first, _⟩ := whole.uncons
    cases first
  unfold loads
  rw [if_neg noMark]
  unfold Scans at whole
  rw [whole]
  rfl

/-- A character that a text in ASCII has as it is. -/
def printable (c : Nat) : Bool :=
  32 ≤ c ∧ c ≤ 126 ∧ c ≠ 34 ∧ c ≠ 92

theorem escaped_printable {c : Nat} (plain : printable c = true) : escaped c = [c] := by
  simp only [printable, decide_eq_true_eq] at plain
  unfold escaped
  rw [if_neg (by omega), if_neg (by omega), if_neg (by omega), if_neg (by omega), if_neg (by omega), if_neg (by omega),
    if_pos (by omega)]

theorem length_quoted (L : Layout) {t : Text} (plain : ∀ c ∈ t, printable c = true) : (L.quoted t).length = t.length + 2 := by
  have same : (t.flatMap fun c => if L.escapes c then escaped c else [c]) = t := by
    induction t with
    | nil => rfl
    | cons c t ih =>
      obtain ⟨here, later⟩ := List.forall_mem_cons.mp plain
      rw [List.flatMap_cons, ih later, escaped_printable here, ite_self, List.singleton_append]
  unfold Layout.quoted
  rw [same]
  simp

theorem whole_printable {t : Text} (plain : ∀ c ∈ t, printable c = true) : Whole t := by
  refine rejoin_eq_iff.mp (rejoin_scalar (List.all_eq_true.mpr fun c member => ?_))
  have small := plain c member
  simp only [printable, scalar, decide_eq_true_eq] at small ⊢
  omega

end Json
