import OpenAvc.Data.Json

abbrev Bytes := List UInt8

/-- What a file's bytes read as in UTF-8, with every line end as a newline. -/
def decodeUtf8 (bytes : Bytes) : Option Text :=
  (String.fromUTF8? ⟨bytes.toArray⟩).map fun s => newlines (text s)
where
  newlines : Text → Text
    | 13 :: 10 :: t => 10 :: newlines t
    | 13 :: t => 10 :: newlines t
    | c :: t => c :: newlines t
    | [] => []

def encodeUtf8 (t : Text) : Bytes :=
  (String.ofList (t.map Char.ofNat)).toUTF8.toList

/-- `bytes.strip` drops ASCII white space at both ends. -/
def stripBytes (bytes : Bytes) : Bytes :=
  let space (b : UInt8) : Bool := b = 32 ∨ (9 ≤ b ∧ b ≤ 13)
  ((bytes.dropWhile space).reverse.dropWhile space).reverse

theorem ByteArray.toList_loop_eq (b : ByteArray) (i : Nat) (l : List UInt8) :
    ByteArray.toList.loop b i l = l.reverse ++ b.data.toList.drop i := by
  fun_induction ByteArray.toList.loop b i l with
  | case1 i l more ih =>
    rw [ih]
    have inside : i < b.data.toList.length := by simpa using more
    have here : b.get! i = b.data.toList[i] := getElem!_pos b.data i (by simpa using inside)
    rw [List.drop_eq_getElem_cons inside, here]
    simp
  | case2 i l done =>
    rw [List.drop_of_length_le (by simpa using done), List.append_nil]

theorem ByteArray.toList_eq_data (b : ByteArray) : b.toList = b.data.toList := by
  rw [ByteArray.toList, ByteArray.toList_loop_eq]
  simp

/-- A text without carriage returns is not changed. -/
theorem newlines_of_no_return {t : Text} (plain : 13 ∉ t) : decodeUtf8.newlines t = t := by
  induction t with
  | nil => rfl
  | cons c t ih =>
    obtain ⟨other, plain⟩ := not_or.mp (mt List.mem_cons.mpr plain)
    rw [decodeUtf8.newlines.eq_3 _ _ (by rintro u rfl; exact absurd rfl other) (by rintro rfl; exact other rfl), ih plain]

/-- `bytes.decode("utf-8")`, with line ends as they are. -/
def decodeStrict (bytes : Bytes) : Option Text :=
  (String.fromUTF8? ⟨bytes.toArray⟩).map text

theorem decodeStrict_encodeUtf8 {t : Text} (valid : ∀ c ∈ t, c.isValidChar) : decodeStrict (encodeUtf8 t) = some t := by
  unfold decodeStrict encodeUtf8
  rw [ByteArray.toList_eq_data]
  have same : text (String.ofList (t.map Char.ofNat)) = t := by
    rw [text, String.toList_ofList, List.map_map]
    conv_rhs => rw [← List.map_id t]
    refine List.map_congr_left fun c member => ?_
    rw [Function.comp_apply, Char.ofNat, dif_pos (valid c member)]
    rfl
  have reads : String.fromUTF8? (String.ofList (t.map Char.ofNat)).toUTF8 = some (String.ofList (t.map Char.ofNat)) := by
    unfold String.fromUTF8?
    exact dif_pos (String.isValidUTF8 _)
  show (String.fromUTF8? (String.ofList (t.map Char.ofNat)).toUTF8).map _ = _
  rw [reads, Option.map_some, same]

/-- What is written is what is read. -/
theorem decodeUtf8_encodeUtf8 {t : Text} (valid : ∀ c ∈ t, c.isValidChar) (plain : 13 ∉ t) :
    decodeUtf8 (encodeUtf8 t) = some t := by
  have mapped (bytes : Bytes) : decodeUtf8 bytes = (decodeStrict bytes).map decodeUtf8.newlines := by
    rw [decodeUtf8, decodeStrict, Option.map_map]
    rfl
  rw [mapped, decodeStrict_encodeUtf8 valid, Option.map_some, newlines_of_no_return plain]

/-- A text in ASCII takes one byte for each character. -/
theorem length_encodeUtf8 {t : Text} (ascii : ∀ c ∈ t, c < 128) : (encodeUtf8 t).length = t.length := by
  have size (l : List Char) (small : ∀ c ∈ l, c.toNat < 128) : (l.flatMap String.utf8EncodeChar).length = l.length := by
    induction l with
    | nil => rfl
    | cons c l ih =>
      have one : c.utf8Size = 1 := Char.utf8Size_eq_one_iff.mpr (Nat.lt_succ_iff.mp (small c List.mem_cons_self))
      rw [List.flatMap_cons, List.length_append, String.length_utf8EncodeChar, one,
        ih fun d member => small d (List.mem_cons_of_mem _ member), List.length_cons, Nat.add_comm]
  have written : (String.ofList (t.map Char.ofNat)).toUTF8.data.toList = (t.map Char.ofNat).flatMap String.utf8EncodeChar := by
    simp [String.toUTF8, List.utf8Encode]
  rw [encodeUtf8, ByteArray.toList_eq_data, written, size, List.length_map]
  intro c member
  obtain ⟨n, inside, rfl⟩ := List.mem_map.mp member
  have small := ascii n inside
  rw [Char.ofNat, dif_pos (Or.inl (by omega))]
  exact small
