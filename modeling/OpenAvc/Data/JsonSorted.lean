import Mathlib.Data.List.Sort
import OpenAvc.Data.JsonLimits
import OpenAvc.Data.JsonText

/-! A text with sorted keys stands for one value. -/

namespace Json

open Scan

mutual

/-- `v` with the members of each object in the order of their names. -/
def sorted : Json → Json
  | .arr items => .arr (sortedItems items)
  | .obj fields => .obj ((sortedFields fields).insertionSort fun a b => a.1 ≤ b.1)
  | v => v

def sortedItems : List Json → List Json
  | [] => []
  | v :: items => sorted v :: sortedItems items

def sortedFields : List (Text × Json) → List (Text × Json)
  | [] => []
  | (k, v) :: fields => (k, sorted v) :: sortedFields fields

end

mutual

/-- No object in `v` has two members of one name. -/
def Distinct : Json → Prop
  | .arr items => DistinctItems items
  | .obj fields => (fields.map Prod.fst).Nodup ∧ DistinctFields fields
  | _ => True

def DistinctItems : List Json → Prop
  | [] => True
  | v :: items => Distinct v ∧ DistinctItems items

def DistinctFields : List (Text × Json) → Prop
  | [] => True
  | (_, v) :: fields => Distinct v ∧ DistinctFields fields

end

theorem distinctFields_iff {fields : List (Text × Json)} : DistinctFields fields ↔ ∀ u ∈ fields, Distinct u.2 := by
  induction fields with
  | nil => simp [DistinctFields]
  | cons u fields ih =>
    obtain ⟨k, v⟩ := u
    simp [DistinctFields, ih]

theorem distinctItems_iff {items : List Json} : DistinctItems items ↔ ∀ v ∈ items, Distinct v := by
  induction items with
  | nil => simp [DistinctItems]
  | cons v items ih => simp [DistinctItems, ih]

theorem readableFields_iff {room : Nat} {fields : List (Text × Json)} :
    ReadableFields room fields ↔ ∀ u ∈ fields, Readable room u.2 := by
  induction fields with
  | nil => simp [ReadableFields]
  | cons u fields ih =>
    obtain ⟨k, v⟩ := u
    simp [ReadableFields, ih]

theorem readableItems_iff {room : Nat} {items : List Json} : ReadableItems room items ↔ ∀ v ∈ items, Readable room v := by
  induction items with
  | nil => simp [ReadableItems]
  | cons v items ih => simp [ReadableItems, ih]

theorem keys_sortedFields (fields : List (Text × Json)) : (sortedFields fields).map Prod.fst = fields.map Prod.fst := by
  induction fields with
  | nil => rfl
  | cons u fields ih => rw [sortedFields, List.map_cons, List.map_cons, ih]

mutual

theorem Distinct.sorted (v : Json) (distinct : Distinct v) : Distinct (sorted v) := by
  match v, distinct with
  | .null, _ | .bool _, _ | .int _, _ | .float _, _ | .constant _, _ | .str _, _ => trivial
  | .arr items, distinct => exact DistinctItems.sorted items distinct
  | .obj fields, ⟨names, distinct⟩ =>
    have order := List.perm_insertionSort (fun a b : Text × Json => a.1 ≤ b.1) (sortedFields fields)
    refine ⟨?_, distinctFields_iff.mpr fun u member => ?_⟩
    · rw [(order.map Prod.fst).nodup_iff, keys_sortedFields]
      exact names
    · exact distinctFields_iff.mp (DistinctFields.sorted fields distinct) u (order.mem_iff.mp member)

theorem DistinctItems.sorted (items : List Json) (distinct : DistinctItems items) : DistinctItems (sortedItems items) := by
  match items, distinct with
  | [], _ => trivial
  | v :: items, ⟨first, rest⟩ => exact ⟨Distinct.sorted v first, DistinctItems.sorted items rest⟩

theorem DistinctFields.sorted (fields : List (Text × Json)) (distinct : DistinctFields fields) :
    DistinctFields (sortedFields fields) := by
  match fields, distinct with
  | [], _ => trivial
  | (k, v) :: fields, ⟨first, rest⟩ => exact ⟨Distinct.sorted v first, DistinctFields.sorted fields rest⟩

end

mutual

theorem Readable.sorted {room : Nat} (v : Json) (readable : Readable room v) : Readable room (sorted v) := by
  match v, readable with
  | .null, _ | .bool _, _ | .int _, h | .float _, _ | .constant _, h | .str _, _ => assumption
  | .arr items, ⟨more, inside⟩ => exact ⟨more, ReadableItems.sorted items inside⟩
  | .obj fields, ⟨more, inside⟩ =>
    have order := List.perm_insertionSort (fun a b : Text × Json => a.1 ≤ b.1) (sortedFields fields)
    refine ⟨more, readableFields_iff.mpr fun u member => ?_⟩
    exact readableFields_iff.mp (ReadableFields.sorted fields inside) u (order.mem_iff.mp member)

theorem ReadableItems.sorted {room : Nat} (items : List Json) (readable : ReadableItems room items) :
    ReadableItems room (sortedItems items) := by
  match items, readable with
  | [], _ => trivial
  | v :: items, ⟨first, rest⟩ => exact ⟨Readable.sorted v first, ReadableItems.sorted items rest⟩

theorem ReadableFields.sorted {room : Nat} (fields : List (Text × Json)) (readable : ReadableFields room fields) :
    ReadableFields room (sortedFields fields) := by
  match fields, readable with
  | [], _ => trivial
  | (k, v) :: fields, ⟨first, rest⟩ => exact ⟨Readable.sorted v first, ReadableFields.sorted fields rest⟩

end

mutual

theorem Readable.writable {room : Nat} (v : Json) : Readable room v → writable room v = true := by
  match v with
  | .null | .bool _ | .float _ | .constant _ | .str _ => exact fun _ => rfl
  | .int n =>
    intro readable
    rwa [Json.writable, decide_eq_true_eq]
  | .arr items =>
    rintro ⟨more, inside⟩
    rw [Json.writable, Bool.and_eq_true, decide_eq_true_eq]
    exact ⟨more, ReadableItems.writable items inside⟩
  | .obj fields =>
    rintro ⟨more, inside⟩
    rw [Json.writable, Bool.and_eq_true, decide_eq_true_eq]
    exact ⟨more, ReadableFields.writable fields inside⟩

theorem ReadableItems.writable {room : Nat} (items : List Json) (readable : ReadableItems room items) :
    writableItems room items = true := by
  match items, readable with
  | [], _ => rfl
  | v :: items, ⟨first, rest⟩ =>
    rw [writableItems, Readable.writable v first, ReadableItems.writable items rest, Bool.and_self]

theorem ReadableFields.writable {room : Nat} (fields : List (Text × Json)) (readable : ReadableFields room fields) :
    writableFields room fields = true := by
  match fields, readable with
  | [], _ => rfl
  | (k, v) :: fields, ⟨first, rest⟩ =>
    rw [writableFields, Readable.writable v first, ReadableFields.writable fields rest, Bool.and_self]

end

theorem textsFields_eq_flatMap (fields : List (Text × Json)) :
    textsFields fields = fields.flatMap fun u => u.1 :: texts u.2 := by
  induction fields with
  | nil => rfl
  | cons u fields ih =>
    obtain ⟨k, v⟩ := u
    rw [textsFields, ih, List.flatMap_cons, List.cons_append]

mutual

/-- A value in order has the same texts. -/
theorem all_texts_sorted (P : Text → Bool) (v : Json) : (texts (sorted v)).all P = (texts v).all P := by
  match v with
  | .null | .bool _ | .int _ | .float _ | .constant _ | .str _ => rfl
  | .arr items => rw [sorted, texts, texts, all_textsItems_sorted P items]
  | .obj fields =>
    have order := List.perm_insertionSort (fun a b : Text × Json => a.1 ≤ b.1) (sortedFields fields)
    have same := (order.flatMap_right fun u : Text × Json => u.1 :: texts u.2).all_eq (f := P)
    rw [sorted, texts, texts, ← all_textsFields_sorted P fields, textsFields_eq_flatMap, textsFields_eq_flatMap, same]

theorem all_textsItems_sorted (P : Text → Bool) (items : List Json) :
    (textsItems (sortedItems items)).all P = (textsItems items).all P := by
  match items with
  | [] => rfl
  | v :: items =>
    rw [sortedItems, textsItems, textsItems, List.all_append, List.all_append, all_texts_sorted P v,
      all_textsItems_sorted P items]

theorem all_textsFields_sorted (P : Text → Bool) (fields : List (Text × Json)) :
    (textsFields (sortedFields fields)).all P = (textsFields fields).all P := by
  match fields with
  | [] => rfl
  | (k, v) :: fields =>
    rw [sortedFields, textsFields, textsFields, List.all_cons, List.all_cons, List.all_append, List.all_append,
      all_texts_sorted P v, all_textsFields_sorted P fields]

end

/-! What is written in order is what is written of the value in order. -/

/-- The layout `L` with members as they come. -/
def Layout.unsorted (L : Layout) : Layout :=
  { L with sortKeys := false }

theorem Layout.dumpFields_eq_map (L : Layout) (level : Nat) (fields : List (Text × Json)) :
    L.dumpFields level fields = fields.map fun u => (u.1, L.dump level u.2) := by
  induction fields with
  | nil => rfl
  | cons u fields ih =>
    obtain ⟨k, v⟩ := u
    rw [dumpFields, ih, List.map_cons]

mutual

theorem Layout.dump_sorted {L : Layout} (sorts : L.sortKeys = true) (v : Json) (level : Nat) :
    L.dump level v = L.unsorted.dump level (sorted v) := by
  match v with
  | .null | .bool _ | .int _ | .float _ | .constant _ | .str _ => rfl
  | .arr items => exact congrArg (L.wrap level 91 93) (Layout.dumpItems_sorted sorts items (level + 1))
  | .obj fields =>
    have order : (L.dumpFields (level + 1) fields).insertionSort (fun a b => a.1 ≤ b.1) =
        L.unsorted.dumpFields (level + 1) ((sortedFields fields).insertionSort fun a b => a.1 ≤ b.1) := by
      rw [Layout.dumpFields_sorted sorts fields (level + 1), dumpFields_eq_map, dumpFields_eq_map]
      exact (List.map_insertionSort (r := fun a b : Text × Json => a.1 ≤ b.1) (s := fun a b : Text × Text => a.1 ≤ b.1)
        _ _ fun _ _ _ _ => Iff.rfl).symm
    rw [dump, Json.sorted, dump, inOrder, if_pos sorts, order]
    rfl

theorem Layout.dumpItems_sorted {L : Layout} (sorts : L.sortKeys = true) (items : List Json) (level : Nat) :
    L.dumpItems level items = L.unsorted.dumpItems level (sortedItems items) := by
  match items with
  | [] => rfl
  | v :: items => rw [dumpItems, sortedItems, dumpItems, Layout.dump_sorted sorts v, Layout.dumpItems_sorted sorts items]

theorem Layout.dumpFields_sorted {L : Layout} (sorts : L.sortKeys = true) (fields : List (Text × Json)) (level : Nat) :
    L.dumpFields level fields = L.unsorted.dumpFields level (sortedFields fields) := by
  match fields with
  | [] => rfl
  | (k, v) :: fields => rw [dumpFields, sortedFields, dumpFields, Layout.dump_sorted sorts v, Layout.dumpFields_sorted sorts fields]

end

mutual

/-- Written with its characters as they are, a value is read as it was. -/
theorem readBack_raw {L : Layout} (raw : L.ensureAscii = false) (v : Json) (distinct : Distinct v) : readBack L v = v := by
  match v, distinct with
  | .null, _ | .bool _, _ | .int _, _ | .float _, _ | .constant _, _ => rfl
  | .str s, _ => rw [readBack, rejoinAs_raw raw]
  | .arr items, distinct => rw [readBack, readBackItems_raw raw items distinct]
  | .obj fields, ⟨names, distinct⟩ => rw [readBack, readBackFields_raw raw fields [] names distinct, List.nil_append]

theorem readBackItems_raw {L : Layout} (raw : L.ensureAscii = false) (items : List Json) (distinct : DistinctItems items) :
    readBackItems L items = items := by
  match items, distinct with
  | [], _ => rfl
  | v :: items, ⟨first, rest⟩ => rw [readBackItems, readBack_raw raw v first, readBackItems_raw raw items rest]

theorem readBackFields_raw {L : Layout} (raw : L.ensureAscii = false) (fields done : List (Text × Json))
    (names : ((done ++ fields).map Prod.fst).Nodup) (distinct : DistinctFields fields) :
    readBackFields L done fields = done ++ fields := by
  match fields, distinct with
  | [], _ => rw [readBackFields, List.append_nil]
  | (k, v) :: fields, ⟨first, rest⟩ =>
    have absent : k ∉ done.map Prod.fst := by
      intro member
      rw [List.map_append, List.nodup_append] at names
      exact names.2.2 _ member _ List.mem_cons_self rfl
    have grown := Dict.set_of_not_mem absent v
    rw [readBackFields, rejoinAs_raw raw, readBack_raw raw v first, grown,
      readBackFields_raw raw fields _ (by rwa [List.append_assoc]) rest, List.append_assoc]
    rfl

end

/-- A text with sorted keys and its characters as they are stands for one value,
up to the order of members. -/
theorem dumps_inj {L : Layout} (sorts : L.sortKeys = true) (raw : L.ensureAscii = false) {room : Nat} {v w : Json}
    (v_readable : Readable room v) (w_readable : Readable room w) (v_distinct : Distinct v) (w_distinct : Distinct w) :
    dumps L v = dumps L w ↔ sorted v = sorted w := by
  have reads : ∀ u, Readable room u → Distinct u → loads room (dumps L u) = .ok (sorted u) := by
    intro u readable distinct
    have read := loads_dumps_readBack (L := L.unsorted) rfl (readable.sorted u)
    rwa [readBack_raw (L := L.unsorted) raw _ (distinct.sorted u), dumps, ← Layout.dump_sorted sorts] at read
  constructor
  · intro same
    have read := reads v v_readable v_distinct
    rw [same, reads w w_readable w_distinct] at read
    exact (Except.ok.inj read).symm
  · intro same
    rw [dumps, dumps, Layout.dump_sorted sorts, Layout.dump_sorted sorts, same]

/-! What a value in order has. -/

theorem sortedItems_eq_map (items : List Json) : sortedItems items = items.map sorted := by
  induction items with
  | nil => rfl
  | cons v items ih => rw [sortedItems, ih, List.map_cons]

theorem lookup_sortedFields (fields : List (Text × Json)) (k : Text) :
    (sortedFields fields).lookup k = (fields.lookup k).map sorted := by
  induction fields with
  | nil => rfl
  | cons u fields ih =>
    obtain ⟨key, value⟩ := u
    rw [sortedFields, List.lookup_cons, List.lookup_cons, ih]
    cases k == key <;> rfl

/-- A value in order has the same members. -/
theorem get?_sorted {v : Json} (distinct : Distinct v) (k : Text) : (sorted v).get? k = (v.get? k).map sorted := by
  cases v with
  | obj fields =>
    have names : ((sortedFields fields).map Prod.fst).Nodup := by
      rw [keys_sortedFields]
      exact distinct.1
    have order := List.perm_insertionSort (fun a b : Text × Json => a.1 ≤ b.1) (sortedFields fields)
    change ((sortedFields fields).insertionSort fun a b => a.1 ≤ b.1).lookup k = _
    rw [← List.lookup_of_perm order.symm names, lookup_sortedFields]
    rfl
  | null | bool | int | float | constant | str | arr => rfl

end Json
