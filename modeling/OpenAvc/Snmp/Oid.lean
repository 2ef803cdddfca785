import OpenAvc.Data.Attempted
import OpenAvc.Snmp.Ber

/-! Object identifiers: arcs as text, and as base-128 subidentifiers. -/

namespace Snmp

open Octets

/-- An object identifier whose first two arcs go together into one subidentifier. -/
structure Oid where
  first : Nat
  second : Nat
  rest : List Nat
  valid : (first < 2 ∧ second < 40) ∨ first = 2

/-- The digits of an arc. -/
def digits (n : Nat) : Text :=
  text (toString n)

namespace Oid

def arcs (o : Oid) : List Nat :=
  o.first :: o.second :: o.rest

/-- As a driver writes it. -/
def dotted (o : Oid) : Text :=
  List.intercalate [46] (o.arcs.map digits)

/-- No arc has more digits than Python reads or writes. -/
def Writable (o : Oid) : Prop :=
  ∀ n ∈ o.arcs, (digits n).length ≤ Json.Scan.intLimit

instance (o : Oid) : Decidable o.Writable :=
  inferInstanceAs (Decidable (∀ n ∈ o.arcs, _))

def subids (o : Oid) : List Nat :=
  (40 * o.first + o.second) :: o.rest

theorem arcs_subids (o : Oid) : Snmp.arcs o.subids = o.arcs := by
  obtain ⟨first, second, rest, ⟨low, small⟩ | two⟩ := o
  · rw [subids, arcs, Snmp.arcs]
    dsimp only
    rcases Nat.lt_or_ge first 1 with zero | one
    · have none : first = 0 := by omega
      subst none
      rw [if_pos (by omega), Nat.mul_zero, Nat.zero_add]
    · have one : first = 1 := by omega
      subst one
      rw [if_neg (by omega), if_pos (by omega), Nat.mul_one, Nat.add_sub_cancel_left]
  · subst two
    rw [subids, arcs, Snmp.arcs]
    dsimp only
    rw [if_neg (by omega), if_neg (by omega), Nat.add_sub_cancel_left]

end Oid

theorem pyStr_eq_some {n : Nat} {t : Text} :
    pyStr n = some t ↔ (digits n).length ≤ Json.Scan.intLimit ∧ digits n = t := by
  rw [pyStr, Option.ite_none_right_eq_some, Option.some.injEq, digits]

/-- Digits are read as the number they were written for, if they are not too many. -/
theorem pyInt_digits (decimal : Nat → Option (Fin 10)) (n : Nat) :
    pyInt decimal (digits n) = if (digits n).length ≤ Json.Scan.intLimit then some (n : Int) else none := by
  have D := Json.Scan.digits_repr n
  change Json.Scan.Digits n (digits n) at D
  have ascii : (digits n).map (FloatText.toAscii decimal) = digits n := by
    rw [List.map_congr_left (g := id), List.map_id]
    intro c member
    exact FloatText.toAscii_of_plain decimal (FloatText.plain_of_digit (D.digits c member))
  have trimmed : FloatText.trim FloatText.asciiSpace (digits n) = digits n := by
    have kept : ∀ c ∈ digits n, FloatText.asciiSpace c = false := by
      intro c member
      have digit := D.digits c member
      unfold isDigit at digit
      unfold FloatText.asciiSpace
      rw [decide_eq_true_eq] at digit
      rw [decide_eq_false_iff_not]
      omega
    have whole := @FloatText.trim_between _ [] _ [] (by simp) (by simp) D.nonempty kept
    rwa [List.nil_append, List.append_nil] at whole
  have unsigned : FloatText.signed (digits n) = (false, digits n) := by
    obtain ⟨c, t, whole, minus, plus⟩ := D.head
    rw [whole]
    unfold FloatText.signed
    split
    · rename_i same
      exact absurd (List.cons.inj same).1 plus
    · rename_i same
      exact absurd (List.cons.inj same).1 minus
    · rfl
  have more : ∀ t : Text, (∀ c ∈ t, isDigit c = true) → FloatText.moreDigits t = (t, []) := by
    intro t all
    induction t with
    | nil => rfl
    | cons c t ih =>
      have digit := all c List.mem_cons_self
      have notBar : c ≠ 95 := by
        rintro rfl
        cases digit
      rw [FloatText.moreDigits.eq_def]
      split
      · rename_i same
        exact absurd (List.cons.inj same).1 notBar
      · rename_i same
        obtain ⟨rfl, rfl⟩ := List.cons.inj same
        rw [if_pos digit, ih fun d member => all d (List.mem_cons_of_mem _ member)]
      · rename_i same
        cases same
  have part : FloatText.digitPart (digits n) = (digits n, []) := by
    rw [← more (digits n) D.digits]
    obtain ⟨c, t, whole, -, -⟩ := D.head
    have digit := D.digits c (whole ▸ List.mem_cons_self)
    rw [whole]
    unfold FloatText.digitPart
    split
    · rename_i same
      rw [(List.cons.inj same).1] at digit
      cases digit
    · rfl
  rw [pyInt, ascii, readInt, trimmed, unsigned]
  dsimp only
  rw [part]
  dsimp only
  rw [D.value]
  simp only [ne_eq, D.nonempty, not_false_iff, true_and, Bool.false_eq_true, if_false]

/-- What comes before the last bytes of a subidentifier is read with them. -/
theorem decodeSubids_continued {value : Nat} (positive : 0 < value) (bytes : List Nat) :
    decodeSubids none (continued value bytes) = decodeSubids (some value) bytes := by
  induction value using Nat.strongRecOn generalizing bytes with
  | _ value ih =>
    have septet : (0x80 + value % 128) % 128 = value % 128 := by omega
    rw [continued_eq, if_neg (by omega)]
    rcases Nat.eq_zero_or_pos (value / 128) with small | large
    · have same : value % 128 = value := by omega
      rw [small, continued_eq, if_pos rfl, decodeSubids, if_neg (by omega), septet, same]
      · rw [Option.getD_none, Nat.zero_mul, Nat.zero_add]
    · have whole : value / 128 * 128 + value % 128 = value := by omega
      rw [ih (value / 128) (by omega) large, decodeSubids, if_neg (by omega), septet]
      · rw [Option.getD_some, whole]

theorem continued_append (value : Nat) (bytes more : List Nat) :
    continued value (bytes ++ more) = continued value bytes ++ more := by
  induction value using Nat.strongRecOn generalizing bytes with
  | _ value ih =>
    rw [continued_eq, continued_eq value bytes]
    split
    · rfl
    · rw [← List.cons_append, ih (value / 128) (by omega)]

theorem encodeBase128_eq_some {n : Nat} {bytes : List Nat} :
    encodeBase128 n = some bytes ↔ continued (n / 128) [n % 128] = bytes := by
  rw [encodeBase128, if_neg (by omega), Int.toNat_natCast, Option.some.injEq]

theorem decodeSubids_encodeBase128 (n : Nat) (more : List Nat) :
    decodeSubids none (continued (n / 128) [n % 128] ++ more) = n :: decodeSubids none more := by
  have last : n % 128 < 0x80 := by omega
  rw [← continued_append, List.singleton_append]
  rcases Nat.eq_zero_or_pos (n / 128) with small | large
  · have same : n % 128 % 128 = n := by omega
    rw [small, continued_eq, if_pos rfl, decodeSubids, if_pos last, same]
    · rw [Option.getD_none, Nat.zero_mul, Nat.zero_add]
  · have whole : n / 128 * 128 + n % 128 % 128 = n := by omega
    rw [decodeSubids_continued large, decodeSubids, if_pos last]
    · rw [Option.getD_some, whole]

/-- The bytes of subidentifiers, one after another. -/
def base128 (subids : List Nat) : List Nat :=
  subids.flatMap fun n => continued (n / 128) [n % 128]

theorem decodeSubids_base128 (subids : List Nat) : decodeSubids none (base128 subids) = subids := by
  induction subids with
  | nil => rfl
  | cons n subids ih => rw [base128, List.flatMap_cons, decodeSubids_encodeBase128, ← base128, ih]

/-- An identifier is encoded exactly where all its arcs are read. -/
theorem berEncodeOid_eq_some (decimal : Nat → Option (Fin 10)) (o : Oid) {bytes : List Nat} :
    berEncodeOid decimal o.dotted = some bytes ↔
      o.Writable ∧ bytes = berEncodeTagged asn1Oid [base128 o.subids] := by
  have parts : (o.dotted.splitOn 46).mapM (pyInt decimal) =
      if o.Writable then some (o.arcs.map fun n : Nat => (n : Int)) else none := by
    have noDot : ∀ t ∈ o.arcs.map digits, 46 ∉ t := by
      intro t member dot
      obtain ⟨n, -, rfl⟩ := List.mem_map.mp member
      cases (Json.Scan.digits_repr n).digits 46 dot
    rw [Oid.dotted, List.splitOn_intercalate 46 noDot (by simp [Oid.arcs]), List.mapM_map]
    split
    · rename_i writable
      rw [List.mapM_eq_some, List.forall₂_map_right_iff, List.forall₂_same]
      intro n member
      rw [Function.comp_apply, pyInt_digits, if_pos (writable n member)]
    · rename_i unwritable
      rw [← Option.not_isSome_iff_eq_none]
      intro all
      obtain ⟨r, all⟩ := Option.isSome_iff_exists.mp all
      apply unwritable
      intro n member
      obtain ⟨b, -, read⟩ := List.exists_of_mapM all member
      rw [Function.comp_apply, pyInt_digits, Option.ite_none_right_eq_some] at read
      exact read.1
  have subids : (((40 * (o.first : Int) + o.second) :: o.rest.map fun n : Nat => (n : Int)).mapM encodeBase128) =
      some (o.subids.map fun n => continued (n / 128) [n % 128]) := by
    have cast : (40 * (o.first : Int) + o.second) :: (o.rest.map fun n : Nat => (n : Int)) = o.subids.map fun n : Nat => (n : Int) := by
      rw [Oid.subids, List.map_cons]
      push_cast
      rfl
    rw [cast, List.mapM_map, List.mapM_eq_some, List.forall₂_map_right_iff, List.forall₂_same]
    exact fun n _ => encodeBase128_eq_some.mpr rfl
  rw [berEncodeOid, parts]
  split
  · rename_i writable
    simp only [Option.bind_eq_bind, Option.bind_some, Oid.arcs, List.map_cons, subids, Option.some.injEq, writable, true_and]
    rw [List.flatMap_def.symm, ← base128, eq_comm]
  · rename_i unwritable
    simp [unwritable]

theorem Oid.dotted_ne_nil (o : Oid) : o.dotted ≠ [] := by
  have nonempty := (Json.Scan.digits_repr o.first).nonempty
  intro none
  rw [dotted, arcs, List.map_cons, List.map_cons, List.intercalate_cons_cons, List.append_assoc,
    List.append_eq_nil_iff] at none
  exact nonempty none.1

theorem berDecodeOid_stands {data : List Nat} {offset : Nat} {o : Oid} (writable : o.Writable)
    (small : (base128 o.subids).length < 2 ^ 24)
    (stands : Stands data offset (berEncodeTagged asn1Oid [base128 o.subids])) :
    berDecodeOid data offset = some (o.dotted, offset + (berEncodeTagged asn1Oid [base128 o.subids]).length) := by
  have T := Tagged.of_stands (by simpa using small) stands
  have raw := T.payload.slice
  have le := T.le
  have nonempty : base128 o.subids ≠ [] := by
    intro empty
    have back := decodeSubids_base128 o.subids
    rw [empty] at back
    cases back
  have length : ([base128 o.subids].flatten).length ≠ 0 := by
    rw [List.flatten_singleton, List.length_eq_zero_iff.ne]
    exact nonempty
  have parts : o.arcs.mapM pyStr = some (o.arcs.map digits) := by
    rw [List.mapM_eq_some, List.forall₂_map_right_iff, List.forall₂_same]
    exact fun n member => pyStr_eq_some.mpr ⟨writable n member, rfl⟩
  rw [berDecodeOid, if_pos T.here, T.length, ← T.stop]
  dsimp only
  rw [if_neg (by omega), raw, List.flatten_singleton, decodeSubids_base128, o.arcs_subids, parts]
  rfl

end Snmp
