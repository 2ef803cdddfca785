import Mathlib.Tactic.Ring
import Mathlib.Tactic.NormNum
import OpenAvc.Data.Json

/-! Octets inside a longer list of them, and the integers they are. -/

namespace Octets

/-- The octets of a number, the most significant first. -/
def toBytes : Nat → Nat → List Nat
  | 0, _ => []
  | size + 1, n => toBytes size (n / 256) ++ [n % 256]

/-- `int.from_bytes(raw, "big", signed=False)` -/
def fromBytes (raw : List Nat) : Nat :=
  raw.foldl (fun n b => n * 256 + b) 0

/-- `int.from_bytes(raw, "big", signed=True)` -/
def fromBytesSigned (raw : List Nat) : Int :=
  if raw.headD 0 < 128 then fromBytes raw else fromBytes raw - 256 ^ raw.length

/-- `struct.pack` of a signed integer, which raises on one that has no place. -/
def packSigned (size : Nat) (n : Int) : Option (List Nat) :=
  if -256 ^ size ≤ n * 2 ∧ n * 2 < 256 ^ size then some (toBytes size (n % 256 ^ size).toNat) else none

/-- `data[offset:offset + length]` -/
def slice (data : List Nat) (offset length : Nat) : List Nat :=
  (data.drop offset).take length

/-- These octets stand in the data from an offset on. -/
def Stands (data : List Nat) (offset : Nat) (bytes : List Nat) : Prop :=
  ∃ before rest, data = before ++ bytes ++ rest ∧ before.length = offset

variable {data bytes more : List Nat} {offset : Nat}

theorem Stands.whole (data : List Nat) : Stands data 0 data :=
  ⟨[], [], by simp, rfl⟩

theorem Stands.left (stands : Stands data offset (bytes ++ more)) : Stands data offset bytes := by
  obtain ⟨before, rest, rfl, length⟩ := stands
  exact ⟨before, more ++ rest, by simp, length⟩

theorem Stands.right (stands : Stands data offset (bytes ++ more)) : Stands data (offset + bytes.length) more := by
  obtain ⟨before, rest, rfl, length⟩ := stands
  exact ⟨before ++ bytes, rest, by simp, by rw [List.length_append, length]⟩

theorem Stands.head {b : Nat} (stands : Stands data offset (b :: bytes)) : data[offset]? = some b := by
  obtain ⟨before, rest, rfl, rfl⟩ := stands
  simp

theorem Stands.tail {b : Nat} (stands : Stands data offset (b :: bytes)) : Stands data (offset + 1) bytes :=
  @Stands.right data [b] bytes offset stands

theorem Stands.le (stands : Stands data offset bytes) : offset + bytes.length ≤ data.length := by
  obtain ⟨before, rest, rfl, rfl⟩ := stands
  simp only [List.length_append]
  omega

theorem Stands.slice (stands : Stands data offset bytes) : slice data offset bytes.length = bytes := by
  obtain ⟨before, rest, rfl, rfl⟩ := stands
  rw [Octets.slice, List.append_assoc, List.drop_left, List.take_left]

@[simp] theorem length_toBytes (size n : Nat) : (toBytes size n).length = size := by
  induction size generalizing n with
  | zero => rfl
  | succ size ih => rw [toBytes, List.length_append, ih, List.length_singleton]

theorem fromBytes_append (raw : List Nat) (b : Nat) : fromBytes (raw ++ [b]) = fromBytes raw * 256 + b := by
  rw [fromBytes, List.foldl_append]
  rfl

theorem fromBytes_toBytes {size n : Nat} (small : n < 256 ^ size) : fromBytes (toBytes size n) = n := by
  induction size generalizing n with
  | zero =>
    have zero : n = 0 := by omega
    rw [zero]
    rfl
  | succ size ih =>
    rw [pow_succ] at small
    rw [toBytes, fromBytes_append, ih (Nat.div_lt_of_lt_mul (by omega))]
    omega

/-- The first octet says whether the number is in the upper half. -/
theorem headD_toBytes {size n : Nat} (some : 0 < size) (small : n < 256 ^ size) :
    (toBytes size n).headD 0 < 128 ↔ n * 2 < 256 ^ size := by
  induction size generalizing n with
  | zero => omega
  | succ size ih =>
    rw [pow_succ] at small ⊢
    rcases Nat.eq_zero_or_pos size with rfl | further
    · rw [toBytes, toBytes, List.nil_append, List.headD_cons]
      omega
    · have nonempty : (toBytes size (n / 256)) ≠ [] := by
        intro empty
        have length := length_toBytes size (n / 256)
        rw [empty, List.length_nil] at length
        omega
      have first : (toBytes size (n / 256) ++ [n % 256]).headD 0 = (toBytes size (n / 256)).headD 0 := by
        cases whole : toBytes size (n / 256) with
        | nil => exact absurd whole nonempty
        | cons b raw => rfl
      rw [toBytes, first, ih further (Nat.div_lt_of_lt_mul (by omega))]
      have even : 256 ^ size = 2 * (128 * 256 ^ (size - 1)) := by
        obtain ⟨k, rfl⟩ : ∃ k, size = k + 1 := ⟨size - 1, by omega⟩
        rw [Nat.add_sub_cancel, pow_succ]
        omega
      omega

theorem fromBytesSigned_nonneg {size n : Nat} (some : 0 < size) (small : n * 2 < 256 ^ size) :
    fromBytesSigned (toBytes size n) = n := by
  rw [fromBytesSigned, if_pos ((headD_toBytes some (by omega)).mpr small), fromBytes_toBytes (by omega)]

theorem fromBytesSigned_neg {size n : Nat} (some : 0 < size) (positive : 0 < n) (small : n * 2 ≤ 256 ^ size) :
    fromBytesSigned (toBytes size (256 ^ size - n)) = -n := by
  have inside : 256 ^ size - n < 256 ^ size := by omega
  rw [fromBytesSigned, if_neg (by rw [headD_toBytes some inside]; omega), fromBytes_toBytes inside, length_toBytes]
  have cast : ((256 ^ size - n : Nat) : Int) = 256 ^ size - n := by
    rw [Nat.cast_sub (by omega)]
    norm_num
  rw [cast]
  ring

theorem length_packSigned {size : Nat} {n : Int} (packs : packSigned size n = some bytes) : bytes.length = size := by
  unfold packSigned at packs
  split at packs
  · cases packs
    exact length_toBytes ..
  · cases packs

/-- What is packed is unpacked. -/
theorem fromBytesSigned_packSigned {size : Nat} {n : Int} (some : 0 < size) (packs : packSigned size n = .some bytes) :
    fromBytesSigned bytes = n := by
  unfold packSigned at packs
  split at packs
  · rename_i range
    cases packs
    have whole : (256 : Int) ^ size = ((256 ^ size : Nat) : Int) := by norm_num
    rw [whole] at range ⊢
    rcases lt_or_ge n 0 with negative | sign
    · have wrapped : n % ((256 ^ size : Nat) : Int) = ((256 ^ size : Nat) : Int) + n := by
        rw [← Int.add_emod_left]
        exact Int.emod_eq_of_lt (by omega) (by omega)
      have value : (n % ((256 ^ size : Nat) : Int)).toNat = 256 ^ size - n.natAbs := by omega
      rw [value, fromBytesSigned_neg some (by omega) (by omega)]
      omega
    · have kept : n % ((256 ^ size : Nat) : Int) = n := Int.emod_eq_of_lt sign (by omega)
      rw [kept, fromBytesSigned_nonneg some (by omega)]
      omega
  · cases packs

end Octets
