import OpenAvc.Data.Attempted
import OpenAvc.Osc.Codec

/-! What is encoded is decoded. -/

namespace Osc

open Octets

variable {R : Type} {floats : Floats R} {data bytes : List Nat} {offset : Nat}

theorem padded_mod (length : Nat) : padded length % 4 = 0 := by
  unfold padded
  split <;> omega

theorem le_padded (length : Nat) : length ≤ padded length := by
  unfold padded
  split <;> omega

theorem length_pad (data : List Nat) : (pad data).length = padded data.length := by
  have le := le_padded data.length
  rw [pad, List.length_append, List.length_replicate]
  omega

/-! Strings. -/

theorem octets_ne_zero {c : Nat} (nonzero : c ≠ 0) : 0 ∉ Utf8.octets c := by
  unfold Utf8.octets
  split_ifs
  · simpa using nonzero.symm
  all_goals
    simp only [List.mem_cons, List.not_mem_nil, or_false, not_or]
    omega

/-- Only NUL is encoded with a zero. -/
theorem encode_ne_zero {s : Text} (noNul : 0 ∉ s) (encodes : Utf8.encode s = some bytes) : 0 ∉ bytes := by
  rw [Utf8.encode, Option.ite_none_right_eq_some, Option.some.injEq] at encodes
  obtain ⟨_, rfl⟩ := encodes
  intro zero
  obtain ⟨c, member, inside⟩ := List.mem_flatMap.mp zero
  exact octets_ne_zero (fun same => noNul (same ▸ member)) inside

theorem takeWhile_until_zero (rest : List Nat) (noZero : 0 ∉ bytes) :
    (bytes ++ 0 :: rest).takeWhile (· ≠ 0) = bytes := by
  have all : ∀ b ∈ bytes, decide (b ≠ 0) = true := by
    intro b member
    exact decide_eq_true fun zero => noZero (zero ▸ member)
  rw [List.takeWhile_append_of_pos all]
  simp

theorem readString_stands {s : Text} (encodes : Utf8.encode s = some bytes) (noNul : 0 ∉ s)
    (stands : Stands data offset (pad (bytes ++ [0]))) :
    readString data offset = some (s, offset + (pad (bytes ++ [0])).length) := by
  have le := stands.le
  obtain ⟨before, rest, rfl, rfl⟩ := stands
  have found : ((before ++ pad (bytes ++ [0]) ++ rest).drop before.length).takeWhile (· ≠ 0) = bytes := by
    rw [List.append_assoc, List.drop_left, pad, List.append_assoc, List.append_assoc, List.singleton_append]
    exact takeWhile_until_zero _ (encode_ne_zero noNul encodes)
  have length := length_pad (bytes ++ [0])
  have short := le_padded (bytes ++ [0]).length
  rw [List.length_append, List.length_singleton] at length short
  simp only [readString]
  rw [found, if_pos (by omega), Utf8.decode_encode encodes, length]

theorem encodeString_eq_some {s : Text} {encoded : List Nat} :
    encodeString s = some encoded ↔ ∃ bytes, Utf8.encode s = some bytes ∧ encoded = pad (bytes ++ [0]) := by
  rw [encodeString, Option.map_eq_some_iff]
  exact exists_congr fun bytes => and_congr_right fun _ => eq_comm

theorem length_encodeString {s : Text} {encoded : List Nat} (encodes : encodeString s = some encoded) :
    encoded.length % 4 = 0 ∧ 0 < encoded.length := by
  obtain ⟨bytes, _, rfl⟩ := encodeString_eq_some.mp encodes
  have mod := padded_mod (bytes ++ [0]).length
  have le := le_padded (bytes ++ [0]).length
  rw [length_pad]
  rw [List.length_append, List.length_singleton] at mod le ⊢
  omega

/-! Arguments. -/

theorem require_stands (stands : Stands data offset bytes) : require data offset bytes.length = some bytes := by
  rw [require, if_pos stands.le, stands.slice]

/-- The arguments that the tags i, h, s, b, T, F and N carry. -/
def Arg.Carried : Arg R → Prop
  | .i n => -2 ^ 31 ≤ n ∧ n < 2 ^ 31
  | .h n => -2 ^ 63 ≤ n ∧ n < 2 ^ 63
  | .s t => 0 ∉ t ∧ t.all Utf8.scalar = true
  | .b bytes => bytes.length < 2 ^ 31
  | .T | .F | .N => True
  | .f _ | .d _ | .other _ => False

theorem Arg.Carried.tag {arg : Arg R} (carried : arg.Carried) : ∃ tag, arg.tag = [tag] ∧ tag ≠ 0 ∧ tag < 128 := by
  cases arg with
  | f x => exact carried.elim
  | d x => exact carried.elim
  | other tag => exact carried.elim
  | i _ => exact ⟨105, rfl, by decide, by decide⟩
  | s _ => exact ⟨115, rfl, by decide, by decide⟩
  | h _ => exact ⟨104, rfl, by decide, by decide⟩
  | b _ => exact ⟨98, rfl, by decide, by decide⟩
  | T => exact ⟨84, rfl, by decide, by decide⟩
  | F => exact ⟨70, rfl, by decide, by decide⟩
  | N => exact ⟨78, rfl, by decide, by decide⟩

theorem readBlob_stands {blob : List Nat} (encodes : encodeBlob blob = some bytes) (stands : Stands data offset bytes) :
    readBlob data offset = some (blob, offset + bytes.length) := by
  obtain ⟨length, packs, rfl⟩ := Option.map_eq_some_iff.mp encodes
  have four := length_packSigned packs
  have first := require_stands stands.left
  have second : Stands data (offset + 4) blob := by
    have after := stands.right
    rw [four] at after
    exact after.left
  rw [four] at first
  simp only [readBlob, Option.bind_eq_bind]
  rw [first, Option.bind_some, fromBytesSigned_packSigned (by decide) packs, if_neg (by omega), Int.toNat_natCast,
    require_stands second, Option.bind_some, List.length_append, length_pad, four, Nat.add_assoc]

/-- An argument is read by its tag where its data stands. -/
theorem readArg_stands {arg : Arg R} (carried : arg.Carried) (encodes : arg.encode floats = some bytes)
    (stands : Stands data offset bytes) :
    ∃ tag, arg.tag = [tag] ∧ readArg floats data offset tag = some (some (arg, offset + bytes.length)) := by
  cases arg with
  | f x => exact carried.elim
  | d x => exact carried.elim
  | other tag => exact carried.elim
  | i n =>
    have read := require_stands stands
    rw [length_packSigned encodes] at read ⊢
    refine ⟨105, rfl, ?_⟩
    have reads : readArg floats data offset 105 =
        some ((require data offset 4).map fun raw => (.i (fromBytesSigned raw), offset + 4)) := rfl
    rw [reads, read, Option.map_some, fromBytesSigned_packSigned (by decide) encodes]
  | h n =>
    have read := require_stands stands
    rw [length_packSigned encodes] at read ⊢
    refine ⟨104, rfl, ?_⟩
    have reads : readArg floats data offset 104 =
        some ((require data offset 8).map fun raw => (.h (fromBytesSigned raw), offset + 8)) := rfl
    rw [reads, read, Option.map_some, fromBytesSigned_packSigned (by decide) encodes]
  | s t =>
    obtain ⟨octets, utf8, rfl⟩ := encodeString_eq_some.mp encodes
    refine ⟨115, rfl, ?_⟩
    have reads : readArg floats data offset 115 = some ((readString data offset).map fun r => (.s r.1, r.2)) := rfl
    rw [reads, readString_stands utf8 carried.1 stands, Option.map_some]
  | b blob =>
    refine ⟨98, rfl, ?_⟩
    have reads : readArg floats data offset 98 = some ((readBlob data offset).map fun r => (.b r.1, r.2)) := rfl
    rw [reads, readBlob_stands encodes stands, Option.map_some]
  | T =>
    cases encodes
    exact ⟨84, rfl, rfl⟩
  | F =>
    cases encodes
    exact ⟨70, rfl, rfl⟩
  | N =>
    cases encodes
    exact ⟨78, rfl, rfl⟩

/-- The tags are read one after another, and each finds its own data. -/
theorem decodeArgs_stands {args : List (Arg R)} {parts : List (List Nat)} (carried : ∀ a ∈ args, a.Carried)
    (encodes : args.mapM (Arg.encode floats) = some parts) (stands : Stands data offset parts.flatten) :
    decodeArgs floats data (args.flatMap Arg.tag) offset = some args := by
  induction args generalizing parts offset with
  | nil => rfl
  | cons arg args ih =>
    rw [List.mapM_cons] at encodes
    simp only [Option.bind_eq_bind, Option.bind_eq_some_iff, Option.pure_def, Option.some.injEq] at encodes
    obtain ⟨part, first, rest, later, rfl⟩ := encodes
    rw [List.flatten_cons] at stands
    obtain ⟨tag, only, reads⟩ := readArg_stands (carried arg List.mem_cons_self) first stands.left
    have others := ih (fun a member => carried a (List.mem_cons_of_mem _ member)) later stands.right
    rw [List.flatMap_cons, only, List.singleton_append, decodeArgs, reads]
    dsimp only
    rw [others, Option.map_some]

/-- The tags are plain characters. -/
theorem tags_plain {args : List (Arg R)} (carried : ∀ a ∈ args, a.Carried) :
    ∀ c ∈ 44 :: args.flatMap Arg.tag, c ≠ 0 ∧ c < 128 := by
  intro c member
  rcases List.mem_cons.mp member with rfl | member
  · decide
  · obtain ⟨arg, inside, here⟩ := List.mem_flatMap.mp member
    obtain ⟨tag, only, plain⟩ := (carried arg inside).tag
    rw [only, List.mem_singleton] at here
    exact here ▸ plain

theorem Arg.encode_isSome {arg : Arg R} (carried : arg.Carried) : ∃ bytes, arg.encode floats = some bytes := by
  cases arg with
  | f x => exact carried.elim
  | d x => exact carried.elim
  | other tag => exact carried.elim
  | i n =>
    obtain ⟨low, high⟩ := carried
    have room : -256 ^ 4 ≤ n * 2 ∧ n * 2 < 256 ^ 4 := by omega
    exact ⟨_, if_pos room⟩
  | h n =>
    obtain ⟨low, high⟩ := carried
    have room : -256 ^ 8 ≤ n * 2 ∧ n * 2 < 256 ^ 8 := by omega
    exact ⟨_, if_pos room⟩
  | s t => exact ⟨_, encodeString_eq_some.mpr ⟨_, if_pos carried.2, rfl⟩⟩
  | b blob =>
    have short : blob.length < 2 ^ 31 := carried
    have room : -256 ^ 4 ≤ (blob.length : Int) * 2 ∧ (blob.length : Int) * 2 < 256 ^ 4 := by omega
    have packs : packSigned 4 blob.length = some (toBytes 4 ((blob.length : Int) % 256 ^ 4).toNat) := if_pos room
    have encodes : encodeBlob blob = some (toBytes 4 ((blob.length : Int) % 256 ^ 4).toNat ++ pad blob) := by
      rw [encodeBlob, packs, Option.map_some]
    exact ⟨_, encodes⟩
  | T | F | N => exact ⟨[], rfl⟩

theorem Arg.length_encode {arg : Arg R} (encodes : arg.encode floats = some bytes) : bytes.length % 4 = 0 := by
  cases arg with
  | f x => rw [floats.length_pack4 x bytes encodes]
  | d x => rw [floats.length_pack8 x bytes encodes]
  | i n => rw [length_packSigned encodes]
  | h n => rw [length_packSigned encodes]
  | s t => exact (length_encodeString encodes).1
  | b blob =>
    have whole : encodeBlob blob = some bytes := encodes
    rw [encodeBlob, Option.map_eq_some_iff] at whole
    obtain ⟨length, packs, rfl⟩ := whole
    have mod := padded_mod blob.length
    rw [List.length_append, length_packSigned packs, length_pad]
    omega
  | T | F | N | other tag =>
    cases encodes
    rfl

theorem length_flatten_mod {parts : List (List Nat)} (all : ∀ part ∈ parts, part.length % 4 = 0) :
    parts.flatten.length % 4 = 0 := by
  induction parts with
  | nil => rfl
  | cons part parts ih =>
    have first := all part List.mem_cons_self
    have rest := ih fun p member => all p (List.mem_cons_of_mem _ member)
    rw [List.flatten_cons, List.length_append]
    omega

theorem oscEncodeMessage_eq_some {address : Text} {args : List (Arg R)} : oscEncodeMessage floats address args = some data ↔
    ∃ msg parts tags, encodeString address = some msg ∧ args.mapM (Arg.encode floats) = some parts ∧
      encodeString (44 :: args.flatMap Arg.tag) = some tags ∧ data = msg ++ tags ++ parts.flatten := by
  simp only [oscEncodeMessage, Option.bind_eq_bind, Option.bind_eq_some_iff, Option.some.injEq]
  constructor
  · rintro ⟨msg, first, parts, all, tags, types, rfl⟩
    exact ⟨msg, parts, tags, first, all, types, rfl⟩
  · rintro ⟨msg, parts, tags, first, all, types, rfl⟩
    exact ⟨msg, first, parts, all, tags, types, rfl⟩

/-- Every message is as long as a number of words. -/
theorem length_oscEncodeMessage {address : Text} {args : List (Arg R)}
    (encodes : oscEncodeMessage floats address args = some data) : data.length % 4 = 0 ∧ 4 ≤ data.length := by
  obtain ⟨msg, parts, tags, first, all, types, rfl⟩ := oscEncodeMessage_eq_some.mp encodes
  have lengths : ∀ part ∈ parts, part.length % 4 = 0 := by
    intro part member
    obtain ⟨arg, _, encoded⟩ := List.exists_of_mem_mapM all member
    exact Arg.length_encode encoded
  have rest := length_flatten_mod lengths
  have address := length_encodeString first
  have typeTags := length_encodeString types
  rw [List.length_append, List.length_append]
  omega

theorem decodeSingleMessage_encoded {address : Text} {args : List (Arg R)} (slash : address.head? = some 47)
    (noNul : 0 ∉ address) (carried : ∀ a ∈ args, a.Carried) (encodes : oscEncodeMessage floats address args = some data) :
    decodeSingleMessage floats data = some (address, args) := by
  obtain ⟨msg, parts, tags, first, all, types, rfl⟩ := oscEncodeMessage_eq_some.mp encodes
  have plain := tags_plain carried
  have stands := Stands.whole (msg ++ tags ++ parts.flatten)
  have after := stands.left.right
  have inside := stands.right
  have some := (length_encodeString types).2
  obtain ⟨bytes, utf8, rfl⟩ := encodeString_eq_some.mp first
  obtain ⟨tagBytes, tagUtf8, rfl⟩ := encodeString_eq_some.mp types
  have readAddress := readString_stands utf8 noNul stands.left.left
  have readTags := readString_stands tagUtf8 (fun zero => (plain 0 zero).1 rfl) after
  have readArgs := decodeArgs_stands carried all inside
  rw [Nat.zero_add] at readAddress readTags inside
  rw [List.length_append, Nat.zero_add] at readArgs
  simp only [decodeSingleMessage, Option.bind_eq_bind]
  rw [readAddress, Option.bind_some]
  dsimp only
  rw [if_neg (by rw [slash]; decide), if_neg (by rw [List.length_append, List.length_append]; omega), readTags,
    Option.bind_some]
  show (decodeArgs floats _ (args.flatMap Arg.tag) _).map _ = _
  rw [readArgs, Option.map_some]

/-- An address that begins with a slash does so on the wire. -/
theorem head?_encoded {address : Text} {args : List (Arg R)} (slash : address.head? = some 47)
    (encodes : oscEncodeMessage floats address args = some data) : data.head? = some 47 := by
  obtain ⟨msg, parts, tags, first, _, _, rfl⟩ := oscEncodeMessage_eq_some.mp encodes
  obtain ⟨bytes, utf8, rfl⟩ := encodeString_eq_some.mp first
  rw [Utf8.encode, Option.ite_none_right_eq_some, Option.some.injEq] at utf8
  obtain ⟨_, rfl⟩ := utf8
  cases address with
  | nil => cases slash
  | cons c rest =>
    rw [List.head?_cons, Option.some.injEq] at slash
    subst slash
    rfl

/-- A message is encoded, and decoded as it was. -/
def RoundTrips (floats : Floats R) (address : Text) (args : List (Arg R)) : Prop :=
  ∃ data, oscEncodeMessage floats address args = some data ∧ oscDecodeMessage floats data = some (address, args)

/-- A message is decoded as it was encoded, and is as long as a number of words. -/
theorem osc_round_trip (floats : Floats R) : (∀ (address : Text) (args : List (Arg R)) (data : List Nat),
      oscEncodeMessage floats address args = some data → data.length % 4 = 0) ∧
    ∀ (address : Text) (args : List (Arg R)), address.head? = some 47 → 0 ∉ address → address.all Utf8.scalar = true →
      (∀ a ∈ args, a.Carried) → RoundTrips floats address args := by
  refine ⟨fun address args data encodes => (length_oscEncodeMessage encodes).1, ?_⟩
  intro address args slash noNul scalar carried
  have plain := tags_plain carried
  have types : (44 :: args.flatMap Arg.tag).all Utf8.scalar = true := by
    refine List.all_eq_true.mpr fun c member => decide_eq_true (Or.inl ?_)
    have small := (plain c member).2
    omega
  obtain ⟨parts, all⟩ : ∃ parts, args.mapM (Arg.encode floats) = some parts :=
    List.exists_mapM fun a member => Arg.encode_isSome (carried a member)
  obtain ⟨data, encodes⟩ : ∃ data, oscEncodeMessage floats address args = some data :=
    ⟨_, oscEncodeMessage_eq_some.mpr ⟨_, parts, _, encodeString_eq_some.mpr ⟨_, if_pos scalar, rfl⟩, all,
    encodeString_eq_some.mpr ⟨_, if_pos types, rfl⟩, rfl⟩⟩
  refine ⟨data, encodes, ?_⟩
  have long := (length_oscEncodeMessage encodes).2
  have first := head?_encoded slash encodes
  rw [oscDecodeMessage, if_neg (by omega), if_neg, decodeSingleMessage_encoded slash noNul carried encodes]
  intro bundle
  have same : (data.take 8).head? = some 35 := by
    rw [bundle]
    rfl
  rw [List.head?_take, if_neg (by decide), first] at same
  cases same

/-- Numbers that are known by their bytes. -/
def rawFloats : Floats (List Nat) where
  pack4 raw := if raw.length = 4 then some raw else none
  pack8 raw := if raw.length = 8 then some raw else none
  unpack4 raw := raw
  unpack8 raw := raw
  length_pack4 raw bytes packs := by
    obtain ⟨four, same⟩ := Option.ite_none_right_eq_some.mp packs
    exact Option.some.inj same ▸ four
  length_pack8 raw bytes packs := by
    obtain ⟨eight, same⟩ := Option.ite_none_right_eq_some.mp packs
    exact Option.some.inj same ▸ eight

theorem osc_round_trip_fader :
    RoundTrips rawFloats (text "/ch/01") [.i (-3), .b [0, 1, 2, 3, 4], .T, .s (text "mix"), .h (2 ^ 40), .N] := by
  refine (osc_round_trip rawFloats).2 _ _ (by decide) (by decide) (by decide) fun a member => ?_
  simp only [List.mem_cons, List.not_mem_nil, or_false] at member
  rcases member with rfl | rfl | rfl | rfl | rfl | rfl
  · exact ⟨by decide, by decide⟩
  · exact show 5 < 2 ^ 31 by decide
  · trivial
  · exact ⟨by decide, by decide⟩
  · exact ⟨by decide, by decide⟩
  · trivial

/-- A lone surrogate has no bytes, and a blob can be too long for the number in front of it. -/
theorem osc_not_encoded : ¬RoundTrips rawFloats [47, 0xd800] [] ∧ ¬RoundTrips rawFloats [47] [.s [0xd800]] ∧
    ¬RoundTrips rawFloats [47] [.b (List.replicate (2 ^ 31) 0)] := by
  refine ⟨?_, ?_, ?_⟩
  · rintro ⟨data, encodes, _⟩
    cases encodes
  · rintro ⟨data, encodes, _⟩
    cases encodes
  · rintro ⟨data, encodes, _⟩
    obtain ⟨_, parts, _, _, all, _, _⟩ := oscEncodeMessage_eq_some.mp encodes
    obtain ⟨bytes, _, blob⟩ := List.exists_of_mapM all List.mem_cons_self
    have whole : encodeBlob (List.replicate (2 ^ 31) 0) = some bytes := blob
    rw [encodeBlob, Option.map_eq_some_iff] at whole
    obtain ⟨length, packs, _⟩ := whole
    rw [packSigned, List.length_replicate, if_neg (by decide)] at packs
    cases packs

end Osc
