import OpenAvc.Osc.RoundTrip

/-! What a bundle is decoded as. -/

namespace Osc

open Octets

variable {R : Type} (floats : Floats R)

/-- An element of a bundle behind its size. -/
structure Frame where
  size : List Nat
  elem : List Nat
  four : size.length = 4
  sized : fromBytesSigned size = elem.length
  nonempty : elem ≠ []

def Frame.bytes (frame : Frame) : List Nat := frame.size ++ frame.elem

/-- The elements that stand one after another, up to where no further one does. -/
inductive Framed : List Nat → List (List Nat) → Prop
  | element (frame : Frame) {rest : List Nat} {elems : List (List Nat)} (more : Framed rest elems) :
      Framed (frame.bytes ++ rest) (frame.elem :: elems)
  | done {rest : List Nat} (last : ∀ (frame : Frame) (tail : List Nat), rest ≠ frame.bytes ++ tail) : Framed rest []

/-- What an element adds to the messages. -/
def contribution (levels : Nat) (elem : List Nat) : List (Message R) :=
  match decodeBundle floats levels elem with
  | .ok messages => messages
  | .error _ => []

variable {data rest tail : List Nat} {elems elems' : List (List Nat)} {offset : Nat}

theorem Frame.length_bytes (frame : Frame) : frame.bytes.length = 4 + frame.elem.length ∧ 0 < frame.elem.length := by
  rw [Frame.bytes, List.length_append, frame.four]
  exact ⟨rfl, List.length_pos_iff.mpr frame.nonempty⟩

/-- The size says where an element ends. -/
theorem Frame.bytes_inj {frame frame' : Frame} (same : frame.bytes ++ rest = frame'.bytes ++ tail) :
    frame.elem = frame'.elem ∧ rest = tail := by
  unfold Frame.bytes at same
  rw [List.append_assoc, List.append_assoc] at same
  obtain ⟨size, after⟩ := List.append_inj same (frame.four.trans frame'.four.symm)
  have length : frame.elem.length = frame'.elem.length := by
    have sized := frame.sized
    rw [size, frame'.sized] at sized
    omega
  exact List.append_inj after length

theorem Framed.unique (framed : Framed rest elems) (other : Framed rest elems') : elems = elems' := by
  induction framed generalizing elems' with
  | element frame more ih =>
    generalize whole : frame.bytes ++ _ = data at other
    cases other with
    | element frame' more' =>
      obtain ⟨elem, rest⟩ := Frame.bytes_inj whole
      subst rest
      rw [elem, ih more']
    | done last => exact absurd whole.symm (last frame _)
  | done last =>
    cases other with
    | element frame' more' => exact absurd rfl (last frame' _)
    | done _ => rfl

/-- What the first bytes say where an element stands. -/
theorem Frame.stands (frame : Frame) (here : data.drop offset = frame.bytes ++ rest) :
    slice data offset 4 = frame.size ∧ slice data (offset + 4) frame.elem.length = frame.elem ∧
      data.drop (offset + 4 + frame.elem.length) = rest ∧ offset + 4 + frame.elem.length ≤ data.length := by
  have lengths := congrArg List.length here
  have positive := frame.length_bytes
  rw [List.length_drop, List.length_append, positive.1] at lengths
  have size : (data.drop offset).take 4 = frame.size := by
    rw [here, Frame.bytes, List.append_assoc, ← frame.four, List.take_left]
  have after : data.drop (offset + 4) = frame.elem ++ rest := by
    rw [← List.drop_drop, here, Frame.bytes, List.append_assoc, ← frame.four, List.drop_left]
  refine ⟨size, ?_, ?_, by omega⟩
  · rw [slice, after, List.take_left]
  · rw [← List.drop_drop, after, List.drop_left]

/-- The loop finds just the elements, and passes by what is raised for one of them. -/
theorem decodeElements_framed {decode : List Nat → Except Exc (List (Message R))}
    (raises : ∀ elem, decode elem ≠ .error .rounds) {fuel : Nat} (enough : data.length < fuel + offset) (some : 0 < fuel) :
    ∃ elems, Framed (data.drop offset) elems ∧ decodeElements decode data fuel offset =
      .ok (elems.flatMap fun elem => match decode elem with | .ok messages => messages | .error _ => []) := by
  induction fuel generalizing offset with
  | zero => omega
  | succ fuel ih =>
    by_cases room : offset + 4 ≤ data.length
    · by_cases stops : fromBytesSigned (slice data offset 4) ≤ 0 ∨
          data.length < offset + 4 + fromBytesSigned (slice data offset 4)
      · refine ⟨[], .done fun frame tail here => ?_, ?_⟩
        · obtain ⟨size, _, _, inside⟩ := frame.stands here
          have positive := frame.length_bytes.2
          rw [size, frame.sized] at stops
          omega
        · simp only [decodeElements]
          rw [if_pos room, if_pos stops]
          rfl
      · obtain ⟨n, size⟩ : ∃ n : Nat, fromBytesSigned (slice data offset 4) = n := ⟨_, (Int.toNat_of_nonneg (by omega)).symm⟩
        rw [size] at stops
        have length : (slice data (offset + 4) n).length = n := by
          rw [slice, List.length_take, List.length_drop]
          omega
        let frame : Frame := ⟨slice data offset 4, slice data (offset + 4) n, by
          rw [slice, List.length_take, List.length_drop]; omega, by rw [size, length], by
          rw [← List.length_pos_iff, length]; omega⟩
        have here : data.drop offset = frame.bytes ++ data.drop (offset + 4 + n) := by
          have after := List.take_append_drop n (data.drop (offset + 4))
          have first := List.take_append_drop 4 (data.drop offset)
          rw [List.drop_drop] at after
          rw [List.drop_drop, ← after] at first
          show _ = slice data offset 4 ++ slice data (offset + 4) n ++ _
          rw [List.append_assoc]
          exact first.symm
        have next : data.length < fuel + (offset + 4 + n) := by omega
        obtain ⟨elems, more, decodes⟩ := ih next (by omega)
        refine ⟨frame.elem :: elems, ?_, ?_⟩
        · rw [here]
          exact .element frame more
        · simp only [decodeElements]
          rw [if_pos room, size, if_neg stops, Int.toNat_natCast, decodes, List.flatMap_cons]
          show _ = Except.ok ((match decode (slice data (offset + 4) n) with | .ok messages => messages | .error _ => []) ++ _)
          cases decoded : decode (slice data (offset + 4) n) with
          | ok messages => rfl
          | error e =>
            cases e with
            | value => rfl
            | rounds => exact absurd decoded (raises _)
    · refine ⟨[], .done fun frame tail here => ?_, ?_⟩
      · obtain ⟨_, _, _, inside⟩ := frame.stands here
        omega
      · simp only [decodeElements]
        rw [if_neg room]
        rfl

/-- A single message that is read as a bundle. -/
theorem single_ne_rounds (data : List Nat) : (match decodeSingleMessage floats data with
    | some message => Except.ok [message]
    | none => Except.error Exc.value) ≠ Except.error Exc.rounds := by
  cases decodeSingleMessage floats data with
  | some message => rintro ⟨⟩
  | none => rintro ⟨⟩

theorem decodeBundle_ne_rounds (levels : Nat) (data : List Nat) : decodeBundle floats levels data ≠ .error .rounds := by
  induction levels generalizing data with
  | zero =>
    unfold decodeBundle
    split
    · rintro ⟨⟩
    · exact single_ne_rounds _ data
  | succ levels ih =>
    unfold decodeBundle
    split
    · have enough : data.length < data.length + 1 + 16 := by omega
      obtain ⟨elems, _, decodes⟩ := decodeElements_framed ih enough (by omega)
      rw [decodes]
      rintro ⟨⟩
    · exact single_ne_rounds _ data

/-- A bundle is decoded as its elements are, one after another. -/
theorem decodeBundle_framed (levels : Nat) (bundle : data.take 8 = bundleTag) : ∃ elems, Framed (data.drop 16) elems ∧
    decodeBundle floats (levels + 1) data = .ok (elems.flatMap (contribution floats levels)) := by
  have enough : data.length < data.length + 1 + 16 := by omega
  obtain ⟨elems, framed, decodes⟩ := decodeElements_framed (decodeBundle_ne_rounds floats levels) enough (by omega)
  refine ⟨elems, framed, ?_⟩
  rw [decodeBundle, if_pos bundle]
  exact decodes

/-- An element that is no bundle adds one message, or is malformed and adds none. -/
theorem contribution_message (levels : Nat) {elem : List Nat} (plain : elem.take 8 ≠ bundleTag) :
    contribution floats levels elem = (decodeSingleMessage floats elem).toList := by
  cases levels <;> unfold contribution decodeBundle <;> rw [if_neg plain] <;> cases decodeSingleMessage floats elem <;> rfl

theorem contribution_tooDeep {elem : List Nat} (bundle : elem.take 8 = bundleTag) : contribution floats 0 elem = [] := by
  unfold contribution decodeBundle
  rw [if_pos bundle]

theorem contribution_bundle (levels : Nat) {elem : List Nat} (bundle : elem.take 8 = bundleTag) :
    ∃ elems, Framed (elem.drop 16) elems ∧
      contribution floats (levels + 1) elem = elems.flatMap (contribution floats levels) := by
  obtain ⟨elems, framed, decodes⟩ := decodeBundle_framed floats levels bundle
  refine ⟨elems, framed, ?_⟩
  rw [contribution, decodes]

theorem Framed.append (frames : List Frame) (framed : Framed rest elems) :
    Framed (frames.flatMap Frame.bytes ++ rest) (frames.map Frame.elem ++ elems) := by
  induction frames with
  | nil => exact framed
  | cons frame frames ih =>
    rw [List.flatMap_cons, List.map_cons, List.cons_append, List.append_assoc]
    exact .element frame ih

/-- Data in the form of a bundle is decoded, and as nothing but its elements are, one after
another; and an element that adds nothing can stand between any two. -/
theorem bundle_by_elements (floats : Floats R) :
    (∀ data : List Nat, data.take 8 = bundleTag → ∃ elems, Framed (data.drop 16) elems ∧
      (∀ others, Framed (data.drop 16) others → others = elems) ∧
      oscDecodeBundle floats data = .ok (elems.flatMap (contribution floats (maxBundleDepth - 1)))) ∧
    (∀ (levels : Nat) (elem : List Nat), elem.take 8 ≠ bundleTag →
      contribution floats levels elem = (decodeSingleMessage floats elem).toList) ∧
    (∀ elem : List Nat, elem.take 8 = bundleTag → contribution floats 0 elem = [] ∧
      ∀ levels, ∃ elems, Framed (elem.drop 16) elems ∧
        contribution floats (levels + 1) elem = elems.flatMap (contribution floats levels)) ∧
    ∀ (head : List Nat) (frames : List Frame) (bad : Frame) (rest : List Nat), head.length = 16 → head.take 8 = bundleTag →
      contribution floats (maxBundleDepth - 1) bad.elem = [] →
      oscDecodeBundle floats (head ++ (frames.flatMap Frame.bytes ++ (bad.bytes ++ rest))) =
        oscDecodeBundle floats (head ++ (frames.flatMap Frame.bytes ++ rest)) := by
  refine ⟨fun data bundle => ?_, fun levels elem plain => contribution_message floats levels plain,
    fun elem bundle => ⟨contribution_tooDeep floats bundle, fun levels => contribution_bundle floats levels bundle⟩, ?_⟩
  · obtain ⟨elems, framed, decodes⟩ := decodeBundle_framed floats 15 bundle
    exact ⟨elems, framed, fun others other => other.unique framed, decodes⟩
  · intro head frames bad rest sixteen tag nothing
    have decodes (body : List Nat) : ∃ elems, Framed body elems ∧
        oscDecodeBundle floats (head ++ body) = .ok (elems.flatMap (contribution floats 15)) := by
      have bundle : (head ++ body).take 8 = bundleTag := by
        rw [List.take_append_of_le_length (by omega), tag]
      obtain ⟨elems, framed, decodes⟩ := decodeBundle_framed floats 15 bundle
      rw [← sixteen, List.drop_left] at framed
      exact ⟨elems, framed, decodes⟩
    obtain ⟨others, further, _⟩ := decodes rest
    obtain ⟨elems, framed, whole⟩ := decodes (frames.flatMap Frame.bytes ++ (bad.bytes ++ rest))
    obtain ⟨elems', framed', without⟩ := decodes (frames.flatMap Frame.bytes ++ rest)
    rw [whole, without, framed.unique (Framed.append frames (.element bad further)),
      framed'.unique (Framed.append frames further), List.flatMap_append, List.flatMap_append, List.flatMap_cons]
    have empty : contribution floats 15 bad.elem = [] := nothing
    rw [empty, List.nil_append]

/-- A message to `/a` without arguments, behind its size -/
def ping : Frame := ⟨[0, 0, 0, 8], [47, 97, 0, 0, 44, 0, 0, 0], rfl, by decide, by decide⟩

/-- A blob of negative length, behind its size -/
def negativeBlob : Frame :=
  ⟨[0, 0, 0, 12], [47, 97, 0, 0, 44, 98, 0, 0, 255, 255, 255, 255], rfl, by decide, by decide⟩

theorem negativeBlob_passed :
    oscDecodeBundle rawFloats (bundleTag ++ List.replicate 8 0 ++ ([ping].flatMap Frame.bytes ++ (negativeBlob.bytes ++ ping.bytes))) =
      oscDecodeBundle rawFloats (bundleTag ++ List.replicate 8 0 ++ ([ping].flatMap Frame.bytes ++ ping.bytes)) :=
  (bundle_by_elements rawFloats).2.2.2 _ [ping] negativeBlob ping.bytes rfl rfl rfl

/-- An element of no bytes has a correct size, and what comes after it is not decoded. -/
theorem empty_element_ends : ¬∀ (head : List Nat) (frames : List Frame) (size elem rest : List Nat), head.length = 16 →
    head.take 8 = bundleTag → size.length = 4 → fromBytesSigned size = elem.length →
    decodeSingleMessage rawFloats elem = none →
    oscDecodeBundle rawFloats (head ++ (frames.flatMap Frame.bytes ++ (size ++ elem ++ rest))) =
      oscDecodeBundle rawFloats (head ++ (frames.flatMap Frame.bytes ++ rest)) := by
  have decoded : oscDecodeBundle rawFloats (bundleTag ++ List.replicate 8 0 ++ ping.bytes) = .ok [(text "/a", [])] := by
    decide +kernel
  have lost : oscDecodeBundle rawFloats (bundleTag ++ List.replicate 8 0 ++ ([0, 0, 0, 0] ++ ping.bytes)) = .ok [] := by
    decide +kernel
  intro all
  have same := all (bundleTag ++ List.replicate 8 0) [] [0, 0, 0, 0] [] ping.bytes rfl rfl rfl rfl rfl
  exact absurd (lost.symm.trans (same.trans decoded)) (by simp)

end Osc
