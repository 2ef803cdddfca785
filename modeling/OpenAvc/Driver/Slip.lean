import OpenAvc.Driver.Chunked

/-! SLIP frames after noise: the payloads come out, after one frame for every run of the noise. -/

namespace FrameParsers

theorem slipUnescapeFrom_of_plain {segment : Bytes} (plain : slipEsc ∉ segment) : slipUnescapeFrom false segment = segment := by
  induction segment with
  | nil => rfl
  | cons b segment ih =>
    obtain ⟨other, later⟩ := not_or.mp (mt List.mem_cons.mpr plain)
    rw [slipUnescapeFrom, if_neg (Ne.symm other), ih later]

/-- The fast path makes no difference. -/
theorem slipUnescape_eq (segment : Bytes) : slipUnescape segment = slipUnescapeFrom false segment := by
  unfold slipUnescape
  split
  · rename_i plain
    exact (slipUnescapeFrom_of_plain plain).symm
  · rfl

theorem slipUnescapeFrom_escape (b : UInt8) (segment : Bytes) :
    slipUnescapeFrom false (slipEscape b ++ segment) = b :: slipUnescapeFrom false segment := by
  unfold slipEscape
  split
  · rename_i same
    rw [same]
    rfl
  · split
    · rename_i same
      rw [same]
      rfl
    · rename_i other
      rw [List.singleton_append, slipUnescapeFrom, if_neg other]

theorem slipUnescape_flatMap (payload : Bytes) : slipUnescape (payload.flatMap slipEscape) = payload := by
  rw [slipUnescape_eq]
  induction payload with
  | nil => rfl
  | cons b payload ih => rw [List.flatMap_cons, slipUnescapeFrom_escape, ih]

theorem slipEnd_notMem_escape (payload : Bytes) : slipEnd ∉ payload.flatMap slipEscape := by
  intro within
  obtain ⟨b, _, inside⟩ := List.mem_flatMap.mp within
  unfold slipEscape at inside
  split at inside
  · exact absurd inside (by decide)
  · split at inside
    · exact absurd inside (by decide)
    · rename_i other _
      exact other (List.mem_singleton.mp inside).symm

theorem escape_ne_nil {payload : Bytes} (nonempty : payload ≠ []) : payload.flatMap slipEscape ≠ [] := by
  intro empty
  have back := slipUnescape_flatMap payload
  rw [empty] at back
  exact nonempty back.symm

/-- What one run between two ends gives. -/
def runFrame (run : Bytes) : Option Bytes :=
  (nonEmpty run).map slipUnescape

theorem runFrame_escape {payload : Bytes} (nonempty : payload ≠ []) : runFrame (payload.flatMap slipEscape) = some payload := by
  rw [runFrame, nonEmpty, if_neg (escape_ne_nil nonempty), Option.map_some, slipUnescape_flatMap]

/-- A run up to the first end byte. -/
theorem slipCut_run {run : Bytes} (free : slipEnd ∉ run) (rest : Bytes) :
    SlipFrameParser.framer.cut (run ++ [slipEnd] ++ rest) = .frame (runFrame run) rest := by
  have found : Framing.cut [slipEnd] (run ++ [slipEnd] ++ rest) = some (run, rest) := by
    induction run with
    | nil =>
      rw [List.nil_append, List.singleton_append, Framing.cut, if_pos ⟨rest, rfl⟩]
      rfl
    | cons b run ih =>
      obtain ⟨other, later⟩ := not_or.mp (mt List.mem_cons.mpr free)
      have notFirst : ¬[slipEnd] <+: b :: (run ++ [slipEnd] ++ rest) := fun first =>
        other (List.cons_prefix_cons.mp first).1
      rw [List.cons_append, List.cons_append, Framing.cut, if_neg notFirst, ih later]
      rfl
  rw [SlipFrameParser.framer_eq, Framing.framer_cut_some _ _ found]
  rfl

/-- Without an end byte there is no frame. -/
theorem slipCut_open {run : Bytes} (free : slipEnd ∉ run) : SlipFrameParser.framer.cut run = .more := by
  have nothing : Framing.cut [slipEnd] run = none := by
    cases found : Framing.cut [slipEnd] run with
    | none => rfl
    | some parts =>
      obtain ⟨msg, rest⟩ := parts
      have whole := Framing.cut_parts found
      exact absurd (whole ▸ List.mem_append_left rest (List.mem_append_right msg List.mem_cons_self)) free
  rw [SlipFrameParser.framer_eq, Framing.framer_cut_none _ _ nothing]

/-- Runs, each ended, before what is cut into frames already. -/
theorem frames_runs {limit : Nat} {runs : List Bytes} {rest : Bytes} {messages : List Bytes} {left : Bytes}
    (free : ∀ run ∈ runs, slipEnd ∉ run) (small : ∀ run ∈ runs, run.length ≤ limit)
    (frames : SlipFrameParser.framer.Frames (limit + 1) rest messages left) :
    SlipFrameParser.framer.Frames (limit + 1) (runs.flatMap (· ++ [slipEnd]) ++ rest)
      (runs.filterMap runFrame ++ messages) left := by
  induction runs with
  | nil => exact frames
  | cons run runs ih =>
    have later := ih (fun r member => free r (List.mem_cons_of_mem _ member)) fun r member => small r (List.mem_cons_of_mem _ member)
    have size := small run List.mem_cons_self
    have whole : (run :: runs).flatMap (· ++ [slipEnd]) ++ rest =
        run ++ [slipEnd] ++ (runs.flatMap (· ++ [slipEnd]) ++ rest) := by
      rw [List.flatMap_cons, List.append_assoc]
    have messages' : (run :: runs).filterMap runFrame ++ messages =
        (runFrame run).toList ++ (runs.filterMap runFrame ++ messages) := by
      cases frame : runFrame run with
      | none => rw [List.filterMap_cons_none frame]; rfl
      | some message => rw [List.filterMap_cons_some frame]; rfl
    rw [whole, messages']
    refine .cons (slipCut_run (free run List.mem_cons_self) _) ?_ later
    simp only [List.length_append, List.length_singleton]
    omega

/-- The runs between end bytes: all but the last are ended. -/
theorem splitOn_parts (garbage : Bytes) :
    ∃ runs last, garbage.splitOn slipEnd = runs ++ [last] ∧ garbage = runs.flatMap (· ++ [slipEnd]) ++ last ∧
      ∀ run ∈ garbage.splitOn slipEnd, slipEnd ∉ run := by
  induction garbage with
  | nil => exact ⟨[], [], rfl, rfl, by simp⟩
  | cons b garbage ih =>
    obtain ⟨runs, last, split, parts, free⟩ := ih
    rw [List.splitOn_cons_eq_if_modifyHead, split]
    rw [split] at free
    by_cases same : b = slipEnd
    · rw [if_pos (beq_iff_eq.mpr same), same]
      refine ⟨[] :: runs, last, rfl, by rw [List.flatMap_cons, parts]; rfl, fun run member => ?_⟩
      rcases List.mem_cons.mp member with rfl | member
      · exact List.not_mem_nil
      · exact free run member
    · rw [if_neg (mt beq_iff_eq.mp same)]
      have longer (run : Bytes) (free : slipEnd ∉ run) : slipEnd ∉ b :: run := fun within =>
        (List.mem_cons.mp within).elim (fun first => same first.symm) free
      cases runs with
      | nil =>
        refine ⟨[], b :: last, rfl, by rw [parts]; rfl, fun run member => ?_⟩
        rw [List.mem_singleton.mp member]
        exact longer last (free last (List.mem_singleton_self _))
      | cons run runs =>
        refine ⟨(b :: run) :: runs, last, rfl, by rw [parts]; rfl, fun run' member => ?_⟩
        rcases List.mem_cons.mp member with rfl | member
        · exact longer run (free run List.mem_cons_self)
        · exact free run' (List.mem_cons_of_mem _ member)

/-- The frames made of noise, where an end byte comes after it. -/
def noise (garbage : Bytes) : List Bytes :=
  (garbage.splitOn slipEnd).filterMap runFrame

/-- Between two payloads there is an empty run. -/
theorem flatMap_slipEncode (payload : Bytes) (payloads : List Bytes) :
    (payload :: payloads).flatMap slipEncode = [slipEnd] ++
      (payload.flatMap slipEscape :: payloads.flatMap fun p => [[], p.flatMap slipEscape]).flatMap (· ++ [slipEnd]) := by
  induction payloads generalizing payload with
  | nil => simp [slipEncode]
  | cons second payloads ih =>
    rw [List.flatMap_cons, ih second]
    simp [slipEncode]

theorem filterMap_payloads {payloads : List Bytes} (nonempty : ∀ p ∈ payloads, p ≠ []) :
    (payloads.flatMap fun p => [[], p.flatMap slipEscape]).filterMap runFrame = payloads := by
  induction payloads with
  | nil => rfl
  | cons payload payloads ih =>
    have first := runFrame_escape (nonempty payload List.mem_cons_self)
    have empty : runFrame [] = none := rfl
    rw [List.flatMap_cons, List.filterMap_append, ih fun p member => nonempty p (List.mem_cons_of_mem _ member)]
    simp [first, empty]

/-- The payloads come out in their order, however the stream is cut; before them one frame for every run
of the noise that is not empty, the last of them ended by the first payload. -/
theorem slip_feedAll (p : SlipFrameParser) {garbage : Bytes} {payloads chunks : List Bytes}
    (nonempty : ∀ payload ∈ payloads, payload ≠ []) (fits : ∀ payload ∈ payloads, (payload.flatMap slipEscape).length ≤ p.maxBuffer)
    (quiet : ∀ run ∈ garbage.splitOn slipEnd, run.length ≤ p.maxBuffer)
    (stream : chunks.flatten = garbage ++ payloads.flatMap slipEncode) :
    (∃ before, p.feedAll chunks = before ++ payloads ∧ before <+: noise garbage ∧ (payloads ≠ [] → before = noise garbage)) ∧
      (slipEnd ∉ garbage → (noise garbage).length ≤ 1) ∧ noise [] = [] := by
  obtain ⟨runs, last, split, parts, free⟩ := splitOn_parts garbage
  have ended : ∀ run ∈ runs, slipEnd ∉ run ∧ run.length ≤ p.maxBuffer := fun run member =>
    have within : run ∈ garbage.splitOn slipEnd := split ▸ List.mem_append_left _ member
    ⟨free run within, quiet run within⟩
  have within : last ∈ garbage.splitOn slipEnd := split ▸ List.mem_append_right runs List.mem_cons_self
  refine ⟨?_, ?_, rfl⟩
  · cases payloads with
    | nil =>
      have frames := frames_runs (fun run member => (ended run member).1) (fun run member => (ended run member).2)
        (.nil (slipCut_open (free last within)))
      rw [List.flatMap_nil, List.append_nil, parts] at stream
      rw [← stream] at frames
      refine ⟨runs.filterMap runFrame, p.feedAll_eq frames, ?_, fun some => absurd rfl some⟩
      rw [noise, split, List.filterMap_append]
      exact List.prefix_append _ _
    | cons payload payloads =>
      refine ⟨noise garbage, ?_, List.prefix_rfl, fun _ => rfl⟩
      -- the end byte that opens the first payload ends what is left of the noise
      let segments := payload.flatMap slipEscape :: payloads.flatMap fun p => [[], p.flatMap slipEscape]
      have segment (run : Bytes) (member : run ∈ segments) : slipEnd ∉ run ∧ run.length ≤ p.maxBuffer := by
        rcases List.mem_cons.mp member with rfl | member
        · exact ⟨slipEnd_notMem_escape payload, fits payload List.mem_cons_self⟩
        · obtain ⟨q, inside, member⟩ := List.mem_flatMap.mp member
          rcases List.mem_cons.mp member with rfl | member
          · exact ⟨List.not_mem_nil, Nat.zero_le _⟩
          · rw [List.mem_singleton.mp member]
            exact ⟨slipEnd_notMem_escape q, fits q (List.mem_cons_of_mem _ inside)⟩
      have each (run : Bytes) (member : run ∈ garbage.splitOn slipEnd ++ segments) : slipEnd ∉ run ∧ run.length ≤ p.maxBuffer :=
        (List.mem_append.mp member).elim (fun member => ⟨free run member, quiet run member⟩) (segment run)
      have whole : chunks.flatten = (garbage.splitOn slipEnd ++ segments).flatMap (· ++ [slipEnd]) ++ [] := by
        rw [stream, flatMap_slipEncode, split, List.append_nil, List.flatMap_append, List.flatMap_append, parts]
        simp [segments]
      have frames := frames_runs (fun run member => (each run member).1) (fun run member => (each run member).2)
        (.nil (@slipCut_open [] List.not_mem_nil))
      rw [← whole, List.filterMap_append, List.append_nil] at frames
      have first := runFrame_escape (nonempty payload List.mem_cons_self)
      have rest := filterMap_payloads fun q member => nonempty q (List.mem_cons_of_mem payload member)
      rw [p.feedAll_eq frames, List.filterMap_cons_some first, rest]
      rfl
  · intro plain
    have whole := List.splitOn_eq_singleton plain
    rw [noise, whole]
    exact List.length_filterMap_le _ _

/-- Noise without an end byte, and a payload that has one. -/
theorem slip_feedAll_noise :
    (∃ before, (⟨8⟩ : SlipFrameParser).feedAll [[1, 2, 0xC0, 0xDB], [0xDC, 0xC0]] = before ++ [[0xC0]] ∧
        before <+: noise [1, 2] ∧ ([[(0xC0 : UInt8)]] ≠ [] → before = noise [1, 2])) ∧
      (slipEnd ∉ ([1, 2] : Bytes) → (noise [1, 2]).length ≤ 1) ∧ noise [] = [] :=
  slip_feedAll ⟨8⟩ (by decide) (by decide) (by decide) (by decide)

/-- Noise with an end byte in it makes two frames. -/
theorem slip_noise_of_two :
    ([1, 0xC0, 2] : Bytes).length ≤ 8 ∧
      (⟨8⟩ : SlipFrameParser).feedAll [[1, 0xC0, 2] ++ slipEncode [3]] = [[1], [2], [3]] ∧
      ¬∃ before, (⟨8⟩ : SlipFrameParser).feedAll [[1, 0xC0, 2] ++ slipEncode [3]] = before ++ [[3]] ∧ before.length ≤ 1 := by
  have whole : (⟨8⟩ : SlipFrameParser).feedAll [[1, 0xC0, 2] ++ slipEncode [3]] = [[1], [2], [3]] := by decide
  refine ⟨by decide, whole, fun ⟨before, same, short⟩ => ?_⟩
  have length := congrArg List.length (whole.symm.trans same)
  rw [List.length_append] at length
  simp only [List.length_cons, List.length_nil] at length
  omega

end FrameParsers
