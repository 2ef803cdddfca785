import OpenAvc.Driver.FrameParsers

/-! However a stream is cut into chunks, the same messages come out of it. A parser of a fixed length
looks at the size too early: a chunk of many frames is thrown away. -/

namespace FrameParsers

/-- `feed`, one chunk after the other. -/
def DelimiterFrameParser.feedAll (p : DelimiterFrameParser) (chunks : List Bytes) : List Bytes :=
  (p.framer.feedAll p.maxBuffer [] chunks).1

def SlipFrameParser.feedAll (p : SlipFrameParser) (chunks : List Bytes) : List Bytes :=
  (SlipFrameParser.framer.feedAll p.maxBuffer [] chunks).1

def StructFrameParser.feedAll (p : StructFrameParser) (chunks : List Bytes) : List Bytes :=
  (p.framer.feedAll p.maxBuffer [] chunks).1

variable {stream : Bytes} {messages : List Bytes} {left : Bytes} {chunks : List Bytes}

theorem DelimiterFrameParser.framer_eq (p : DelimiterFrameParser) : p.framer = Framing.framer p.nonempty nonEmpty :=
  Framer.as_eq _ _ p.cut_eq

theorem SlipFrameParser.framer_eq :
    SlipFrameParser.framer = Framing.framer (List.cons_ne_nil slipEnd []) fun segment => (nonEmpty segment).map slipUnescape :=
  Framer.as_eq _ _ SlipFrameParser.cut_eq

theorem StructFrameParser.framer_eq (p : StructFrameParser) : p.framer = p.sizes.framer :=
  Framer.as_eq _ _ p.cut_eq

/-- A message and its delimiter: what is held of them is shorter by one byte at least. -/
theorem DelimiterFrameParser.feedAll_eq (p : DelimiterFrameParser)
    (frames : p.framer.Frames (p.maxBuffer + 1) chunks.flatten messages left) : p.feedAll chunks = messages := by
  have empty : p.framer.cut [] = .more := rfl
  have quiet : p.framer.Quiet p.maxBuffer := p.framer_eq ▸ Framing.framer_quiet p.nonempty nonEmpty p.maxBuffer
  exact frames.feedAll empty quiet le_rfl

theorem SlipFrameParser.feedAll_eq (p : SlipFrameParser)
    (frames : SlipFrameParser.framer.Frames (p.maxBuffer + 1) chunks.flatten messages left) : p.feedAll chunks = messages := by
  have empty : SlipFrameParser.framer.cut [] = .more := rfl
  have quiet : SlipFrameParser.framer.Quiet p.maxBuffer :=
    SlipFrameParser.framer_eq ▸ Framing.framer_quiet (List.cons_ne_nil slipEnd []) _ p.maxBuffer
  exact frames.feedAll empty quiet le_rfl

theorem StructFrameParser.feedAll_eq (p : StructFrameParser)
    (frames : p.framer.Frames p.maxBuffer chunks.flatten messages left) : p.feedAll chunks = messages := by
  have empty : p.framer.cut [] = .more := p.framer_eq ▸ p.sizes.cut_nil
  have quiet : p.framer.Quiet p.maxBuffer := p.framer_eq ▸ p.sizes.quiet
  exact frames.feedAll empty quiet (Nat.le_succ _)

namespace FixedLengthFrameParser

variable (p : FixedLengthFrameParser)

/-- Every frame has the same size. -/
def sizes : Sized UInt8 Bytes where
  header := p.length
  limit := p.length
  total _ := p.length
  message frame := some frame
  headed _ _ := rfl
  covers _ := le_rfl
  positive := p.positive

def framer : Framer UInt8 Bytes :=
  p.sizes.framer

theorem framer_cut (buffer : Bytes) :
    p.framer.cut buffer =
      if buffer.length < p.length then .more else .frame (some (buffer.take p.length)) (buffer.drop p.length) := by
  show p.sizes.cut buffer = _
  unfold Sized.cut
  by_cases short : buffer.length < p.length
  · rw [if_pos short]
    exact if_pos short
  · rw [if_neg short]
    exact (if_neg short).trans ((if_neg (Nat.lt_irrefl p.length)).trans (if_neg short))

theorem frames_eq_loop (fuel : Nat) (buffer : Bytes) : p.frames fuel buffer = p.framer.loop fuel buffer := by
  induction fuel generalizing buffer with
  | zero => rfl
  | succ fuel ih =>
    rw [frames, Framer.loop, p.framer_cut]
    by_cases short : buffer.length < p.length
    · rw [if_pos short, if_neg (by omega)]
    · rw [if_neg short, if_pos (by omega), ih]
      rfl

/-- What comes out, what is left over, and what went in. -/
theorem frames_count {fuel : Nat} {buffer : Bytes} (enough : buffer.length ≤ fuel) :
    (p.frames fuel buffer).1.length * p.length + (p.frames fuel buffer).2.length = buffer.length ∧
      (p.frames fuel buffer).2.length < p.length := by
  have positive := p.positive
  induction fuel generalizing buffer with
  | zero =>
    have empty : buffer.length = 0 := by omega
    exact ⟨by simp [frames, empty], by simpa [frames, empty] using positive⟩
  | succ fuel ih =>
    rw [frames]
    split
    · have size : (buffer.drop p.length).length = buffer.length - p.length := List.length_drop
      obtain ⟨sum, less⟩ := @ih (buffer.drop p.length) (by omega)
      refine ⟨?_, less⟩
      dsimp only
      rw [List.length_cons, Nat.succ_mul]
      omega
    · exact ⟨by simp, by dsimp only; omega⟩

/-- No chunk is longer, together with what is held when it comes, than the buffer may be. After `seen`
bytes the rest of `seen` by the length is held. -/
def Fits : Nat → List Bytes → Prop
  | _, [] => True
  | seen, chunk :: chunks => seen % p.length + chunk.length ≤ p.maxBuffer ∧ Fits (seen + chunk.length) chunks

theorem feed_of_room {buffer chunk : Bytes} (room : buffer.length + chunk.length ≤ p.maxBuffer) :
    p.feed buffer chunk = p.frames (buffer ++ chunk).length (buffer ++ chunk) := by
  have fits : ¬(buffer ++ chunk).length > p.maxBuffer := by
    rw [List.length_append]
    omega
  unfold feed
  dsimp only
  rw [if_neg fits]

theorem feed_of_overflow {buffer chunk : Bytes} (tooMuch : p.maxBuffer < buffer.length + chunk.length) :
    p.feed buffer chunk = ([], []) := by
  have tooMuch' : (buffer ++ chunk).length > p.maxBuffer := by
    rw [List.length_append]
    omega
  unfold feed
  dsimp only
  rw [if_pos tooMuch']
  rfl

theorem feed_eq {buffer chunk : Bytes} (room : buffer.length + chunk.length ≤ p.maxBuffer) :
    p.feed buffer chunk = p.framer.feed p.length buffer chunk := by
  have less := (p.frames_count (le_refl (buffer ++ chunk).length)).2
  rw [p.feed_of_room room, Framer.feed, ← p.frames_eq_loop]
  dsimp only
  rw [if_neg (by omega)]

/-- As much is held as there is beyond the last whole frame. -/
theorem feed_count {buffer chunk : Bytes} {seen : Nat} (held : buffer.length = seen % p.length)
    (room : buffer.length + chunk.length ≤ p.maxBuffer) :
    (p.feed buffer chunk).1.length * p.length + (p.feed buffer chunk).2.length = buffer.length + chunk.length ∧
      (p.feed buffer chunk).2.length = (seen + chunk.length) % p.length := by
  obtain ⟨sum, less⟩ := p.frames_count (le_refl (buffer ++ chunk).length)
  rw [← p.feed_of_room room] at sum less
  rw [List.length_append] at sum
  refine ⟨sum, ?_⟩
  have whole := Nat.mod_eq_of_lt less
  rw [← Nat.mul_add_mod_self_right (p.feed buffer chunk).1.length, sum, held, Nat.mod_add_mod] at whole
  exact whole.symm

variable {p}

theorem Fits.feedAll_eq {buffer : Bytes} {seen : Nat} (fits : p.Fits seen chunks) (held : buffer.length = seen % p.length) :
    p.feedAll buffer chunks = p.framer.feedAll p.length buffer chunks := by
  induction chunks generalizing buffer seen with
  | nil => rfl
  | cons chunk chunks ih =>
    obtain ⟨room, later⟩ := fits
    rw [← held] at room
    have next := (p.feed_count held room).2
    rw [feedAll, Framer.feedAll, ← p.feed_eq room]
    dsimp only
    rw [ih later next]

variable (p)

theorem count_le (buffer : Bytes) (chunks : List Bytes) :
    (p.feedAll buffer chunks).1.length * p.length + (p.feedAll buffer chunks).2.length ≤
      buffer.length + chunks.flatten.length := by
  induction chunks generalizing buffer with
  | nil => simp [feedAll]
  | cons chunk chunks ih =>
    have later := ih (p.feed buffer chunk).2
    rw [feedAll]
    dsimp only
    rw [List.length_append, Nat.add_mul, List.flatten_cons, List.length_append]
    by_cases room : buffer.length + chunk.length ≤ p.maxBuffer
    · have sum := (p.frames_count (le_refl (buffer ++ chunk).length)).1
      rw [← p.feed_of_room room, List.length_append] at sum
      omega
    · rw [p.feed_of_overflow (Nat.lt_of_not_le room)] at later ⊢
      simp only [List.length_nil] at later ⊢
      omega

variable {p}

/-- Where a chunk does not fit, more bytes are lost than the buffer may have. -/
theorem count_lost {buffer : Bytes} {seen : Nat} (held : buffer.length = seen % p.length) (lost : ¬p.Fits seen chunks) :
    (p.feedAll buffer chunks).1.length * p.length + p.maxBuffer < buffer.length + chunks.flatten.length := by
  induction chunks generalizing buffer seen with
  | nil => exact absurd trivial lost
  | cons chunk chunks ih =>
    rw [feedAll]
    dsimp only
    rw [List.length_append, Nat.add_mul, List.flatten_cons, List.length_append]
    by_cases room : buffer.length + chunk.length ≤ p.maxBuffer
    · obtain ⟨sum, next⟩ := p.feed_count held room
      have later := ih next fun fits => lost ⟨held ▸ room, fits⟩
      omega
    · have later := p.count_le [] chunks
      rw [p.feed_of_overflow (Nat.lt_of_not_le room)]
      simp only [List.length_nil] at later ⊢
      omega

theorem frames_exact {bound : Nat} {stream : Bytes} (frames : p.framer.Frames bound stream messages left) :
    p.framer.Frames p.length stream messages left := by
  induction frames with
  | nil found => exact .nil found
  | cons found _ _ ih =>
    refine .cons found ?_ ih
    rw [p.framer_cut] at found
    split at found
    · cases found
    · obtain ⟨_, rfl⟩ := Framer.Cut.frame.inj found
      rw [List.length_drop]
      omega

/-- There is a frame as soon as there are enough bytes, and none before. -/
theorem frames_length {bound : Nat} {stream : Bytes} (frames : p.framer.Frames bound stream messages left) :
    messages.length * p.length + left.length = stream.length ∧ left.length < p.length ∧
      (p.length ≤ stream.length → p.length ≤ bound) := by
  have counted := p.frames_count (le_refl stream.length)
  rw [p.frames_eq_loop, frames.loop le_rfl] at counted
  refine ⟨counted.1, counted.2, fun enough => ?_⟩
  have first : p.framer.cut stream = .frame (some (stream.take p.length)) (stream.drop p.length) := by
    rw [p.framer_cut, if_neg (by omega)]
  cases frames with
  | nil found => cases found.symm.trans first
  | cons found size _ =>
    obtain ⟨_, rfl⟩ := Framer.Cut.frame.inj (found.symm.trans first)
    rw [List.length_drop] at size
    omega

/-- All frames come out where every chunk has room, or where there is no frame. -/
theorem feedAll_eq_iff (frames : p.framer.Frames p.maxBuffer chunks.flatten messages left) :
    (p.feedAll [] chunks).1 = messages ↔ chunks.flatten.length < p.length ∨ p.Fits 0 chunks := by
  have held : ([] : Bytes).length = 0 % p.length := (Nat.zero_mod _).symm
  obtain ⟨sum, less, small⟩ := p.frames_length frames
  constructor
  · intro all
    by_contra neither
    obtain ⟨long, lost⟩ := not_or.mp neither
    have missing := count_lost held lost
    have room := small (Nat.le_of_not_lt long)
    rw [all, List.length_nil] at missing
    omega
  · rintro (short | fits)
    · have positive := p.positive
      have none' : messages.length = 0 := by
        by_contra some
        have one := Nat.le_mul_of_pos_left p.length (Nat.pos_of_ne_zero some)
        omega
      have nothing := p.count_le [] chunks
      have none'' : (p.feedAll [] chunks).1.length = 0 := by
        by_contra some
        have one := Nat.le_mul_of_pos_left p.length (Nat.pos_of_ne_zero some)
        rw [List.length_nil] at nothing
        omega
      rw [List.length_eq_zero_iff.mp none', List.length_eq_zero_iff.mp none'']
    · rw [fits.feedAll_eq held]
      have quiet : p.framer.Quiet p.length := p.sizes.quiet
      exact (p.frames_exact frames).feedAll p.sizes.cut_nil quiet (Nat.le_succ _)

end FixedLengthFrameParser

/-- Two ways to cut a stream whose frames all have room give its messages, every one of them; with a
fixed length they do where no chunk together with what is held overflows the buffer. -/
theorem messages_of_any_chunks {chunks chunks' : List Bytes} (same : chunks'.flatten = chunks.flatten) :
    (∀ (p : DelimiterFrameParser) messages left, p.framer.Frames (p.maxBuffer + 1) chunks.flatten messages left →
        p.feedAll chunks = messages ∧ p.feedAll chunks' = messages) ∧
      (∀ (p : SlipFrameParser) messages left, SlipFrameParser.framer.Frames (p.maxBuffer + 1) chunks.flatten messages left →
        p.feedAll chunks = messages ∧ p.feedAll chunks' = messages) ∧
      (∀ (p : StructFrameParser) messages left, p.framer.Frames p.maxBuffer chunks.flatten messages left →
        p.feedAll chunks = messages ∧ p.feedAll chunks' = messages) ∧
      ∀ (p : FixedLengthFrameParser) messages left, p.framer.Frames p.maxBuffer chunks.flatten messages left →
        (((p.feedAll [] chunks).1 = messages ∧ (p.feedAll [] chunks').1 = messages) ↔
          (chunks.flatten.length < p.length ∨ (p.Fits 0 chunks ∧ p.Fits 0 chunks'))) := by
  refine ⟨fun p messages left frames => ?_, fun p messages left frames => ?_, fun p messages left frames => ?_,
    fun p messages left frames => ?_⟩
  · exact ⟨p.feedAll_eq frames, p.feedAll_eq (same ▸ frames)⟩
  · exact ⟨p.feedAll_eq frames, p.feedAll_eq (same ▸ frames)⟩
  · exact ⟨p.feedAll_eq frames, p.feedAll_eq (same ▸ frames)⟩
  · have first := FixedLengthFrameParser.feedAll_eq_iff frames
    rw [← same] at frames
    have second := FixedLengthFrameParser.feedAll_eq_iff frames
    rw [same] at second
    rw [first, second]
    tauto

theorem six_bytes_frames : (⟨2, 4, by decide⟩ : FixedLengthFrameParser).framer.Frames 4 [1, 2, 3, 4, 5, 6]
    [[1, 2], [3, 4], [5, 6]] [] := by
  have last : (⟨2, 4, by decide⟩ : FixedLengthFrameParser).framer.Frames 4 [5, 6] [[5, 6]] [] :=
    @Framer.Frames.cons _ _ _ 4 _ (some [5, 6]) [] _ _ rfl (by decide) (.nil rfl)
  have second : (⟨2, 4, by decide⟩ : FixedLengthFrameParser).framer.Frames 4 [3, 4, 5, 6] [[3, 4], [5, 6]] [] :=
    @Framer.Frames.cons _ _ _ 4 _ (some [3, 4]) [5, 6] _ _ rfl (by decide) last
  exact @Framer.Frames.cons _ _ _ 4 _ (some [1, 2]) [3, 4, 5, 6] _ _ rfl (by decide) second

/-- Six bytes of frames of two come one by one, or five of them at once. -/
theorem messages_of_six_bytes :
    ((⟨2, 4, by decide⟩ : FixedLengthFrameParser).feedAll [] [[1], [2], [3], [4], [5], [6]]).1 = [[1, 2], [3, 4], [5, 6]] ∧
      ((⟨2, 4, by decide⟩ : FixedLengthFrameParser).feedAll [] [[1, 2, 3, 4, 5], [6]]).1 ≠ [[1, 2], [3, 4], [5, 6]] := by
  have both := (@messages_of_any_chunks [[1], [2], [3], [4], [5], [6]] [[1, 2, 3, 4, 5], [6]] rfl).2.2.2 ⟨2, 4, by decide⟩ _ _
    six_bytes_frames
  have whole : ((⟨2, 4, by decide⟩ : FixedLengthFrameParser).feedAll [] [[1], [2], [3], [4], [5], [6]]).1 =
      [[1, 2], [3, 4], [5, 6]] := by decide
  refine ⟨whole, fun other => ?_⟩
  rcases both.mp ⟨whole, other⟩ with short | ⟨_, fits⟩
  · exact absurd short (by decide)
  · exact absurd fits.1 (by decide)

/-- A chunk of three frames, of which none comes out. -/
theorem chunk_of_frames_lost :
    (⟨2, 4, by decide⟩ : FixedLengthFrameParser).framer.Frames 4 [1, 2, 3, 4, 5, 6] [[1, 2], [3, 4], [5, 6]] [] ∧
      ((⟨2, 4, by decide⟩ : FixedLengthFrameParser).feedAll [] [[1], [2], [3], [4], [5], [6]]).1 = [[1, 2], [3, 4], [5, 6]] ∧
      ((⟨2, 4, by decide⟩ : FixedLengthFrameParser).feedAll [] [[1, 2, 3, 4, 5, 6]]).1 = [] :=
  ⟨six_bytes_frames, by decide, by decide⟩

end FrameParsers
