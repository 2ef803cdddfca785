import OpenAvc.Data.Utf8Codec
import OpenAvc.Driver.FrameParsers

/-! The frames a driver sends, and the two ways to take them apart again. -/

namespace FrameParsers

/-- `encode_escape_sequences`: `none` where a character has no bytes. -/
def encodeEscapeSequences : Text → Option Bytes
  | [] => some []
  | 92 :: 114 :: t => (encodeEscapeSequences t).map (13 :: ·)
  | 92 :: 110 :: t => (encodeEscapeSequences t).map (10 :: ·)
  | 92 :: 116 :: t => (encodeEscapeSequences t).map (9 :: ·)
  | 92 :: 92 :: t => (encodeEscapeSequences t).map (92 :: ·)
  | 92 :: 120 :: a :: b :: t =>
    match Json.Scan.hexValue a, Json.Scan.hexValue b with
    | some high, some low => (encodeEscapeSequences t).map (UInt8.ofNat (high * 16 + low) :: ·)
    | _, _ => (encodeEscapeSequences (120 :: a :: b :: t)).map (92 :: ·)
  | c :: t =>
    match Utf8.encode [c] with
    | some raw => (encodeEscapeSequences t).map (raw.map UInt8.ofNat ++ ·)
    | none => none

/-- A `send_frame` block. -/
structure SendFrameConfig where
  type : Option Text := none
  header : Option Text := none
  afterLength : Option Text := none
  lengthSize : Option Nat := none
  lengthEndian : Option Text := none

/-- What `build_send_frame` computes once. -/
structure SendFrame where
  header : Bytes
  afterLength : Bytes
  lengthSize : Nat
  lengthEndian : Endian
  deriving DecidableEq

/-- `build_send_frame`: nothing for a block of another type; the error of a text that cannot be encoded is
the outer `none`. -/
def buildSendFrame : Option SendFrameConfig → Option (Option SendFrame)
  | none => some none
  | some cfg =>
    if cfg.type.getD (text "length_prefix") ≠ text "length_prefix" then some none
    else
      match encodeEscapeSequences (cfg.header.getD []), encodeEscapeSequences (cfg.afterLength.getD []) with
      | some header, some afterLength =>
        some (some ⟨header, afterLength, cfg.lengthSize.getD 4, .of (cfg.lengthEndian.getD (text "big"))⟩)
      | _, _ => none

/-- `value.to_bytes(size, endian)` of a value that has room. -/
def Endian.toBytes : Endian → Nat → Nat → Bytes
  | .big, size, n => (Octets.toBytes size n).map UInt8.ofNat
  | .little, size, n => ((Octets.toBytes size n).map UInt8.ofNat).reverse

/-- `pack_length_prefix`: `none` where it raises. -/
def packLengthPrefix (value size : Nat) (endian : Endian) : Option Bytes :=
  if size < 1 then none else if value < 256 ^ size then some (endian.toBytes size value) else none

/-- `apply_send_frame` -/
def applySendFrame : Option SendFrame → Bytes → Option Bytes
  | none, data => some data
  | some sf, data => (packLengthPrefix data.length sf.lengthSize sf.lengthEndian).map fun length =>
      sf.header ++ length ++ sf.afterLength ++ data

namespace SendFrame

variable (sf : SendFrame)

/-- `total_header` -/
def totalHeader : Nat :=
  sf.header.length + sf.lengthSize + sf.afterLength.length

/-- `data_len` -/
def dataLen (buffer : Bytes) : Nat :=
  sf.lengthEndian.fromBytes (slice buffer sf.header.length sf.lengthSize)

/-- The loop of `split_send_frames`, with as many rounds as it takes. -/
def splitLoop (maxBuffer : Nat) : Nat → Bytes → List Bytes × Bytes
  | 0, buffer => ([], buffer)
  | fuel + 1, buffer =>
    if buffer.length ≥ sf.totalHeader then
      let total := sf.totalHeader + sf.dataLen buffer
      if total > maxBuffer then ([], [])
      else if buffer.length < total then ([], buffer)
      else
        ((buffer.take total).drop sf.totalHeader :: (splitLoop maxBuffer fuel (buffer.drop total)).1,
          (splitLoop maxBuffer fuel (buffer.drop total)).2)
    else ([], buffer)

/-- `split_send_frames`: the bodies, and what becomes of the buffer. -/
def split (maxBuffer : Nat) (buffer : Bytes) : List Bytes × Bytes :=
  let (messages, buffer) := sf.splitLoop maxBuffer buffer.length buffer
  (messages, if buffer.length > maxBuffer then [] else buffer)

/-- The buffer of a connection, with a chunk put behind it each time. -/
def splitAll (maxBuffer : Nat) : Bytes → List Bytes → List Bytes × Bytes
  | buffer, [] => ([], buffer)
  | buffer, chunk :: chunks =>
    let (messages, buffer) := sf.split maxBuffer (buffer ++ chunk)
    (messages ++ (splitAll maxBuffer buffer chunks).1, (splitAll maxBuffer buffer chunks).2)

/-- The parser for what this frame sends. -/
def receiver (size : sf.lengthSize = 1 ∨ sf.lengthSize = 2 ∨ sf.lengthSize = 4) (maxBuffer : Nat) : LengthPrefixFrameParser where
  headerSize := sf.lengthSize
  lengthOffset := sf.header.length
  headerExtra := sf.afterLength.length
  lengthEndian := sf.lengthEndian
  maxBuffer := maxBuffer
  sized := size

end SendFrame

/-- `feed`, one chunk after the other. -/
def LengthPrefixFrameParser.feedAll (p : LengthPrefixFrameParser) (buffer : Bytes) (chunks : List Bytes) : List Bytes × Bytes :=
  p.framer.feedAll p.maxBuffer buffer chunks

theorem Endian.length_toBytes (endian : Endian) (size n : Nat) : (endian.toBytes size n).length = size := by
  cases endian <;> simp [Endian.toBytes]

/-- The octets of a number are bytes. -/
theorem octets_lt (size n : Nat) : ∀ b ∈ Octets.toBytes size n, b < 256 := by
  induction size generalizing n with
  | zero => simp [Octets.toBytes]
  | succ size ih =>
    intro b member
    rw [Octets.toBytes] at member
    rcases List.mem_append.mp member with earlier | last
    · exact ih _ b earlier
    · rw [List.mem_singleton.mp last]
      omega

theorem map_toNat_ofNat {raw : List Nat} (small : ∀ b ∈ raw, b < 256) : (raw.map UInt8.ofNat).map UInt8.toNat = raw := by
  rw [List.map_map]
  conv_rhs => rw [← List.map_id raw]
  refine List.map_congr_left fun b member => ?_
  rw [Function.comp_apply, UInt8.toNat_ofNat_of_lt' (small b member)]
  rfl

/-- A length that has room is read as it was written. -/
theorem Endian.fromBytes_toBytes (endian : Endian) {size n : Nat} (room : n < 256 ^ size) :
    endian.fromBytes (endian.toBytes size n) = n := by
  have back := map_toNat_ofNat (octets_lt size n)
  cases endian with
  | big => rw [Endian.toBytes, Endian.fromBytes, back, Octets.fromBytes_toBytes room]
  | little => rw [Endian.toBytes, Endian.fromBytes, List.reverse_reverse, back, Octets.fromBytes_toBytes room]

namespace SendFrame

variable (sf : SendFrame) (size : sf.lengthSize = 1 ∨ sf.lengthSize = 2 ∨ sf.lengthSize = 4) (maxBuffer : Nat)

/-- Both loops take off the same frames, for the same reasons. -/
theorem splitLoop_eq (fuel : Nat) (buffer : Bytes) :
    sf.splitLoop maxBuffer fuel buffer = (sf.receiver size maxBuffer).framer.loop fuel buffer := by
  induction fuel generalizing buffer with
  | zero => rfl
  | succ fuel ih =>
    have header : (sf.receiver size maxBuffer).frameHeader = sf.totalHeader := rfl
    have length : (sf.receiver size maxBuffer).payloadLen buffer = sf.dataLen buffer := by
      show ((sf.dataLen buffer : Int) + 0).toNat = sf.dataLen buffer
      omega
    have cut : (sf.receiver size maxBuffer).framer.cut buffer = (sf.receiver size maxBuffer).cut buffer := rfl
    rw [splitLoop, Framer.loop, cut]
    unfold LengthPrefixFrameParser.cut
    rw [header, length]
    by_cases short : buffer.length < sf.totalHeader
    · rw [if_neg (by omega), if_pos short]
    · rw [if_pos (by omega), if_neg short]
      dsimp only
      by_cases tooMuch : sf.totalHeader + sf.dataLen buffer > maxBuffer
      · have tooMuch' : sf.totalHeader + sf.dataLen buffer > (sf.receiver size maxBuffer).maxBuffer := tooMuch
        rw [if_pos tooMuch, if_pos tooMuch']
      · have room : ¬sf.totalHeader + sf.dataLen buffer > (sf.receiver size maxBuffer).maxBuffer := tooMuch
        rw [if_neg tooMuch, if_neg room]
        by_cases part : buffer.length < sf.totalHeader + sf.dataLen buffer
        · rw [if_pos part, if_pos part]
        · rw [if_neg part, if_neg part, ih]
          rfl

/-- A chunk has the same effect on both sides. -/
theorem split_eq (buffer chunk : Bytes) :
    sf.split maxBuffer (buffer ++ chunk) = (sf.receiver size maxBuffer).feed buffer chunk := by
  rw [split, sf.splitLoop_eq size maxBuffer]
  rfl

theorem splitAll_eq (buffer : Bytes) (chunks : List Bytes) :
    sf.splitAll maxBuffer buffer chunks = (sf.receiver size maxBuffer).feedAll buffer chunks := by
  induction chunks generalizing buffer with
  | nil => rfl
  | cons chunk chunks ih =>
    rw [splitAll, sf.split_eq size maxBuffer]
    show _ = Framer.feedAll _ _ buffer (chunk :: chunks)
    rw [Framer.feedAll]
    dsimp only
    rw [ih]
    rfl

/-- What is sent for a body. -/
def wire (body : Bytes) : Bytes :=
  sf.header ++ sf.lengthEndian.toBytes sf.lengthSize body.length ++ sf.afterLength ++ body

/-- A body has room in the length field and, with its header, in the buffer. -/
def Fits (body : Bytes) : Prop :=
  body.length < 256 ^ sf.lengthSize ∧ sf.totalHeader + body.length ≤ maxBuffer

variable {sf maxBuffer} {body : Bytes}

theorem Fits.apply (fits : sf.Fits maxBuffer body) (some' : 0 < sf.lengthSize) :
    applySendFrame (some sf) body = some (sf.wire body) := by
  rw [applySendFrame, packLengthPrefix, if_neg (by omega), if_pos fits.1]
  rfl

theorem wire_length : (sf.wire body).length = sf.totalHeader + body.length := by
  have size := sf.lengthEndian.length_toBytes sf.lengthSize body.length
  simp only [wire, totalHeader, List.length_append]
  omega

/-- The length field of what is sent says the length of the body. -/
theorem Fits.dataLen (fits : sf.Fits maxBuffer body) : sf.dataLen (sf.wire body) = body.length := by
  have size := sf.lengthEndian.length_toBytes sf.lengthSize body.length
  have field : slice (sf.wire body) sf.header.length sf.lengthSize = sf.lengthEndian.toBytes sf.lengthSize body.length := by
    rw [slice, wire, List.append_assoc, List.append_assoc, List.drop_left]
    exact List.take_left' size
  rw [SendFrame.dataLen, field, Endian.fromBytes_toBytes _ fits.1]

theorem Fits.total (fits : sf.Fits maxBuffer body) :
    (sf.receiver size maxBuffer).sizes.total (sf.wire body) = (sf.wire body).length := by
  rw [wire_length]
  show sf.totalHeader + ((sf.dataLen (sf.wire body) : Int) + 0).toNat = _
  rw [fits.dataLen]
  omega

theorem message_wire : (sf.receiver size maxBuffer).sizes.message (sf.wire body) = some body := by
  have size' := sf.lengthEndian.length_toBytes sf.lengthSize body.length
  show some ((sf.wire body).drop sf.totalHeader) = some body
  rw [wire, List.drop_left' (by simp only [List.length_append, totalHeader]; omega)]

/-- Bodies sent one after the other come out again, and nothing is left over. -/
theorem feedAll_wires {bodies chunks : List Bytes} (fits : ∀ body ∈ bodies, sf.Fits maxBuffer body)
    (stream : chunks.flatten = (bodies.map sf.wire).flatten) :
    ((sf.receiver size maxBuffer).feedAll [] chunks).1 = bodies := by
  have sizes : ∀ wire ∈ bodies.map sf.wire, (sf.receiver size maxBuffer).sizes.total wire = wire.length := by
    intro wire member
    obtain ⟨body, inside, rfl⟩ := List.mem_map.mp member
    exact (fits body inside).total size
  have small : ∀ wire ∈ bodies.map sf.wire, wire.length ≤ maxBuffer := by
    intro wire member
    obtain ⟨body, inside, rfl⟩ := List.mem_map.mp member
    rw [wire_length]
    exact (fits body inside).2
  have frames := (sf.receiver size maxBuffer).sizes.frames_flatten sizes small
  have messages : ((bodies.map sf.wire).flatMap fun wire => ((sf.receiver size maxBuffer).sizes.message wire).toList) = bodies := by
    rw [List.flatMap_map]
    simp only [message_wire size, Option.toList_some]
    exact List.flatMap_singleton' bodies
  rw [messages, ← stream] at frames
  exact frames.feedAll (sf.receiver size maxBuffer).sizes.cut_nil (sf.receiver size maxBuffer).sizes.quiet (Nat.le_succ _)

end SendFrame

theorem buildSendFrame_lengthSize {cfg : SendFrameConfig} {sf : SendFrame} (built : buildSendFrame (some cfg) = some (some sf)) :
    sf.lengthSize = cfg.lengthSize.getD 4 := by
  unfold buildSendFrame at built
  dsimp only at built
  split at built
  · cases built
  · cases header : encodeEscapeSequences (cfg.header.getD []) with
    | none =>
      rw [header] at built
      cases built
    | some h =>
      cases after : encodeEscapeSequences (cfg.afterLength.getD []) with
      | none =>
        rw [header, after] at built
        cases built
      | some a =>
        rw [header, after] at built
        cases built
        rfl

/-- The length field of a block has a size that a parser has too. -/
theorem buildSendFrame_sized {cfg : SendFrameConfig} {sf : SendFrame} (built : buildSendFrame (some cfg) = some (some sf))
    (size : cfg.lengthSize.getD 4 ∈ [1, 2, 4]) : sf.lengthSize = 1 ∨ sf.lengthSize = 2 ∨ sf.lengthSize = 4 := by
  rw [← buildSendFrame_lengthSize built] at size
  simpa using size

/-- What a `send_frame` block sends, a parser configured for it and `split_send_frames` take apart alike;
and on any bytes whatever the two do the same. -/
theorem send_frames_taken_apart {cfg : SendFrameConfig} {sf : SendFrame} (built : buildSendFrame (some cfg) = some (some sf))
    (size : cfg.lengthSize.getD 4 ∈ [1, 2, 4]) (maxBuffer : Nat) :
    let p := sf.receiver (buildSendFrame_sized built size) maxBuffer
    (∀ bodies : List Bytes, (∀ body ∈ bodies, sf.Fits maxBuffer body) →
        ∃ wires, bodies.mapM (applySendFrame (some sf)) = some wires ∧ ∀ chunks : List Bytes, chunks.flatten = wires.flatten →
          (p.feedAll [] chunks).1 = bodies ∧ (sf.splitAll maxBuffer [] chunks).1 = bodies) ∧
      (∀ chunks : List Bytes, p.feedAll [] chunks = sf.splitAll maxBuffer [] chunks) ∧
      ∀ buffer chunk : Bytes, p.feed buffer chunk = sf.split maxBuffer (buffer ++ chunk) := by
  intro p
  have sized := buildSendFrame_sized built size
  have positive : 0 < sf.lengthSize := by omega
  refine ⟨fun bodies fits => ⟨bodies.map sf.wire, ?_, fun chunks stream => ?_⟩,
    fun chunks => (sf.splitAll_eq sized maxBuffer [] chunks).symm,
    fun buffer chunk => (sf.split_eq sized maxBuffer buffer chunk).symm⟩
  · induction bodies with
    | nil => rfl
    | cons body bodies ih =>
      have first := (fits body List.mem_cons_self).apply positive
      have rest := ih fun b member => fits b (List.mem_cons_of_mem _ member)
      rw [List.mapM_cons, first, rest]
      rfl
  · have parsed := SendFrame.feedAll_wires sized fits stream
    exact ⟨parsed, sf.splitAll_eq sized maxBuffer [] chunks ▸ parsed⟩

/-- A block with a magic before the length and a version behind it, as two bytes each. -/
theorem send_frames_taken_apart_magic :
    buildSendFrame (some { header := some (text "IS"), afterLength := some (text "\\x01"), lengthSize := some 2 }) =
        some (some ⟨[73, 83], [1], 2, .big⟩) ∧
      ∃ wires, [[7], [8, 9]].mapM (applySendFrame (some ⟨[73, 83], [1], 2, .big⟩)) = some wires ∧
        ∀ chunks : List Bytes, chunks.flatten = wires.flatten →
          ((SendFrame.receiver ⟨[73, 83], [1], 2, .big⟩ (by decide) 16).feedAll [] chunks).1 = [[7], [8, 9]] ∧
            (SendFrame.splitAll ⟨[73, 83], [1], 2, .big⟩ 16 [] chunks).1 = [[7], [8, 9]] := by
  have built : buildSendFrame (some { header := some (text "IS"), afterLength := some (text "\\x01"), lengthSize := some 2 }) =
      some (some ⟨[73, 83], [1], 2, .big⟩) := by decide
  refine ⟨built, (send_frames_taken_apart built (by decide) 16).1 _ fun body member => ?_⟩
  have cases' : body = [7] ∨ body = [8, 9] := by simpa using member
  rcases cases' with rfl | rfl <;> exact ⟨by decide, by decide⟩

end FrameParsers
