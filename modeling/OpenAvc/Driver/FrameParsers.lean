import OpenAvc.Data.Framer
import OpenAvc.Data.Utf8
import OpenAvc.Driver.Framing
import OpenAvc.Snmp.Octets

/-! The frame parsers of a transport, each by what one round of its loop does with the buffer. -/

namespace FrameParsers

open Framer (Cut)

/-- `length_endian` -/
inductive Endian
  | big
  | little
  deriving DecidableEq

/-- `"little" if length_endian == "little" else "big"` -/
def Endian.of (name : Text) : Endian :=
  if name = text "little" then .little else .big

/-- `int.from_bytes(raw, endian)` -/
def Endian.fromBytes : Endian → Bytes → Nat
  | .big, raw => Octets.fromBytes (raw.map UInt8.toNat)
  | .little, raw => Octets.fromBytes (raw.reverse.map UInt8.toNat)

/-- `data[lo : lo + size]` -/
def slice (data : Bytes) (lo size : Nat) : Bytes :=
  (data.drop lo).take size

/-- `LengthPrefixFrameParser` -/
structure LengthPrefixFrameParser where
  headerSize : Nat := 2
  headerOffset : Int := 0
  includeHeader : Bool := false
  lengthOffset : Nat := 0
  headerExtra : Nat := 0
  lengthEndian : Endian := .big
  maxBuffer : Nat
  sized : headerSize = 1 ∨ headerSize = 2 ∨ headerSize = 4

namespace LengthPrefixFrameParser

variable (p : LengthPrefixFrameParser)

/-- `_frame_header` -/
def frameHeader : Nat :=
  p.lengthOffset + p.headerSize + p.headerExtra

/-- `payload_len`, never below zero. -/
def payloadLen (buffer : Bytes) : Nat :=
  (p.lengthEndian.fromBytes (slice buffer p.lengthOffset p.headerSize) + p.headerOffset : Int).toNat

/-- One round of `feed`. -/
def cut (buffer : Bytes) : Cut UInt8 Bytes :=
  if buffer.length < p.frameHeader then .more
  else
    let total := p.frameHeader + p.payloadLen buffer
    if total > p.maxBuffer then .lost
    else if buffer.length < total then .more
    else .frame (some (if p.includeHeader then buffer.take total else (buffer.take total).drop p.frameHeader)) (buffer.drop total)

end LengthPrefixFrameParser

/-- `StructFrameParser` -/
structure StructFrameParser where
  headerReserve : Nat := 0
  lengthSize : Nat := 2
  lengthEndian : Endian := .big
  lengthAdjust : Int := 0
  midReserve : Nat := 0
  trailerReserve : Nat := 0
  maxBuffer : Nat
  sized : lengthSize = 1 ∨ lengthSize = 2 ∨ lengthSize = 4

namespace StructFrameParser

variable (p : StructFrameParser)

/-- `_payload_start` -/
def payloadStart : Nat :=
  p.headerReserve + p.lengthSize + p.midReserve

def payloadLen (buffer : Bytes) : Nat :=
  (p.lengthEndian.fromBytes (slice buffer p.headerReserve p.lengthSize) + p.lengthAdjust : Int).toNat

/-- One round of `feed`: an empty payload is no message. -/
def cut (buffer : Bytes) : Cut UInt8 Bytes :=
  if buffer.length < p.payloadStart then .more
  else
    let total := p.payloadStart + p.payloadLen buffer + p.trailerReserve
    if total > p.maxBuffer then .lost
    else if buffer.length < total then .more
    else
      let payload := slice buffer p.payloadStart (p.payloadLen buffer)
      .frame (if payload = [] then none else some payload) (buffer.drop total)

end StructFrameParser

/-- `FixedLengthFrameParser` -/
structure FixedLengthFrameParser where
  length : Nat
  maxBuffer : Nat
  positive : 0 < length

namespace FixedLengthFrameParser

variable (p : FixedLengthFrameParser)

/-- The loop of `feed`, with as many rounds as it takes. -/
def frames : Nat → Bytes → List Bytes × Bytes
  | 0, buffer => ([], buffer)
  | fuel + 1, buffer =>
    if buffer.length ≥ p.length then
      (buffer.take p.length :: (frames fuel (buffer.drop p.length)).1, (frames fuel (buffer.drop p.length)).2)
    else ([], buffer)

/-- `feed`, which looks at the size before it takes off any message. -/
def feed (buffer data : Bytes) : List Bytes × Bytes :=
  let buffer := buffer ++ data
  let buffer := if buffer.length > p.maxBuffer then [] else buffer
  p.frames buffer.length buffer

def feedAll : Bytes → List Bytes → List Bytes × Bytes
  | buffer, [] => ([], buffer)
  | buffer, chunk :: chunks =>
    let (messages, buffer) := p.feed buffer chunk
    (messages ++ (feedAll buffer chunks).1, (feedAll buffer chunks).2)

end FixedLengthFrameParser

/-- `_SLIP_END` -/
def slipEnd : UInt8 := 0xC0

/-- `_SLIP_ESC` -/
def slipEsc : UInt8 := 0xDB

/-- `_SLIP_ESC_END` -/
def slipEscEnd : UInt8 := 0xDC

/-- `_SLIP_ESC_ESC` -/
def slipEscEsc : UInt8 := 0xDD

/-- A byte of a payload in a frame. -/
def slipEscape (b : UInt8) : Bytes :=
  if b = slipEnd then [slipEsc, slipEscEnd] else if b = slipEsc then [slipEsc, slipEscEsc] else [b]

/-- `slip_encode` -/
def slipEncode (payload : Bytes) : Bytes :=
  [slipEnd] ++ payload.flatMap slipEscape ++ [slipEnd]

/-- The loop of `_slip_unescape`, with its flag `escaped`. -/
def slipUnescapeFrom : Bool → Bytes → Bytes
  | _, [] => []
  | true, b :: segment =>
    -- a byte that ends no escape is kept
    (if b = slipEscEnd then slipEnd else if b = slipEscEsc then slipEsc else b) :: slipUnescapeFrom false segment
  | false, b :: segment => if b = slipEsc then slipUnescapeFrom true segment else b :: slipUnescapeFrom false segment

/-- `_slip_unescape` -/
def slipUnescape (segment : Bytes) : Bytes :=
  if slipEsc ∉ segment then segment else slipUnescapeFrom false segment

/-- `SlipFrameParser` -/
structure SlipFrameParser where
  maxBuffer : Nat

/-- One round of `feed`: an empty segment is no message. -/
def SlipFrameParser.cut (buffer : Bytes) : Cut UInt8 Bytes :=
  match Framing.cut [slipEnd] buffer with
  | none => .more
  | some (segment, rest) => .frame (if segment = [] then none else some (slipUnescape segment)) rest

/-- `DelimiterFrameParser` -/
structure DelimiterFrameParser where
  delimiter : Bytes
  maxBuffer : Nat
  nonempty : delimiter ≠ []

/-- One round of `feed`: an empty message is skipped. -/
def DelimiterFrameParser.cut (p : DelimiterFrameParser) (buffer : Bytes) : Cut UInt8 Bytes :=
  match Framing.cut p.delimiter buffer with
  | none => .more
  | some (msg, rest) => .frame (if msg = [] then none else some msg) rest

theorem slice_append {data : Bytes} (more : Bytes) {lo size : Nat} (inside : lo + size ≤ data.length) :
    slice (data ++ more) lo size = slice data lo size := by
  have short : size ≤ (data.drop lo).length := by
    rw [List.length_drop]
    omega
  rw [slice, slice, List.drop_append_of_le_length (by omega), List.take_append_of_le_length short]

theorem slice_take (data : Bytes) {lo size total : Nat} (inside : lo + size ≤ total) :
    slice (data.take total) lo size = slice data lo size := by
  rw [slice, slice, List.drop_take, List.take_take, Nat.min_eq_left (by omega)]

namespace LengthPrefixFrameParser

variable (p : LengthPrefixFrameParser)

theorem payloadLen_append {buffer : Bytes} (more : Bytes) (headed : p.frameHeader ≤ buffer.length) :
    p.payloadLen (buffer ++ more) = p.payloadLen buffer := by
  unfold frameHeader at headed
  rw [payloadLen, payloadLen, slice_append more (by omega)]

/-- The header says the size of the frame. -/
def sizes : Sized UInt8 Bytes where
  header := p.frameHeader
  limit := p.maxBuffer
  total buffer := p.frameHeader + p.payloadLen buffer
  message frame := some (if p.includeHeader then frame else frame.drop p.frameHeader)
  headed more headed := by rw [p.payloadLen_append more headed]
  covers buffer := Nat.le_add_right _ _
  positive := by
    have some := p.sized
    unfold frameHeader
    omega

def framer : Framer UInt8 Bytes :=
  p.sizes.framer.as p.cut rfl

def feed (buffer data : Bytes) : List Bytes × Bytes :=
  p.framer.feed p.maxBuffer buffer data

end LengthPrefixFrameParser

namespace StructFrameParser

variable (p : StructFrameParser)

theorem payloadLen_append {buffer : Bytes} (more : Bytes) (headed : p.payloadStart ≤ buffer.length) :
    p.payloadLen (buffer ++ more) = p.payloadLen buffer := by
  unfold payloadStart at headed
  rw [payloadLen, payloadLen, slice_append more (by omega)]

/-- The payload of a whole frame. -/
def payload (frame : Bytes) : Bytes :=
  slice frame p.payloadStart (p.payloadLen frame)

def sizes : Sized UInt8 Bytes where
  header := p.payloadStart
  limit := p.maxBuffer
  total buffer := p.payloadStart + p.payloadLen buffer + p.trailerReserve
  message frame := if p.payload frame = [] then none else some (p.payload frame)
  headed more headed := by rw [p.payloadLen_append more headed]
  covers buffer := by omega
  positive := by
    have some := p.sized
    unfold payloadStart
    omega

/-- A frame's payload is the same whether or not more bytes stand behind it. -/
theorem payload_take {buffer : Bytes} (headed : p.payloadStart ≤ buffer.length) :
    p.payload (buffer.take (p.sizes.total buffer)) = slice buffer p.payloadStart (p.payloadLen buffer) := by
  have total : p.sizes.total buffer = p.payloadStart + p.payloadLen buffer + p.trailerReserve := rfl
  have within : p.payloadStart ≤ (buffer.take (p.sizes.total buffer)).length := by
    rw [List.length_take]
    omega
  have same := p.payloadLen_append (buffer.drop (p.sizes.total buffer)) within
  rw [List.take_append_drop] at same
  rw [payload, ← same, slice_take buffer (by omega)]

theorem cut_eq : p.sizes.framer.cut = p.cut := by
  funext buffer
  show p.sizes.cut buffer = p.cut buffer
  unfold Sized.cut cut
  by_cases headed : buffer.length < p.payloadStart
  · rw [if_pos headed]
    exact if_pos headed
  · have same : p.sizes.message (buffer.take (p.sizes.total buffer)) =
        if slice buffer p.payloadStart (p.payloadLen buffer) = [] then none
        else some (slice buffer p.payloadStart (p.payloadLen buffer)) := by
      rw [← p.payload_take (Nat.le_of_not_lt headed)]
      rfl
    rw [same]
    rfl

def framer : Framer UInt8 Bytes :=
  p.sizes.framer.as p.cut p.cut_eq

def feed (buffer data : Bytes) : List Bytes × Bytes :=
  p.framer.feed p.maxBuffer buffer data

end StructFrameParser

/-- A message that is empty is left out. -/
def nonEmpty (msg : Bytes) : Option Bytes :=
  if msg = [] then none else some msg

theorem SlipFrameParser.cut_eq :
    (Framing.framer (List.cons_ne_nil slipEnd []) fun segment => (nonEmpty segment).map slipUnescape).cut =
      SlipFrameParser.cut := by
  funext buffer
  unfold SlipFrameParser.cut
  cases found : Framing.cut [slipEnd] buffer with
  | none => rw [Framing.framer_cut_none _ _ found]
  | some parts =>
    rw [Framing.framer_cut_some _ _ found, nonEmpty]
    dsimp only
    split <;> rfl

def SlipFrameParser.framer : Framer UInt8 Bytes :=
  (Framing.framer (List.cons_ne_nil slipEnd []) fun segment => (nonEmpty segment).map slipUnescape).as SlipFrameParser.cut
    SlipFrameParser.cut_eq

def SlipFrameParser.feed (p : SlipFrameParser) (buffer data : Bytes) : List Bytes × Bytes :=
  SlipFrameParser.framer.feed p.maxBuffer buffer data

theorem DelimiterFrameParser.cut_eq (p : DelimiterFrameParser) : (Framing.framer p.nonempty nonEmpty).cut = p.cut := by
  funext buffer
  unfold DelimiterFrameParser.cut
  cases found : Framing.cut p.delimiter buffer with
  | none => rw [Framing.framer_cut_none _ _ found]
  | some parts =>
    rw [Framing.framer_cut_some _ _ found]
    rfl

def DelimiterFrameParser.framer (p : DelimiterFrameParser) : Framer UInt8 Bytes :=
  (Framing.framer p.nonempty nonEmpty).as p.cut p.cut_eq

def DelimiterFrameParser.feed (p : DelimiterFrameParser) (buffer data : Bytes) : List Bytes × Bytes :=
  p.framer.feed p.maxBuffer buffer data

end FrameParsers
