import OpenAvc.Data.Utf8Codec
import OpenAvc.Snmp.Octets

/-! OSC messages: how they are encoded, and how messages and bundles are decoded. -/

namespace Osc

open Octets

/-- How floating-point numbers are packed, and unpacked; a single one is rounded then. -/
structure Floats (R : Type) where
  pack4 : R → Option (List Nat)
  pack8 : R → Option (List Nat)
  unpack4 : List Nat → R
  unpack8 : List Nat → R
  length_pack4 : ∀ x bytes, pack4 x = some bytes → bytes.length = 4
  length_pack8 : ∀ x bytes, pack8 x = some bytes → bytes.length = 8

/-- An argument: its type tag and the value that the tag says. Other tags carry no data. -/
inductive Arg (R : Type) where
  | f (x : R)
  | i (n : Int)
  | s (t : Text)
  | h (n : Int)
  | d (x : R)
  | b (bytes : List Nat)
  | T
  | F
  | N
  | other (tag : Text)
  deriving DecidableEq

/-- An address and the arguments. -/
abbrev Message (R : Type) := Text × List (Arg R)

variable {R : Type} (floats : Floats R)

/-- A length at the next 4-byte boundary. -/
def padded (length : Nat) : Nat :=
  if length % 4 = 0 then length else length + (4 - length % 4)

/-- `_pad` -/
def pad (data : List Nat) : List Nat :=
  data ++ List.replicate (padded data.length - data.length) 0

/-- `_encode_string` -/
def encodeString (s : Text) : Option (List Nat) :=
  (Utf8.encode s).map fun bytes => pad (bytes ++ [0])

/-- `_encode_blob` -/
def encodeBlob (data : List Nat) : Option (List Nat) :=
  (packSigned 4 data.length).map fun length => length ++ pad data

def Arg.tag : Arg R → Text
  | .f _ => text "f"
  | .i _ => text "i"
  | .s _ => text "s"
  | .h _ => text "h"
  | .d _ => text "d"
  | .b _ => text "b"
  | .T => text "T"
  | .F => text "F"
  | .N => text "N"
  | .other tag => tag

def Arg.encode : Arg R → Option (List Nat)
  | .f x => floats.pack4 x
  | .i n => packSigned 4 n
  | .s t => encodeString t
  | .h n => packSigned 8 n
  | .d x => floats.pack8 x
  | .b bytes => encodeBlob bytes
  | .T | .F | .N | .other _ => some []

/-- `none` where something in the message cannot be encoded. -/
def oscEncodeMessage (address : Text) (args : List (Arg R)) : Option (List Nat) := do
  let msg ← encodeString address
  let argData ← args.mapM (Arg.encode floats)
  let typeTags ← encodeString (44 :: args.flatMap Arg.tag)
  some (msg ++ typeTags ++ argData.flatten)

/-- `_read_string` -/
def readString (data : List Nat) (offset : Nat) : Option (Text × Nat) :=
  let s := (data.drop offset).takeWhile (· ≠ 0)
  if offset + s.length < data.length then some (Utf8.decode s, offset + padded (s.length + 1)) else none

/-- The bytes of an argument, `none` where `_require` finds fewer. -/
def require (buf : List Nat) (offset n : Nat) : Option (List Nat) :=
  if offset + n ≤ buf.length then some (slice buf offset n) else none

/-- A length, and as many bytes; those up to the boundary need not be there. -/
def readBlob (buf : List Nat) (offset : Nat) : Option (List Nat × Nat) := do
  let blobLen := fromBytesSigned (← require buf offset 4)
  if blobLen < 0 then none
  else
    let value ← require buf (offset + 4) blobLen.toNat
    some (value, offset + 4 + padded blobLen.toNat)

/-- One argument and where the next one begins, or `none` for a tag that is not known. -/
def readArg (buf : List Nat) (offset : Nat) (tag : Nat) : Option (Option (Arg R × Nat)) :=
  if tag = 102 then some ((require buf offset 4).map fun raw => (.f (floats.unpack4 raw), offset + 4))
  else if tag = 105 then some ((require buf offset 4).map fun raw => (.i (fromBytesSigned raw), offset + 4))
  else if tag = 115 then some ((readString buf offset).map fun (t, stop) => (.s t, stop))
  else if tag = 104 then some ((require buf offset 8).map fun raw => (.h (fromBytesSigned raw), offset + 8))
  else if tag = 100 then some ((require buf offset 8).map fun raw => (.d (floats.unpack8 raw), offset + 8))
  else if tag = 98 then some ((readBlob buf offset).map fun (bytes, stop) => (.b bytes, stop))
  else if tag = 84 then some (some (.T, offset))
  else if tag = 70 then some (some (.F, offset))
  else if tag = 78 then some (some (.N, offset))
  else none

/-- The arguments that the tags say; the first tag that is not known ends them. -/
def decodeArgs (buf : List Nat) : List Nat → Nat → Option (List (Arg R))
  | [], _ => some []
  | tag :: tags, offset =>
    match readArg floats buf offset tag with
    | none => some []
    | some none => none
    | some (some (arg, stop)) => (decodeArgs buf tags stop).map (arg :: ·)

/-- `_decode_single_message`, `none` where it raises `ValueError`. -/
def decodeSingleMessage (buf : List Nat) : Option (Message R) := do
  let (address, offset) ← readString buf 0
  if address.head? ≠ some 47 then none
  else if buf.length ≤ offset then some (address, [])
  else
    let (typeTags, offset) ← readString buf offset
    match typeTags with
    | 44 :: tags => (decodeArgs floats buf tags offset).map fun args => (address, args)
    | _ => none

/-! Bundles. -/

/-- `#bundle` and the byte that ends it -/
def bundleTag : List Nat := [35, 98, 117, 110, 100, 108, 101, 0]

/-- What a decoder raises. The loop over the elements has a number of rounds, which it
never uses up. -/
inductive Exc where
  | value
  | rounds
  deriving DecidableEq

/-- The loop over the elements: what is raised for one of them passes it by. -/
def decodeElements (decode : List Nat → Except Exc (List (Message R))) (data : List Nat) :
    Nat → Nat → Except Exc (List (Message R))
  | 0, _ => .error .rounds
  | fuel + 1, offset =>
    if offset + 4 ≤ data.length then
      let elemSize := fromBytesSigned (slice data offset 4)
      if elemSize ≤ 0 ∨ data.length < offset + 4 + elemSize then .ok []
      else
        let rest := decodeElements decode data fuel (offset + 4 + elemSize.toNat)
        match decode (slice data (offset + 4) elemSize.toNat) with
        | .ok messages => rest.map (messages ++ ·)
        | .error .value => rest
        | .error .rounds => .error .rounds
    else .ok []

/-- `osc_decode_bundle` at a depth that leaves so many levels. Data without the tag is one message. -/
def decodeBundle : Nat → List Nat → Except Exc (List (Message R))
  | 0, data =>
    if data.take 8 = bundleTag then .error .value
    else match decodeSingleMessage floats data with
      | some message => .ok [message]
      | none => .error .value
  | levels + 1, data =>
    if data.take 8 = bundleTag then decodeElements (decodeBundle levels) data (data.length + 1) 16
    else match decodeSingleMessage floats data with
      | some message => .ok [message]
      | none => .error .value

/-- `_MAX_BUNDLE_DEPTH` -/
def maxBundleDepth : Nat := 16

def oscDecodeBundle (data : List Nat) : Except Exc (List (Message R)) :=
  decodeBundle floats maxBundleDepth data

/-- A bundle is decoded as the first of its messages. -/
def oscDecodeMessage (data : List Nat) : Option (Message R) :=
  if data.length < 4 then none
  else if data.take 8 = bundleTag then
    match oscDecodeBundle floats data with
    | .ok (message :: _) => some message
    | _ => none
  else decodeSingleMessage floats data

end Osc
