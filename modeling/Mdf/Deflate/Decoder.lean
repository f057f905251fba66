import Mdf.Bytes.Buffer
import Mdf.Error

/-!
# Restoring a declared number of bytes

A decoder gives the output of a compressed stream step by step.  To restore a declared number of
bytes it is asked for one byte more than these at most: whatever the stream holds behind that byte
is not inflated, and a stream that goes on is told by its length.
-/

namespace Mdf.Deflate

/-- A decoder of compressed streams. -/
structure Decoder where
  /-- What is kept between two reads. -/
  State : Type
  /-- The state in front of a stream. -/
  start : List UInt8 → State
  /-- Gives at most so many bytes more, and none at the end of the stream. -/
  read : State → Nat → Except DecompressionError (List UInt8 × State)

/-- The room that is offered to a decoder, by the number of bytes there are already. -/
abbrev Room := Nat → { n : Nat // 0 < n }

/-- The sum of two numbers, or the greatest number of 64 bits where that is less. -/
def saturatingAdd (a b : UInt64) : UInt64 :=
  UInt64.ofNat (min (a.toNat + b.toNat) (UInt64.size - 1))

namespace Decoder

/-- What the decoder gives up to the end of its stream, or up to the limit on the number of bytes;
there are `count` of them already. -/
def readToEnd (decoder : Decoder) (room : Room) (limit count : Nat) (s : decoder.State) :
    Except DecompressionError (List UInt8) := do
  if limit ≤ count then return []
  else
    match ← decoder.read s (min (room count) (limit - count)) with
    | ([], _) => return []
    | (b :: bytes, s) =>
      let count := count + (bytes.length + 1)
      if Buffer.limit ≤ count then throw .outOfMemory
      else return b :: bytes ++ (← readToEnd decoder room limit count s)
termination_by limit - count

/-- Restores the `declared` bytes of a stream. -/
def decompress (decoder : Decoder) (room : Room) (z : List UInt8) (declared : UInt64) :
    Except Error (List UInt8) :=
  match decoder.readToEnd room (saturatingAdd declared 1).toNat 0 (decoder.start z) with
  | .ok out =>
    if UInt64.ofNat out.length = declared then .ok out
    else .error (.decompression (.wrongLength out.length declared.toNat))
  | .error e => .error (.decompression e)

end Decoder

end Mdf.Deflate
