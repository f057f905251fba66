import Mdf.Block.Id
import Mdf.Bytes.Buffer
import Mdf.Bytes.Decode
import Mdf.Bytes.Encode

/-!
# Blocks

A file is its identification followed by blocks.  A block has an id, links to other blocks, and
data; a link is the offset of a block, or zero for none.  In a file a block is

    id (4)  reserved (4)  length (8)  link count (8)  links (8 each)  data

where the length counts all of it.  Each block starts at a multiple of eight.

`Block.bytes` is that form.  `Block.Header` is what the head of a block says, and `Header.readAny`
reads it: the head must be of an expected id, and the whole block must lie within the input.
-/

namespace Mdf

structure Block where
  id : BlockId
  /-- The offsets of other blocks; zero is no block. -/
  links : List UInt64
  /-- What follows the links. -/
  data : List UInt8
deriving DecidableEq, Repr

namespace Block

/-- The bytes before the links. -/
def fixedSize : Nat := 24

/-- The bytes before the data of a block with `n` links. -/
def headSize (n : Nat) : Nat := fixedSize + 8 * n

/-- The same for any number of links, which may not fit 64 bits. -/
def checkedHeadSize (n : Nat) : Except Fault Nat := do
  let links ← Checked.mul 8 n
  Checked.add fixedSize links

def size (b : Block) : Nat := headSize b.links.length + b.data.length

/-- The bytes before the data, for data of the given length. -/
def head (id : BlockId) (links : List UInt64) (dataLength : Nat) : List UInt8 :=
  id.bytes ++ Buffer.zeros 4
    ++ LittleEndian.uint64 (UInt64.ofNat (headSize links.length + dataLength))
    ++ LittleEndian.uint64 (UInt64.ofNat links.length)
    ++ links.flatMap LittleEndian.uint64

/-- A block as it stands in a file. -/
def bytes (b : Block) : List UInt8 := head b.id b.links b.data.length ++ b.data

/-- The offset of a link of the block at an offset. -/
def linkPosition (offset index : Nat) : Nat := offset + headSize index

/-- A buffer with a block at the next multiple of eight. -/
def append (buffer : List UInt8) (b : Block) : List UInt8 := Buffer.aligned buffer ++ b.bytes

/-- Writes a block at the next multiple of eight, and gives its offset. -/
def write (b : Block) : Encode UInt64 := do
  Encode.align
  let offset ← Encode.position
  Encode.bytes b.bytes
  return offset

/-- Sets a link of the block at an offset. -/
def patchLink (offset : UInt64) (index : Nat) (target : UInt64) : Encode Unit :=
  Encode.patch (linkPosition offset.toNat index) target

/-- What the head of a block says. -/
structure Header where
  id : BlockId
  length : Nat
  /-- The offsets of other blocks. -/
  links : List UInt64
deriving DecidableEq, Repr

namespace Header

/-- The bytes behind the links. -/
def dataLength (h : Header) : Except Fault Nat := do
  return h.length - (← checkedHeadSize h.links.length)

/-- The link at an index; a block without it links to nothing there. -/
def link (h : Header) (i : Nat) : UInt64 := h.links.getD i 0

/-- Whether a block of the given length has room for its links, in an input of `size` bytes.  A
count that the input cannot hold is refused before the room of the links is computed. -/
def hasRoom (size length count : Nat) : Except Fault Bool := do
  if size / 8 < count then return false
  else return (← checkedHeadSize count) ≤ length

/-- Reads the head of the block at an offset from behind its id on, in an input of `size` bytes.
Errors name the block that was expected first. -/
def readRest (first id : BlockId) (size offset : Nat) : Decode Header := do
  Decode.skip 4
  let length := (← Decode.uint64).toNat
  let count := (← Decode.uint64).toNat
  if ← (hasRoom size length count : Except Failure Bool) then
    Decode.refuseIf (size < offset + length) (.prematureEnd size)
    let links ← Decode.uint64s count
    return ⟨id, length, links⟩
  else
    let required ← (checkedHeadSize (min count size) : Except Failure Nat)
    Decode.refuse (.blockTooShort first required length)

/-- Reads the head of the block at an offset, which must be of one of the expected ids.  Errors name
the first of these. -/
def readAny (first : BlockId) (others : List BlockId) (offset : Nat) : Decode Header := do
  let size ← Decode.size
  Decode.refuseIf (offset = 0 ∨ size ≤ offset) (.invalidLink offset)
  Decode.seek offset
  let mark ← Decode.take 4
  match (first :: others).find? fun i => i.bytes == mark with
  | none => Decode.refuse (.unexpectedBlock first mark)
  | some id => readRest first id size offset

/-- Reads the head of a block of one id that has at least so many links and bytes of data. -/
def read (id : BlockId) (minLinks minData : Nat) (offset : Nat) : Decode Header := do
  let h ← readAny id [] offset
  Decode.refuseIf (h.links.length < minLinks) (.blockTooShort id minLinks h.links.length)
  let dataLength ← (h.dataLength : Except Failure Nat)
  Decode.refuseIf (dataLength < minData) (.blockTooShort id minData dataLength)
  return h

end Header

@[simp] theorem length_head (id : BlockId) (links : List UInt64) (n : Nat) :
    (head id links n).length = id.bytes.length + 20 + 8 * links.length := by
  simp only [head, List.length_append, Buffer.length_zeros, LittleEndian.length_uint64,
    LittleEndian.length_flatMap_uint64]

end Block

end Mdf
