import Mdf.Block.Basic
import Mdf.DataType

/-!
# Channels

A channel says where in a record its sample stands and how it is encoded.  The master channel holds
the time of the record.
-/

namespace Mdf

/-- A channel as its block describes it. -/
structure Channel where
  /-- The next channel of the group. -/
  next : UInt64
  name : UInt64
  unit : UInt64
  comment : UInt64
  /-- What the channel holds: values, or the time of the record. -/
  channelType : UInt8
  /-- What a master channel measures. -/
  syncType : UInt8
  encoding : Encoding
  /-- The bit of the first byte at which the sample starts. -/
  bitOffset : UInt8
  /-- The byte of the record at which the sample starts. -/
  byteOffset : UInt32
  /-- Properties of the channel. -/
  flags : UInt32
deriving DecidableEq, Repr

namespace Channel

/-- The type of a channel of values. -/
def fixedLengthType : UInt8 := 0

/-- The type of a channel whose values have variable length. -/
def variableLengthType : UInt8 := 1

/-- The type of a master channel. -/
def masterType : UInt8 := 2

/-- The type of a master channel that is not stored. -/
def virtualMasterType : UInt8 := 3

/-- What a master channel in seconds measures. -/
def timeSync : UInt8 := 1

/-- A channel of values. -/
def value (encoding : Encoding) (byteOffset : UInt32) : Channel where
  next := 0
  name := 0
  unit := 0
  comment := 0
  channelType := fixedLengthType
  syncType := 0
  encoding := encoding
  bitOffset := 0
  byteOffset := byteOffset
  flags := 0

/-- The encoding of the times that are written. -/
def timeEncoding : Encoding := ⟨.floatLe, 64⟩

/-- A master channel of times in seconds. -/
def masterTime (byteOffset : UInt32) : Channel :=
  { value timeEncoding byteOffset with channelType := masterType, syncType := timeSync }

/-- Whether the channel holds the time of the record. -/
def isMaster (c : Channel) : Bool :=
  c.channelType = masterType || c.channelType = virtualMasterType

/-- The first byte of the record behind the sample. -/
def stop (c : Channel) : Except Fault Nat :=
  Checked.add c.byteOffset.toNat c.encoding.byteSize

def block (c : Channel) : Block where
  id := .cn
  links := [c.next, 0, c.name, 0, 0, 0, c.unit, c.comment]
  data := [c.channelType, c.syncType, c.encoding.dataType.code, c.bitOffset]
    ++ LittleEndian.uint32 c.byteOffset ++ LittleEndian.uint32 c.encoding.bitCount
    ++ LittleEndian.uint32 c.flags
    -- invalidation bit, precision, attachments; value range, limits and extended limits
    ++ Buffer.zeros 8 ++ Buffer.zeros 48

/-- Reads the channel at an offset, which must be of fixed length, whole bytes and without a
conversion rule. -/
def read (offset : Nat) : Decode Channel := do
  let h ← Block.Header.read .cn 8 72 offset
  let channelType ← Decode.uint8
  let syncType ← Decode.uint8
  let code ← Decode.uint8
  let dataType ← (DataType.ofCode code : Except Failure DataType)
  let bitOffset ← Decode.uint8
  let byteOffset ← Decode.uint32
  let bitCount ← Decode.uint32
  let flags ← Decode.uint32
  Decode.refuseIf (h.link 1 ≠ 0) (.unsupportedFeature .composition)
  Decode.refuseIf (h.link 4 ≠ 0) (.unsupportedFeature .conversion)
  Decode.refuseIf (channelType = variableLengthType ∨ h.link 5 ≠ 0)
    (.unsupportedFeature .signalData)
  Decode.refuseIf (bitOffset ≠ 0) (.unsupportedFeature .bitOffset)
  return ⟨h.link 0, h.link 2, h.link 6, h.link 7, channelType, syncType, ⟨dataType, bitCount⟩,
    bitOffset, byteOffset, flags⟩

/-- The bytes of a sample are counted in 32 bits, and so is where it starts. -/
@[simp] theorem stop_eq (c : Channel) :
    c.stop = .ok (c.byteOffset.toNat + c.encoding.byteSize) := by
  have ho := c.byteOffset.toNat_lt
  have hs := c.encoding.byteSize_lt
  exact Checked.add_of_lt (by simp only [Checked.wordBound]; omega)

@[simp] theorem byteSize_timeEncoding : timeEncoding.byteSize = 8 := by decide

@[simp] theorem size_block (c : Channel) : c.block.size = 160 := by
  simp [Block.size, Block.headSize, Block.fixedSize, block]

end Channel

end Mdf
