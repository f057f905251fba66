import Mdf.Block.Basic

/-!
# Channel groups

A channel group describes records of one layout: how many there are, how long each one is, and which
channels it holds.
-/

namespace Mdf

structure ChannelGroup where
  next : UInt64
  firstChannel : UInt64
  /-- The name of the acquisition. -/
  acquisitionName : UInt64
  comment : UInt64
  /-- The id in front of each record. -/
  recordId : UInt64
  cycleCount : UInt64
  /-- Properties of the group. -/
  flags : UInt16
  /-- The bytes of a record that hold samples. -/
  dataBytes : UInt32
  /-- The bytes of a record that mark samples as invalid. -/
  invalidationBytes : UInt32
deriving DecidableEq, Repr

namespace ChannelGroup

/-- Whether the group holds values of variable length. -/
def isVariableLength (g : ChannelGroup) : Bool := g.flags.toNat % 2 = 1

/-- What divides the parts of a name. -/
def pathSeparator : UInt16 := 0x2E

def block (g : ChannelGroup) : Block where
  id := .cg
  links := [g.next, g.firstChannel, g.acquisitionName, 0, 0, g.comment]
  data := LittleEndian.uint64 g.recordId ++ LittleEndian.uint64 g.cycleCount
    ++ LittleEndian.uint16 g.flags ++ LittleEndian.uint16 pathSeparator ++ Buffer.zeros 4
    ++ LittleEndian.uint32 g.dataBytes ++ LittleEndian.uint32 g.invalidationBytes

/-- Reads the channel group at an offset, which must hold values of fixed length. -/
def read (offset : Nat) : Decode ChannelGroup := do
  let h ← Block.Header.read .cg 6 32 offset
  let recordId ← Decode.uint64
  let cycleCount ← Decode.uint64
  let flags ← Decode.uint16
  Decode.skip 6
  let dataBytes ← Decode.uint32
  let invalidationBytes ← Decode.uint32
  let g : ChannelGroup :=
    ⟨h.link 0, h.link 1, h.link 2, h.link 5, recordId, cycleCount, flags, dataBytes,
      invalidationBytes⟩
  Decode.refuseIf g.isVariableLength (.unsupportedFeature .vlsdGroup)
  return g

@[simp] theorem size_block (g : ChannelGroup) : g.block.size = 104 := by
  simp [Block.size, Block.headSize, Block.fixedSize, block]

end ChannelGroup

end Mdf
