import Mdf.Block.Basic

/-!
# Data groups

A data group joins channel groups with the data block of their records.
-/

namespace Mdf

structure DataGroup where
  next : UInt64
  firstChannelGroup : UInt64
  /-- The block of the records. -/
  data : UInt64
  comment : UInt64
  /-- The bytes of the id in front of each record. -/
  recordIdSize : UInt8
deriving DecidableEq, Repr

namespace DataGroup

def block (g : DataGroup) : Block where
  id := .dg
  links := [g.next, g.firstChannelGroup, g.data, g.comment]
  data := [g.recordIdSize] ++ Buffer.zeros 7

def read (offset : Nat) : Decode DataGroup := do
  let h ← Block.Header.read .dg 4 1 offset
  let recordIdSize ← Decode.uint8
  return ⟨h.link 0, h.link 1, h.link 2, h.link 3, recordIdSize⟩

@[simp] theorem size_block (g : DataGroup) : g.block.size = 64 := by
  simp [Block.size, Block.headSize, Block.fixedSize, block]

end DataGroup

end Mdf
