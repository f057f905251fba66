import Mdf.Block.Basic

/-!
# History entries

The file history is a chain of entries, one for each tool that wrote the file.
-/

namespace Mdf

structure HistoryEntry where
  next : UInt64
  /-- The comment that names the tool. -/
  comment : UInt64
  /-- The time of the change, in nanoseconds since 1970 UTC. -/
  time : UInt64
deriving DecidableEq, Repr

namespace HistoryEntry

def block (e : HistoryEntry) : Block where
  id := .fh
  links := [e.next, e.comment]
  -- the offsets of time zone and daylight saving, the time flags and three reserved bytes
  data := LittleEndian.uint64 e.time ++ Buffer.zeros 8

def read (offset : Nat) : Decode HistoryEntry := do
  let h ← Block.Header.read .fh 2 8 offset
  let time ← Decode.uint64
  return ⟨h.link 0, h.link 1, time⟩

@[simp] theorem size_block (e : HistoryEntry) : e.block.size = 56 := by
  simp [Block.size, Block.headSize, Block.fixedSize, block]

end HistoryEntry

end Mdf
