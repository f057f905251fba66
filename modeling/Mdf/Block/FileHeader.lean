import Mdf.Block.Basic

/-!
# The file header

The block at offset 64, from which every other block is reached.
-/

namespace Mdf

/-- The file header: links to the first data group, the history and the comment, and the start of
the measurement. -/
structure FileHeader where
  firstDataGroup : UInt64
  firstHistory : UInt64
  comment : UInt64
  /-- The start of the measurement, in nanoseconds since 1970 UTC. -/
  startTime : UInt64
  /-- The offset of the time zone, in minutes. -/
  zoneOffset : Int16
  /-- The offset of daylight saving, in minutes. -/
  daylightOffset : Int16
  /-- Which of the offsets are valid. -/
  timeFlags : UInt8
deriving DecidableEq, Repr

namespace FileHeader

/-- Where the file header stands. -/
def offset : Nat := 64

/-- The file header of a new file, before its links are known. -/
def new (startTime : UInt64) : FileHeader := ⟨0, 0, 0, startTime, 0, 0, 0⟩

def block (h : FileHeader) : Block where
  id := .hd
  links := [h.firstDataGroup, h.firstHistory, 0, 0, 0, h.comment]
  data := LittleEndian.uint64 h.startTime ++ LittleEndian.int16 h.zoneOffset
    ++ LittleEndian.int16 h.daylightOffset ++ [h.timeFlags]
    -- time class, flags and a reserved byte; start angle and start distance
    ++ Buffer.zeros 3 ++ Buffer.zeros 16

def read (offset : Nat) : Decode FileHeader := do
  let h ← Block.Header.read .hd 6 24 offset
  let startTime ← Decode.uint64
  let zoneOffset ← Decode.int16
  let daylightOffset ← Decode.int16
  let timeFlags ← Decode.uint8
  return ⟨h.link 0, h.link 1, h.link 5, startTime, zoneOffset, daylightOffset, timeFlags⟩

@[simp] theorem size_block (h : FileHeader) : h.block.size = 104 := by
  simp [Block.size, Block.headSize, Block.fixedSize, block]

end FileHeader

end Mdf
