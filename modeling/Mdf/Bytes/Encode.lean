import Mdf.Bytes.Buffer

/-!
# Writing bytes

`Encode α` writes to a buffer.  It appends to what has been written, as far as memory reaches, and
it overwrites eight bytes of it where the offset that belongs there was not known before.
-/

namespace Mdf

/-- A writer of bytes, whose state is what has been written so far. -/
abbrev Encode := StateT (List UInt8) (Except Failure)

namespace Encode

def bytes (bs : List UInt8) : Encode Unit := do
  let buffer ← Buffer.allocate ((← get) ++ bs)
  set buffer

/-- Appends zero bytes up to the next multiple of eight. -/
def align : Encode Unit := do
  let buffer ← Buffer.allocate (Buffer.aligned (← get))
  set buffer

/-- The offset of the next byte. -/
def position : Encode UInt64 := return UInt64.ofNat (← get).length

/-- Overwrites the eight bytes at an offset with a number. -/
def patch (offset : Nat) (v : UInt64) : Encode Unit := do
  let buffer ← Buffer.patch (← get) offset v
  set buffer

end Encode

end Mdf
