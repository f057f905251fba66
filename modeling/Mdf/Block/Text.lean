import Mdf.Block.Basic

/-!
# Text blocks

A text is kept as UTF-8 with at least one zero byte behind it, in a block whose data fill whole
words of eight bytes.  Reading takes what stands before the first zero byte.
-/

namespace Mdf.TextBlock

def data (text : String) : List UInt8 :=
  let bs := Utf8.encode text
  bs ++ Buffer.zeros (Buffer.alignUp (bs.length + 1) - bs.length)

/-- The block of a text; the id says whether the text is plain or XML. -/
def block (id : BlockId) (text : String) : Block := ⟨id, [], data text⟩

/-- The text in the data of a block. -/
def ofData (d : List UInt8) : Except Fault String := do
  return Utf8.decodeLossy (← Buffer.beforeZero d)

/-- Reads the text block at an offset: its id and its text. -/
def read (offset : Nat) : Decode (BlockId × String) := do
  let h ← Block.Header.readAny .tx [.md] offset
  let dataLength ← (h.dataLength : Except Failure Nat)
  let d ← Decode.take dataLength
  let text ← (ofData d : Except Failure String)
  return (h.id, text)

theorem length_data_mod (text : String) : (data text).length % 8 = 0 := by
  have h := Buffer.le_alignUp ((Utf8.encode text).length + 1)
  have hm := Buffer.alignUp_mod ((Utf8.encode text).length + 1)
  simp only [data, List.length_append, Buffer.length_zeros]
  omega

end Mdf.TextBlock
