import Mdf.Text.Utf8

/-!
# Block ids

The four characters that open a block.
-/

namespace Mdf

/-- The mark at the start of a block. -/
structure BlockId where
  /-- Four ASCII characters, two number signs and two letters for the blocks of this format. -/
  text : String
deriving DecidableEq, Repr

namespace BlockId

/-- The bytes of an id as they stand in a file. -/
def bytes (i : BlockId) : List UInt8 := Utf8.encode i.text

/-- The header of the file. -/
def hd : BlockId := ⟨"##HD"⟩
def fh : BlockId := ⟨"##FH"⟩
def dg : BlockId := ⟨"##DG"⟩
def cg : BlockId := ⟨"##CG"⟩
/-- A channel. -/
def cn : BlockId := ⟨"##CN"⟩
/-- Plain text. -/
def tx : BlockId := ⟨"##TX"⟩
/-- Text that is XML. -/
def md : BlockId := ⟨"##MD"⟩
/-- Records. -/
def dt : BlockId := ⟨"##DT"⟩
/-- Compressed records. -/
def dz : BlockId := ⟨"##DZ"⟩
/-- A list of data blocks. -/
def dl : BlockId := ⟨"##DL"⟩
/-- The header of a list of data blocks. -/
def hl : BlockId := ⟨"##HL"⟩

end BlockId

end Mdf
