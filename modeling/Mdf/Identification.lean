import Mdf.Bytes.Buffer
import Mdf.Bytes.Decode
import Mdf.Text.Blank
import Mdf.Version

/-!
# Identification

The first 64 bytes of a file:

    mark (8)  version as text (8)  program (8)
    byte order (2)  float format (2)  version as number (2)  code page (2)
    reserved (28)  flags of an unfinished file (2 and 2)

The two forms of the version must agree, and byte order and float format must be zero.
-/

namespace Mdf

/-- What a file says of itself. -/
structure Identification where
  version : Version
  program : String
  /-- The flags of a file that its writer did not finish: those of the format, and its own. -/
  unfinished : Option (UInt16 × UInt16)
deriving DecidableEq, Repr

namespace Identification

/-- The bytes of an identification. -/
def size : Nat := 64

/-- The mark of a finished file. -/
def finishedMark : List UInt8 := Utf8.encode "MDF     "

/-- The mark of a file that its writer did not finish. -/
def unfinishedMark : List UInt8 := Utf8.encode "UnFinMF "

/-- The program name of this library. -/
def ownProgram : String := "mdf4fix"

/-- The identification of a new file. -/
def new (version : Version) : Identification := ⟨version, ownProgram, none⟩

/-- The field of a program name: its first eight bytes, filled with zero bytes. -/
def programField (program : String) : List UInt8 :=
  let bs := (Utf8.encode program).take 8
  bs ++ Buffer.zeros (8 - bs.length)

/-- The name in a program field: what stands before the first zero byte, without blanks at the
end. -/
def programName (field : List UInt8) : Except Fault String := do
  return Text.trimEnd (Utf8.decodeLossy (← Buffer.beforeZero field))

/-- An identification as it stands in a file. -/
def encode (i : Identification) : List UInt8 :=
  (if i.unfinished.isSome then unfinishedMark else finishedMark)
    ++ i.version.field ++ programField i.program
    ++ LittleEndian.uint16 0 ++ LittleEndian.uint16 0 ++ LittleEndian.uint16 i.version.number
    ++ LittleEndian.uint16 0 ++ Buffer.zeros 28
    ++ LittleEndian.uint16 (i.unfinished.elim 0 Prod.fst)
    ++ LittleEndian.uint16 (i.unfinished.elim 0 Prod.snd)

/-- Reads the identification at the position. -/
def decode : Decode Identification := do
  let mark ← Decode.take 8
  Decode.refuseIf (mark ≠ finishedMark ∧ mark ≠ unfinishedMark) .invalidMagic
  let version ← (Version.ofField (← Decode.take 8) : Except Failure Version)
  let program ← (programName (← Decode.take 8) : Except Failure String)
  let byteOrder ← Decode.uint16
  let floatFormat ← Decode.uint16
  let number ← Decode.uint16
  let _ ← Decode.uint16
  Decode.skip 28
  let flags ← Decode.uint16
  let ownFlags ← Decode.uint16
  Decode.refuseIf (number ≠ version.number)
    (.versionMismatch version.text (toString number.toNat))
  Decode.refuseIf (byteOrder ≠ 0 ∨ floatFormat ≠ 0) (.unsupportedFeature .byteOrder)
  return ⟨version, program, if mark = finishedMark then none else some (flags, ownFlags)⟩

end Identification

end Mdf
