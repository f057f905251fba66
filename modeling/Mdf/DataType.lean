import Mdf.Error

/-!
# Channel data types

The 17 data types of the format, and `Encoding`, the data type and width of one channel.  An
encoding is `supported` when it is a little-endian integer or float of a width that a machine has.
-/

namespace Mdf

/-- How the bits of a channel are read. -/
inductive DataType where
  /-- Unsigned, least byte first. -/
  | uintLe
  /-- Unsigned, greatest byte first. -/
  | uintBe
  /-- Signed, least byte first. -/
  | intLe
  /-- Signed, greatest byte first. -/
  | intBe
  /-- Floating point, least byte first. -/
  | floatLe
  /-- Floating point, greatest byte first. -/
  | floatBe
  | stringLatin1
  | stringUtf8
  /-- Text in UTF-16, least byte first. -/
  | stringUtf16Le
  /-- Text in UTF-16, greatest byte first. -/
  | stringUtf16Be
  | byteArray
  | mimeSample
  | mimeStream
  /-- A date of seven bytes. -/
  | canopenDate
  /-- A time of six bytes. -/
  | canopenTime
  /-- Complex, least byte first. -/
  | complexLe
  /-- Complex, greatest byte first. -/
  | complexBe
deriving DecidableEq, Repr

namespace DataType

def all : List DataType :=
  [uintLe, uintBe, intLe, intBe, floatLe, floatBe, stringLatin1, stringUtf8, stringUtf16Le,
    stringUtf16Be, byteArray, mimeSample, mimeStream, canopenDate, canopenTime, complexLe,
    complexBe]

def code : DataType → UInt8
  | uintLe => 0
  | uintBe => 1
  | intLe => 2
  | intBe => 3
  | floatLe => 4
  | floatBe => 5
  | stringLatin1 => 6
  | stringUtf8 => 7
  | stringUtf16Le => 8
  | stringUtf16Be => 9
  | byteArray => 10
  | mimeSample => 11
  | mimeStream => 12
  | canopenDate => 13
  | canopenTime => 14
  | complexLe => 15
  | complexBe => 16

/-- A short name for people. -/
def label : DataType → String
  | uintLe => "uint_le"
  | uintBe => "uint_be"
  | intLe => "int_le"
  | intBe => "int_be"
  | floatLe => "float_le"
  | floatBe => "float_be"
  | stringLatin1 => "string_latin1"
  | stringUtf8 => "string_utf8"
  | stringUtf16Le => "string_utf16le"
  | stringUtf16Be => "string_utf16be"
  | byteArray => "byte_array"
  | mimeSample => "mime_sample"
  | mimeStream => "mime_stream"
  | canopenDate => "canopen_date"
  | canopenTime => "canopen_time"
  | complexLe => "complex_le"
  | complexBe => "complex_be"

def ofCode (code : UInt8) : Except Error DataType :=
  match all[code.toNat]? with
  | some t => .ok t
  | none => .error (.unsupportedDataType code.toNat 0)

@[simp] theorem ofCode_code (t : DataType) : ofCode t.code = .ok t := by
  cases t <;> rfl

end DataType

/-- The data type and the width of one channel. -/
structure Encoding where
  dataType : DataType
  bitCount : UInt32
deriving DecidableEq, Repr

namespace Encoding

/-- The bytes that one sample takes in a record. -/
def byteSize (e : Encoding) : Nat := (e.bitCount.toNat + 7) / 8

/-- Whether samples of this encoding are handled. -/
def supported (e : Encoding) : Bool :=
  match e.dataType with
  | .uintLe | .intLe => e.bitCount = 8 || e.bitCount = 16 || e.bitCount = 32 || e.bitCount = 64
  | .floatLe => e.bitCount = 32 || e.bitCount = 64
  | _ => false

/-- The error that refuses this encoding. -/
def refusal (e : Encoding) : Error :=
  .unsupportedDataType e.dataType.code.toNat e.bitCount.toNat

/-- Refuses an encoding that is not handled. -/
def validate (e : Encoding) : Except Error Encoding :=
  if e.supported then .ok e else .error e.refusal

theorem byteSize_lt (e : Encoding) : e.byteSize < 1 <<< 32 := by
  have h := e.bitCount.toNat_lt
  unfold byteSize
  omega

end Encoding

end Mdf
