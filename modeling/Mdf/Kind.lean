import Mdf.DataType

/-!
# Kinds of samples

The ten primitive kinds that a fixture covers: signed and unsigned integers of four widths, and two
floats.  Each kind has one encoding, and `ofEncoding` finds it again.
-/

namespace Mdf

/-- A primitive kind of sample. -/
inductive Kind where
  | int8
  | int16
  | int32
  | int64
  | uint8
  | uint16
  | uint32
  | uint64
  | float32
  | float64
deriving DecidableEq, Repr

namespace Kind

def all : List Kind :=
  [int8, int16, int32, int64, uint8, uint16, uint32, uint64, float32, float64]

/-- The short name, which also names the channel of the kind. -/
def code : Kind → String
  | int8 => "i8"
  | int16 => "i16"
  | int32 => "i32"
  | int64 => "i64"
  | uint8 => "u8"
  | uint16 => "u16"
  | uint32 => "u32"
  | uint64 => "u64"
  | float32 => "f32"
  | float64 => "f64"

instance : ToString Kind := ⟨code⟩

def bytes : Kind → Nat
  | int8 | uint8 => 1
  | int16 | uint16 => 2
  | int32 | uint32 | float32 => 4
  | int64 | uint64 | float64 => 8

def bits (k : Kind) : Nat := 8 * k.bytes

/-- Whether samples are integers with a sign. -/
def isSigned : Kind → Bool
  | int8 | int16 | int32 | int64 => true
  | _ => false

/-- Whether samples are floats. -/
def isFloat : Kind → Bool
  | float32 | float64 => true
  | _ => false

def dataType (k : Kind) : DataType :=
  if k.isFloat then .floatLe else if k.isSigned then .intLe else .uintLe

def encoding (k : Kind) : Encoding := ⟨k.dataType, UInt32.ofNat k.bits⟩

def ofEncoding (e : Encoding) : Except Error Kind :=
  match all.find? fun k => k.encoding == e with
  | some k => .ok k
  | none => .error e.refusal

theorem mem_all (k : Kind) : k ∈ all := by
  cases k <;> decide

@[simp] theorem ofEncoding_encoding (k : Kind) : ofEncoding k.encoding = .ok k := by
  cases k <;> rfl

@[simp] theorem byteSize_encoding (k : Kind) : k.encoding.byteSize = k.bytes := by
  cases k <;> rfl

@[simp] theorem validate_encoding (k : Kind) : k.encoding.validate = .ok k.encoding := by
  cases k <;> rfl

end Kind

end Mdf
