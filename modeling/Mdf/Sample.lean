import Mdf.Kind
import Mdf.Binary.Notation
import Mdf.Bytes.LittleEndian
import Mdf.Checked

/-!
# Samples

A sample is a word of its kind's width, so every value, each NaN included, is kept bit for bit.
Its kind says how the word is read: as a signed number, as an unsigned one, or as a float.  In a
record a sample is its word with the least byte first.
-/

namespace Mdf

structure Value where
  /-- How the word is read. -/
  kind : Kind
  word : BitVec kind.bits
deriving DecidableEq, Repr

namespace Value

/-- The word least byte first. -/
def bytes (v : Value) : List UInt8 := LittleEndian.encode v.kind.bytes v.word.toNat

/-- The bytes for a field of the given width, which must be that of the kind. -/
def encode (v : Value) (width : Nat) : Except Fault (List UInt8) := Checked.fill width v.bytes

def isInfinite : Value → Bool
  | ⟨.float32, w⟩ => (⟨w⟩ : Single).isInfinite
  | ⟨.float64, w⟩ => (⟨w⟩ : Double).isInfinite
  | _ => false

/-- The number of an integer, with its sign. -/
def toInt (v : Value) : Int := if v.kind.isSigned then v.word.toInt else v.word.toNat

/-- The value in positional notation. -/
def plain : Value → String
  | ⟨.float32, w⟩ => (⟨w⟩ : Single).plain
  | ⟨.float64, w⟩ => (⟨w⟩ : Double).plain
  | v => toString v.toInt

/-- The value as a field of a table: floats show that they are floats. -/
def repr : Value → String
  | ⟨.float32, w⟩ => (⟨w⟩ : Single).repr
  | ⟨.float64, w⟩ => (⟨w⟩ : Double).repr
  | v => toString v.toInt

end Value

/-- The word that a kind reads from bytes, which must be as many as the kind has. -/
def Kind.word (k : Kind) (bs : List UInt8) : Except Error (BitVec k.bits) :=
  if bs.length = k.bytes then .ok (BitVec.ofNat _ (LittleEndian.decode bs))
  else .error (.prematureEnd bs.length)

structure Samples where
  kind : Kind
  words : List (BitVec kind.bits)
deriving DecidableEq, Repr

namespace Samples

def empty (k : Kind) : Samples := ⟨k, []⟩

def length (s : Samples) : Nat := s.words.length

def isEmpty (s : Samples) : Bool := s.words.isEmpty

def values (s : Samples) : List Value := s.words.map fun w => ⟨s.kind, w⟩

/-- The sample at an index. -/
def get? (s : Samples) (i : Nat) : Option Value := s.words[i]?.map fun w => ⟨s.kind, w⟩

/-- The bytes of the sample at an index, for a field of the given width.  An index out of range is
refused; a field of another width is a fault. -/
def encode (s : Samples) (i width : Nat) : Except Failure (List UInt8) :=
  match s.get? i with
  | some v => v.encode width
  | none => .error (.error (.lengthMismatch s.kind.code (i + 1) s.length))

/-- Appends the sample that the bytes hold to the buffer. -/
def push (bs : List UInt8) : ExceptT Error (StateM Samples) Unit := do
  let s ← get
  let w ← s.kind.word bs
  set (⟨s.kind, s.words ++ [w]⟩ : Samples)

/-- The least and the greatest values of a kind: for integers zero, the greatest value and the least
one other than these; for floats zero, the greatest number and infinity. -/
def boundary (k : Kind) : Samples :=
  let words (l : List Nat) : Samples := ⟨k, l.map (BitVec.ofNat _)⟩
  match k with
  | .float32 => words [0, BinaryFormat.single.infinity - 1, BinaryFormat.single.infinity]
  | .float64 => words [0, BinaryFormat.double.infinity - 1, BinaryFormat.double.infinity]
  | k =>
    if k.isSigned then words [0, 1 <<< (k.bits - 1) - 1, 1 <<< (k.bits - 1)]
    else words [0, 1, 1 <<< k.bits - 1]

@[simp] theorem length_boundary (k : Kind) : (boundary k).length = 3 := by
  cases k <;> rfl

@[simp] theorem kind_boundary (k : Kind) : (boundary k).kind = k := by
  cases k <;> rfl

end Samples

end Mdf
