/-!
# Bit sources

A byte string read bit by bit, each byte from its least bit.  `pending` holds what is left of the
byte begun, so aligning to a byte is forgetting it.
-/

namespace Mdf.Deflate

/-- The bits of a byte, least first. -/
def bitsOf (b : UInt8) : List Bool := (List.range 8).map b.toNat.testBit

/-- Bytes of which some bits have been read. -/
structure BitSource where
  /-- The bits left of the byte begun. -/
  pending : List Bool
  /-- The bytes not begun. -/
  bytes : List UInt8
deriving DecidableEq, Repr

namespace BitSource

/-- A source of which nothing has been read. -/
def ofBytes (bs : List UInt8) : BitSource := ⟨[], bs⟩

def size (s : BitSource) : Nat := s.pending.length + 8 * s.bytes.length

/-- The next bit. -/
def next? (s : BitSource) : Option (Bool × BitSource) :=
  match s.pending, s.bytes with
  | b :: r, bs => some (b, ⟨r, bs⟩)
  | [], c :: bs =>
    match bitsOf c with
    | b :: r => some (b, ⟨r, bs⟩)
    | [] => none
  | [], [] => none

/-- The next `n` bits as a number, the first one least. -/
def take? (s : BitSource) : Nat → Option (Nat × BitSource)
  | 0 => some (0, s)
  | n + 1 =>
    match s.next? with
    | none => none
    | some (b, t) =>
      match t.take? n with
      | none => none
      | some (v, u) => some (2 * v + b.toNat, u)

/-- The source from the next whole byte on. -/
def align (s : BitSource) : BitSource := ⟨[], s.bytes⟩

end BitSource

end Mdf.Deflate
