import Mdf.Deflate.Decoder
import Mdf.Deflate.Inflate
import Mdf.Bytes.LittleEndian

/-!
# The zlib container

The format of RFC 1950: two bytes of header, a stream of blocks, and a checksum of the output.
`compress` writes blocks of bytes as they are.  `inflating` is the decoder of containers, and
`decompress` restores a declared number of bytes with it.
-/

namespace Mdf.Deflate

/-! ### Checksum -/

/-- The modulus of the checksum. -/
def adlerBase : Nat := 65521

/-- The two sums after one more byte. -/
def adlerStep (sums : Nat × Nat) (b : UInt8) : Nat × Nat :=
  let a := (sums.1 + b.toNat) % adlerBase
  (a, (sums.2 + a) % adlerBase)

/-- The checksum of the bytes whose sums are given. -/
def adlerOf (sums : Nat × Nat) : Nat := sums.2 * 65536 + sums.1

def adler32 (out : Array UInt8) : Nat := adlerOf (out.foldl adlerStep (1, 0))

/-- The four bytes of a checksum, greatest first. -/
def adlerBytes (sum : Nat) : List UInt8 := (LittleEndian.encode 4 sum).reverse

/-! ### Writing -/

/-- The most bytes that one block holds as they are. -/
def storedLimit : Nat := 65535

/-- A block of at most `storedLimit` bytes as they are. -/
def storedBlock (last : Bool) (d : List UInt8) : List UInt8 :=
  (if last then 1 else 0) :: (LittleEndian.encode 2 d.length
    ++ LittleEndian.encode 2 (storedLimit - d.length) ++ d)

/-- Blocks of bytes as they are. -/
def storedBlocks (d : List UInt8) : List UInt8 :=
  if d.length ≤ storedLimit then storedBlock true d
  else storedBlock false (d.take storedLimit) ++ storedBlocks (d.drop storedLimit)
termination_by d.length
decreasing_by simp only [List.length_drop, storedLimit] at *; omega

/-- A container of the given bytes. -/
def compress (d : List UInt8) : List UInt8 :=
  [0x78, 0x01] ++ storedBlocks d ++ adlerBytes (adlerOf (d.foldl adlerStep (1, 0)))

/-- What turns bytes into a container of them, or says why it cannot. -/
def Compressor := List UInt8 → Except String (List UInt8)

/-- The compressor that keeps bytes as they are. -/
def storing : Compressor := fun d => .ok (compress d)

/-- The container that a compressor gives. -/
def Compressor.container (deflate : Compressor) (d : List UInt8) : Except Error (List UInt8) :=
  match deflate d with
  | .ok stream => .ok stream
  | .error detail => .error (.compression detail)

/-! ### Reading -/

namespace Inflater

/-- The header: the method is deflate, the window is not too large, the check bits make a multiple
of 31, and no dictionary is required. -/
def header : Inflater Unit := do
  let method ← bits 8
  let flags ← bits 8
  if method % 16 = 8 ∧ method / 16 ≤ 7 ∧ (256 * method + flags) % 31 = 0 ∧ flags / 32 % 2 = 0
  then return () else throw .corrupt

/-- The checksum, which follows the last block at the next whole byte. -/
def trailer : Inflater Unit := do
  align
  let sum := (← bits 8) <<< 24 + (← bits 8) <<< 16 + (← bits 8) <<< 8 + (← bits 8)
  if sum = adler32 (← get).out then return () else throw .corrupt

/-- A whole container; what follows it is not read. -/
def container (capacity : Nat) : Inflater Unit := do
  header
  stream capacity
  trailer

end Inflater

/-- Inflates a container into an output of at most `capacity` bytes. -/
def inflate (capacity : Nat) (d : List UInt8) : Except Stop Unit × Array UInt8 :=
  let (result, progress) := (Inflater.container capacity).run.run ⟨.ofBytes d, #[]⟩
  (result, progress.out)

/-- The size of the window that output passes through. -/
def windowSize : Nat := 32768

/-- A container that is being inflated. -/
structure Inflation where
  container : List UInt8
  /-- How many bytes of its output were given. -/
  given : Nat
deriving DecidableEq, Repr

/-- The decoder of containers.  Output passes through a window, so a read inflates up to the end of
the window that holds the last byte it asks for: a defect up to there is an error.  Bytes in front
of the end of the input are given before it is. -/
def inflating : Decoder where
  State := Inflation
  start z := ⟨z, 0⟩
  read s n :=
    let (result, out) := inflate (((s.given + n - 1) / windowSize + 1) * windowSize) s.container
    match result, (out.toList.drop s.given).take n with
    | .error .corrupt, _ | .error _, [] => .error .corrupt
    | _, bytes => .ok (bytes, ⟨s.container, s.given + bytes.length⟩)

/-- Restores the `declared` bytes of a container.  There is room for all that is asked for. -/
def decompress (z : List UInt8) (declared : UInt64) : Except Error (List UInt8) :=
  inflating.decompress (fun _ => ⟨UInt64.size, by decide⟩) z declared

end Mdf.Deflate
