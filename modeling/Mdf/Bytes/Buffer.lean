import Mdf.Bytes.LittleEndian
import Mdf.Checked

/-!
# Buffers

What has been written of a file is a list of bytes.  A buffer is padded with zero bytes to a
multiple of eight, and bytes of it can be overwritten in place.
-/

namespace Mdf.Buffer

/-- The least multiple of eight that is not below `n`. -/
def alignUp (n : Nat) : Nat := (n + 7) / 8 * 8

def zeros (n : Nat) : List UInt8 := List.replicate n 0

/-- A buffer with zero bytes up to the next multiple of eight. -/
def aligned (buffer : List UInt8) : List UInt8 :=
  buffer ++ zeros (alignUp buffer.length - buffer.length)

/-- What no buffer reaches.  Buffers are kept in memory, and the addresses of memory use fewer than
60 of their 64 bits. -/
def limit : Nat := 1 <<< 60

/-- Bytes as one buffer of memory. -/
def allocate (bytes : List UInt8) : Except Fault (List UInt8) :=
  if bytes.length < limit then .ok bytes else .error (.capacity bytes.length)

/-- The bytes before the first zero byte, or all of them if there is none. -/
def beforeZero (bytes : List UInt8) : Except Fault (List UInt8) :=
  Checked.slice bytes 0 (bytes.findIdx (· == 0))

/-- A buffer with the bytes from `start` up to `stop` replaced by as many others. -/
def overwrite (buffer : List UInt8) (start stop : Nat) (bytes : List UInt8) :
    Except Fault (List UInt8) := do
  let field ← Checked.slice buffer start stop
  let bytes ← Checked.fill field.length bytes
  return buffer.take start ++ bytes ++ buffer.drop stop

/-- A buffer with the eight bytes at an offset replaced by a number.  They must lie within it. -/
def patch (buffer : List UInt8) (offset : Nat) (v : UInt64) : Except Fault (List UInt8) :=
  if offset + 8 ≤ buffer.length then
    .ok (buffer.take offset ++ LittleEndian.uint64 v ++ buffer.drop (offset + 8))
  else .error (.patch offset buffer.length)

theorem le_alignUp (n : Nat) : n ≤ alignUp n := by
  unfold alignUp
  omega

theorem alignUp_mod (n : Nat) : alignUp n % 8 = 0 := by
  unfold alignUp
  omega

theorem alignUp_of_mod {n : Nat} (h : n % 8 = 0) : alignUp n = n := by
  unfold alignUp
  omega

@[simp] theorem length_zeros (n : Nat) : (zeros n).length = n := by
  simp [zeros]

@[simp] theorem length_aligned (buffer : List UInt8) :
    (aligned buffer).length = alignUp buffer.length := by
  have h := le_alignUp buffer.length
  simp only [aligned, List.length_append, length_zeros]
  omega

theorem length_patch {buffer buffer' : List UInt8} {offset : Nat} {v : UInt64}
    (h : patch buffer offset v = .ok buffer') : buffer'.length = buffer.length := by
  unfold patch at h
  split at h
  · cases h
    simp only [List.length_append, List.length_take, LittleEndian.length_uint64, List.length_drop]
    omega
  · cases h

theorem allocate_eq_ok_iff {bytes buffer : List UInt8} :
    allocate bytes = .ok buffer ↔ buffer = bytes ∧ bytes.length < limit := by
  unfold allocate
  split
  · simp_all [eq_comm]
  · simp_all

end Mdf.Buffer
