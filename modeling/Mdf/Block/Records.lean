import Mdf.Block.Basic
import Mdf.Deflate.Zlib
import Mdf.Storage

/-!
# Blocks of records

Records stand in a block as they are, or in a compressed block, which declares how many bytes there
were and how they were rearranged before.  `Records.write` writes either and `Records.read` reads
either.
-/

namespace Mdf.Records

/-- The id, within a compressed block, of what was compressed. -/
def wrappedId : List UInt8 := [0x44, 0x54]

/-- The data of a compressed block before the compressed bytes. -/
def wrapping (zipType : UInt8) (parameter : UInt32) (unpacked packed : Nat) : List UInt8 :=
  wrappedId ++ [zipType, 0] ++ LittleEndian.uint32 parameter
    ++ LittleEndian.uint64 (UInt64.ofNat unpacked) ++ LittleEndian.uint64 (UInt64.ofNat packed)

/-- The number that a storage mode keeps of a record size. -/
def parameter (mode : Storage) (recordSize : UInt32) : UInt32 :=
  match mode with
  | .transposed => recordSize
  | _ => 0

/-- Records rearranged for a storage mode. -/
def arrange (mode : Storage) (recordSize : UInt32) (records : List UInt8) :
    Except Fault (List UInt8) :=
  match mode with
  | .transposed => Storage.transpose recordSize.toNat records
  | _ => .ok records

/-- The block of records in a storage mode. -/
def block (deflate : Deflate.Compressor) (mode : Storage) (recordSize : UInt32)
    (records : List UInt8) : Except Failure Block := do
  match mode.zipType? with
  | none => return ⟨.dt, [], records⟩
  | some zipType =>
    let arranged ← arrange mode recordSize records
    let packed ← deflate.container arranged
    return ⟨.dz, [],
      wrapping zipType (parameter mode recordSize) records.length packed.length ++ packed⟩

/-- Writes records in a storage mode, and gives the offset of their block. -/
def write (deflate : Deflate.Compressor) (mode : Storage) (recordSize : UInt32)
    (records : List UInt8) : Encode UInt64 := do
  let recordBlock ← block deflate mode recordSize records
  Block.write recordBlock

/-- Records as they were before they were rearranged, with the number that the mode keeps. -/
def restore (mode : Storage) (parameter : UInt32) (d : List UInt8) : Except Fault (List UInt8) :=
  match mode with
  | .transposed => Storage.untranspose parameter.toNat d
  | _ => .ok d

/-- Reads the data of a compressed block of which the head has been read. -/
def unpack (h : Block.Header) : Decode (List UInt8) := do
  let dataLength ← (h.dataLength : Except Failure Nat)
  Decode.refuseIf (dataLength < 24) (.blockTooShort .dz 24 dataLength)
  let wrapped ← Decode.take 2
  Decode.refuseIf (wrapped ≠ wrappedId) (.unsupportedFeature (.wrapped (Utf8.decodeLossy wrapped)))
  let zipType ← Decode.uint8
  let mode ← (Storage.ofZipType zipType : Except Failure Storage)
  Decode.skip 1
  let parameter ← Decode.uint32
  let unpacked ← Decode.uint64
  let packed ← Decode.uint64
  let size ← Decode.size
  let room ← (Checked.sub dataLength 24 : Except Failure Nat)
  Decode.refuseIf (room < packed.toNat) (.prematureEnd size)
  let stream ← Decode.take packed.toNat
  let d ← (Deflate.decompress stream unpacked : Except Failure (List UInt8))
  (restore mode parameter d : Except Failure (List UInt8))

/-- Reads the records that a link leads to; without a link there are none. -/
def read (offset : Nat) : Decode (List UInt8) := do
  if offset = 0 then return []
  else
    let h ← Block.Header.readAny .dt [.dz, .dl, .hl] offset
    if h.id = .dt then
      let dataLength ← (h.dataLength : Except Failure Nat)
      Decode.take dataLength
    else if h.id = .dz then unpack h
    else Decode.refuse (.unsupportedFeature .dataList)

end Mdf.Records
