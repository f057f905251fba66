import Mdf.Block.Channel
import Mdf.Bytes.Buffer
import Mdf.Session.Basic

/-!
# Record layout

A record is the time followed by one sample of each channel, in order and without gaps.
`Layout.ofEncodings` finds where each sample stands, and `Session.records` puts each sample where the
layout wants it, in all records one after the other.
-/

namespace Mdf

/-- Where samples stand in a record. -/
structure Layout where
  /-- The channels behind the time, in order. -/
  channels : List Channel
  recordSize : Nat
deriving DecidableEq, Repr

namespace Layout

/-- What no record size reaches: sizes are kept in 32 bits. -/
def sizeBound : Nat := 1 <<< 32

/-- The layout of channels from a byte of the record on. -/
def pack (start : Nat) : List Encoding → Except Error Layout
  | [] => .ok ⟨[], start⟩
  | e :: es => do
    let e ← e.validate
    if start + e.byteSize < sizeBound then
      let rest ← pack (start + e.byteSize) es
      return ⟨Channel.value e (UInt32.ofNat start) :: rest.channels, rest.recordSize⟩
    else .error (.unsupportedFeature .recordSize)

/-- The master channel, which comes first. -/
def master : Channel := Channel.masterTime 0

/-- The layout of channels of the given encodings. -/
def ofEncodings (es : List Encoding) : Except Error Layout := pack master.encoding.byteSize es

end Layout

namespace Session

/-- The layout of the records of a session. -/
def layout (s : Session) : Except Error Layout :=
  Layout.ofEncodings (s.channels.map fun c => c.kind.encoding)

/-- A record with the sample of a channel that belongs to the record at an index. -/
def packSample (i : Nat) (record : List UInt8) (c : Channel × NamedChannel) :
    Except Failure (List UInt8) := do
  let start := c.1.byteOffset.toNat
  let stop ← c.1.stop
  let field ← Checked.slice record start stop
  let sample ← c.2.samples.encode i field.length
  Buffer.overwrite record start stop sample

/-- The record at an index, put together in a blank one. -/
def packRecord (s : Session) (layout : Layout) (times : Array Double) (blank : List UInt8)
    (i : Nat) : Except Failure (List UInt8) := do
  let t ← Checked.item times i
  let start := Layout.master.byteOffset.toNat
  let stop ← Checked.add start 8
  let record ← Buffer.overwrite blank start stop (LittleEndian.encode 8 t.bits.toNat)
  (layout.channels.zip s.channels).foldlM (packSample i) record

/-- The records of a session on an axis, one after the other. -/
def records (s : Session) (layout : Layout) (time : TimeAxis) : Except Failure (List UInt8) := do
  let size ← Checked.mul time.length layout.recordSize
  let buffer ← Buffer.allocate (Buffer.zeros size)
  let blanks ← Checked.pieces layout.recordSize buffer
  let times := time.values.toArray
  let rows ← blanks.zipIdx.mapM fun p => s.packRecord layout times p.1 p.2
  return rows.flatten

end Session

end Mdf
