import Mdf.Block.Chain
import Mdf.Block.Channel
import Mdf.Block.ChannelGroup
import Mdf.Block.DataGroup
import Mdf.Block.Records
import Mdf.Block.Text
import Mdf.Fixture
import Mdf.Measurement.Basic

/-!
# Reading a data group

A data group is read in three steps: its channel group and its records, which must agree in size;
the chain of its channels; and the times and samples, row by row.  Each row is one record, and a
channel is a range of bytes of every row.
-/

namespace Mdf

/-- A channel and the texts that it links to. -/
structure FoundChannel where
  name : String
  /-- The unit, if the channel has one. -/
  unit : Option String
  /-- Where the sample stands in a record, and how it is encoded. -/
  channel : Channel
deriving DecidableEq, Repr

/-- The channels of a group. -/
structure FoundChannels where
  /-- The channel of the times. -/
  master : Option FoundChannel
  /-- The other channels, in order. -/
  values : List FoundChannel
deriving DecidableEq, Repr

/-- What a data group holds. -/
structure MeasuredGroup where
  /-- The name of the master channel; empty without one. -/
  masterName : String
  /-- The times of the records; their indices without a master channel. -/
  time : List Double
  channels : List MeasuredChannel
deriving DecidableEq, Repr

namespace MeasuredGroup

/-! ### Channels -/

/-- Reads one channel of a chain, whose samples must lie within records of the given size. -/
def readChannel (dataBytes : Nat) (found : FoundChannels) (offset : Nat) :
    Decode (FoundChannels × UInt64) := do
  let c ← Channel.read offset
  let (_, name) ← TextBlock.read c.name.toNat
  let stop ← (c.stop : Except Failure Nat)
  Decode.refuseIf (dataBytes < stop) (.blockTooShort .cg stop dataBytes)
  if c.isMaster then
    Decode.refuseIf found.master.isSome (.unsupportedFeature .severalMasters)
    return ({ found with master := some ⟨name, none, c⟩ }, c.next)
  else if c.unit = 0 then
    return ({ found with values := found.values ++ [⟨name, none, c⟩] }, c.next)
  else
    let (_, unit) ← TextBlock.read c.unit.toNat
    return ({ found with values := found.values ++ [⟨name, some unit, c⟩] }, c.next)

/-- Reads the chain of channels that a link leads to. -/
def readChannels (dataBytes : Nat) (link : UInt64) : Decode FoundChannels :=
  Chain.fold (readChannel dataBytes) ⟨none, []⟩ link

/-! ### Samples -/

/-- The bytes of a channel in a row. -/
def cell (c : Channel) (row : List UInt8) : Except Fault (List UInt8) := do
  let stop ← c.stop
  Checked.slice row c.byteOffset.toNat stop

/-- The time that the master channel holds in a row: a float of 32 bits or, for any other width, of
64. -/
def timeOfRow (c : Channel) (row : List UInt8) : Except Fault Double := do
  let start := c.byteOffset.toNat
  if c.encoding.bitCount = 32 then
    let bytes ← (List.range 4).mapM fun i => Checked.item row.toArray (start + i)
    return Single.widen ⟨BitVec.ofNat _ (LittleEndian.decode bytes)⟩
  else
    let stop ← Checked.add start 8
    let bytes ← Checked.slice row start stop
    let raw ← Checked.fill 8 bytes
    return ⟨BitVec.ofNat _ (LittleEndian.decode raw)⟩

/-- The times that the master channel holds in records of a size.  They must be floats; records
without bytes hold none. -/
def masterTimes (c : Channel) (size : Nat) (records : List UInt8) :
    Except Failure (List Double) := do
  let e := c.encoding
  if e.dataType = .floatLe ∧ (e.bitCount = 32 ∨ e.bitCount = 64) then
    if 0 < size then
      let rows ← Checked.pieces size records
      (rows.mapM (timeOfRow c) : Except Fault (List Double))
    else return []
  else throw (.error e.refusal)

/-- The word that a channel of a kind holds in a row. -/
def wordOfRow (kind : Kind) (c : Channel) (row : List UInt8) :
    Except Failure (BitVec kind.bits) := do
  let bytes ← cell c row
  kind.word bytes

/-- The samples of a channel in the first `count` of the records of a size. -/
def samplesOf (size count : Nat) (records : List UInt8) (f : FoundChannel) :
    Except Failure MeasuredChannel := do
  let kind ← Kind.ofEncoding f.channel.encoding
  let rows ← Checked.pieces (max size 1) records
  let words ← (rows.take count).mapM (wordOfRow kind f.channel)
  return ⟨f.name, f.unit, f.channel.encoding, ⟨kind, words⟩⟩

/-- The name of the master channel and the times of `count` records of a size. -/
def timesOf (size count : Nat) (records : List UInt8) (master : Option FoundChannel) :
    Except Failure (String × List Double) := do
  match master with
  | some f =>
    let times ← masterTimes f.channel size records
    return (f.name, times)
  | none => return ("", (TimeAxis.sequential count).values)

/-- What the channels of a group hold in `count` records of a size. -/
def ofRecords (size count : Nat) (records : List UInt8) (found : FoundChannels) :
    Except Failure MeasuredGroup := do
  let (name, time) ← timesOf size count records found.master
  let channels ← found.values.mapM (samplesOf size count records)
  return ⟨name, time, channels⟩

/-! ### Groups -/

/-- Reads the records of a data group, which must be as many bytes as its channel group says. -/
def readRecords (g : DataGroup) (cg : ChannelGroup) : Decode (List UInt8) := do
  let records ← Records.read g.data.toNat
  let size ← Decode.size
  let expected := cg.cycleCount.toNat * cg.dataBytes.toNat
  Decode.refuseIf (Checked.wordBound ≤ expected) (.prematureEnd size)
  Decode.refuseIf (records.length ≠ expected) (.blockTooShort .dt expected records.length)
  return records

def read (g : DataGroup) : Decode MeasuredGroup := do
  Decode.refuseIf (g.recordIdSize ≠ 0) (.unsupportedFeature .recordIds)
  let cg ← ChannelGroup.read g.firstChannelGroup.toNat
  Decode.refuseIf (cg.next ≠ 0) (.unsupportedFeature .severalChannelGroups)
  Decode.refuseIf (cg.invalidationBytes ≠ 0) (.unsupportedFeature .invalidationBytes)
  Decode.refuseIf (cg.dataBytes = 0 ∧ cg.cycleCount ≠ 0) (.unsupportedFeature .emptyRecords)
  let records ← readRecords g cg
  let found ← readChannels cg.dataBytes.toNat cg.firstChannel
  (ofRecords cg.dataBytes.toNat cg.cycleCount.toNat records found : Except Failure MeasuredGroup)

end MeasuredGroup

end Mdf
