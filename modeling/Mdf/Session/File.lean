import Mdf.Block.ChannelGroup
import Mdf.Block.DataGroup
import Mdf.Block.FileHeader
import Mdf.Block.HistoryEntry
import Mdf.Block.Records
import Mdf.Block.Text
import Mdf.Identification
import Mdf.Markup.Comment
import Mdf.Session.Layout

/-!
# The file of a session

A file is the identification followed by blocks, each at the next multiple of eight:

    header, its comment, comment of the history, history, names and unit, channels, channel group,
    records, data group

The blocks are written in this order.  A link to a block that has been written is known; a link to a
later one is written as zero and set once that block has its offset.
-/

namespace Mdf

namespace Session

/-- What the history entry of a new file says was done. -/
def historyText : String := "created"

/-- The vendor of the tool that writes. -/
def toolVendor : String := "mdf4-fixtures"

/-- The version of the tool that writes. -/
def toolVersion : String := "0.1.0"

/-- The comment of the history entry of a new file. -/
def historyComment : String :=
  Comment.historyDocument historyText Identification.ownProgram toolVendor toolVersion

/-- Writes the name of each channel, and links the channel to it. -/
def writeNames : List (Channel × NamedChannel) → Encode (List Channel)
  | [] => return []
  | (c, named) :: rest => do
    let name ← Block.write (TextBlock.block .tx named.name)
    let channels ← writeNames rest
    return { c with name := name } :: channels

/-- Writes channels behind the one at an offset, each linked from the one before it. -/
def writeChain (previous : UInt64) : List Channel → Encode Unit
  | [] => return ()
  | c :: cs => do
    let offset ← Block.write c.block
    Block.patchLink previous 0 offset
    writeChain offset cs

/-- Writes the comment of a file and its history, and links the header to both. -/
def writeComments (s : Session) (header : UInt64) : Encode Unit := do
  let comment ← Block.write (TextBlock.block .md (Comment.headerDocument s.comment))
  Block.patchLink header 5 comment
  let entryComment ← Block.write (TextBlock.block .md historyComment)
  let history ← Block.write (HistoryEntry.block ⟨0, entryComment, s.startTime⟩)
  Block.patchLink header 1 history

/-- Writes the channels of a file, and gives the offset of the master channel. -/
def writeChannels (s : Session) (layout : Layout) : Encode UInt64 := do
  let name ← Block.write (TextBlock.block .tx masterName)
  let unit ← Block.write (TextBlock.block .tx masterUnit)
  let channels ← writeNames (layout.channels.zip s.channels)
  let master ← Block.write { Layout.master with name := name, unit := unit }.block
  writeChain master channels
  return master

/-- Writes the records of a file and the groups that describe them, and gives the offset of the data
group. -/
def writeGroups (deflate : Deflate.Compressor) (s : Session) (layout : Layout) (time : TimeAxis)
    (master : UInt64) : Encode UInt64 := do
  let records ← s.records layout time
  let recordSize := UInt32.ofNat layout.recordSize
  let group ← Block.write
    (ChannelGroup.block ⟨0, master, 0, 0, 0, UInt64.ofNat time.length, 0, recordSize, 0⟩)
  let data ← Records.write deflate s.storage recordSize records
  Block.write (DataGroup.block ⟨0, group, data, 0, 0⟩)

/-- Writes the file of a session with the given layout and axis. -/
def write (deflate : Deflate.Compressor) (s : Session) (layout : Layout) (time : TimeAxis) :
    Encode Unit := do
  Encode.bytes (Identification.new s.version).encode
  let header ← Block.write (FileHeader.new s.startTime).block
  s.writeComments header
  let master ← s.writeChannels layout
  let dataGroup ← s.writeGroups deflate layout time master
  Block.patchLink header 0 dataGroup

def file (deflate : Deflate.Compressor) (s : Session) : Except Failure (List UInt8) := do
  match s.time with
  | none => throw (.error .emptyFixture)
  | some time =>
    if s.storage ≠ .plain ∧ ¬s.version.supportsCompression then
      throw (.error (.unsupportedFeature (.compressedRecords s.version.text)))
    let layout ← s.layout
    let ((), bytes) ← (s.write deflate layout time).run []
    return bytes

end Session

end Mdf
