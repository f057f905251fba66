import Mdf.Block.FileHeader
import Mdf.Block.HistoryEntry
import Mdf.Measurement.Group

/-!
# Reading a measurement file

A file is read from its header on: the comment, the chain of the file history, and the chain of the
data groups.  All groups must have the same times, as numbers, and no two channels one name.
-/

namespace Mdf.Measurement

/-- Reads the comment that a link leads to: a document, or a plain text. -/
def readComment (link : UInt64) : Decode (Option Comment) := do
  if link = 0 then return none
  else
    let (id, text) ← TextBlock.read link.toNat
    if id = .md then
      let c ← (Comment.parse text : Except Failure Comment)
      return some c
    else return some (.plain text)

/-- Reads one entry of the file history. -/
def readEntry (comments : List Comment) (offset : Nat) : Decode (List Comment × UInt64) := do
  let e ← HistoryEntry.read offset
  let c ← readComment e.comment
  return (comments ++ c.toList, e.next)

/-- Reads the comments of the file history. -/
def readHistory (link : UInt64) : Decode (List Comment) := Chain.fold readEntry [] link

/-- Adds channels, none of which may have the name of one before it. -/
def addChannels (channels : List MeasuredChannel) :
    List MeasuredChannel → Except Error (List MeasuredChannel)
  | [] => .ok channels
  | c :: cs =>
    if channels.any fun d => d.name == c.name then .error (.duplicateChannel c.name)
    else addChannels (channels ++ [c]) cs

/-- The data groups read so far, as one group; none before the first. -/
abbrev Groups := Option MeasuredGroup

/-- Adds a data group, whose times must be those of the first one. -/
def addGroup (groups : Groups) (g : MeasuredGroup) : Except Error MeasuredGroup := do
  match groups with
  | none => return { g with channels := ← addChannels [] g.channels }
  | some first =>
    if Binary.ieeeEqAll g.time first.time then
      return { first with channels := ← addChannels first.channels g.channels }
    else throw (.unsupportedFeature .differingGroupAxes)

def readGroup (groups : Groups) (offset : Nat) : Decode (Groups × UInt64) := do
  let dg ← DataGroup.read offset
  let g ← MeasuredGroup.read dg
  let groups ← (addGroup groups g : Except Failure MeasuredGroup)
  return (some groups, dg.next)

/-- What all data groups hold together; without a group there are neither times nor channels. -/
def readGroups (link : UInt64) : Decode MeasuredGroup := do
  return (← Chain.fold readGroup none link).getD ⟨"", [], []⟩

/-- Refuses a file of another revision than the expected one, if any, and an unfinished file. -/
def checkIdentification (id : Identification) (expected : Option Version) : Except Error Unit :=
  match expected.filter (· ≠ id.version) with
  | some v => .error (.versionMismatch v.text id.version.text)
  | none =>
    if id.unfinished.isSome then .error (.unsupportedFeature .unfinalized) else .ok ()

/-- Reads a file. -/
def reader (expected : Option Version) : Decode Measurement := do
  let id ← Identification.decode
  let () ← (checkIdentification id expected : Except Failure Unit)
  let header ← FileHeader.read FileHeader.offset
  let comment ← readComment header.comment
  let history ← readHistory header.firstHistory
  let g ← readGroups header.firstDataGroup
  return ⟨id, header.startTime, comment, history, g.masterName, g.time, g.channels⟩

/-- The measurement that the bytes of a file hold. -/
def ofBytes (bytes : List UInt8) (expected : Option Version) : Except Failure Measurement :=
  ((reader expected).run bytes 0).1

end Mdf.Measurement
