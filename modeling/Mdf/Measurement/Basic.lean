import Mdf.Identification
import Mdf.Markup.Comment
import Mdf.Sample

/-!
# Measurements

What a measurement file holds, once it has been read: the times of its records, and channels with
one sample for each time.
-/

namespace Mdf

structure MeasuredChannel where
  name : String
  /-- The unit, if the file gives one. -/
  unit : Option String
  /-- How the samples are encoded in the file. -/
  encoding : Encoding
  samples : Samples
deriving DecidableEq, Repr

structure Measurement where
  /-- What the file says of itself. -/
  id : Identification
  /-- The start of the measurement, in nanoseconds since 1970 UTC. -/
  startTime : UInt64
  comment : Option Comment
  /-- The comments of the file history, in order. -/
  history : List Comment
  /-- The name of the master channel; empty without one. -/
  masterName : String
  /-- The times of the records; their indices without a master channel. -/
  time : List Double
  channels : List MeasuredChannel
deriving DecidableEq, Repr

namespace Measurement

def recordCount (m : Measurement) : Nat := m.time.length

def channel? (m : Measurement) (name : String) : Option MeasuredChannel :=
  m.channels.find? fun c => c.name == name

/-- The comment proper of the file. -/
def commentText? (m : Measurement) : Option String := m.comment.bind Comment.text?

end Measurement

end Mdf
