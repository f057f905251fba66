import Mdf.Fixture
import Mdf.Storage
import Mdf.Version

/-!
# Sessions

A session collects the channels of one file.  Its first channel fixes the time axis, and each later
one must come with the same axis.  A refused channel is not added.
-/

namespace Mdf

/-- What a new file will hold. -/
structure Session where
  version : Version
  /-- How records are kept. -/
  storage : Storage
  /-- The start of the measurement, in nanoseconds since 1970 UTC. -/
  startTime : UInt64
  comment : String
  /-- The times of the records, once a channel has brought them. -/
  time : Option TimeAxis
  channels : List NamedChannel
  /-- The names that are taken. -/
  names : List String
deriving DecidableEq, Repr

namespace Session

def masterName : String := "time"

def masterUnit : String := "s"

/-- The comment of a file for which none is given. -/
def defaultComment : String := "Boundary values of all primitive channel types"

def new (version : Version) : Session := ⟨version, .plain, 0, defaultComment, none, [], []⟩

def channelCount (s : Session) : Nat := s.channels.length

/-- Why an axis does not fit the session, as the error that refuses a channel on it. -/
def axisDefect? (s : Session) (time : TimeAxis) (c : NamedChannel) : Option Error :=
  match s.time with
  | none => none
  | some current =>
    if current.length ≠ time.length then
      some (.lengthMismatch c.name current.length time.length)
    else if !current.same time then some (.unsupportedFeature .differingChannelAxes)
    else none

/-- Why a channel on an axis that fits cannot be added. -/
def channelDefect? (s : Session) (time : TimeAxis) (c : NamedChannel) : Option Error :=
  if c.samples.length ≠ time.length then
    some (.lengthMismatch c.name time.length c.samples.length)
  else if c.name = masterName ∨ c.name ∈ s.names then some (.duplicateChannel c.name)
  else none

/-- Adds a channel.  An axis that fits an empty session is kept even if its channel is refused. -/
def appendChannel (s : Session) (time : TimeAxis) (c : NamedChannel) :
    Except Error Unit × Session :=
  match s.axisDefect? time c with
  | some e => (.error e, s)
  | none =>
    let s := { s with time := some (s.time.getD time) }
    match s.channelDefect? time c with
    | some e => (.error e, s)
    | none => (.ok (), { s with names := s.names ++ [c.name], channels := s.channels ++ [c] })

/-- Adds channels one after the other, up to the first that is refused. -/
def appendAll (s : Session) (time : TimeAxis) : List NamedChannel → Except Error Unit × Session
  | [] => (.ok (), s)
  | c :: cs =>
    match s.appendChannel time c with
    | (.ok (), s) => s.appendAll time cs
    | (.error e, s) => (.error e, s)

/-- Adds the channels of a fixture. -/
def append (s : Session) (set : FixtureSet) : Except Error Unit × Session :=
  s.appendAll set.time set.channels

end Session

end Mdf
