import Mdf.FileSystem.Path
import Mdf.Measurement.Basic
import Mdf.Text.Json

/-!
# Reports

What a measurement file holds, without the samples: as lines for people, and as JSON with the
members in order of their names.
-/

namespace Mdf.CommandLine

/-- The line of a channel: name, data type, width and number of samples, in columns. -/
def channelLine (c : MeasuredChannel) : String :=
  "  " ++ Numeral.padRight 8 ' ' c.name
    ++ " " ++ Numeral.padRight 10 ' ' c.encoding.dataType.label
    ++ " " ++ Numeral.padLeft 3 ' ' (toString c.encoding.bitCount.toNat)
    ++ s!" bit  {c.samples.length} samples\n"

/-- The report for people on a measurement read from a path. -/
def report (p : Path) (m : Measurement) : String :=
  s!"file:     {p.text}\n"
    ++ s!"version:  {m.id.version.text} ({m.id.program})\n"
    ++ (m.commentText?.elim "" fun text => s!"comment:  {text}\n")
    ++ s!"records:  {m.recordCount}\n"
    ++ s!"master:   {m.masterName}\n"
    ++ "channels:\n"
    ++ String.join (m.channels.map channelLine)

/-- A channel in the JSON report. -/
def channelJson (c : MeasuredChannel) : Json :=
  .object
    [("bit_count", .number c.encoding.bitCount.toNat),
      ("data_type", .text c.encoding.dataType.label),
      ("kind", .text c.samples.kind.code),
      ("name", .text c.name),
      ("samples", .number c.samples.length)]

/-- The JSON report on a measurement. -/
def reportJson (m : Measurement) : Json :=
  .object
    [("channels", .list (m.channels.map channelJson)),
      ("comment", m.commentText?.elim .null .text),
      ("master", .text m.masterName),
      ("program", .text m.id.program),
      ("records", .number m.recordCount),
      ("start_time_ns", .number m.startTime.toNat),
      ("version", .text m.id.version.text)]

end Mdf.CommandLine
