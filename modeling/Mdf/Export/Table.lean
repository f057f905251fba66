import Mdf.Export.Csv
import Mdf.Measurement.Basic

/-!
# Tables of measurements

A measurement as a table: a line of column names, then a line for each record, with its time and a
sample of each channel.
-/

namespace Mdf.Measurement

/-- The name of the column of times. -/
def timeColumn : String := "timestamps"

/-- The sample of a channel at an index, as a field. -/
def cellText (m : Measurement) (i : Nat) (c : MeasuredChannel) : Except Error String :=
  match c.samples.get? i with
  | some v => .ok v.repr
  | none => .error (.lengthMismatch c.name m.recordCount c.samples.length)

/-- The record at an index, which has the given time. -/
def row (m : Measurement) (i : Nat) (t : Double) : Except Error (List String) := do
  let cells ← m.channels.mapM (m.cellText i)
  return t.repr :: cells

/-- The column names and the records. -/
def table (m : Measurement) : Except Error (List (List String)) := do
  let rows ← m.time.zipIdx.mapM fun (t, i) => m.row i t
  return (timeColumn :: m.channels.map MeasuredChannel.name) :: rows

/-- A measurement as comma-separated values. -/
def csv (m : Measurement) : Except Error String := return Csv.table (← m.table)

end Mdf.Measurement
