import Mdf.Error

/-!
# Export formats

A measurement is exported as a table of comma-separated values, the one format there is.
-/

namespace Mdf

inductive ExportFormat where
  /-- Comma-separated values, a line for each record. -/
  | csv
deriving DecidableEq, Repr

namespace ExportFormat

def all : List ExportFormat := [csv]

def name : ExportFormat → String
  | csv => "csv"

instance : ToString ExportFormat := ⟨name⟩

def extension : ExportFormat → String
  | csv => "csv"

/-- The format that is used unless another one is asked for. -/
def default : ExportFormat := csv

/-- The format of a name, in which the case of ASCII letters does not matter. -/
def ofName (s : String) : Except Error ExportFormat :=
  match all.find? fun f => f.name == s.toLower with
  | some f => .ok f
  | none => .error (.unknownExportFormat s)

end ExportFormat

end Mdf
