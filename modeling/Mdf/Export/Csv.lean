/-!
# Comma-separated values

A table is a list of records, and a record is a list of fields.  Fields are divided by commas, and
each record ends with a line feed.  A field that holds a comma, a quote or a line break stands in
quotes, and a quote within it is written twice.
-/

namespace Mdf.Csv

def quote : Char := '\x22'

/-- Whether a field with this character must stand in quotes. -/
def isSpecial (c : Char) : Bool := c == ',' || c == quote || c == '\n' || c == '\r'

/-- A field between quotes, each quote within it written twice. -/
def quoted (s : List Char) : List Char :=
  quote :: s.flatMap (fun c => if c = quote then [quote, quote] else [c]) ++ [quote]

/-- A field as it is written. -/
def field (s : String) : String :=
  if s.toList.any isSpecial then String.ofList (quoted s.toList) else s

/-- A record as it is written. -/
def record (fields : List String) : String := String.intercalate "," (fields.map field) ++ "\n"

/-- A table as it is written. -/
def table (records : List (List String)) : String := String.join (records.map record)

end Mdf.Csv
