import Mdf.Error
import Mdf.Text.Blank

/-!
# Format revisions

The three revisions that are read and written, their order, and their three forms: the text `4.10`,
the number 410, and the field of eight bytes at the start of a file.
-/

namespace Mdf

/-- A supported revision of the format. -/
inductive Version where
  /-- Revision 4.00. -/
  | v400
  /-- Revision 4.10. -/
  | v410
  /-- Revision 4.11. -/
  | v411
deriving DecidableEq, Repr

namespace Version

/-- Every revision, in order. -/
def all : List Version := [v400, v410, v411]

/-- The number before the point. -/
def major (_ : Version) : UInt8 := 4

/-- The number behind the point. -/
def minor : Version → UInt8
  | v400 => 0
  | v410 => 10
  | v411 => 11

/-- The number that a file holds, such as 410. -/
def number (v : Version) : UInt16 := v.major.toUInt16 * 100 + v.minor.toUInt16

/-- A pair of numbers as a text, with two digits behind the point. -/
def textOf (major minor : Nat) : String :=
  toString major ++ "." ++ Numeral.padLeft 2 '0' (toString minor)

/-- The text of a revision, such as `4.10`. -/
def text (v : Version) : String := textOf v.major.toNat v.minor.toNat

instance : ToString Version := ⟨text⟩

/-- Revisions are ordered as their numbers are. -/
def compare (a b : Version) : Ordering := Ord.compare a.number b.number

/-- What is written unless another revision is asked for. -/
def default : Version := v410

/-- The lowest revision with compressed records. -/
def leastCompressed : Version := v410

/-- Whether records may be compressed. -/
def supportsCompression (v : Version) : Bool := leastCompressed.number ≤ v.number

/-- The revision with the given numbers. -/
def ofNumbers? (major minor : Nat) : Option Version :=
  all.find? fun v => v.major.toNat == major && v.minor.toNat == minor

/-- The revision with the given numbers; the error shows them as a revision. -/
def ofNumbers (major minor : Nat) : Except Error Version :=
  match ofNumbers? major minor with
  | some v => .ok v
  | none => .error (.unsupportedVersion (textOf major minor))

/-- The revision of a number such as 410; the error shows a number that is too large as it is. -/
def ofNumber (n : Nat) : Except Error Version :=
  if n / 100 < 256 then ofNumbers (n / 100) (n % 100)
  else .error (.unsupportedVersion (toString n))

/-- The two sides of the first point. -/
def splitPoint? (s : List Char) : Option (List Char × List Char) :=
  match s.dropWhile (· ≠ '.') with
  | [] => none
  | _ :: r => some (s.takeWhile (· ≠ '.'), r)

/-- Reads a revision with blanks around it.  Behind the point stand two digits; before it stands a
numeral, which may have a plus sign and leading zeros. -/
def parse? (s : String) : Option Version := do
  let (major, minor) ← splitPoint? (Text.trim s).toList
  guard (minor.length = 2 ∧ minor.all Char.isDigit)
  let major ← Numeral.read? 10 256 major
  let minor ← Numeral.read? 10 256 minor
  ofNumbers? major minor

/-- Reads a revision; the error shows the whole text. -/
def parse (s : String) : Except Error Version :=
  match parse? s with
  | some v => .ok v
  | none => .error (.unsupportedVersion s)

/-- The field of eight bytes: the text, filled with spaces. -/
def field (v : Version) : List UInt8 := Utf8.encode (Numeral.padRight 8 ' ' v.text)

/-- Reads the field, in which spaces and zero bytes behind the text do not count. -/
def ofField (raw : List UInt8) : Except Error Version :=
  let fill (c : Char) : Bool := c == ' ' || c == '\x00'
  parse (String.ofList (Text.dropTrailing fill (Utf8.decodeLossy raw).toList))

example : all.map text = ["4.00", "4.10", "4.11"] := by decide
example : parse? " +04.10\n" = some v410 := by decide
example : parse? "4.1" = none := by decide

end Version

end Mdf
