/-!
# Paths

A path is a text whose parts are divided by slashes.  The empty part, which a doubled slash leaves,
and the part `.` name nothing, so the last part of a path is what stands before any of these.
-/

namespace Mdf

structure Path where
  text : String
deriving DecidableEq, Repr

namespace Path

instance : ToString Path := ⟨text⟩

/-- The parts of a text between slashes. -/
def splitSlash : List Char → List (List Char)
  | [] => [[]]
  | c :: cs =>
    if c = '/' then [] :: splitSlash cs
    else
      match splitSlash cs with
      | [] => [[c]]
      | p :: ps => (c :: p) :: ps

/-- The parts of a path that name something, in order. -/
def parts (p : Path) : List String :=
  ((splitSlash p.text.toList).filter (· ≠ [])).map String.ofList

/-- Whether the path ends in a slash, so that it can name a directory only. -/
def endsInSlash (p : Path) : Bool := p.text.toList.getLast? = some '/'

/-- A path below another one.  An absolute path stays as it is, and below the empty path everything
does. -/
def join (p : Path) (below : String) : Path :=
  if below.toList.head? = some '/' ∨ p.text = "" then ⟨below⟩
  else if p.endsInSlash then ⟨p.text ++ below⟩
  else ⟨p.text ++ "/" ++ below⟩

/-- A path with a text put behind it. -/
def withSuffix (p : Path) (suffix : String) : Path := ⟨p.text ++ suffix⟩

/-! ### The last part -/

/-- A reversed path from the end of its last part on. -/
def skipTail : List Char → List Char
  | '/' :: r => skipTail r
  | '.' :: '/' :: r => skipTail r
  | r => r

/-- The path without its last part; a path without parts has none. -/
def parent? (p : Path) : Option Path :=
  match skipTail p.text.toList.reverse with
  | [] => none
  | r =>
    match skipTail (r.dropWhile (· ≠ '/')) with
    | [] => some ⟨if p.text.toList.head? = some '/' then "/" else ""⟩
    | r => some ⟨String.ofList r.reverse⟩

/-- A name divided at its last point.  The point at the start of a name divides nothing. -/
def splitExtension (name : List Char) : List Char × Option (List Char) :=
  match (name.reverse.dropWhile (· ≠ '.')).drop 1 with
  | [] => (name, none)
  | stem => (stem.reverse, some (name.reverse.takeWhile (· ≠ '.')).reverse)

/-- The text up to the end of the last part, divided before that part; none if that part is no name
but `.` or `..`. -/
def splitName? (s : List Char) : Option (List Char × List Char) :=
  let r := skipTail s.reverse
  let name := (r.takeWhile (· ≠ '/')).reverse
  if name = [] ∨ name = ['.'] ∨ name = ['.', '.'] then none
  else some ((r.dropWhile (· ≠ '/')).reverse, name)

/-- The characters of the extension of a path. -/
def extensionLength (s : List Char) : Nat :=
  match splitName? s with
  | some (_, name) => ((splitExtension name).2.getD []).length
  | none => 0

/-- A text that ends with the stem of the last name, given an extension; without such a name it
stays as it is. -/
def setExtension (s : List Char) (ext : String) : List Char :=
  match splitName? s with
  | some (front, name) => front ++ (splitExtension name).1 ++ '.' :: ext.toList
  | none => s

/-- A path with another extension.  As many characters as the old extension has are taken off the
end before the new one is set. -/
def withExtension (p : Path) (ext : String) : Path :=
  let s := p.text.toList
  ⟨String.ofList (setExtension (s.take (s.length - extensionLength s)) ext)⟩

example : withExtension ⟨"a.tar.mf4"⟩ "csv" = ⟨"a.tar.csv"⟩ := by decide
example : withExtension ⟨".hidden"⟩ "csv" = ⟨".hidden.csv"⟩ := by decide
example : withExtension ⟨"d.x/f"⟩ "csv" = ⟨"d.x/f.csv"⟩ := by decide
example : withExtension ⟨"d.x/.//"⟩ "csv" = ⟨"d.csv"⟩ := by decide
example : withExtension ⟨"..x"⟩ "csv" = ⟨".."⟩ := by decide
example : parent? ⟨"a/b/"⟩ = some ⟨"a"⟩ := by decide
example : parent? ⟨"a"⟩ = some ⟨""⟩ := by decide
example : (⟨"q"⟩ : Path).join "../up" = ⟨"q/../up"⟩ := by decide

end Path

end Mdf
