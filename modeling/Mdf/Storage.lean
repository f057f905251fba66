import Mdf.Checked

/-!
# Storage modes

How records are kept in a file: as they are, compressed, or transposed and then compressed.

`transpose columns` writes whole rows of `columns` bytes column by column; what does not fill a
row stays at the end.  Transposing rows and columns back is the same rearrangement with the two
exchanged, so one function, `rearrange`, serves both ways.
-/

namespace Mdf

/-- How records are kept in a file. -/
inductive Storage where
  /-- As they are. -/
  | plain
  /-- Compressed. -/
  | deflate
  /-- Transposed by the record size, then compressed. -/
  | transposed
deriving DecidableEq, Repr

namespace Storage

/-- Every mode. -/
def all : List Storage := [plain, deflate, transposed]

/-- The name on the command line. -/
def name : Storage → String
  | plain => "none"
  | deflate => "deflate"
  | transposed => "transposed"

/-- The mode of a name. -/
def ofName? (s : String) : Option Storage := all.find? fun m => m.name == s

/-- The code in a compressed block. -/
def zipType? : Storage → Option UInt8
  | plain => none
  | deflate => some 0
  | transposed => some 1

/-- The mode of a code. -/
def ofZipType (code : UInt8) : Except Error Storage :=
  match all.find? fun m => m.zipType? == some code with
  | some m => .ok m
  | none => .error (.decompression (.unknownType code.toNat))

/-- Where the byte at an index of `b` columns of `a` bytes, read row by row, stands in the columns
written one after the other. -/
def sourceIndex (a b i : Nat) : Except Fault Nat := do
  let start ← Checked.mul (i % a) b
  Checked.add start (i / a)

/-- The first bytes of `d`, as many as `b` columns of `a` bytes have, read row by row. -/
def rearrange (a b : Nat) (d : List UInt8) : Except Fault (List UInt8) :=
  let bytes := d.toArray
  (List.range (a * b)).mapM fun i => do
    let source ← sourceIndex a b i
    Checked.item bytes source

/-- Rows of `columns` bytes, written column by column; an incomplete row stays at the end. -/
def transpose (columns : Nat) (d : List UInt8) : Except Fault (List UInt8) := do
  if columns ≤ 1 ∨ d.length < columns then return d
  else
    let rows := d.length / columns
    let body ← Checked.mul rows columns
    let front ← rearrange rows columns d
    let rest ← Checked.slice d body d.length
    return front ++ rest

/-- The rows of which the columns were written. -/
def untranspose (columns : Nat) (d : List UInt8) : Except Fault (List UInt8) := do
  if columns ≤ 1 ∨ d.length < columns then return d
  else
    let rows := d.length / columns
    let body ← Checked.mul rows columns
    let front ← rearrange columns rows d
    let rest ← Checked.slice d body d.length
    return front ++ rest

example : transpose 3 [1, 2, 3, 4, 5, 6, 7] = .ok [1, 4, 2, 5, 3, 6, 7] := by rfl
example : untranspose 3 [1, 4, 2, 5, 3, 6, 7] = .ok [1, 2, 3, 4, 5, 6, 7] := by rfl

end Storage

end Mdf
