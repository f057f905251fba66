/-!
# Numerals

Unsigned numerals with digits of a base up to sixteen.  `read?` accepts one leading plus sign and
leading zeros, refuses blanks and other signs, and refuses a value that is not below a bound.
-/

namespace Mdf.Numeral

/-- The value of a digit in `base`; letters count from ten in either case. -/
def digit? (base : Nat) (c : Char) : Option Nat :=
  let n := c.toNat
  let d :=
    if 0x30 ≤ n ∧ n ≤ 0x39 then n - 0x30
    else if 0x61 ≤ n ∧ n ≤ 0x66 then n - 0x61 + 10
    else if 0x41 ≤ n ∧ n ≤ 0x46 then n - 0x41 + 10
    else base
  if d < base then some d else none

/-- The value of a text of digits in `base`, read after the value `acc`. -/
def digits? (base : Nat) (acc : Nat) : List Char → Option Nat
  | [] => some acc
  | c :: cs => (digit? base c).bind fun d => digits? base (acc * base + d) cs

/-- Reads a numeral in `base` whose value lies below `bound`. -/
def read? (base bound : Nat) (s : List Char) : Option Nat :=
  let body := match s with
    | '+' :: r => r
    | s => s
  if body.isEmpty then none
  else (digits? base 0 body).filter (· < bound)

/-- A text brought to at least `width` characters by `fill` in front. -/
def padLeft (width : Nat) (fill : Char) (s : String) : String :=
  String.ofList (List.replicate (width - s.length) fill) ++ s

/-- A text brought to at least `width` characters by `fill` behind. -/
def padRight (width : Nat) (fill : Char) (s : String) : String :=
  s ++ String.ofList (List.replicate (width - s.length) fill)

/-- A number in hexadecimal, with the mark that says so. -/
def hex (n : Nat) : String :=
  "0x" ++ String.ofList (Nat.toDigits 16 n)

example : read? 10 256 "+007".toList = some 7 := by decide
example : read? 10 256 "256".toList = none := by decide
example : read? 16 65536 "+".toList = none := by decide

end Mdf.Numeral
