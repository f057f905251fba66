import Mdf.Binary.Shortest
import Mdf.Text.Numeral

/-!
# Texts of binary values

`plain` is positional at every size, with no point in a whole number.  `repr` keeps a point in every
positional text and changes to scientific notation outside of `positional`, the exponents from -4
to 15.  Both write the shortest decimal, so both read back as the value.
-/

namespace Mdf.Decimal

/-- The decimal in positional notation, with no point in a whole number. -/
def positional (d : Decimal) : String :=
  let ds := d.digitChars
  let split := d.exponent + ds.length
  if 0 ≤ d.exponent then String.ofList (ds ++ List.replicate d.exponent.toNat '0')
  else if 0 < split then
    String.ofList (ds.take split.toNat ++ '.' :: ds.drop split.toNat)
  else String.ofList ('0' :: '.' :: List.replicate (-split).toNat '0' ++ ds)

/-- The digits with a point after the first one, if there are more. -/
def mantissa (d : Decimal) : String :=
  match d.digitChars with
  | [] => ""
  | [c] => String.ofList [c]
  | c :: cs => String.ofList (c :: '.' :: cs)

/-- The decimal in scientific notation: the exponent has a sign and at least two digits. -/
def scientific (d : Decimal) : String :=
  let e := d.leading
  let sign := if e < 0 then "-" else "+"
  d.mantissa ++ "e" ++ sign ++ Numeral.padLeft 2 '0' (toString e.natAbs)

/-- The exponents that are written positionally. -/
def isPositional (e : Int) : Bool := -4 ≤ e && e < 16

end Mdf.Decimal

namespace Mdf.Binary

variable {f : BinaryFormat}

def sign (x : Binary f) : String := if x.negative then "-" else ""

/-- Positional notation at every size. -/
def plain (x : Binary f) : String :=
  if x.isNaN then "NaN"
  else if x.isInfinite then x.sign ++ "inf"
  else x.sign ++ x.shortest.positional

/-- Notation that shows a floating-point number as one: with a point, or with an exponent. -/
def repr (x : Binary f) : String :=
  if x.isNaN then "nan"
  else if x.isInfinite then x.sign ++ "inf"
  else
    let d := x.shortest
    if Decimal.isPositional d.leading then
      let text := d.positional
      x.sign ++ if text.contains '.' then text else text ++ ".0"
    else x.sign ++ d.scientific

end Mdf.Binary
