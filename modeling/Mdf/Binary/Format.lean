/-!
# Binary floating-point formats

A `BinaryFormat` gives the widths of the exponent and of the fraction; `Binary f` is a bit pattern
of format `f`, so signed zeros, infinities and every NaN are values of their own.  The order and
the equality of the IEEE standard are `lt` and `ieeeEq`: both are false at a NaN, and both go
through `order`, the pattern read as a number in sign and magnitude.
-/

namespace Mdf

/-- The widths of the exponent and of the fraction of a floating-point format. -/
structure BinaryFormat where
  exponentBits : Nat
  fractionBits : Nat
deriving DecidableEq, Repr

namespace BinaryFormat

def single : BinaryFormat := ⟨8, 23⟩

def double : BinaryFormat := ⟨11, 52⟩

/-- Bits of a pattern: sign, exponent and fraction. -/
def width (f : BinaryFormat) : Nat := f.exponentBits + f.fractionBits + 1

/-- What is subtracted from the exponent field. -/
def bias (f : BinaryFormat) : Nat := 1 <<< (f.exponentBits - 1) - 1

/-- The magnitude of an infinity; a NaN has a greater one. -/
def infinity (f : BinaryFormat) : Nat := (1 <<< f.exponentBits - 1) <<< f.fractionBits

end BinaryFormat

/-- A bit pattern of the format `f`. -/
structure Binary (f : BinaryFormat) where
  /-- Sign, exponent and fraction, from the top. -/
  bits : BitVec f.width
deriving DecidableEq, Repr

abbrev Single := Binary .single

abbrev Double := Binary .double

namespace Binary

variable {f : BinaryFormat}

def negative (x : Binary f) : Bool := x.bits.msb

/-- The pattern without its sign bit. -/
def magnitude (x : Binary f) : Nat := x.bits.toNat % 1 <<< (f.exponentBits + f.fractionBits)

def exponentField (x : Binary f) : Nat := x.magnitude >>> f.fractionBits

def fraction (x : Binary f) : Nat := x.magnitude % 1 <<< f.fractionBits

def isNaN (x : Binary f) : Bool := f.infinity < x.magnitude

def isInfinite (x : Binary f) : Bool := x.magnitude = f.infinity

def isFinite (x : Binary f) : Bool := x.magnitude < f.infinity

/-- The pattern as a number in sign and magnitude: it orders the patterns other than NaN as the
values that they stand for, and takes the two zeros to one number. -/
def order (x : Binary f) : Int := if x.negative then -(x.magnitude : Int) else x.magnitude

/-- The order of the values; a NaN is not comparable. -/
def lt (x y : Binary f) : Bool := !x.isNaN && !y.isNaN && x.order < y.order

/-- Equality of the values: the two zeros are equal, and a NaN equals nothing. -/
def ieeeEq (x y : Binary f) : Bool := !x.isNaN && !y.isNaN && x.order == y.order

/-- The significand and the exponent of a finite value, which is `± significand · 2 ^ exponent`. -/
def parts (x : Binary f) : Nat × Int :=
  let least : Int := 1 - (f.bias : Int) - f.fractionBits
  match x.exponentField with
  | 0 => (x.fraction, least)
  | e + 1 => (1 <<< f.fractionBits + x.fraction, least + e)

/-- The pattern with the given sign, exponent field and fraction. -/
def ofFields (f : BinaryFormat) (negative : Bool) (exponent fraction : Nat) : Binary f :=
  ⟨BitVec.ofNat _
    ((if negative then 1 <<< (f.exponentBits + f.fractionBits) else 0)
      + exponent <<< f.fractionBits + fraction)⟩

/-- A natural number, rounded to nearest with ties to even. -/
def ofNat (f : BinaryFormat) (n : Nat) : Binary f :=
  if n = 0 then ofFields f false 0 0
  else
    let k := n.log2
    let e := k + f.bias
    if k ≤ f.fractionBits then
      ofFields f false e (n <<< (f.fractionBits - k) - 1 <<< f.fractionBits)
    else
      let unit := 1 <<< (k - f.fractionBits)
      let q := n / unit
      let r := n % unit
      let up := unit < 2 * r || (2 * r == unit && q % 2 == 1)
      -- A carry out of the fraction raises the exponent, which is the next field.
      ofFields f false e ((if up then q + 1 else q) - 1 <<< f.fractionBits)

/-- Equality of lists of values, place by place. -/
def ieeeEqAll : List (Binary f) → List (Binary f) → Bool
  | [], [] => true
  | x :: xs, y :: ys => ieeeEq x y && ieeeEqAll xs ys
  | _, _ => false

theorem lt_trans {x y z : Binary f} (hxy : lt x y = true) (hyz : lt y z = true) :
    lt x z = true := by
  simp only [lt, Bool.and_eq_true, Bool.not_eq_true', decide_eq_true_eq] at *
  exact ⟨⟨hxy.1.1, hyz.1.2⟩, by omega⟩

end Binary

namespace Single

/-- The same value in 64 bits.  A NaN keeps its fraction, which moves to the top. -/
def widen (x : Single) : Double :=
  let rebias := 1023 - 127
  if x.exponentField = 255 then Binary.ofFields .double x.negative 2047 (x.fraction <<< 29)
  else if x.exponentField ≠ 0 then
    Binary.ofFields .double x.negative (x.exponentField + rebias) (x.fraction <<< 29)
  else if x.fraction = 0 then Binary.ofFields .double x.negative 0 0
  else
    -- A subnormal of 32 bits is normal in 64: its leading bit moves into the exponent.
    let k := x.fraction.log2
    Binary.ofFields .double x.negative (k + 1 + rebias - 23) (x.fraction <<< (52 - k) - 1 <<< 52)

end Single

end Mdf
