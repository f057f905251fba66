import Mdf.Binary.Format

/-!
# The shortest decimal of a binary value

`Binary.shortest` is the decimal on the coarsest decimal grid that reads back as the value, and of
the points of that grid the nearest one; a tie goes up.  A value `m · 2 ^ q` is read back by every
decimal of the interval that rounds to it: half a unit to either side, a quarter below a power of
two, ends included exactly for even `m`.  If a grid has a point in the interval, then one of the two
points around the value lies in it, so two candidates are tested on each grid.
-/

namespace Mdf

/-- The decimal `digits · 10 ^ exponent`. -/
structure Decimal where
  digits : Nat
  /-- The place of the last digit. -/
  exponent : Int
deriving DecidableEq, Repr

namespace Decimal

/-- The rounding interval of a positive value `m · 2 ^ q`, in quarters of a unit. -/
structure Interval where
  m : Nat
  q : Int
  /-- How far the interval reaches below the value: two quarters, or one at a power of two. -/
  below : Nat
deriving DecidableEq, Repr

namespace Interval

/-- The weights that turn a grid point `n · 10 ^ i` and a number of quarter units `k` into the
natural numbers `n * grid` and `k * unit` of one scale. -/
def weights (v : Interval) (i : Int) : Nat × Nat :=
  let e := v.q - 2
  (Nat.pow 10 i.toNat <<< (-e).toNat, Nat.pow 10 (-i).toNat <<< e.toNat)

/-- Whether the scaled point `p` lies in the interval, given the scale of a quarter unit. -/
def contains (v : Interval) (unit p : Nat) : Bool :=
  let lo := (4 * v.m - v.below) * unit
  let hi := (4 * v.m + 2) * unit
  if v.m % 2 = 0 then lo ≤ p && p ≤ hi else lo < p && p < hi

/-- The point of the grid of `10 ^ i` that lies in the interval nearest to its value. -/
def onGrid? (v : Interval) (i : Int) : Option Nat :=
  let (grid, unit) := v.weights i
  let value := 4 * v.m * unit
  let s := value / grid
  let low := v.contains unit (s * grid)
  let high := v.contains unit ((s + 1) * grid)
  if low && high then
    if 2 * (value - s * grid) < grid then some s else some (s + 1)
  else if low then some s
  else if high then some (s + 1)
  else none

/-- The first hit on the grids from `10 ^ (least + steps)` down to `10 ^ least`. -/
def scan (v : Interval) (least : Int) : Nat → Decimal
  | 0 => ⟨(v.onGrid? least).getD 0, least⟩
  | steps + 1 =>
    match v.onGrid? (least + (steps + 1)) with
    | some n => ⟨n, least + (steps + 1)⟩
    | none => scan v least steps

/-- The shortest decimal of the interval.  The value itself lies on the grid of `10 ^ min q 0`, and
no grid above twice the value has a point in the interval. -/
def shortest (v : Interval) : Decimal :=
  let least := min v.q 0
  let whole := v.m <<< v.q.toNat >>> (-v.q).toNat
  let top : Int := (Nat.toDigits 10 whole).length
  v.scan least (top - least).toNat

end Interval

def digitChars (d : Decimal) : List Char := Nat.toDigits 10 d.digits

/-- The exponent in scientific notation: the place of the first digit. -/
def leading (d : Decimal) : Int := d.exponent + d.digitChars.length - 1

end Decimal

namespace Binary

variable {f : BinaryFormat}

/-- The rounding interval of the magnitude of a finite value other than zero. -/
def interval (x : Binary f) : Decimal.Interval :=
  let (m, q) := x.parts
  ⟨m, q, if x.fraction = 0 ∧ 1 < x.exponentField then 1 else 2⟩

/-- The shortest decimal that reads back as the magnitude of a finite value. -/
def shortest (x : Binary f) : Decimal :=
  if x.magnitude = 0 then ⟨0, 0⟩ else x.interval.shortest

end Binary

end Mdf
