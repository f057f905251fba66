import Mathlib.Order.Monotone.Odd
import Mathlib.Order.WithBot
import Mdf.Proofs.Binary.NaN
import Mdf.Proofs.Binary.Value

/-!
# The order of the values

A pattern stands for a rational number or for an infinity, and a NaN for nothing (`number?`).  The
comparison of patterns is the comparison of what they stand for (`lt_iff_below`): it is false at a
NaN, the two zeros stand for one number, and every finite number is between the infinities.
-/

namespace Mdf

/-- The rational numbers between two infinities. -/
abbrev Extended := WithBot (WithTop ℚ)

namespace BinaryFormat

variable (f : BinaryFormat)

/-- The value that a magnitude with a sign stands for, below infinity. -/
def signedValue (z : ℤ) : ℚ := z.sign * f.value z.natAbs

/-- The number that a magnitude with a sign stands for. -/
def extended (z : ℤ) : Extended :=
  if z = f.infinity then ⊤
  else if z = -f.infinity then ⊥
  else ((f.signedValue z : WithTop ℚ) : Extended)

variable {f}

lemma signedValue_natCast (n : Nat) : f.signedValue n = f.value n := by
  rcases Nat.eq_zero_or_pos n with rfl | hpos
  · rw [signedValue, Nat.cast_zero, Int.sign_zero, Int.cast_zero, zero_mul, value_zero]
  · rw [signedValue, Int.sign_natCast_of_ne_zero hpos.ne', Int.cast_one, one_mul,
      Int.natAbs_natCast]

lemma signedValue_neg (z : ℤ) : f.signedValue (-z) = -f.signedValue z := by
  rw [signedValue, signedValue, Int.sign_neg, Int.natAbs_neg, Int.cast_neg, neg_mul]

lemma signedValue_lt {a b : ℤ} (h : a < b) : f.signedValue a < f.signedValue b := by
  have hmono : StrictMono f.signedValue := by
    refine strictMono_of_odd_strictMonoOn_nonneg signedValue_neg fun a ha b hb hab => ?_
    lift a to Nat using ha
    lift b to Nat using hb
    rw [signedValue_natCast, signedValue_natCast]
    exact value_strictMono (Nat.cast_lt.mp hab)
  exact hmono h

lemma extended_lt {a b : ℤ} (ha : -(f.infinity : ℤ) ≤ a) (hab : a < b) (hb : b ≤ f.infinity) :
    f.extended a < f.extended b := by
  have hatop : a ≠ f.infinity := (hab.trans_le hb).ne
  have hbbot : b ≠ -f.infinity := (ha.trans_lt hab).ne'
  rw [extended, extended, if_neg hatop, if_neg hbbot]
  split_ifs with habot hbtop hbtop
  · exact bot_lt_top
  · exact WithBot.bot_lt_coe _
  · exact WithBot.coe_lt_coe.mpr (WithTop.coe_lt_top _)
  · exact WithBot.coe_lt_coe.mpr (WithTop.coe_lt_coe.mpr (signedValue_lt hab))

/-- Up to the infinities the numbers are in the order of the magnitudes. -/
theorem extended_lt_iff {a b : ℤ} (ha : -(f.infinity : ℤ) ≤ a ∧ a ≤ f.infinity)
    (hb : -(f.infinity : ℤ) ≤ b ∧ b ≤ f.infinity) : f.extended a < f.extended b ↔ a < b := by
  have hmono : StrictMonoOn f.extended (Set.Icc (-(f.infinity : ℤ)) f.infinity) :=
    fun _ ha _ hb hab => extended_lt ha.1 hab hb.2
  exact hmono.lt_iff_lt ha hb

end BinaryFormat

namespace Binary

variable {f : BinaryFormat} {x y : Binary f}

/-- The number that a pattern stands for; a NaN stands for none. -/
def number? (x : Binary f) : Option Extended :=
  if x.isNaN then none
  else if x.isInfinite then some (if x.negative then ⊥ else ⊤)
  else
    let value := f.value x.magnitude
    some (((if x.negative then -value else value : ℚ) : WithTop ℚ) : Extended)

/-- One pattern is below another: both stand for numbers, and the number of the one is less. -/
def Below (x y : Binary f) : Prop := ∃ a b, x.number? = some a ∧ y.number? = some b ∧ a < b

lemma number?_eq_none_iff : x.number? = none ↔ x.isNaN = true := by
  unfold number?
  split_ifs with h <;> simp [h]

lemma order_bounds (h : x.isNaN = false) :
    -(f.infinity : ℤ) ≤ x.order ∧ x.order ≤ f.infinity := by
  have hle : x.magnitude ≤ f.infinity := Nat.not_lt.mp (of_decide_eq_false h)
  unfold order
  split <;> constructor <;> omega

/-- The order of a pattern other than NaN gives its number, if the two infinities are not one. -/
lemma number?_of_not_isNaN (hf : 0 < f.infinity) (h : x.isNaN = false) :
    x.number? = some (f.extended x.order) := by
  have hinfinite : x.isInfinite = true ↔ x.magnitude = f.infinity := decide_eq_true_iff
  unfold number? order BinaryFormat.extended
  rw [if_neg (Bool.eq_false_iff.mp h)]
  by_cases hm : x.magnitude = f.infinity
  · rw [if_pos (hinfinite.mpr hm), hm]
    cases x.negative with
    | false => simp
    | true =>
      have hne : -(f.infinity : ℤ) ≠ f.infinity := by omega
      simp [hne]
  · rw [if_neg (mt hinfinite.mp hm)]
    cases x.negative with
    | false =>
      have htop : (x.magnitude : ℤ) ≠ f.infinity := by omega
      have hbot : (x.magnitude : ℤ) ≠ -f.infinity := by omega
      simp [htop, hbot, BinaryFormat.signedValue_natCast]
    | true =>
      have htop : -(x.magnitude : ℤ) ≠ f.infinity := by omega
      have hbot : -(x.magnitude : ℤ) ≠ -f.infinity := by omega
      simp [htop, hbot, BinaryFormat.signedValue_neg, BinaryFormat.signedValue_natCast]

lemma Below.not_isNaN (h : x.Below y) : x.isNaN = false ∧ y.isNaN = false := by
  obtain ⟨a, b, ha, hb, -⟩ := h
  constructor <;> refine Bool.eq_false_iff.mpr fun hnan => ?_
  · exact absurd (ha.symm.trans (number?_eq_none_iff.mpr hnan)) (Option.some_ne_none a)
  · exact absurd (hb.symm.trans (number?_eq_none_iff.mpr hnan)) (Option.some_ne_none b)

/-- **The comparison of patterns** is the comparison of the numbers that they stand for. -/
theorem lt_iff_below (hf : 0 < f.infinity) : lt x y = true ↔ x.Below y := by
  by_cases hnan : x.isNaN = false ∧ y.isNaN = false
  · obtain ⟨hx, hy⟩ := hnan
    have hlt : lt x y = true ↔ x.order < y.order := by simp [lt, hx, hy]
    rw [hlt, Below, number?_of_not_isNaN hf hx, number?_of_not_isNaN hf hy,
      ← BinaryFormat.extended_lt_iff (order_bounds hx) (order_bounds hy)]
    simp
  · exact iff_of_false (fun h => hnan (not_isNaN_of_lt h)) fun h => hnan h.not_isNaN

end Binary

end Mdf
