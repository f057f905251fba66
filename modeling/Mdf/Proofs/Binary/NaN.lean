import Mathlib.Data.List.Forall2
import Mathlib.Tactic.Common
import Mdf.Fixture

/-!
# Patterns that are no number

A NaN equals nothing, not even itself, so a list of patterns equals itself exactly if none of them is
a NaN (`ieeeEqAll_self_iff`).  A natural number is none, and a pattern that is widened is one exactly
if it was one before (`isNaN_widen`).
-/

namespace Mdf

namespace Binary

variable {f : BinaryFormat} {x y : Binary f} {xs ys : List (Binary f)}

lemma not_isNaN_of_lt (h : lt x y = true) : x.isNaN = false ∧ y.isNaN = false := by
  simp only [lt, Bool.and_eq_true, Bool.not_eq_true'] at h
  exact h.1

lemma ieeeEq_self_iff : ieeeEq x x = true ↔ x.isNaN = false := by
  simp [ieeeEq]

/-- A list equals itself in values exactly if it holds no NaN. -/
lemma ieeeEqAll_self_iff : ieeeEqAll xs xs = true ↔ ∀ x ∈ xs, x.isNaN = false := by
  induction xs with
  | nil => exact iff_of_true rfl fun x hx => absurd hx List.not_mem_nil
  | cons x xs ih =>
    rw [ieeeEqAll, Bool.and_eq_true, ieeeEq_self_iff, ih, List.forall_mem_cons]

/-- Lists are equal in values if they are so element by element. -/
lemma ieeeEqAll_eq_true_iff :
    ieeeEqAll xs ys = true ↔ List.Forall₂ (fun x y => ieeeEq x y = true) xs ys := by
  induction xs generalizing ys with
  | nil =>
    cases ys with
    | nil => exact iff_of_true rfl .nil
    | cons y ys => exact iff_of_false (fun h => nomatch h) (fun h => nomatch h)
  | cons x xs ih =>
    cases ys with
    | nil => exact iff_of_false (fun h => nomatch h) (fun h => nomatch h)
    | cons y ys => rw [ieeeEqAll, Bool.and_eq_true, ih, List.forall₂_cons]

/-- Fields that fit 64 bits are the magnitude, whatever the sign is. -/
lemma magnitude_ofFields {negative : Bool} {exponent fraction : Nat}
    (h : exponent <<< 52 + fraction < 1 <<< 63) :
    (ofFields .double negative exponent fraction).magnitude = exponent <<< 52 + fraction := by
  have hbits : (ofFields .double negative exponent fraction).bits.toNat =
      (if negative then 1 <<< 63 else 0) + exponent <<< 52 + fraction := by
    have hlt : (if negative then 1 <<< 63 else 0) + exponent <<< 52 + fraction < 1 <<< 64 := by
      rw [Nat.add_assoc]
      refine Nat.lt_of_lt_of_le (Nat.add_lt_add_left h _) ?_
      split <;> decide
    simp only [ofFields, BinaryFormat.double, BinaryFormat.width, BitVec.toNat_ofNat]
    exact Nat.mod_eq_of_lt hlt
  rw [magnitude, hbits, Nat.add_assoc]
  split
  · exact (Nat.add_mod_left ..).trans (Nat.mod_eq_of_lt h)
  · exact (congrArg (· % _) (Nat.zero_add _)).trans (Nat.mod_eq_of_lt h)

lemma isNaN_ofFields_iff {negative : Bool} {exponent fraction : Nat}
    (h : exponent <<< 52 + fraction < 1 <<< 63) :
    (ofFields .double negative exponent fraction).isNaN = true ↔
      2047 <<< 52 < exponent <<< 52 + fraction := by
  rw [isNaN, magnitude_ofFields h]
  exact decide_eq_true_iff

/-- Fields up to infinity are no NaN. -/
lemma not_isNaN_ofFields {negative : Bool} {exponent fraction : Nat}
    (h : exponent <<< 52 + fraction ≤ 2047 <<< 52) :
    (ofFields .double negative exponent fraction).isNaN = false := by
  have hlt : exponent <<< 52 + fraction < 1 <<< 63 := Nat.lt_of_le_of_lt h (by decide)
  rw [← Bool.not_eq_true, isNaN_ofFields_iff hlt]
  exact Nat.not_lt.mpr h

/-- A number of at most 53 bits, with its first bit moved to the place before the fraction. -/
lemma shiftLeft_log2_lt {n : Nat} (h : n.log2 ≤ 52) : n <<< (52 - n.log2) < 1 <<< 53 := by
  have hself : n < 2 ^ (n.log2 + 1) := Nat.lt_log2_self
  have hsplit : n.log2 + 1 + (52 - n.log2) = 53 := by omega
  rw [Nat.shiftLeft_eq, Nat.one_shiftLeft, ← hsplit, Nat.pow_add]
  exact Nat.mul_lt_mul_of_pos_right hself (Nat.two_pow_pos _)

lemma not_isNaN_ofNat {n : Nat} (h : n < Checked.wordBound) : (ofNat .double n).isNaN = false := by
  have hfraction : BinaryFormat.double.fractionBits = 52 := rfl
  have hbias : BinaryFormat.double.bias = 1023 := rfl
  unfold ofNat
  split
  · exact not_isNaN_ofFields (by decide)
  rename_i hn
  have hlog : n.log2 < 64 := (Nat.log2_lt hn).mpr h
  have hself : n < 2 ^ (n.log2 + 1) := Nat.lt_log2_self
  have hshift : n.log2 ≤ 52 → n <<< (52 - n.log2) < 2 ^ 53 := shiftLeft_log2_lt
  generalize n.log2 = k at hlog hself hshift
  -- the exponent stays far below its greatest value, so a rough bound of the fraction will do
  have hfields : ∀ m, m ≤ 2 ^ 53 → (k + 1023) <<< 52 + m ≤ 2047 <<< 52 := by
    intro m hm
    simp only [Nat.shiftLeft_eq]
    omega
  simp only [hfraction, hbias]
  split
  · rename_i hk
    exact not_isNaN_ofFields (hfields _ (Nat.le_trans (Nat.sub_le _ _) (Nat.le_of_lt (hshift hk))))
  · rename_i hk
    have hq : n / 1 <<< (k - 52) < 2 ^ 53 := by
      refine Nat.div_lt_of_lt_mul ?_
      rw [Nat.one_shiftLeft, ← Nat.pow_add]
      rwa [show k - 52 + 53 = k + 1 by omega]
    refine not_isNaN_ofFields (hfields _ (Nat.le_trans (Nat.sub_le _ _) ?_))
    split <;> omega

end Binary

namespace Single

variable (x : Single)

lemma magnitude_eq : x.magnitude = x.exponentField <<< 23 + x.fraction := by
  have hfraction : x.fraction = x.magnitude % 8388608 := rfl
  have hexponent : x.exponentField = x.magnitude / 8388608 := Nat.shiftRight_eq_div_pow ..
  rw [Nat.shiftLeft_eq, hfraction, hexponent]
  exact (Nat.div_add_mod' ..).symm

lemma fraction_lt : x.fraction < 8388608 := Nat.mod_lt _ (by decide)

lemma exponentField_le : x.exponentField ≤ 255 := by
  have hmagnitude : x.magnitude < 2147483648 := Nat.mod_lt _ (by decide)
  have hexponent : x.exponentField = x.magnitude / 8388608 := Nat.shiftRight_eq_div_pow ..
  omega

lemma isNaN_iff : x.isNaN = true ↔ x.exponentField = 255 ∧ x.fraction ≠ 0 := by
  have hle := x.exponentField_le
  have hlt := x.fraction_lt
  have hnan : x.isNaN = true ↔ 255 <<< 23 < x.magnitude := decide_eq_true_iff
  rw [hnan, magnitude_eq, Nat.shiftLeft_eq, Nat.shiftLeft_eq]
  omega

/-- **A pattern is a NaN exactly if it is one in 64 bits.** -/
theorem isNaN_widen : x.widen.isNaN = x.isNaN := by
  have hle := x.exponentField_le
  have hlt := x.fraction_lt
  unfold widen
  simp only
  split
  · rename_i h255
    have hfits : 2047 <<< 52 + x.fraction <<< 29 < 1 <<< 63 := by
      rw [Nat.shiftLeft_eq, Nat.shiftLeft_eq]
      omega
    rw [Bool.eq_iff_iff, Binary.isNaN_ofFields_iff hfits, isNaN_iff, Nat.shiftLeft_eq x.fraction]
    omega
  rename_i h255
  -- every other pattern is finite, and so is what it becomes
  have hnot : x.isNaN = false := Bool.eq_false_iff.mpr fun h => h255 (x.isNaN_iff.mp h).1
  rw [hnot]
  split
  · refine Binary.not_isNaN_ofFields ?_
    rw [Nat.shiftLeft_eq, Nat.shiftLeft_eq]
    omega
  split
  · exact Binary.not_isNaN_ofFields (by decide)
  · rename_i hfraction
    have hlog : x.fraction.log2 < 23 := (Nat.log2_lt hfraction).mpr hlt
    have hshift := Binary.shiftLeft_log2_lt (n := x.fraction) (by omega)
    refine Binary.not_isNaN_ofFields ?_
    rw [Nat.shiftLeft_eq (_ + 1 + _ - 23)]
    omega

end Single

end Mdf
