import Mathlib.Tactic.Linarith
import Mathlib.Tactic.Ring
import Mathlib.Tactic.LinearCombination
import Mathlib.Algebra.Order.Field.Rat
import Mathlib.Algebra.Order.Ring.Abs
import Mathlib.Algebra.Ring.Parity
import Mathlib.Order.Monotone.Basic
import Mdf.Binary.Format

/-!
# The values of binary patterns

The magnitudes of a format stand for values in increasing order, the one of infinity for the value
that would follow the greatest finite one.  A number is rounded to the nearest of them, at a tie to
the one with an even significand: `Nearest` says so without an algorithm.  At most one magnitude is
nearest to a number (`Nearest.unique`), and for a finite one these numbers make an interval
(`nearest_succ_iff`).
-/

namespace Mdf

namespace BinaryFormat

variable (f : BinaryFormat)

/-- How often the unit of the least values is doubled at a magnitude. -/
def doublings (n : Nat) : Nat := n / 2 ^ f.fractionBits - 1

def significand (n : Nat) : Nat := n - f.doublings n * 2 ^ f.fractionBits

/-- The exponent of the unit in which the significand counts. -/
def unitExponent (n : Nat) : Int := 1 - (f.bias : Int) - f.fractionBits + f.doublings n

/-- The value that a magnitude stands for. -/
def value (n : Nat) : ℚ := f.significand n * 2 ^ f.unitExponent n

variable {f} {n k : Nat}

lemma doublings_mul_le (n : Nat) : f.doublings n * 2 ^ f.fractionBits ≤ n := by
  calc f.doublings n * 2 ^ f.fractionBits
      ≤ n / 2 ^ f.fractionBits * 2 ^ f.fractionBits := Nat.mul_le_mul_right _ (Nat.sub_le ..)
    _ ≤ n := Nat.div_mul_le_self ..

lemma significand_add (n : Nat) : f.significand n + f.doublings n * 2 ^ f.fractionBits = n :=
  Nat.sub_add_cancel (doublings_mul_le n)

/-- The magnitude is the first one with a greater unit than the magnitude before. -/
def Opens (f : BinaryFormat) (n : Nat) : Prop :=
  2 ^ f.fractionBits ∣ n ∧ 1 < n / 2 ^ f.fractionBits

lemma doublings_succ_of_opens (h : f.Opens (n + 1)) : f.doublings (n + 1) = f.doublings n + 1 := by
  obtain ⟨hdvd, hlt⟩ := h
  have hdiv := Nat.succ_div (a := n) (b := 2 ^ f.fractionBits)
  rw [if_pos hdvd] at hdiv
  unfold doublings
  omega

lemma doublings_succ_of_not_opens (h : ¬f.Opens (n + 1)) : f.doublings (n + 1) = f.doublings n := by
  have hdiv := Nat.succ_div (a := n) (b := 2 ^ f.fractionBits)
  unfold doublings
  split at hdiv
  · rename_i hdvd
    have hle : ¬1 < (n + 1) / 2 ^ f.fractionBits := fun hlt => h ⟨hdvd, hlt⟩
    omega
  · omega

lemma significand_succ_of_not_opens (h : ¬f.Opens (n + 1)) :
    f.significand (n + 1) = f.significand n + 1 := by
  have hn := significand_add (f := f) n
  have hsucc := significand_add (f := f) (n + 1)
  rw [doublings_succ_of_not_opens h] at hsucc
  omega

lemma significand_of_opens (h : f.Opens n) : f.significand n = 2 ^ f.fractionBits := by
  obtain ⟨hdvd, hlt⟩ := h
  have hn := significand_add (f := f) n
  have hmul := Nat.div_mul_cancel hdvd
  have hd : f.doublings n + 1 = n / 2 ^ f.fractionBits := by
    unfold doublings
    omega
  rw [← hd, Nat.add_mul] at hmul
  omega

/-- The last magnitude of a binade has twice the significand of the next one, less one. -/
lemma significand_of_opens_succ (h : f.Opens (n + 1)) :
    f.significand n + 1 = 2 * f.significand (n + 1) := by
  have hn := significand_add (f := f) n
  have hsucc := significand_add (f := f) (n + 1)
  have hopens := significand_of_opens h
  rw [doublings_succ_of_opens h, Nat.add_mul] at hsucc
  omega

lemma unitExponent_succ_of_opens (h : f.Opens (n + 1)) :
    f.unitExponent (n + 1) = f.unitExponent n + 1 := by
  unfold unitExponent
  rw [doublings_succ_of_opens h]
  push_cast
  ring

lemma unitExponent_succ_of_not_opens (h : ¬f.Opens (n + 1)) :
    f.unitExponent (n + 1) = f.unitExponent n := by
  unfold unitExponent
  rw [doublings_succ_of_not_opens h]

/-- The next value lies one unit above. -/
lemma value_succ (n : Nat) : f.value (n + 1) = (f.significand n + 1) * 2 ^ f.unitExponent n := by
  unfold value
  by_cases h : f.Opens (n + 1)
  · have hs : ((f.significand n : ℚ) + 1) = 2 * f.significand (n + 1) := by
      exact_mod_cast significand_of_opens_succ h
    rw [hs, unitExponent_succ_of_opens h, zpow_add_one₀ (by norm_num)]
    ring
  · rw [unitExponent_succ_of_not_opens h, significand_succ_of_not_opens h]
    push_cast
    ring

/-- The value before lies one unit below. -/
lemma value_eq_sub (n : Nat) : f.value n = f.value (n + 1) - 2 ^ f.unitExponent n := by
  rw [value_succ, value]
  ring

theorem value_strictMono : StrictMono f.value := by
  refine strictMono_nat_of_lt_succ fun n => ?_
  rw [value_eq_sub n]
  exact sub_lt_self _ (zpow_pos (by norm_num) _)

/-- Of two neighbours one has an odd significand. -/
lemma odd_of_even_significand (h : Even (f.significand n)) : ¬Even (f.significand (n + 1)) := by
  by_cases hopens : f.Opens (n + 1)
  · have hs := significand_of_opens_succ hopens
    intro _
    obtain ⟨k, hk⟩ := h
    omega
  · rw [significand_succ_of_not_opens hopens, Nat.even_add_one, not_not]
    exact h

/-! ### Rounding -/

/-- Among the magnitudes up to infinity none is nearer to the number, and one as near only if the
significand here is even. -/
def Nearest (f : BinaryFormat) (v : ℚ) (n : Nat) : Prop :=
  n ≤ f.infinity ∧ ∀ k ≤ f.infinity, k ≠ n →
    |v - f.value n| < |v - f.value k| ∨
      (|v - f.value n| = |v - f.value k| ∧ Even (f.significand n))

variable {v : ℚ}

/-- Of two values the lower one is nearer to what lies below the middle. -/
lemma dist_lt_iff_of_lt {a b : ℚ} (h : a < b) : |v - a| < |v - b| ↔ 2 * v < a + b := by
  rw [← sq_lt_sq]
  constructor <;> intro hlt <;> nlinarith

lemma dist_gt_iff_of_lt {a b : ℚ} (h : a < b) : |v - b| < |v - a| ↔ a + b < 2 * v := by
  rw [← sq_lt_sq]
  constructor <;> intro hlt <;> nlinarith

lemma dist_eq_iff_of_lt {a b : ℚ} (h : a < b) : |v - a| = |v - b| ↔ 2 * v = a + b := by
  rw [← sq_eq_sq_iff_abs_eq_abs]
  constructor
  · intro heq
    have hprod : (b - a) * (a + b - 2 * v) = 0 := by linear_combination -heq
    rcases mul_eq_zero.mp hprod with hz | hz <;> linarith
  · intro heq
    linear_combination (b - a) * heq

/-- At most one magnitude is the nearest. -/
theorem Nearest.unique (hn : f.Nearest v n) (hk : f.Nearest v k) : n = k := by
  wlog hlt : n < k generalizing n k
  · by_contra hne
    exact hne (this hk hn (by omega)).symm
  have hvalue := value_strictMono (f := f) hlt
  -- Neither is nearer, so the number is the middle of the two values.
  have htie : |v - f.value n| = |v - f.value k| ∧ Even (f.significand n) := by
    rcases hn.2 k hk.1 (by omega) with h | h
    · rcases hk.2 n hn.1 (by omega) with h' | h'
      · exact absurd h h'.asymm
      · exact absurd h'.1 h.ne'
    · exact h
  have hmiddle := (dist_eq_iff_of_lt hvalue).mp htie.1
  have hodd := odd_of_even_significand htie.2
  by_cases hsucc : k = n + 1
  · -- Neighbours: the tie goes to one of them only.
    subst hsucc
    rcases hk.2 n hn.1 (by omega) with h | h
    · exact absurd htie.1 h.ne'
    · exact absurd h.2 hodd
  · -- Otherwise there is a value between them, which is nearer.
    have hlow := value_strictMono (f := f) (Nat.lt_succ_self n)
    have hhigh := value_strictMono (f := f) (show n + 1 < k by omega)
    exfalso
    rcases hn.2 (n + 1) (by have := hk.1; omega) (by omega) with h | ⟨h, -⟩
    · have := (dist_lt_iff_of_lt hlow).mp h
      linarith
    · have := (dist_eq_iff_of_lt hlow).mp h
      linarith

/-- The neighbours of a magnitude bound what rounds to it. -/
theorem nearest_succ_iff (h : n + 1 < f.infinity) :
    f.Nearest v (n + 1) ↔
      (f.value n + f.value (n + 1) < 2 * v ∨
        (2 * v = f.value n + f.value (n + 1) ∧ Even (f.significand (n + 1)))) ∧
      (2 * v < f.value (n + 1) + f.value (n + 2) ∨
        (2 * v = f.value (n + 1) + f.value (n + 2) ∧ Even (f.significand (n + 1)))) := by
  have hbelow : f.value n < f.value (n + 1) := value_strictMono (Nat.lt_succ_self n)
  have habove : f.value (n + 1) < f.value (n + 2) := value_strictMono (Nat.lt_succ_self (n + 1))
  constructor
  · rintro ⟨-, hnearest⟩
    constructor
    · rcases hnearest n (by omega) (by omega) with hlt | ⟨heq, heven⟩
      · exact .inl ((dist_gt_iff_of_lt hbelow).mp hlt)
      · exact .inr ⟨(dist_eq_iff_of_lt hbelow).mp heq.symm, heven⟩
    · rcases hnearest (n + 2) (by omega) (by omega) with hlt | ⟨heq, heven⟩
      · exact .inl ((dist_lt_iff_of_lt habove).mp hlt)
      · exact .inr ⟨(dist_eq_iff_of_lt habove).mp heq, heven⟩
  · rintro ⟨hlow, hhigh⟩
    refine ⟨h.le, fun k _ hne => ?_⟩
    rcases Nat.lt_or_gt_of_ne hne with hk | hk
    · have hk' : f.value k < f.value (n + 1) := value_strictMono hk
      rcases Nat.lt_or_eq_of_le (Nat.le_of_lt_succ hk) with hfar | rfl
      · -- Below the neighbour the middle lies further away.
        have hmono : f.value k < f.value n := value_strictMono hfar
        refine .inl ((dist_gt_iff_of_lt hk').mpr ?_)
        rcases hlow with hlow | ⟨hlow, -⟩ <;> linarith
      · rcases hlow with hlow | ⟨hlow, heven⟩
        · exact .inl ((dist_gt_iff_of_lt hbelow).mpr hlow)
        · exact .inr ⟨((dist_eq_iff_of_lt hbelow).mpr hlow).symm, heven⟩
    · have hk' : f.value (n + 1) < f.value k := value_strictMono hk
      rcases Nat.lt_or_eq_of_le (Nat.succ_le_of_lt hk) with hfar | rfl
      · have hmono : f.value (n + 2) < f.value k := value_strictMono hfar
        refine .inl ((dist_lt_iff_of_lt hk').mpr ?_)
        rcases hhigh with hhigh | ⟨hhigh, -⟩ <;> linarith
      · rcases hhigh with hhigh | ⟨hhigh, heven⟩
        · exact .inl ((dist_lt_iff_of_lt habove).mpr hhigh)
        · exact .inr ⟨(dist_eq_iff_of_lt habove).mpr hhigh, heven⟩

lemma value_zero : f.value 0 = 0 := by
  unfold value significand
  rw [Nat.zero_sub]
  simp

lemma significand_pos (h : 0 < n) : 0 < f.significand n := by
  have hpos : 0 < f.value n := value_zero (f := f) ▸ value_strictMono h
  rcases Nat.eq_zero_or_pos (f.significand n) with hzero | hpos'
  · rw [value, hzero, Nat.cast_zero, zero_mul] at hpos
    exact absurd hpos (lt_irrefl 0)
  · exact hpos'

/-- Zero rounds to the magnitude zero. -/
lemma nearest_zero : f.Nearest 0 0 := by
  refine ⟨Nat.zero_le _, fun k _ hne => .inl ?_⟩
  have hpos : f.value 0 < f.value k := value_strictMono (Nat.pos_of_ne_zero hne)
  rw [dist_lt_iff_of_lt hpos, value_zero]
  rw [value_zero] at hpos
  linarith

end BinaryFormat

namespace Binary

variable {f : BinaryFormat} {x y : Binary f} {negative : Bool} {v : ℚ}

lemma exponentField_eq (x : Binary f) : x.exponentField = x.magnitude / 2 ^ f.fractionBits :=
  Nat.shiftRight_eq_div_pow ..

lemma fraction_eq (x : Binary f) : x.fraction = x.magnitude % 2 ^ f.fractionBits := by
  rw [fraction, Nat.one_shiftLeft]

lemma parts_eq (x : Binary f) :
    x.parts = (f.significand x.magnitude, f.unitExponent x.magnitude) := by
  have hsplit := Nat.div_add_mod' x.magnitude (2 ^ f.fractionBits)
  have hsum := BinaryFormat.significand_add (f := f) x.magnitude
  have hfield := x.exponentField_eq
  unfold BinaryFormat.unitExponent
  unfold BinaryFormat.doublings at hsum ⊢
  rw [← hfield] at hsplit hsum ⊢
  unfold parts
  rw [fraction_eq]
  split
  · rename_i he
    rw [he, Nat.zero_mul, Nat.zero_add] at hsplit
    rw [he, Nat.zero_sub, Nat.zero_mul, Nat.add_zero] at hsum
    simp [he, hsplit, hsum]
  · rename_i e he
    rw [he, Nat.add_one_mul] at hsplit
    rw [he, Nat.succ_sub_one] at hsum ⊢
    have hs : 2 ^ f.fractionBits + x.magnitude % 2 ^ f.fractionBits =
        f.significand x.magnitude := by
      generalize e * 2 ^ f.fractionBits = doubled at hsplit hsum
      omega
    rw [Nat.one_shiftLeft, hs]

lemma toNat_bits (x : Binary f) :
    x.bits.toNat = x.negative.toNat * 2 ^ (f.exponentBits + f.fractionBits) + x.magnitude := by
  have hlt : x.bits.toNat < 2 ^ (f.exponentBits + f.fractionBits) * 2 := x.bits.isLt
  have hmsb : x.negative = decide (2 ^ (f.exponentBits + f.fractionBits) ≤ x.bits.toNat) :=
    BitVec.msb_eq_decide x.bits
  rw [hmsb, magnitude, Nat.one_shiftLeft]
  by_cases h : 2 ^ (f.exponentBits + f.fractionBits) ≤ x.bits.toNat
  · rw [Nat.mod_eq_sub_mod h, Nat.mod_eq_of_lt (by omega)]
    simp only [h, decide_true, Bool.toNat_true]
    omega
  · rw [Nat.mod_eq_of_lt (by omega)]
    simp [h]

lemma ext_of_magnitude (hsign : x.negative = y.negative) (hmagnitude : x.magnitude = y.magnitude) :
    x = y := by
  have hbits : x.bits = y.bits := by
    apply BitVec.eq_of_toNat_eq
    rw [toNat_bits, toNat_bits, hsign, hmagnitude]
  obtain ⟨bits⟩ := x
  obtain ⟨bits'⟩ := y
  exact congrArg Binary.mk hbits

/-- A number with a sign rounds to the pattern: the sign is the same, and the magnitude nearest. -/
def RoundsTo (negative : Bool) (v : ℚ) (x : Binary f) : Prop :=
  x.negative = negative ∧ f.Nearest v x.magnitude

/-- At most one pattern is rounded to. -/
theorem RoundsTo.unique (hx : RoundsTo negative v x) (hy : RoundsTo negative v y) : x = y :=
  ext_of_magnitude (hx.1.trans hy.1.symm) (hx.2.unique hy.2)

end Binary

end Mdf
