import Mathlib.Tactic.FieldSimp
import Mdf.Binary.Shortest
import Mdf.Proofs.Binary.Value

/-!
# The shortest decimal

The search over decimal grids finds what it is after: a decimal that rounds to the value, with no
more digits than any other one (`Binary.length_shortest_le`), and on its grid the nearest.  First
the interval is taken as a set of rationals, then one grid, then the scan over all grids, and last
the interval turns out to be what rounds to the value (`Binary.nearest_iff_within`).
-/

namespace Mdf

namespace Decimal

def value (d : Decimal) : ℚ := d.digits * 10 ^ d.exponent

lemma length_digitChars_pos (d : Decimal) : 0 < d.digitChars.length := Nat.length_toDigits_pos

lemma length_digitChars_le_iff (d : Decimal) {k : Nat} (hk : 0 < k) :
    d.digitChars.length ≤ k ↔ d.digits < 10 ^ k :=
  Nat.length_toDigits_le_iff (by decide) hk

namespace Interval

variable {v : Interval} {r a b : ℚ} {i : Int} {n k : Nat}

/-- The value in the middle of the interval. -/
def center (v : Interval) : ℚ := v.m * 2 ^ v.q

def lower (v : Interval) : ℚ := ((4 * v.m - v.below : ℕ) : ℚ) * 2 ^ (v.q - 2)

def upper (v : Interval) : ℚ := ((4 * v.m + 2 : ℕ) : ℚ) * 2 ^ (v.q - 2)

/-- A number lies in the interval, whose ends belong to it exactly for an even significand. -/
def Within (v : Interval) (r : ℚ) : Prop :=
  if v.m % 2 = 0 then v.lower ≤ r ∧ r ≤ v.upper else v.lower < r ∧ r < v.upper

/-- An interval of a positive value, which reaches below it by no more than above. -/
structure Proper (v : Interval) : Prop where
  pos : 0 < v.m
  below_pos : 0 < v.below
  below_le : v.below ≤ 2

lemma center_eq (v : Interval) : v.center = ((4 * v.m : ℕ) : ℚ) * 2 ^ (v.q - 2) := by
  unfold center
  rw [zpow_sub₀ (by norm_num)]
  push_cast
  ring

lemma Proper.lower_pos (h : v.Proper) : 0 < v.lower := by
  have := h.pos
  have := h.below_le
  exact mul_pos (by exact_mod_cast show 0 < 4 * v.m - v.below by omega) (zpow_pos (by norm_num) _)

lemma Proper.lower_lt (h : v.Proper) : v.lower < v.center := by
  have := h.pos
  have := h.below_pos
  rw [center_eq]
  refine mul_lt_mul_of_pos_right ?_ (zpow_pos (by norm_num) _)
  exact_mod_cast show 4 * v.m - v.below < 4 * v.m by omega

lemma lt_upper (v : Interval) : v.center < v.upper := by
  rw [center_eq]
  refine mul_lt_mul_of_pos_right ?_ (zpow_pos (by norm_num) _)
  exact_mod_cast show 4 * v.m < 4 * v.m + 2 by omega

/-- The interval reaches above its value by half of it at most. -/
lemma Proper.upper_le (h : v.Proper) : v.upper ≤ 2 * v.center := by
  have := h.pos
  rw [center_eq, ← mul_assoc]
  refine mul_le_mul_of_nonneg_right ?_ (zpow_pos (by norm_num) _).le
  exact_mod_cast show 4 * v.m + 2 ≤ 2 * (4 * v.m) by omega

lemma Within.bounds (h : v.Within r) : v.lower ≤ r ∧ r ≤ v.upper := by
  unfold Within at h
  split at h
  · exact h
  · exact ⟨h.1.le, h.2.le⟩

lemma Proper.within_center (h : v.Proper) : v.Within v.center := by
  unfold Within
  split
  · exact ⟨h.lower_lt.le, v.lt_upper.le⟩
  · exact ⟨h.lower_lt, v.lt_upper⟩

/-- Zero does not lie in the interval. -/
lemma Proper.pos_of_within (hv : v.Proper) (h : v.Within (n * 10 ^ i)) : 0 < n := by
  rcases Nat.eq_zero_or_pos n with rfl | hpos
  · have hlower := h.bounds.1
    rw [Nat.cast_zero, zero_mul] at hlower
    exact absurd hv.lower_pos hlower.not_gt
  · exact hpos

/-- What lies between two numbers of the interval lies in it. -/
lemma Within.between (ha : v.Within a) (hb : v.Within b) (har : a ≤ r) (hrb : r ≤ b) :
    v.Within r := by
  unfold Within at ha hb ⊢
  split
  · rename_i heven
    rw [if_pos heven] at ha hb
    exact ⟨ha.1.trans har, hrb.trans hb.2⟩
  · rename_i hodd
    rw [if_neg hodd] at ha hb
    exact ⟨ha.1.trans_le har, hrb.trans_lt hb.2⟩

/-! ### One grid -/

lemma pow_toNat (b : ℚ) (hb : b ≠ 0) (i : Int) : b ^ i.toNat = b ^ (-i).toNat * b ^ i := by
  rcases Int.le_total 0 i with h | h
  · obtain ⟨n, rfl⟩ := Int.eq_ofNat_of_zero_le h
    simp
  · obtain ⟨n, hn⟩ := Int.eq_ofNat_of_zero_le (show 0 ≤ -i by omega)
    obtain rfl : i = -n := by omega
    simp [hb]

/-- The weights are the units of the grid and of the interval on one scale. -/
lemma exists_scale (v : Interval) (i : Int) :
    ∃ c : ℚ, 0 < c ∧ ((v.weights i).1 : ℚ) = c * 10 ^ i ∧
      ((v.weights i).2 : ℚ) = c * 2 ^ (v.q - 2) := by
  refine ⟨10 ^ (-i).toNat * 2 ^ (-(v.q - 2)).toNat, by positivity, ?_, ?_⟩
  · have h := pow_toNat 10 (by norm_num) i
    simp only [weights, Nat.shiftLeft_eq, Nat.pow_eq]
    push_cast
    rw [h]
    ring
  · have h := pow_toNat 2 (by norm_num) (v.q - 2)
    simp only [weights, Nat.shiftLeft_eq, Nat.pow_eq]
    push_cast
    rw [h]
    ring

/-- The test of a point of the grid is whether it lies in the interval. -/
lemma contains_iff (v : Interval) (i : Int) (n : Nat) :
    v.contains (v.weights i).2 (n * (v.weights i).1) = true ↔ v.Within (n * 10 ^ i) := by
  obtain ⟨c, hc, hgrid, hunit⟩ := v.exists_scale i
  have hlow : (4 * v.m - v.below) * (v.weights i).2 ≤ n * (v.weights i).1 ↔
      v.lower ≤ n * 10 ^ i := by
    rw [← Nat.cast_le (α := ℚ), Nat.cast_mul, Nat.cast_mul, hgrid, hunit, mul_left_comm,
      mul_left_comm _ c, mul_le_mul_iff_right₀ hc, lower]
  have hlow' : (4 * v.m - v.below) * (v.weights i).2 < n * (v.weights i).1 ↔
      v.lower < n * 10 ^ i := by
    rw [← Nat.cast_lt (α := ℚ), Nat.cast_mul, Nat.cast_mul, hgrid, hunit, mul_left_comm,
      mul_left_comm _ c, mul_lt_mul_iff_right₀ hc, lower]
  have hhigh : n * (v.weights i).1 ≤ (4 * v.m + 2) * (v.weights i).2 ↔
      n * 10 ^ i ≤ v.upper := by
    rw [← Nat.cast_le (α := ℚ), Nat.cast_mul, Nat.cast_mul, hgrid, hunit, mul_left_comm,
      mul_left_comm _ c, mul_le_mul_iff_right₀ hc, upper]
  have hhigh' : n * (v.weights i).1 < (4 * v.m + 2) * (v.weights i).2 ↔
      n * 10 ^ i < v.upper := by
    rw [← Nat.cast_lt (α := ℚ), Nat.cast_mul, Nat.cast_mul, hgrid, hunit, mul_left_comm,
      mul_left_comm _ c, mul_lt_mul_iff_right₀ hc, upper]
  unfold contains Within
  dsimp only
  split
  · rw [Bool.and_eq_true, decide_eq_true_eq, decide_eq_true_eq, hlow, hhigh]
  · rw [Bool.and_eq_true, decide_eq_true_eq, decide_eq_true_eq, hlow', hhigh']

/-- The two points of the grid around the value are tested; of two hits the nearer one counts. -/
lemma onGrid?_cases (v : Interval) (i : Int) :
    ∃ s : Nat, s * 10 ^ i ≤ v.center ∧ v.center < (s + 1 : Nat) * 10 ^ i ∧
      ((v.Within (s * 10 ^ i) ∧ v.onGrid? i = some s ∧
          (v.Within ((s + 1 : Nat) * 10 ^ i) → 2 * (v.center - s * 10 ^ i) < 10 ^ i)) ∨
        (v.Within ((s + 1 : Nat) * 10 ^ i) ∧ v.onGrid? i = some (s + 1) ∧
          (v.Within (s * 10 ^ i) → 10 ^ i ≤ 2 * (v.center - s * 10 ^ i))) ∨
        (¬v.Within (s * 10 ^ i) ∧ ¬v.Within ((s + 1 : Nat) * 10 ^ i) ∧ v.onGrid? i = none)) := by
  obtain ⟨c, hc, hgrid, hunit⟩ := v.exists_scale i
  have hpos : 0 < (v.weights i).1 := by
    rw [← Nat.cast_pos (α := ℚ), hgrid]
    exact mul_pos hc (zpow_pos (by norm_num) _)
  have hvalue : ((4 * v.m * (v.weights i).2 : ℕ) : ℚ) = c * v.center := by
    rw [center_eq, Nat.cast_mul, hunit]
    ring
  have hdef : v.onGrid? i =
      let s := 4 * v.m * (v.weights i).2 / (v.weights i).1
      let low := v.contains (v.weights i).2 (s * (v.weights i).1)
      let high := v.contains (v.weights i).2 ((s + 1) * (v.weights i).1)
      if low && high then
        if 2 * (4 * v.m * (v.weights i).2 - s * (v.weights i).1) < (v.weights i).1 then some s
        else some (s + 1)
      else if low then some s
      else if high then some (s + 1)
      else none := rfl
  have hle := Nat.div_mul_le_self (4 * v.m * (v.weights i).2) (v.weights i).1
  have hlt := Nat.lt_div_mul_add (a := 4 * v.m * (v.weights i).2) hpos
  have hlow := v.contains_iff i (4 * v.m * (v.weights i).2 / (v.weights i).1)
  have hhigh := v.contains_iff i (4 * v.m * (v.weights i).2 / (v.weights i).1 + 1)
  generalize 4 * v.m * (v.weights i).2 / (v.weights i).1 = s at *
  generalize 4 * v.m * (v.weights i).2 = value at *
  generalize (v.weights i).1 = grid at *
  have hnear : 2 * (value - s * grid) < grid ↔ 2 * (v.center - s * 10 ^ i) < 10 ^ i := by
    have hscaled : ((2 * (value - s * grid) : ℕ) : ℚ) = c * (2 * (v.center - s * 10 ^ i)) := by
      rw [Nat.cast_mul, Nat.cast_sub hle, Nat.cast_mul, hvalue, hgrid]
      push_cast
      ring
    rw [← Nat.cast_lt (α := ℚ), hscaled, hgrid, mul_lt_mul_iff_right₀ hc]
  refine ⟨s, ?_, ?_, ?_⟩
  · rw [← Nat.cast_le (α := ℚ), Nat.cast_mul, hvalue, hgrid, mul_left_comm] at hle
    exact le_of_mul_le_mul_left hle hc
  · rw [← Nat.cast_lt (α := ℚ), Nat.cast_add, Nat.cast_mul, hvalue, hgrid] at hlt
    refine lt_of_mul_lt_mul_left (hlt.trans_eq ?_) hc.le
    push_cast
    ring
  · rw [hdef]
    dsimp only
    by_cases hl : v.Within (s * 10 ^ i) <;> by_cases hh : v.Within ((s + 1 : Nat) * 10 ^ i)
    · rw [hlow.mpr hl, hhigh.mpr hh, Bool.and_self, if_pos rfl]
      by_cases hn : 2 * (value - s * grid) < grid
      · rw [if_pos hn]
        exact .inl ⟨hl, rfl, fun _ => hnear.mp hn⟩
      · rw [if_neg hn]
        exact .inr (.inl ⟨hh, rfl, fun _ => not_lt.mp (hn ∘ hnear.mpr)⟩)
    · rw [hlow.mpr hl, Bool.eq_false_iff.mpr (hh ∘ hhigh.mp)]
      exact .inl ⟨hl, rfl, fun h => absurd h hh⟩
    · rw [Bool.eq_false_iff.mpr (hl ∘ hlow.mp), hhigh.mpr hh]
      exact .inr (.inl ⟨hh, rfl, fun h => absurd h hl⟩)
    · rw [Bool.eq_false_iff.mpr (hl ∘ hlow.mp), Bool.eq_false_iff.mpr (hh ∘ hhigh.mp)]
      exact .inr (.inr ⟨hl, hh, rfl⟩)

/-- Where the test finds no point, the grid has none in the interval. -/
lemma not_within_of_onGrid? (hv : v.Proper) (h : v.onGrid? i = none) (n : Nat) :
    ¬v.Within (n * 10 ^ i) := by
  obtain ⟨s, hle, hlt, hcases⟩ := v.onGrid?_cases i
  have hpos : (0 : ℚ) < 10 ^ i := zpow_pos (by norm_num) _
  rcases hcases with ⟨-, hsome, -⟩ | ⟨-, hsome, -⟩ | ⟨hlow, hhigh, -⟩
  · rw [h] at hsome
    cases hsome
  · rw [h] at hsome
    cases hsome
  intro hn
  rcases Nat.lt_or_ge s n with hsn | hns
  · refine hhigh (hv.within_center.between hn hlt.le ?_)
    exact mul_le_mul_of_nonneg_right (by exact_mod_cast hsn) hpos.le
  · refine hlow (hn.between hv.within_center ?_ hle)
    exact mul_le_mul_of_nonneg_right (by exact_mod_cast hns) hpos.le

/-- A point that is found lies in the interval, and no other point of the grid there is nearer. -/
lemma within_of_onGrid? (hv : v.Proper) (h : v.onGrid? i = some n) :
    v.Within (n * 10 ^ i) ∧
      ∀ k : Nat, v.Within (k * 10 ^ i) → |n * 10 ^ i - v.center| ≤ |k * 10 ^ i - v.center| := by
  obtain ⟨s, hle, hlt, hcases⟩ := v.onGrid?_cases i
  have hpos : (0 : ℚ) < 10 ^ i := zpow_pos (by norm_num) _
  -- A point up to the value is no nearer than the last one, a point above no nearer than the first.
  have hbelow {k : Nat} (hk : k ≤ s) : v.center - s * 10 ^ i ≤ |k * 10 ^ i - v.center| := by
    have hks : (k : ℚ) * 10 ^ i ≤ s * 10 ^ i :=
      mul_le_mul_of_nonneg_right (by exact_mod_cast hk) hpos.le
    rw [abs_of_nonpos (by linarith)]
    linarith
  have habove {k : Nat} (hk : s < k) :
      (s + 1 : Nat) * 10 ^ i - v.center ≤ |k * 10 ^ i - v.center| := by
    have hks : ((s + 1 : Nat) : ℚ) * 10 ^ i ≤ k * 10 ^ i :=
      mul_le_mul_of_nonneg_right (by exact_mod_cast hk) hpos.le
    rw [abs_of_nonneg (by linarith)]
    linarith
  rw [h] at hcases
  rcases hcases with ⟨hlow, hs, hnear⟩ | ⟨hhigh, hs, hnear⟩ | ⟨-, -, hs⟩
  · cases hs
    refine ⟨hlow, fun k hk => ?_⟩
    rw [abs_of_nonpos (by linarith), neg_sub]
    rcases Nat.lt_or_ge n k with hnk | hkn
    · have hk' : ((n + 1 : Nat) : ℚ) * 10 ^ i ≤ k * 10 ^ i :=
        mul_le_mul_of_nonneg_right (by exact_mod_cast hnk) hpos.le
      have hcloser := hnear (hv.within_center.between hk hlt.le hk')
      have hfar := habove hnk
      push_cast at hfar
      linarith
    · exact hbelow hkn
  · cases hs
    refine ⟨hhigh, fun k hk => ?_⟩
    rw [abs_of_nonneg (by linarith)]
    rcases Nat.lt_or_ge s k with hsk | hks
    · exact habove hsk
    · have hk' : (k : ℚ) * 10 ^ i ≤ s * 10 ^ i :=
        mul_le_mul_of_nonneg_right (by exact_mod_cast hks) hpos.le
      have hcloser := hnear (hk.between hv.within_center hk' hle)
      have hfar := hbelow hks
      push_cast
      linarith
  · cases hs

/-! ### All grids -/

/-- The scan stops at the first grid with a hit, if the last one has one. -/
lemma scan_spec {least : Int} (h : v.onGrid? least ≠ none) (steps : Nat) :
    v.onGrid? (v.scan least steps).exponent = some (v.scan least steps).digits ∧
      ∀ i, (v.scan least steps).exponent < i → i ≤ least + steps → v.onGrid? i = none := by
  induction steps with
  | zero =>
    obtain ⟨n, hn⟩ := Option.ne_none_iff_exists'.mp h
    refine ⟨by simp [scan, hn], fun i hi hle => ?_⟩
    simp only [scan] at hi
    omega
  | succ steps ih =>
    unfold scan
    split
    · rename_i n hn
      refine ⟨hn, fun i hi hle => ?_⟩
      dsimp only at hi
      omega
    · rename_i hn
      refine ⟨ih.1, fun i hi hle => ?_⟩
      rcases Int.lt_or_eq_of_le hle with hlt | rfl
      · exact ih.2 i hi (by omega)
      · exact hn

/-- The value lies on the finest grid of the search. -/
lemma exists_center_eq (v : Interval) : ∃ n : Nat, v.center = n * 10 ^ min v.q 0 := by
  rcases Int.le_total 0 v.q with h | h
  · obtain ⟨n, hn⟩ := Int.eq_ofNat_of_zero_le h
    refine ⟨v.m * 2 ^ n, ?_⟩
    rw [Int.min_eq_right h, center, hn]
    simp
  · obtain ⟨n, hn⟩ := Int.eq_ofNat_of_zero_le (show 0 ≤ -v.q by omega)
    refine ⟨v.m * 5 ^ n, ?_⟩
    rw [Int.min_eq_left h, center, show v.q = -n by omega]
    simp only [zpow_neg, zpow_natCast]
    rw [show (10 : ℚ) = 2 * 5 by norm_num, mul_pow]
    push_cast
    field_simp

/-- The value has no more whole digits than the search allows for. -/
lemma center_lt (v : Interval) :
    v.center < 10 ^ (Nat.toDigits 10 (v.m <<< v.q.toNat >>> (-v.q).toNat)).length := by
  have hwhole := (Nat.length_toDigits_le_iff (n := v.m <<< v.q.toNat >>> (-v.q).toNat)
    (by decide : 1 < 10) Nat.length_toDigits_pos).mp (Nat.le_refl _)
  generalize (Nat.toDigits 10 (v.m <<< v.q.toNat >>> (-v.q).toNat)).length = top at hwhole ⊢
  rw [Nat.shiftLeft_eq, Nat.shiftRight_eq_div_pow, Nat.div_lt_iff_lt_mul (by positivity),
    ← Nat.cast_lt (α := ℚ)] at hwhole
  push_cast at hwhole
  rw [pow_toNat 2 (by norm_num) v.q] at hwhole
  have hpos : (0 : ℚ) < 2 ^ (-v.q).toNat := by positivity
  refine lt_of_mul_lt_mul_left (lt_of_eq_of_lt ?_ (hwhole.trans_eq (mul_comm _ _))) hpos.le
  rw [center]
  ring

/-- No grid above the search has a point in the interval. -/
lemma not_within_of_lt (hv : v.Proper)
    (hi : (Nat.toDigits 10 (v.m <<< v.q.toNat >>> (-v.q).toNat)).length < i) (n : Nat) :
    ¬v.Within (n * 10 ^ i) := by
  have hlt := v.center_lt
  generalize (Nat.toDigits 10 (v.m <<< v.q.toNat >>> (-v.q).toNat)).length = top at hi hlt
  intro h
  have hupper := h.bounds.2
  have hn : (1 : ℚ) ≤ n := by exact_mod_cast hv.pos_of_within h
  have hpow : (10 : ℚ) ^ (top + 1) ≤ 10 ^ i := by
    rw [← zpow_natCast]
    exact zpow_le_zpow_right₀ (by norm_num) (by omega)
  have hpoint : (10 : ℚ) ^ i ≤ n * 10 ^ i :=
    le_mul_of_one_le_left (zpow_pos (by norm_num) _).le hn
  have hreach := hv.upper_le
  have htop : (0 : ℚ) < 10 ^ top := by positivity
  rw [pow_succ] at hpow
  linarith

/-- **The search finds a point of the interval on the coarsest grid that has one.** -/
theorem shortest_spec (hv : v.Proper) :
    v.onGrid? v.shortest.exponent = some v.shortest.digits ∧
      ∀ i, v.shortest.exponent < i → ∀ n : Nat, ¬v.Within (n * 10 ^ i) := by
  have hleast : v.onGrid? (min v.q 0) ≠ none := by
    intro hnone
    obtain ⟨n, hn⟩ := v.exists_center_eq
    exact not_within_of_onGrid? hv hnone n (hn ▸ hv.within_center)
  unfold shortest
  dsimp only
  generalize htop : (Nat.toDigits 10 (v.m <<< v.q.toNat >>> (-v.q).toNat)).length = top
  obtain ⟨hfound, hcoarser⟩ := scan_spec hleast ((top : Int) - min v.q 0).toNat
  refine ⟨hfound, fun i hi n => ?_⟩
  rcases lt_or_ge (top : Int) i with htopi | hitop
  · exact not_within_of_lt hv (by rwa [htop]) n
  · exact not_within_of_onGrid? hv (hcoarser i hi (by omega)) n

/-- What the search finds lies in the interval. -/
lemma within_shortest (hv : v.Proper) : v.Within v.shortest.value :=
  (within_of_onGrid? hv (shortest_spec hv).1).1

/-- No decimal of the interval has fewer digits: if one had, the power of ten between the two would
lie on a coarser grid. -/
theorem length_shortest_le (hv : v.Proper) {d : Decimal} (hd : v.Within d.value) :
    v.shortest.digitChars.length ≤ d.digitChars.length := by
  obtain ⟨-, hcoarsest⟩ := shortest_spec hv
  have hshortest := within_shortest hv
  by_contra hlt
  have hlong : 0 < v.shortest.digitChars.length - 1 := by
    have := d.length_digitChars_pos
    omega
  have hexponent : d.exponent ≤ v.shortest.exponent := by
    by_contra hgt
    exact hcoarsest d.exponent (by omega) d.digits hd
  -- The power of ten with as many digits as the decimal found.
  have hdigits : 10 ^ (v.shortest.digitChars.length - 1) ≤ v.shortest.digits := by
    rw [← Nat.not_lt, ← length_digitChars_le_iff _ hlong]
    omega
  have hfewer : d.digits < 10 ^ (v.shortest.digitChars.length - 1) := by
    rw [← length_digitChars_le_iff _ hlong]
    omega
  generalize v.shortest.digitChars.length - 1 = k at hlong hdigits hfewer
  have hunit : (0 : ℚ) < 10 ^ v.shortest.exponent := zpow_pos (by norm_num) _
  have hbelow : d.value ≤ 10 ^ k * 10 ^ v.shortest.exponent := by
    have hpow : (10 : ℚ) ^ d.exponent ≤ 10 ^ v.shortest.exponent :=
      zpow_le_zpow_right₀ (by norm_num) hexponent
    have hnat : (d.digits : ℚ) ≤ 10 ^ k := by exact_mod_cast hfewer.le
    exact mul_le_mul hnat hpow (zpow_pos (by norm_num) _).le (by positivity)
  have habove : 10 ^ k * 10 ^ v.shortest.exponent ≤ v.shortest.value :=
    mul_le_mul_of_nonneg_right (by exact_mod_cast hdigits) hunit.le
  have hpower := hd.between hshortest hbelow habove
  refine hcoarsest (k + v.shortest.exponent) (by omega) 1 ?_
  rwa [Nat.cast_one, one_mul, zpow_add₀ (by norm_num), zpow_natCast]

end Interval

end Decimal

namespace Binary

open Decimal BinaryFormat

variable {f : BinaryFormat} {x : Binary f} {r : ℚ}

lemma m_interval (x : Binary f) : x.interval.m = f.significand x.magnitude := by
  unfold interval
  rw [parts_eq]

lemma q_interval (x : Binary f) : x.interval.q = f.unitExponent x.magnitude := by
  unfold interval
  rw [parts_eq]

lemma below_interval_of_opens (h : f.Opens x.magnitude) : x.interval.below = 1 := by
  unfold interval
  rw [fraction_eq, exponentField_eq]
  exact if_pos ⟨Nat.mod_eq_zero_of_dvd h.1, h.2⟩

lemma below_interval_of_not_opens (h : ¬f.Opens x.magnitude) : x.interval.below = 2 := by
  unfold interval
  rw [fraction_eq, exponentField_eq]
  exact if_neg fun hboth => h ⟨Nat.dvd_of_mod_eq_zero hboth.1, hboth.2⟩

lemma proper_interval (h : 0 < x.magnitude) : x.interval.Proper := by
  have hbelow : x.interval.below = 1 ∨ x.interval.below = 2 :=
    (em (f.Opens x.magnitude)).imp below_interval_of_opens below_interval_of_not_opens
  exact ⟨by rw [m_interval]; exact significand_pos h, by omega, by omega⟩

lemma center_interval (x : Binary f) : x.interval.center = f.value x.magnitude := by
  rw [Interval.center, m_interval, q_interval, BinaryFormat.value]

/-- The interval ends in the middle between the value and the next one. -/
lemma upper_interval (x : Binary f) :
    2 * x.interval.upper = f.value x.magnitude + f.value (x.magnitude + 1) := by
  rw [Interval.upper, m_interval, q_interval, value_succ, BinaryFormat.value,
    zpow_sub₀ (by norm_num)]
  push_cast
  ring

/-- It starts in the middle between the value and the one before. -/
lemma lower_interval {n : Nat} (h : x.magnitude = n + 1) :
    2 * x.interval.lower = f.value n + f.value (n + 1) := by
  have hpos : 0 < f.significand (n + 1) := significand_pos (Nat.succ_pos n)
  rw [Interval.lower, m_interval, q_interval, value_eq_sub n, zpow_sub₀ (by norm_num),
    BinaryFormat.value]
  by_cases hopens : f.Opens x.magnitude
  · rw [below_interval_of_opens hopens]
    rw [h] at hopens ⊢
    rw [unitExponent_succ_of_opens hopens, zpow_add_one₀ (by norm_num), Nat.cast_sub (by omega)]
    push_cast
    ring
  · rw [below_interval_of_not_opens hopens]
    rw [h] at hopens ⊢
    rw [unitExponent_succ_of_not_opens hopens, Nat.cast_sub (by omega)]
    push_cast
    ring

/-- The interval is what rounds to the value. -/
theorem nearest_iff_within (hpos : 0 < x.magnitude) (hfinite : x.magnitude < f.infinity) :
    f.Nearest r x.magnitude ↔ x.interval.Within r := by
  obtain ⟨n, hn⟩ : ∃ n, x.magnitude = n + 1 := ⟨x.magnitude - 1, by omega⟩
  have hlower := lower_interval hn
  have hupper := x.upper_interval
  rw [Interval.Within, m_interval]
  rw [hn] at hfinite hupper ⊢
  rw [nearest_succ_iff hfinite, ← hlower, ← hupper, Nat.even_iff]
  split
  · rename_i heven
    simp only [heven, and_true]
    constructor
    · rintro ⟨hlow, hhigh⟩
      exact ⟨by rcases hlow with h | h <;> linarith, by rcases hhigh with h | h <;> linarith⟩
    · rintro ⟨hlow, hhigh⟩
      exact ⟨(lt_or_eq_of_le hlow).imp (by intro h; linarith) (by intro h; linarith),
        (lt_or_eq_of_le hhigh).imp (by intro h; linarith) (by intro h; linarith)⟩
  · rename_i hodd
    simp only [hodd, and_false, or_false]
    constructor
    · rintro ⟨hlow, hhigh⟩
      exact ⟨by linarith, by linarith⟩
    · rintro ⟨hlow, hhigh⟩
      exact ⟨by linarith, by linarith⟩

lemma isFinite_iff : x.isFinite = true ↔ x.magnitude < f.infinity := decide_eq_true_iff

lemma shortest_of_magnitude_eq_zero (h : x.magnitude = 0) : x.shortest = ⟨0, 0⟩ := if_pos h

lemma shortest_of_magnitude_pos (h : 0 < x.magnitude) : x.shortest = x.interval.shortest :=
  if_neg h.ne'

lemma digits_shortest_pos (h : 0 < x.magnitude) : 0 < x.shortest.digits := by
  rw [shortest_of_magnitude_pos h]
  exact (proper_interval h).pos_of_within (Interval.within_shortest (proper_interval h))

/-- **The shortest decimal rounds to the value.** -/
theorem nearest_shortest (hfinite : x.isFinite) : f.Nearest x.shortest.value x.magnitude := by
  rcases Nat.eq_zero_or_pos x.magnitude with hzero | hpos
  · rw [shortest_of_magnitude_eq_zero hzero, hzero]
    simpa [Decimal.value] using nearest_zero
  · rw [nearest_iff_within hpos (isFinite_iff.mp hfinite), shortest_of_magnitude_pos hpos]
    exact Interval.within_shortest (proper_interval hpos)

/-- **No decimal that rounds to the value has fewer digits.** -/
theorem length_shortest_le (hfinite : x.isFinite) {d : Decimal}
    (hd : f.Nearest d.value x.magnitude) :
    x.shortest.digitChars.length ≤ d.digitChars.length := by
  rcases Nat.eq_zero_or_pos x.magnitude with hzero | hpos
  · rw [shortest_of_magnitude_eq_zero hzero]
    exact d.length_digitChars_pos
  · rw [nearest_iff_within hpos (isFinite_iff.mp hfinite)] at hd
    rw [shortest_of_magnitude_pos hpos]
    exact Interval.length_shortest_le (proper_interval hpos) hd

/-- **With as many decimal places none that rounds to the value is nearer to it.** -/
theorem dist_shortest_le (hfinite : x.isFinite) {n : Nat}
    (hn : f.Nearest (n * 10 ^ x.shortest.exponent) x.magnitude) :
    |x.shortest.value - f.value x.magnitude| ≤
      |n * 10 ^ x.shortest.exponent - f.value x.magnitude| := by
  rcases Nat.eq_zero_or_pos x.magnitude with hzero | hpos
  · rw [shortest_of_magnitude_eq_zero hzero, hzero, value_zero]
    simp [Decimal.value]
  · rw [nearest_iff_within hpos (isFinite_iff.mp hfinite)] at hn
    rw [shortest_of_magnitude_pos hpos] at hn ⊢
    rw [← center_interval]
    exact (Interval.within_of_onGrid? (proper_interval hpos)
      (Interval.shortest_spec (proper_interval hpos)).1).2 n hn

end Binary

end Mdf
