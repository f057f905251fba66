import Mathlib.Data.Int.Log
import Mathlib.Data.Rat.Floor
import Mdf.Binary.Notation
import Mdf.Proofs.Binary.Shortest

/-!
# Reading back the texts of binary values

The reader of decimals knows nothing of how they are written: it takes digits with or without a
point, and with or without an exponent.  Reading the text of a finite value gives its shortest decimal in
either notation (`Binary.read?_repr`), so it can be rounded to the value, and to no other.
-/

namespace Mdf

namespace Decimal

/-! ### Reading -/

/-- One digit or more, and nothing else. -/
def IsNumeral (cs : List Char) : Prop := cs ≠ [] ∧ ∀ c ∈ cs, c.isDigit = true

instance (cs : List Char) : Decidable (IsNumeral cs) := inferInstanceAs (Decidable (_ ∧ _))

/-- The number of an exponent, with or without a sign. -/
def exponent? : List Char → Option Int
  | '-' :: cs => if IsNumeral cs then some (-(Nat.ofDigitChars 10 cs 0 : Int)) else none
  | '+' :: cs => if IsNumeral cs then some (Nat.ofDigitChars 10 cs 0) else none
  | cs => if IsNumeral cs then some (Nat.ofDigitChars 10 cs 0) else none

/-- The decimal of the digits before and behind a point, and of an exponent if one follows. -/
def scaled? (whole fraction : List Char) : List Char → Option Decimal
  | [] => some ⟨Nat.ofDigitChars 10 (whole ++ fraction) 0, -fraction.length⟩
  | 'e' :: cs => (exponent? cs).map fun e =>
      ⟨Nat.ofDigitChars 10 (whole ++ fraction) 0, e - fraction.length⟩
  | _ => none

/-- The decimal that a text without a sign denotes. -/
def unsigned? (cs : List Char) : Option Decimal :=
  let whole := cs.takeWhile Char.isDigit
  if whole = [] then none
  else
    match cs.dropWhile Char.isDigit with
    | '.' :: rest =>
      let fraction := rest.takeWhile Char.isDigit
      if fraction = [] then none else scaled? whole fraction (rest.dropWhile Char.isDigit)
    | rest => scaled? whole [] rest

/-- The sign and the decimal that a text denotes. -/
def read? : List Char → Option (Bool × Decimal)
  | '-' :: cs => (unsigned? cs).map (true, ·)
  | cs => (unsigned? cs).map (false, ·)

section Reading

variable {whole fraction rest cs ds : List Char}

lemma takeWhile_isDigit (h : IsNumeral cs) {c : Char} (hc : c.isDigit = false) :
    (cs ++ c :: rest).takeWhile Char.isDigit = cs := by
  rw [List.takeWhile_append_of_pos h.2, List.takeWhile_cons_of_neg (by simp [hc]), List.append_nil]

lemma dropWhile_isDigit (h : IsNumeral cs) {c : Char} (hc : c.isDigit = false) :
    (cs ++ c :: rest).dropWhile Char.isDigit = c :: rest := by
  rw [List.dropWhile_append_of_pos h.2, List.dropWhile_cons_of_neg (by simp [hc])]

lemma takeWhile_isDigit_self (h : IsNumeral cs) : cs.takeWhile Char.isDigit = cs := by
  have happend : (cs ++ []).takeWhile Char.isDigit = cs ++ [].takeWhile Char.isDigit :=
    List.takeWhile_append_of_pos h.2
  simpa using happend

lemma dropWhile_isDigit_self (h : IsNumeral cs) : cs.dropWhile Char.isDigit = [] := by
  have happend : (cs ++ []).dropWhile Char.isDigit = [].dropWhile Char.isDigit :=
    List.dropWhile_append_of_pos h.2
  simpa using happend

lemma isNumeral_append (hc : IsNumeral cs) (hd : ∀ c ∈ ds, c.isDigit = true) :
    IsNumeral (cs ++ ds) :=
  ⟨by simp [hc.1], List.forall_mem_append.mpr ⟨hc.2, hd⟩⟩

lemma isNumeral_singleton {c : Char} (h : c.isDigit = true) : IsNumeral [c] :=
  ⟨List.cons_ne_nil _ _, List.forall_mem_singleton.mpr h⟩

lemma isDigit_of_mem_replicate {n : Nat} : ∀ c ∈ List.replicate n '0', c.isDigit = true :=
  fun _ h => (List.mem_replicate.mp h).2 ▸ by decide

lemma isNumeral_toDigits (n : Nat) : IsNumeral (Nat.toDigits 10 n) :=
  ⟨Nat.toDigits_ne_nil, fun _ hc => Nat.isDigit_of_mem_toDigits (by decide) (by decide) hc⟩

lemma unsigned?_fixed (hw : IsNumeral whole) (hf : IsNumeral fraction) :
    unsigned? (whole ++ '.' :: fraction) =
      some ⟨Nat.ofDigitChars 10 (whole ++ fraction) 0, -fraction.length⟩ := by
  unfold unsigned?
  simp only [takeWhile_isDigit hw (c := '.') rfl, dropWhile_isDigit hw (c := '.') rfl, if_neg hw.1,
    takeWhile_isDigit_self hf, dropWhile_isDigit_self hf, if_neg hf.1]
  rfl

/-- The exponent of a text is read whatever its mantissa. -/
lemma unsigned?_exponent (hw : IsNumeral whole) (cs : List Char) :
    unsigned? (whole ++ 'e' :: cs) =
      (exponent? cs).map fun e => ⟨Nat.ofDigitChars 10 whole 0, e⟩ := by
  unfold unsigned?
  simp only [takeWhile_isDigit hw (c := 'e') rfl, dropWhile_isDigit hw (c := 'e') rfl, if_neg hw.1]
  simp [scaled?]

lemma unsigned?_fraction_exponent (hw : IsNumeral whole) (hf : IsNumeral fraction)
    (cs : List Char) :
    unsigned? (whole ++ '.' :: (fraction ++ 'e' :: cs)) =
      (exponent? cs).map fun e =>
        ⟨Nat.ofDigitChars 10 (whole ++ fraction) 0, e - fraction.length⟩ := by
  unfold unsigned?
  simp only [takeWhile_isDigit hw (c := '.') rfl, dropWhile_isDigit hw (c := '.') rfl, if_neg hw.1,
    takeWhile_isDigit hf (c := 'e') rfl, dropWhile_isDigit hf (c := 'e') rfl, if_neg hf.1]
  rfl

lemma exponent?_sign {e : Int} (h : IsNumeral cs) (he : Nat.ofDigitChars 10 cs 0 = e.natAbs) :
    exponent? ((if e < 0 then '-' else '+') :: cs) = some e := by
  by_cases hneg : e < 0
  · rw [if_pos hneg, exponent?, if_pos h, he]
    congr 1
    omega
  · rw [if_neg hneg, exponent?, if_pos h, he]
    congr 1
    omega

end Reading

/-! ### Writing -/

/-- Fixed notation: digits before and behind a point. -/
def IsFixed (cs : List Char) : Prop :=
  ∃ whole fraction, IsNumeral whole ∧ IsNumeral fraction ∧ cs = whole ++ '.' :: fraction

/-- Scientific notation with the given exponent: a digit, a point and more digits if there are any,
and the exponent with its sign in two digits or more. -/
def IsScientific (e : Int) (cs : List Char) : Prop :=
  ∃ first fraction digits, Char.isDigit first = true ∧
    (fraction = [] ∨ ∃ ds, IsNumeral ds ∧ fraction = '.' :: ds) ∧
    IsNumeral digits ∧ 2 ≤ digits.length ∧ Nat.ofDigitChars 10 digits 0 = e.natAbs ∧
    cs = first :: fraction ++ 'e' :: (if e < 0 then '-' else '+') :: digits

/-- The text of a decimal, in the notation that its exponent asks for. -/
def unsigned (d : Decimal) : String :=
  if isPositional d.leading then
    if d.positional.contains '.' then d.positional else d.positional ++ ".0"
  else d.scientific

variable {d : Decimal}

lemma isNumeral_digitChars (d : Decimal) : IsNumeral d.digitChars := isNumeral_toDigits d.digits

lemma ofDigitChars_digitChars (d : Decimal) : Nat.ofDigitChars 10 d.digitChars 0 = d.digits :=
  Nat.ofDigitChars_ten_toDigits

/-- Leading zeros do not count. -/
lemma ofDigitChars_zeros_append (k : Nat) (ds : List Char) :
    Nat.ofDigitChars 10 (List.replicate k '0' ++ ds) 0 = Nat.ofDigitChars 10 ds 0 := by
  rw [Nat.ofDigitChars_append, Nat.ofDigitChars_replicate_zero, Nat.mul_zero]

/-- The digits before and behind a point make the decimal. -/
structure Splits (d : Decimal) (whole fraction : List Char) : Prop where
  whole_isNumeral : IsNumeral whole
  fraction_isNumeral : IsNumeral fraction
  value_eq :
    (Nat.ofDigitChars 10 (whole ++ fraction) 0 : ℚ) * 10 ^ (-(fraction.length : Int)) = d.value

/-- A whole number has its point and a zero behind it. -/
lemma splits_whole {n : Nat} (h : d.exponent = n) :
    Splits d (d.digitChars ++ List.replicate n '0') ['0'] := by
  refine ⟨isNumeral_append d.isNumeral_digitChars isDigit_of_mem_replicate,
    isNumeral_singleton rfl, ?_⟩
  rw [show ['0'] = List.replicate 1 '0' from rfl, Nat.ofDigitChars_append, Nat.ofDigitChars_append,
    Nat.ofDigitChars_replicate_zero, Nat.ofDigitChars_replicate_zero, ofDigitChars_digitChars,
    List.length_replicate, Decimal.value, h]
  push_cast
  rw [zpow_neg, zpow_natCast]
  field_simp

/-- The point stands among the digits. -/
lemma splits_within {k : Nat} (h : d.exponent + d.digitChars.length = k) (hk : 0 < k)
    (hexponent : d.exponent < 0) : Splits d (d.digitChars.take k) (d.digitChars.drop k) := by
  have hds := d.isNumeral_digitChars
  refine ⟨⟨?_, fun c hc => hds.2 c (List.mem_of_mem_take hc)⟩,
    ⟨?_, fun c hc => hds.2 c (List.mem_of_mem_drop hc)⟩, ?_⟩
  · rw [Ne, List.take_eq_nil_iff]
    exact fun hor => hor.elim hk.ne' hds.1
  · rw [Ne, List.drop_eq_nil_iff]
    omega
  · have hlength : -((d.digitChars.length - k : ℕ) : Int) = d.exponent := by omega
    rw [List.take_append_drop, List.length_drop, hlength, ofDigitChars_digitChars, Decimal.value]

/-- The point stands before all digits. -/
lemma splits_small {k : Nat} (h : -(d.exponent + d.digitChars.length) = k) :
    Splits d ['0'] (List.replicate k '0' ++ d.digitChars) := by
  have hds := d.isNumeral_digitChars
  refine ⟨isNumeral_singleton rfl, ⟨by simp [hds.1],
    List.forall_mem_append.mpr ⟨isDigit_of_mem_replicate, hds.2⟩⟩, ?_⟩
  have hlength : -((k + d.digitChars.length : ℕ) : Int) = d.exponent := by omega
  rw [show ['0'] = List.replicate 1 '0' from rfl, ofDigitChars_zeros_append,
    ofDigitChars_zeros_append, List.length_append, List.length_replicate, hlength,
    ofDigitChars_digitChars, Decimal.value]

/-- What stands on both sides of the point in fixed notation. -/
lemma exists_splits (h : isPositional d.leading) :
    ∃ whole fraction, Splits d whole fraction ∧ d.unsigned.toList = whole ++ '.' :: fraction := by
  rw [unsigned, if_pos h, String.contains_char_eq]
  unfold positional
  dsimp only
  split
  · rename_i he
    obtain ⟨n, hexp⟩ := Int.eq_ofNat_of_zero_le he
    have hsplits := splits_whole hexp
    have hpoint : '.' ∉ d.digitChars ++ List.replicate n '0' :=
      fun hmem => absurd (hsplits.whole_isNumeral.2 _ hmem) (by decide)
    refine ⟨_, _, hsplits, ?_⟩
    rw [hexp, Int.toNat_natCast, String.toList_ofList, decide_eq_false hpoint, if_neg (by decide),
      String.toList_append, String.toList_ofList]
    rfl
  split
  · rename_i he hsplit
    obtain ⟨k, hk⟩ := Int.eq_ofNat_of_zero_le hsplit.le
    refine ⟨_, _, splits_within hk (by omega) (by omega), ?_⟩
    rw [hk, Int.toNat_natCast, String.toList_ofList, if_pos (by simp), String.toList_ofList]
  · rename_i he hsplit
    have hsmall : 0 ≤ -(d.exponent + d.digitChars.length) := by omega
    obtain ⟨k, hk⟩ := Int.eq_ofNat_of_zero_le hsmall
    refine ⟨_, _, splits_small hk, ?_⟩
    rw [hk, Int.toNat_natCast, String.toList_ofList, if_pos (by simp), String.toList_ofList]
    rfl

/-- The mantissa is the digits with a point behind the first one. -/
lemma exists_mantissa (d : Decimal) :
    ∃ first rest, d.digitChars = first :: rest ∧
      d.mantissa.toList = first :: (if rest = [] then [] else '.' :: rest) := by
  unfold mantissa
  split
  · rename_i h
    exact absurd h Nat.toDigits_ne_nil
  · rename_i c h
    exact ⟨c, [], h, String.toList_ofList⟩
  · rename_i c cs hcs h
    refine ⟨c, cs, h, ?_⟩
    rw [String.toList_ofList, if_neg hcs]

/-- The digits of the exponent. -/
lemma exists_scientific (d : Decimal) :
    ∃ digits, IsNumeral digits ∧ 2 ≤ digits.length ∧
      Nat.ofDigitChars 10 digits 0 = d.leading.natAbs ∧
      d.scientific.toList =
        d.mantissa.toList ++ 'e' :: (if d.leading < 0 then '-' else '+') :: digits := by
  have hnumeral := isNumeral_toDigits d.leading.natAbs
  have hdigits : (Numeral.padLeft 2 '0' (toString d.leading.natAbs)).toList =
      List.replicate (2 - (Nat.toDigits 10 d.leading.natAbs).length) '0' ++
        Nat.toDigits 10 d.leading.natAbs := by
    rw [Numeral.padLeft, String.toList_append, String.toList_ofList,
      Nat.toString_eq_ofList_toDigits, String.toList_ofList, String.length_ofList]
  refine ⟨(Numeral.padLeft 2 '0' (toString d.leading.natAbs)).toList, ?_, ?_, ?_, ?_⟩
  · rw [hdigits]
    exact ⟨by simp [hnumeral.1], List.forall_mem_append.mpr ⟨isDigit_of_mem_replicate, hnumeral.2⟩⟩
  · rw [hdigits, List.length_append, List.length_replicate]
    omega
  · rw [hdigits, ofDigitChars_zeros_append, Nat.ofDigitChars_ten_toDigits]
  · unfold scientific
    simp only [String.toList_append]
    split <;> simp

/-- Fixed notation where the exponent asks for it. -/
lemma isFixed_unsigned (h : isPositional d.leading) : IsFixed d.unsigned.toList := by
  obtain ⟨whole, fraction, hsplits, htext⟩ := exists_splits h
  exact ⟨whole, fraction, hsplits.whole_isNumeral, hsplits.fraction_isNumeral, htext⟩

/-- Scientific notation otherwise, which reads as the decimal itself. -/
lemma unsigned_scientific (h : ¬isPositional d.leading) :
    IsScientific d.leading d.unsigned.toList ∧ unsigned? d.unsigned.toList = some d := by
  obtain ⟨first, rest, hds, hmantissa⟩ := d.exists_mantissa
  obtain ⟨digits, hnumeral, hlength, hexponent, htext⟩ := d.exists_scientific
  have hnum := d.isNumeral_digitChars
  have hvalue := d.ofDigitChars_digitChars
  have hread := exponent?_sign hnumeral hexponent
  have hleading : d.leading = d.exponent + rest.length := by
    rw [leading, hds, List.length_cons]
    push_cast
    ring
  rw [hds] at hnum hvalue
  have hfirst : first.isDigit = true := hnum.2 _ (List.mem_cons_self ..)
  have hone := isNumeral_singleton hfirst
  rw [unsigned, if_neg h, htext, hmantissa]
  by_cases hrest : rest = []
  · subst hrest
    rw [if_pos rfl]
    refine ⟨⟨first, [], digits, hfirst, .inl rfl, hnumeral, hlength, hexponent, rfl⟩, ?_⟩
    have hunsigned := unsigned?_exponent hone ((if d.leading < 0 then '-' else '+') :: digits)
    rw [hread, Option.map_some, hvalue] at hunsigned
    rw [List.length_nil, Nat.cast_zero, add_zero] at hleading
    exact hunsigned.trans (congrArg (fun e => some (Decimal.mk d.digits e)) hleading)
  · rw [if_neg hrest]
    have htail : IsNumeral rest := ⟨hrest, fun c hc => hnum.2 c (List.mem_cons_of_mem _ hc)⟩
    refine ⟨⟨first, '.' :: rest, digits, hfirst, .inr ⟨rest, htail, rfl⟩, hnumeral, hlength,
      hexponent, rfl⟩, ?_⟩
    have hunsigned := unsigned?_fraction_exponent hone htail
      ((if d.leading < 0 then '-' else '+') :: digits)
    rw [hread, Option.map_some, List.singleton_append, List.singleton_append, hvalue] at hunsigned
    exact hunsigned.trans (congrArg (fun e => some (Decimal.mk d.digits e)) (by omega))

/-- **The text of a decimal denotes it.** -/
theorem unsigned?_unsigned (d : Decimal) :
    ∃ r, unsigned? d.unsigned.toList = some r ∧ r.value = d.value := by
  by_cases h : isPositional d.leading
  · obtain ⟨whole, fraction, hsplits, htext⟩ := exists_splits h
    rw [htext]
    exact ⟨_, unsigned?_fixed hsplits.whole_isNumeral hsplits.fraction_isNumeral,
      hsplits.value_eq⟩
  · exact ⟨d, (unsigned_scientific h).2, rfl⟩

lemma isPositional_iff (e : Int) : isPositional e = true ↔ -4 ≤ e ∧ e ≤ 15 := by
  rw [isPositional, Bool.and_eq_true, decide_eq_true_eq, decide_eq_true_eq]
  omega

lemma IsFixed.head {cs : List Char} (h : IsFixed cs) : ∃ c r, cs = c :: r ∧ c.isDigit = true := by
  obtain ⟨whole, fraction, ⟨hne, hdigits⟩, -, rfl⟩ := h
  obtain ⟨c, r, rfl⟩ := List.exists_cons_of_ne_nil hne
  exact ⟨c, _, rfl, hdigits c (List.mem_cons_self ..)⟩

lemma IsFixed.not_mem {cs : List Char} (h : IsFixed cs) : 'e' ∉ cs := by
  obtain ⟨whole, fraction, hwhole, hfraction, rfl⟩ := h
  intro hmem
  rcases List.mem_append.mp hmem with hmem | hmem
  · exact absurd (hwhole.2 _ hmem) (by decide)
  · rcases List.mem_cons.mp hmem with hdot | hmem
    · exact absurd hdot (by decide)
    · exact absurd (hfraction.2 _ hmem) (by decide)

lemma unsigned_head (d : Decimal) : ∃ c r, d.unsigned.toList = c :: r ∧ c.isDigit = true := by
  by_cases h : isPositional d.leading
  · exact (isFixed_unsigned h).head
  · obtain ⟨first, fraction, digits, hfirst, -, -, -, -, htext⟩ := (unsigned_scientific h).1
    exact ⟨first, _, htext, hfirst⟩

/-- The place of the first digit is the exponent of the value. -/
lemma leading_eq_log (h : 0 < d.digits) : d.leading = Int.log 10 d.value := by
  have hunit : (0 : ℚ) < 10 ^ d.exponent := zpow_pos (by norm_num) _
  have hpos : 0 < d.value := mul_pos (by exact_mod_cast h) hunit
  obtain ⟨n, hn⟩ : ∃ n, d.digitChars.length = n + 1 :=
    ⟨d.digitChars.length - 1, by have := d.length_digitChars_pos; omega⟩
  have hleading : d.leading = n + d.exponent := by
    rw [leading, hn]
    push_cast
    ring
  have hlow : (10 : ℚ) ^ d.leading ≤ d.value := by
    have hdigits : 10 ^ n ≤ d.digits := by
      rcases Nat.eq_zero_or_pos n with rfl | hlong
      · exact h
      · rw [← Nat.not_lt, ← length_digitChars_le_iff _ hlong, hn]
        omega
    rw [hleading, zpow_add₀ (by norm_num), zpow_natCast]
    exact mul_le_mul_of_nonneg_right (by exact_mod_cast hdigits) hunit.le
  have hhigh : d.value < 10 ^ (d.leading + 1) := by
    have hdigits : d.digits < 10 ^ (n + 1) :=
      (length_digitChars_le_iff _ (Nat.succ_pos n)).mp hn.le
    have hnext : d.leading + 1 = ((n + 1 : ℕ) : Int) + d.exponent := by
      rw [hleading]
      push_cast
      ring
    rw [hnext, zpow_add₀ (by norm_num), zpow_natCast]
    exact mul_lt_mul_of_pos_right (by exact_mod_cast hdigits) hunit
  apply le_antisymm
  · exact (Int.zpow_le_iff_le_log (by decide) hpos).mp (by exact_mod_cast hlow)
  · exact Int.lt_add_one_iff.mp
      ((Int.lt_zpow_iff_log_lt (by decide) hpos).mp (by exact_mod_cast hhigh))

end Decimal

namespace Binary

open Decimal

variable {f : BinaryFormat} {x y : Binary f}

lemma repr_eq (h : x.isFinite) : x.repr = x.sign ++ x.shortest.unsigned := by
  have hmagnitude := isFinite_iff.mp h
  have hnan : x.isNaN = false := by
    rw [isNaN]
    simpa using hmagnitude.le
  have hinfinite : x.isInfinite = false := by
    rw [isInfinite]
    simpa using hmagnitude.ne
  unfold repr unsigned
  rw [hnan, hinfinite]
  simp only [Bool.false_eq_true, if_false]
  split <;> rfl

/-- The exponent of the text is that of the shortest decimal, and zero for zero. -/
lemma leading_shortest (x : Binary f) : x.shortest.leading = Int.log 10 x.shortest.value := by
  rcases Nat.eq_zero_or_pos x.magnitude with hzero | hpos
  · rw [shortest_of_magnitude_eq_zero hzero, Decimal.value, Nat.cast_zero, zero_mul,
      Int.log_of_right_le_zero 10 le_rfl]
    rfl
  · exact leading_eq_log (digits_shortest_pos hpos)

/-- What a sign and a text that starts with a digit denote. -/
lemma read?_sign_append {cs : List Char} (h : ∃ c r, cs = c :: r ∧ c.isDigit = true) :
    read? (x.sign.toList ++ cs) = (unsigned? cs).map (x.negative, ·) := by
  obtain ⟨c, r, rfl, hc⟩ := h
  unfold sign
  cases x.negative with
  | true => rfl
  | false =>
    have hminus : c ≠ '-' := by
      rintro rfl
      exact absurd hc (by decide)
    rw [if_neg Bool.false_ne_true, String.toList_empty, List.nil_append]
    unfold read?
    split
    · rename_i heq
      exact absurd (List.cons.inj heq).1 hminus
    · rfl

/-- **The text of a finite value denotes its shortest decimal.** -/
theorem read?_repr (h : x.isFinite) :
    ∃ d, read? x.repr.toList = some (x.negative, d) ∧ d.value = x.shortest.value := by
  obtain ⟨d, hread, hvalue⟩ := unsigned?_unsigned x.shortest
  refine ⟨d, ?_, hvalue⟩
  rw [repr_eq h, String.toList_append, read?_sign_append x.shortest.unsigned_head, hread]
  rfl

/-- The shortest decimal rounds to the value alone. -/
theorem roundsTo_shortest_iff (h : x.isFinite) :
    RoundsTo x.negative x.shortest.value y ↔ y = x := by
  have hx : RoundsTo x.negative x.shortest.value x := ⟨rfl, nearest_shortest h⟩
  constructor
  · exact fun hy => hy.unique hx
  · rintro rfl
    exact hx

lemma repr_of_isNaN (h : x.isNaN) : x.repr = "nan" := if_pos h

lemma repr_of_isInfinite (h : x.isInfinite) : x.repr = if x.negative then "-inf" else "inf" := by
  have hnan : x.isNaN = false := by
    rw [isInfinite, decide_eq_true_eq] at h
    simp [isNaN, h]
  unfold repr sign
  rw [hnan, h]
  cases x.negative <;> rfl

lemma isInfinite_of_not_isFinite (hfinite : ¬x.isFinite) (hnan : ¬x.isNaN) : x.isInfinite := by
  simp only [isFinite, isNaN, isInfinite, decide_eq_true_eq] at *
  omega

lemma read?_repr_of_isInfinite (h : x.isInfinite) : read? x.repr.toList = none := by
  rw [repr_of_isInfinite h]
  cases x.negative <;> rfl

/-- **Different values have different texts.** -/
theorem repr_injective (hx : ¬x.isNaN) (hy : ¬y.isNaN) (h : x.repr = y.repr) : x = y := by
  by_cases hfx : x.isFinite
  · obtain ⟨d, hd, hvalue⟩ := read?_repr hfx
    by_cases hfy : y.isFinite
    · obtain ⟨d', hd', hvalue'⟩ := read?_repr hfy
      rw [h, hd'] at hd
      obtain ⟨hsign, rfl⟩ := Prod.mk.inj (Option.some.inj hd)
      have hy' := (roundsTo_shortest_iff hfy).mpr rfl
      rw [← hvalue', hvalue, hsign] at hy'
      exact ((roundsTo_shortest_iff hfx).mp hy').symm
    · rw [h, read?_repr_of_isInfinite (isInfinite_of_not_isFinite hfy hy)] at hd
      cases hd
  · have hix := isInfinite_of_not_isFinite hfx hx
    by_cases hfy : y.isFinite
    · obtain ⟨d, hd, -⟩ := read?_repr hfy
      rw [← h, read?_repr_of_isInfinite hix] at hd
      cases hd
    · have hiy := isInfinite_of_not_isFinite hfy hy
      rw [repr_of_isInfinite hix, repr_of_isInfinite hiy] at h
      have hsign : x.negative = y.negative := by
        revert h
        cases x.negative <;> cases y.negative <;> decide
      rw [isInfinite, decide_eq_true_eq] at hix hiy
      exact ext_of_magnitude hsign (hix.trans hiy.symm)

/-- The text of a finite value is faithful to it. -/
structure Faithful (x : Binary f) : Prop where
  /-- It denotes the shortest decimal, under the sign of the value. -/
  denotes : ∃ d, read? x.repr.toList = some (x.negative, d) ∧ d.value = x.shortest.value
  /-- This rounds to the value, and to no other. -/
  roundsTo_iff : ∀ y : Binary f, RoundsTo x.negative x.shortest.value y ↔ y = x
  /-- No decimal that rounds to the value has fewer digits. -/
  length_le : ∀ d : Decimal, RoundsTo x.negative d.value x →
    x.shortest.digitChars.length ≤ d.digitChars.length
  /-- None with as many decimal places is nearer. -/
  dist_le : ∀ n : Nat, RoundsTo x.negative (n * 10 ^ x.shortest.exponent) x →
    |x.shortest.value - f.value x.magnitude| ≤ |n * 10 ^ x.shortest.exponent - f.value x.magnitude|
  /-- The text shows a floating-point number. -/
  marked : '.' ∈ x.repr.toList ∨ 'e' ∈ x.repr.toList
  fixed_iff : (∃ cs, x.repr.toList = x.sign.toList ++ cs ∧ IsFixed cs) ↔
    -4 ≤ Int.log 10 x.shortest.value ∧ Int.log 10 x.shortest.value ≤ 15
  scientific : ¬(-4 ≤ Int.log 10 x.shortest.value ∧ Int.log 10 x.shortest.value ≤ 15) →
    ∃ cs, x.repr.toList = x.sign.toList ++ cs ∧ IsScientific (Int.log 10 x.shortest.value) cs

theorem faithful_of_isFinite (h : x.isFinite) : x.Faithful := by
  have htext : x.repr.toList = x.sign.toList ++ x.shortest.unsigned.toList := by
    rw [repr_eq h, String.toList_append]
  have hpositional : isPositional x.shortest.leading = true ↔
      -4 ≤ Int.log 10 x.shortest.value ∧ Int.log 10 x.shortest.value ≤ 15 := by
    rw [isPositional_iff, leading_shortest]
  have hscientific (hnot : ¬isPositional x.shortest.leading) :
      IsScientific (Int.log 10 x.shortest.value) x.shortest.unsigned.toList := by
    rw [← leading_shortest]
    exact (unsigned_scientific hnot).1
  refine ⟨read?_repr h, fun _ => roundsTo_shortest_iff h, fun d hd => length_shortest_le h hd.2,
    fun n hn => dist_shortest_le h hn.2, ?_, ?_, ?_⟩
  · by_cases hfixed : isPositional x.shortest.leading
    · obtain ⟨whole, fraction, -, -, hcs⟩ := isFixed_unsigned hfixed
      left
      rw [htext, hcs]
      simp
    · obtain ⟨first, fraction, digits, -, -, -, -, -, hcs⟩ := hscientific hfixed
      right
      rw [htext, hcs]
      simp
  · rw [← hpositional]
    constructor
    · rintro ⟨cs, hcs, hfixed⟩
      by_contra hnot
      obtain ⟨first, fraction, digits, -, -, -, -, -, hsci⟩ := hscientific hnot
      rw [htext, List.append_cancel_left_eq] at hcs
      rw [← hcs, hsci] at hfixed
      exact hfixed.not_mem (by simp)
    · exact fun hfixed => ⟨_, htext, isFixed_unsigned hfixed⟩
  · intro hnot
    exact ⟨_, htext, hscientific (hnot ∘ hpositional.mp)⟩

/-- **The texts of binary values are faithful and tell them apart.**  That of a finite value denotes
its shortest decimal, in fixed notation exactly for the exponents from -4 to 15.  Infinities and NaN
have three texts of their own, and two patterns that are no NaN have different texts. -/
theorem repr_faithful (f : BinaryFormat) :
    (∀ x : Binary f, x.isFinite → x.Faithful) ∧
      (∀ x : Binary f, ¬x.isFinite →
        x.repr = if x.isNaN then "nan" else if x.negative then "-inf" else "inf") ∧
      ∀ x y : Binary f, ¬x.isNaN → ¬y.isNaN → x ≠ y → x.repr ≠ y.repr := by
  refine ⟨fun _ => faithful_of_isFinite, fun x hx => ?_, fun x y hx hy hne h =>
    hne (repr_injective hx hy h)⟩
  split
  · rename_i hnan
    exact repr_of_isNaN hnan
  · rename_i hnan
    exact repr_of_isInfinite (isInfinite_of_not_isFinite hx hnan)

/-- A tenth, ten to the sixteenth, an infinity and the two zeros. -/
theorem repr_faithful_double :
    (⟨0x3FB999999999999A⟩ : Double).Faithful ∧ (⟨0x4341C37937E08000⟩ : Double).Faithful ∧
      (⟨0x4341C37937E08000⟩ : Double).repr = "1e+16" ∧
      (⟨0xFFF0000000000000⟩ : Double).repr = "-inf" ∧
      (⟨0⟩ : Double).repr ≠ (⟨0x8000000000000000⟩ : Double).repr := by
  obtain ⟨hfinite, hother, hne⟩ := repr_faithful .double
  refine ⟨hfinite _ (by decide +kernel), hfinite _ (by decide +kernel), by decide +kernel, ?_,
    hne _ _ (by decide +kernel) (by decide +kernel) (by decide +kernel)⟩
  exact (hother _ (by decide +kernel)).trans (by decide +kernel)

end Binary

end Mdf
