import Mathlib.Data.Nat.Digits.Defs
import Mathlib.Tactic.Common
import Mdf.Text.Numeral

/-!
# Numerals

A text is read as the number whose digits it is, perhaps behind a plus sign (`read?_eq_some_iff`), and
in base ten these are the digits of that number with zeros in front of them
(`read?_ten_eq_some_iff`).
-/

namespace Mdf.Numeral

variable {c : Char} {cs : List Char} {base d n acc bound : Nat}

/-! ### Any base up to sixteen -/

lemma toNat_toLower (c : Char) : c.toLower.toNat =
    if 0x41 ≤ c.toNat ∧ c.toNat ≤ 0x5A then c.toNat + 32 else c.toNat := by
  have hrange : (c.val ≥ 'A'.val ∧ c.val ≤ 'Z'.val) ↔ 0x41 ≤ c.toNat ∧ c.toNat ≤ 0x5A := Iff.rfl
  unfold Char.toLower
  split_ifs with h h' h'
  · have hlt : c.val.toNat + 32 < 4294967296 := by
      have := h'.2
      change c.val.toNat ≤ _ at this
      omega
    change (c.val + ('a'.val - 'A'.val)).toNat = c.val.toNat + 32
    rw [UInt32.toNat_add]
    exact Nat.mod_eq_of_lt hlt
  · exact absurd (hrange.mp h) h'
  · exact absurd (hrange.mpr h') h
  · rfl

lemma toNat_digitChar (h : d < 16) :
    (Nat.digitChar d).toNat = if d < 10 then 0x30 + d else 0x57 + d := by
  revert d
  decide

/-- **The digits of a base** are those of its numbers, letters in either case. -/
lemma digit?_eq_some_iff (hb : base ≤ 16) :
    digit? base c = some d ↔ d < base ∧ c.toLower = Nat.digitChar d := by
  unfold digit?
  simp only [Option.ite_none_right_eq_some, Option.some.injEq]
  constructor
  · rintro ⟨hd, rfl⟩
    refine ⟨hd, Char.toNat_inj.mp ?_⟩
    rw [toNat_toLower, toNat_digitChar (by omega)]
    split_ifs at hd ⊢ <;> omega
  · rintro ⟨hd, h⟩
    have hnat := congrArg Char.toNat h
    rw [toNat_toLower, toNat_digitChar (by omega)] at hnat
    have hvalue : (if 0x30 ≤ c.toNat ∧ c.toNat ≤ 0x39 then c.toNat - 0x30
        else if 0x61 ≤ c.toNat ∧ c.toNat ≤ 0x66 then c.toNat - 0x61 + 10
        else if 0x41 ≤ c.toNat ∧ c.toNat ≤ 0x46 then c.toNat - 0x41 + 10 else base) = d := by
      split_ifs at hnat ⊢ <;> omega
    rw [hvalue]
    exact ⟨hd, rfl⟩

/-- One or more digits, the first one first, that have the value `n`; letters in either case. -/
def Spells (base n : Nat) (cs : List Char) : Prop :=
  ∃ ds : List Nat, ds ≠ [] ∧ (∀ d ∈ ds, d < base) ∧ cs.map Char.toLower = ds.map Nat.digitChar ∧
    n = Nat.ofDigits base ds.reverse

lemma digits?_eq_some_iff (hb : base ≤ 16) : digits? base acc cs = some n ↔
    ∃ ds : List Nat, (∀ d ∈ ds, d < base) ∧ cs.map Char.toLower = ds.map Nat.digitChar ∧
      n = ds.foldl (fun v d => v * base + d) acc := by
  induction cs generalizing acc with
  | nil => simp [digits?, eq_comm]
  | cons c cs ih =>
    simp only [digits?, Option.bind_eq_some_iff, digit?_eq_some_iff hb, ih]
    constructor
    · rintro ⟨d, ⟨hd, hc⟩, ds, hds, hcs, rfl⟩
      exact ⟨d :: ds, List.forall_mem_cons.mpr ⟨hd, hds⟩, by rw [List.map_cons, hc, hcs, List.map_cons],
        rfl⟩
    · rintro ⟨_ | ⟨d, ds⟩, hds, hcs, rfl⟩
      · cases hcs
      · obtain ⟨hc, hcs⟩ := List.cons.inj hcs
        obtain ⟨hd, hds⟩ := List.forall_mem_cons.mp hds
        exact ⟨d, ⟨hd, hc⟩, ds, hds, hcs, rfl⟩

lemma ofDigits_reverse (base : Nat) (ds : List Nat) :
    Nat.ofDigits base ds.reverse = ds.foldl (fun v d => v * base + d) 0 := by
  rw [Nat.ofDigits_eq_foldr, List.foldr_reverse]
  simp [Nat.add_comm, Nat.mul_comm]

lemma spells_iff (hb : base ≤ 16) :
    Spells base n cs ↔ cs ≠ [] ∧ digits? base 0 cs = some n := by
  simp only [Spells, digits?_eq_some_iff hb, ofDigits_reverse]
  constructor
  · rintro ⟨ds, hne, hds, hcs, rfl⟩
    refine ⟨?_, ds, hds, hcs, rfl⟩
    rintro rfl
    exact hne (List.map_eq_nil_iff.mp hcs.symm)
  · rintro ⟨hne, ds, hds, hcs, rfl⟩
    refine ⟨ds, ?_, hds, hcs, rfl⟩
    rintro rfl
    exact hne (List.map_eq_nil_iff.mp hcs)

/-- A plus sign is no digit. -/
lemma digits?_plus (base acc : Nat) (cs : List Char) : digits? base acc ('+' :: cs) = none := by
  have hplus : digit? base '+' = none := by simp [digit?]
  rw [digits?, hplus, Option.bind_none]

/-- **A numeral is read as the number whose digits it is**, with a plus sign in front or not, if that
lies below the bound. -/
theorem read?_eq_some_iff (hb : base ≤ 16) : read? base bound cs = some n ↔
    n < bound ∧ (Spells base n cs ∨ ∃ digits, cs = '+' :: digits ∧ Spells base n digits) := by
  have hbody (body : List Char) : (if body.isEmpty = true then none
      else (digits? base 0 body).filter (· < bound)) = some n ↔ n < bound ∧ Spells base n body := by
    rw [spells_iff hb]
    cases body with
    | nil => simp
    | cons c body => simp [Option.filter_eq_some_iff, and_comm]
  unfold read?
  split
  · rename_i rest
    have hplus : ¬Spells base n ('+' :: rest) := by
      rw [spells_iff hb, digits?_plus]
      simp
    rw [hbody]
    simp [hplus]
  · rename_i hplus
    rw [hbody]
    refine and_congr_right fun _ => ⟨.inl, fun h => h.resolve_right ?_⟩
    rintro ⟨rest, hcs, -⟩
    exact hplus _ hcs

/-! ### Base ten -/

lemma digit?_ten_eq_some_iff : digit? 10 c = some d ↔ d < 10 ∧ c = Nat.digitChar d := by
  rw [digit?_eq_some_iff (by decide)]
  refine and_congr_right fun hd => ?_
  rw [← Char.toNat_inj, ← Char.toNat_inj, toNat_toLower, Nat.toNat_digitChar_of_lt_ten hd]
  split_ifs <;> omega

/-- Digits that follow those of a number are the last digits of the number that is read. -/
lemma toDigits_append_of_digits? (ha : 0 < acc) (h : digits? 10 acc cs = some n) :
    Nat.toDigits 10 acc ++ cs = Nat.toDigits 10 n := by
  induction cs generalizing acc with
  | nil =>
    cases h
    exact List.append_nil _
  | cons c cs ih =>
    rw [digits?, Option.bind_eq_some_iff] at h
    obtain ⟨d, hd, h⟩ := h
    obtain ⟨hlt, rfl⟩ := digit?_ten_eq_some_iff.mp hd
    have hnext := ih (show 0 < acc * 10 + d by omega) h
    rw [Nat.mul_comm, ← Nat.toDigits_append_toDigits (by decide) ha hlt,
      Nat.toDigits_of_lt_base hlt, List.append_assoc] at hnext
    exact hnext

lemma digits?_ten_of_isDigit (h : ∀ c ∈ cs, c.isDigit = true) :
    digits? 10 acc cs = some (Nat.ofDigitChars 10 cs acc) := by
  induction cs generalizing acc with
  | nil => rfl
  | cons c cs ih =>
    obtain ⟨hc, hcs⟩ := List.forall_mem_cons.mp h
    obtain ⟨hlow, hhigh⟩ := Char.isDigit_iff_toNat.mp hc
    have hlow : 48 ≤ c.toNat := hlow
    have hhigh : c.toNat ≤ 57 := hhigh
    have hd : digit? 10 c = some (c.toNat - 48) := by
      refine digit?_ten_eq_some_iff.mpr ⟨by omega, Char.toNat_inj.mp ?_⟩
      rw [Nat.toNat_digitChar_of_lt_ten (by omega)]
      omega
    rw [digits?, hd, Option.bind_some, ih hcs, Nat.ofDigitChars_cons, Nat.mul_comm]
    rfl

lemma isDigit_of_mem {k : Nat} : ∀ c ∈ List.replicate k '0' ++ Nat.toDigits 10 n,
    c.isDigit = true := by
  refine List.forall_mem_append.mpr ⟨fun c hc => ?_, fun c hc => ?_⟩
  · rw [(List.mem_replicate.mp hc).2]
    rfl
  · exact Nat.isDigit_of_mem_toDigits (by decide) (by decide) hc

/-- **The digits of a number** are read as it, with any zeros in front, and no others. -/
theorem digits?_ten_eq_some_iff (hne : cs ≠ []) :
    digits? 10 0 cs = some n ↔ ∃ k, cs = List.replicate k '0' ++ Nat.toDigits 10 n := by
  constructor
  · intro h
    induction cs with
    | nil => exact absurd rfl hne
    | cons c cs ih =>
      rw [digits?, Option.bind_eq_some_iff] at h
      obtain ⟨d, hd, h⟩ := h
      obtain ⟨hlt, rfl⟩ := digit?_ten_eq_some_iff.mp hd
      rw [Nat.zero_mul, Nat.zero_add] at h
      rcases Nat.eq_zero_or_pos d with rfl | hpos
      · cases cs with
        | nil =>
          cases h
          exact ⟨0, rfl⟩
        | cons c' cs =>
          obtain ⟨k, hk⟩ := ih (List.cons_ne_nil c' cs) h
          exact ⟨k + 1, by rw [hk]; rfl⟩
      · have hdigits := toDigits_append_of_digits? hpos h
        rw [Nat.toDigits_of_lt_base hlt] at hdigits
        exact ⟨0, hdigits⟩
  · rintro ⟨k, rfl⟩
    rw [digits?_ten_of_isDigit isDigit_of_mem, Nat.ofDigitChars_append,
      Nat.ofDigitChars_replicate_zero, Nat.mul_zero, Nat.ofDigitChars_ten_toDigits]

/-- Decimal digits that have the value of a number are its digits, with any zeros in front. -/
lemma spells_ten_iff :
    Spells 10 n cs ↔ ∃ k, cs = List.replicate k '0' ++ Nat.toDigits 10 n := by
  rw [spells_iff (by decide)]
  constructor
  · rintro ⟨hne, h⟩
    exact (digits?_ten_eq_some_iff hne).mp h
  · rintro ⟨k, rfl⟩
    have hne : List.replicate k '0' ++ Nat.toDigits 10 n ≠ [] := by simp [Nat.toDigits_ne_nil]
    exact ⟨hne, (digits?_ten_eq_some_iff hne).mpr ⟨k, rfl⟩⟩

/-- The digits of a number, with zeros and a plus sign in front or not. -/
def Shows (n : Nat) (cs : List Char) : Prop :=
  ∃ k, cs = List.replicate k '0' ++ Nat.toDigits 10 n ∨
    cs = '+' :: (List.replicate k '0' ++ Nat.toDigits 10 n)

lemma Shows.isDigit_or (h : Shows n cs) : ∀ c ∈ cs, c.isDigit = true ∨ c = '+' := by
  obtain ⟨k, rfl | rfl⟩ := h
  · exact fun c hc => .inl (isDigit_of_mem c hc)
  · exact List.forall_mem_cons.mpr ⟨.inr rfl, fun c hc => .inl (isDigit_of_mem c hc)⟩

/-- **A decimal numeral is read as the number that it shows**, if that lies below the bound. -/
theorem read?_ten_eq_some_iff : read? 10 bound cs = some n ↔ n < bound ∧ Shows n cs := by
  rw [read?_eq_some_iff (by decide), Shows, exists_or]
  simp only [spells_ten_iff]
  refine and_congr_right fun _ => or_congr_right ?_
  constructor
  · rintro ⟨digits, rfl, k, rfl⟩
    exact ⟨k, rfl⟩
  · rintro ⟨k, rfl⟩
    exact ⟨_, rfl, k, rfl⟩

end Mdf.Numeral
