import Mathlib.Data.List.TakeWhile
import Mathlib.Tactic.Common
import Mdf.Text.Utf8

/-!
# Reading back UTF-8

The bytes of a text are read as that text, and a zero byte among them is the character U+0000.
-/

namespace Mdf.Utf8

/-! ### One byte -/

lemma run_cons (g : Option Begun) (b : UInt8) (bs : List UInt8) :
    run g (b :: bs) = (step g b).1 ++ run (step g b).2 bs := by
  cases g <;> rfl

lemma toNat_ofNat {n : Nat} (h : n < 256) : (UInt8.ofNat n).toNat = n := by
  rw [UInt8.toNat_ofNat']
  omega

lemma start_one {v : Nat} (h : v ≤ 0x7F) : start (UInt8.ofNat v) = ([Char.ofNat v], none) := by
  unfold start
  rw [toNat_ofNat (by omega)]
  exact if_pos h

lemma start_two {v : Nat} (h : 0x7F < v) (h' : v ≤ 0x7FF) :
    start (UInt8.ofNat (v / 64 % 32 + 0xC0)) = ([], some ⟨1, 0x80, 0xBF, v / 64⟩) := by
  have hv : v / 64 % 32 + 0xC0 - 0xC0 = v / 64 := by omega
  unfold start
  simp only [toNat_ofNat (show v / 64 % 32 + 0xC0 < 256 by omega), hv]
  rw [if_neg (by omega), if_pos (by omega)]

/-- The range that the first of three bytes leaves to the second one excludes long forms and
surrogates. -/
lemma start_three {v : Nat} (h : 0x7FF < v) (h' : v ≤ 0xFFFF) (hs : v < 0xD800 ∨ 0xDFFF < v) :
    ∃ low high, low ≤ v / 64 % 64 + 0x80 ∧ v / 64 % 64 + 0x80 ≤ high ∧
      start (UInt8.ofNat (v / 4096 % 16 + 0xE0)) = ([], some ⟨2, low, high, v / 4096⟩) := by
  have hv : v / 4096 % 16 + 0xE0 - 0xE0 = v / 4096 := by omega
  unfold start
  simp only [toNat_ofNat (show v / 4096 % 16 + 0xE0 < 256 by omega), hv]
  rw [if_neg (by omega), if_neg (by omega)]
  by_cases h0 : v / 4096 = 0
  · exact ⟨0xA0, 0xBF, by omega, by omega, by rw [if_pos (by omega), h0]⟩
  by_cases hd : v / 4096 = 0xD
  · exact ⟨0x80, 0x9F, by omega, by omega, by rw [if_neg (by omega), if_pos (by omega), hd]⟩
  · exact ⟨0x80, 0xBF, by omega, by omega, by
      rw [if_neg (by omega), if_neg (by omega), if_pos (by omega)]⟩

/-- The range that the first of four bytes leaves to the second one excludes long forms and what
lies beyond the last character. -/
lemma start_four {v : Nat} (h : 0xFFFF < v) (h' : v < 0x110000) :
    ∃ low high, low ≤ v / 4096 % 64 + 0x80 ∧ v / 4096 % 64 + 0x80 ≤ high ∧
      start (UInt8.ofNat (v / 262144 % 8 + 0xF0)) = ([], some ⟨3, low, high, v / 262144⟩) := by
  have hv : v / 262144 % 8 + 0xF0 - 0xF0 = v / 262144 := by omega
  unfold start
  simp only [toNat_ofNat (show v / 262144 % 8 + 0xF0 < 256 by omega), hv]
  rw [if_neg (by omega), if_neg (by omega), if_neg (by omega), if_neg (by omega),
    if_neg (by omega)]
  by_cases h0 : v / 262144 = 0
  · exact ⟨0x90, 0xBF, by omega, by omega, by rw [if_pos (by omega), h0]⟩
  by_cases h4 : v / 262144 = 4
  · exact ⟨0x80, 0x8F, by omega, by omega, by
      rw [if_neg (by omega), if_neg (by omega), if_pos (by omega), h4]⟩
  · exact ⟨0x80, 0xBF, by omega, by omega, by rw [if_neg (by omega), if_pos (by omega)]⟩

lemma step_last {low high value n : Nat} (hl : low ≤ n) (hh : n ≤ high) (hn : n < 256) :
    step (some ⟨1, low, high, value⟩) (UInt8.ofNat n) =
      ([Char.ofNat (64 * value + n % 64)], none) := by
  unfold step
  simp only [toNat_ofNat hn]
  rw [if_pos ⟨hl, hh⟩, if_pos (Nat.le_refl 1)]

lemma step_more {owed low high value n : Nat} (ho : 0 < owed) (hl : low ≤ n) (hh : n ≤ high)
    (hn : n < 256) :
    step (some ⟨owed + 1, low, high, value⟩) (UInt8.ofNat n) =
      ([], some ⟨owed, 0x80, 0xBF, 64 * value + n % 64⟩) := by
  unfold step
  simp only [toNat_ofNat hn]
  rw [if_pos ⟨hl, hh⟩, if_neg (by omega), Nat.add_sub_cancel]

/-! ### One character -/

/-- **The bytes of a character are read as that character.** -/
theorem run_encodeChar (c : Char) (bs : List UInt8) :
    run none (String.utf8EncodeChar c ++ bs) = c :: run none bs := by
  have hr : c.val.toNat < 0xD800 ∨ 0xDFFF < c.val.toNat ∧ c.val.toNat < 0x110000 := c.valid
  have hc : Char.ofNat c.val.toNat = c := Char.ofNat_toNat c
  unfold String.utf8EncodeChar
  simp only
  generalize c.val.toNat = v at hr hc ⊢
  split
  · rename_i h
    rw [List.singleton_append, run_cons, step, start_one h, hc]
    rfl
  split
  · rename_i h h'
    have hv : 64 * (v / 64) + (v % 64 + 0x80) % 64 = v := by omega
    simp only [List.cons_append, List.nil_append]
    rw [run_cons, step, start_two (by omega) h', run_cons,
      step_last (by omega) (by omega) (by omega), hv, hc]
    rfl
  split
  · rename_i h h' h''
    obtain ⟨low, high, hl, hh, hs⟩ := start_three (by omega) h'' (by omega)
    have hv : 64 * (64 * (v / 4096) + (v / 64 % 64 + 0x80) % 64) + (v % 64 + 0x80) % 64 = v := by
      omega
    simp only [List.cons_append, List.nil_append]
    rw [run_cons, step, hs, run_cons, step_more (by omega) hl hh (by omega), run_cons,
      step_last (by omega) (by omega) (by omega), hv, hc]
    rfl
  · obtain ⟨low, high, hl, hh, hs⟩ := start_four (v := v) (by omega) (by omega)
    have hv : 64 * (64 * (64 * (v / 262144) + (v / 4096 % 64 + 0x80) % 64)
        + (v / 64 % 64 + 0x80) % 64) + (v % 64 + 0x80) % 64 = v := by omega
    simp only [List.cons_append, List.nil_append]
    rw [run_cons, step, hs, run_cons, step_more (by omega) hl hh (by omega), run_cons,
      step_more (by omega) (by omega) (by omega) (by omega), run_cons,
      step_last (by omega) (by omega) (by omega), hv, hc]
    rfl

/-! ### Texts -/

theorem run_encode (cs : List Char) (bs : List UInt8) :
    run none (cs.flatMap String.utf8EncodeChar ++ bs) = cs ++ run none bs := by
  induction cs with
  | nil => rfl
  | cons c cs ih => rw [List.flatMap_cons, List.append_assoc, run_encodeChar, ih, List.cons_append]

/-- **The bytes of a text are read as that text.** -/
@[simp] theorem decodeLossy_encode (s : String) : decodeLossy (encode s) = s := by
  have h := run_encode s.toList []
  rw [List.append_nil] at h
  rw [decodeLossy, encode, h, run, List.append_nil, String.ofList_toList]

theorem encode_injective : Function.Injective encode :=
  Function.LeftInverse.injective decodeLossy_encode

/-- The number of bytes of a text. -/
theorem length_encode (s : String) : (encode s).length = s.utf8ByteSize := by
  have h : s.toByteArray = (encode s).toByteArray := by
    rw [encode, ← List.utf8Encode, ← String.toByteArray_ofList, String.ofList_toList]
  rw [String.utf8ByteSize, h, List.size_toByteArray]

/-! ### Zero bytes -/

lemma zero_mem_encodeChar (c : Char) : 0 ∈ String.utf8EncodeChar c ↔ c = '\x00' := by
  have hc : c.val.toNat = 0 ↔ c = '\x00' := by
    constructor
    · intro h
      rw [← Char.ofNat_toNat c, Char.toNat, h]
    · rintro rfl
      rfl
  have hz : ∀ n, n < 256 → ((0 : UInt8) = UInt8.ofNat n ↔ n = 0) := by
    intro n hn
    rw [← UInt8.toNat_inj, toNat_ofNat hn]
    exact eq_comm
  have hv : c.val.toNat < 0x110000 := by
    have := c.valid
    simp only [UInt32.isValidChar, Nat.isValidChar] at this
    omega
  rw [← hc]
  unfold String.utf8EncodeChar
  simp only
  generalize c.val.toNat = v at hv ⊢
  split
  · simp (disch := omega) only [List.mem_singleton, hz]
  split
  · simp (disch := omega) only [List.mem_cons, List.not_mem_nil, or_false, hz]
    omega
  split
  · simp (disch := omega) only [List.mem_cons, List.not_mem_nil, or_false, hz]
    omega
  · simp (disch := omega) only [List.mem_cons, List.not_mem_nil, or_false, hz]
    omega

/-- The characters of a text before the first U+0000. -/
def beforeNul (s : String) : String := String.ofList (s.toList.takeWhile (· ≠ '\x00'))

/-- Whether a text is without U+0000. -/
def NulFree (s : String) : Prop := '\x00' ∉ s.toList

instance : DecidablePred NulFree := fun s => inferInstanceAs (Decidable ('\x00' ∉ s.toList))

theorem beforeNul_eq_self {s : String} (h : NulFree s) : beforeNul s = s := by
  have hs : s.toList.takeWhile (· ≠ '\x00') = s.toList := by
    rw [List.takeWhile_eq_self_iff]
    intro c hc
    simpa using fun e : c = '\x00' => h (e ▸ hc)
  rw [beforeNul, hs, String.ofList_toList]

theorem nulFree_beforeNul (s : String) : NulFree (beforeNul s) := by
  intro h
  rw [beforeNul, String.toList_ofList] at h
  simpa using List.mem_takeWhile_imp h

theorem beforeNul_eq_self_iff {s : String} : beforeNul s = s ↔ NulFree s :=
  ⟨fun h => h ▸ nulFree_beforeNul s, beforeNul_eq_self⟩

lemma zero_notMem_encode {s : String} (h : NulFree s) : 0 ∉ encode s := by
  intro hmem
  obtain ⟨c, hc, hzero⟩ := List.mem_flatMap.mp hmem
  exact h ((zero_mem_encodeChar c).mp hzero ▸ hc)

lemma takeWhile_encodeChar {c : Char} (h : c ≠ '\x00') (bs : List UInt8) :
    (String.utf8EncodeChar c ++ bs).takeWhile (· ≠ 0) =
      String.utf8EncodeChar c ++ bs.takeWhile (· ≠ 0) := by
  refine List.takeWhile_append_of_pos fun b hb => ?_
  simpa using fun e : b = 0 => h ((zero_mem_encodeChar c).mp (e ▸ hb))

/-- **The bytes of a text before the first zero byte** are those of its characters before the first
U+0000. -/
theorem takeWhile_encode (cs : List Char) (bs : List UInt8) :
    (cs.flatMap String.utf8EncodeChar ++ 0 :: bs).takeWhile (· ≠ 0) =
      (cs.takeWhile (· ≠ '\x00')).flatMap String.utf8EncodeChar := by
  induction cs with
  | nil => simp
  | cons c cs ih =>
    rw [List.flatMap_cons, List.append_assoc]
    by_cases hc : c = '\x00'
    · subst hc
      simp [show String.utf8EncodeChar '\x00' = [0] by rfl]
    · rw [takeWhile_encodeChar hc, ih, List.takeWhile_cons_of_pos (by simpa using hc),
        List.flatMap_cons]

end Mdf.Utf8
