import Mdf.Proofs.Text.Utf8

/-!
# Bytes that need not be a text

What is read of bytes that were cut or that no text has.  The first bytes of a text are read as the
characters that are there whole, with one U+FFFD for a character that was cut (`run_take_encode`);
so a text is read back from its first `n` bytes if it has no more of them, or if the character that
was cut is U+FFFD itself and the last one (`truncate_eq_self_iff`).  U+0000 is read from a zero byte
only (`nulFree_decodeLossy`), and bytes that are read without U+FFFD are those of the text that is read
(`encode_decodeLossy`).
-/

namespace Mdf.Utf8

/-! ### Cut texts -/

/-- A character of which only the first bytes are there is not one. -/
lemma run_take_encodeChar {c : Char} {n : Nat} (hn : 0 < n)
    (h : n < (String.utf8EncodeChar c).length) :
    run none ((String.utf8EncodeChar c).take n) = [replacement] := by
  have hr : c.val.toNat < 0xD800 ∨ 0xDFFF < c.val.toNat ∧ c.val.toNat < 0x110000 := c.valid
  obtain ⟨n, rfl⟩ : ∃ k, n = k + 1 := ⟨n - 1, by omega⟩
  revert h
  unfold String.utf8EncodeChar
  simp only
  generalize c.val.toNat = v at hr ⊢
  split
  · intro h
    simp at h
  split
  · rename_i h h'
    intro hn'
    obtain rfl : n = 0 := by
      simp only [List.length_cons, List.length_nil] at hn'
      omega
    rw [List.take_succ_cons, List.take_zero, run_cons, step, start_two (by omega) h']
    rfl
  split
  · rename_i h h' h''
    intro hn'
    obtain ⟨low, high, hl, hh, hs⟩ := start_three (by omega) h'' (by omega)
    rw [List.take_succ_cons, run_cons, step, hs]
    rcases n with _ | _ | n
    · rfl
    · rw [List.take_succ_cons, List.take_zero, run_cons, step_more (by omega) hl hh (by omega)]
      rfl
    · simp at hn'
      omega
  · intro hn'
    obtain ⟨low, high, hl, hh, hs⟩ := start_four (v := v) (by omega) (by omega)
    rw [List.take_succ_cons, run_cons, step, hs]
    rcases n with _ | _ | _ | n
    · rfl
    · rw [List.take_succ_cons, List.take_zero, run_cons, step_more (by omega) hl hh (by omega)]
      rfl
    · rw [List.take_succ_cons, List.take_succ_cons, List.take_zero, run_cons,
        step_more (by omega) hl hh (by omega), run_cons,
        step_more (by omega) (by omega) (by omega) (by omega)]
      rfl
    · simp at hn'
      omega

/-- The characters whose bytes fit into `n`, with U+FFFD behind them for one that is cut. -/
def truncate (n : Nat) : List Char → List Char
  | [] => []
  | c :: cs =>
    if c.utf8Size ≤ n then c :: truncate (n - c.utf8Size) cs
    else if n = 0 then [] else [replacement]

/-- **The first bytes of a text** are read as its characters that fit into them. -/
theorem run_take_encode (n : Nat) (cs : List Char) :
    run none ((cs.flatMap String.utf8EncodeChar).take n) = truncate n cs := by
  induction cs generalizing n with
  | nil => rw [List.flatMap_nil, List.take_nil, run, truncate]
  | cons c cs ih =>
    have hsize : (String.utf8EncodeChar c).length = c.utf8Size := String.length_utf8EncodeChar c
    rw [truncate, List.flatMap_cons, List.take_append, hsize]
    split
    · rename_i h
      rw [List.take_of_length_le (hsize.le.trans h), run_encodeChar, ih]
    · rename_i h
      have hzero : n - c.utf8Size = 0 := by omega
      rw [hzero, List.take_zero, List.append_nil]
      split
      · rename_i h0
        rw [h0, List.take_zero]
        rfl
      · exact run_take_encodeChar (by omega) (by omega)

lemma length_truncate_le (n : Nat) (cs : List Char) : (truncate n cs).length ≤ cs.length := by
  induction cs generalizing n with
  | nil => exact Nat.le_refl 0
  | cons c cs ih =>
    have hle := ih (n - c.utf8Size)
    rw [truncate]
    split
    · simpa using hle
    · split <;> simp

lemma length_flatMap_encodeChar_cons (c : Char) (cs : List Char) :
    ((c :: cs).flatMap String.utf8EncodeChar).length =
      c.utf8Size + (cs.flatMap String.utf8EncodeChar).length := by
  rw [List.flatMap_cons, List.length_append, String.length_utf8EncodeChar]

/-- **A text is kept by its first bytes** if it has no more of them, or if the one character that is
cut is U+FFFD and stands last. -/
theorem truncate_eq_self_iff {n : Nat} {cs : List Char} :
    truncate n cs = cs ↔ (cs.flatMap String.utf8EncodeChar).length ≤ n ∨
      ∃ ds, cs = ds ++ [replacement] ∧ (ds.flatMap String.utf8EncodeChar).length < n := by
  induction cs generalizing n with
  | nil => simp [truncate]
  | cons c cs ih =>
    have hlength := length_flatMap_encodeChar_cons c
    rw [truncate]
    split
    · rename_i hc
      rw [List.cons.injEq, eq_self, true_and, ih, hlength]
      constructor
      · rintro (h | ⟨ds, rfl, h⟩)
        · left
          omega
        · exact .inr ⟨c :: ds, rfl, by rw [hlength]; omega⟩
      · rintro (h | ⟨ds, hds, h⟩)
        · left
          omega
        · cases ds with
          | nil =>
            -- the last character is the replacement itself, and it fits
            cases hds
            exact .inl (Nat.zero_le _)
          | cons d ds =>
            cases hds
            rw [hlength] at h
            exact .inr ⟨ds, rfl, by omega⟩
    · rename_i hc
      constructor
      · intro h
        split at h
        · cases h
        · cases h
          exact .inr ⟨[], rfl, by simp; omega⟩
      · rintro (h | ⟨ds, hds, h⟩)
        · rw [hlength] at h
          omega
        · cases ds with
          | nil =>
            cases hds
            rw [if_neg (by rintro rfl; simp at h)]
          | cons d ds =>
            cases hds
            rw [hlength] at h
            omega

/-! ### U+0000 -/

/-- With any continuation bytes, as many as are owed, the value becomes that of a character other
than U+0000. -/
def Completes : Nat → Nat → Prop
  | 0, v => 0 < v ∧ v.isValidChar
  | owed + 1, v => ∀ n < 64, Completes owed (64 * v + n)

/-- Any byte that continues the character leads to such a value. -/
def Begun.Proper (g : Begun) : Prop :=
  ∀ n, g.low ≤ n → n ≤ g.high → Completes (g.owed - 1) (64 * g.value + n % 64)

lemma ofNat_ne_nul {v : Nat} (h : Completes 0 v) : Char.ofNat v ≠ '\x00' := by
  intro hc
  have hv : (Char.ofNat v).toNat = v := by
    rw [Char.ofNat, dif_pos h.2]
    rfl
  rw [hc] at hv
  exact Nat.ne_of_lt h.1 hv

lemma proper_of_start {b : UInt8} {g : Begun} (h : (start b).2 = some g) : g.Proper := by
  have hb := b.toNat_lt
  unfold start at h
  simp only at h
  intro n hl hh
  split_ifs at h <;> cases h <;> simp only [Nat.reduceSub, Completes, Nat.isValidChar] at hl hh ⊢ <;>
    intros <;> omega

lemma eq_zero_of_start {b : UInt8} (h : '\x00' ∈ (start b).1) : b = 0 := by
  unfold start at h
  simp only at h
  split_ifs at h
  · rename_i hle
    have hc := List.mem_singleton.mp h
    by_contra hne
    have hpos : b.toNat ≠ 0 := fun h0 => hne (UInt8.toNat_inj.mp h0)
    exact ofNat_ne_nul ⟨by omega, .inl (by omega)⟩ hc.symm
  all_goals simp [replacement] at h

/-- One byte keeps the character begun proper, and only the zero byte is read as U+0000. -/
lemma step_proper {g : Option Begun} (hg : ∀ x ∈ g, x.Proper) (b : UInt8) :
    (∀ x ∈ (step g b).2, x.Proper) ∧ ('\x00' ∈ (step g b).1 → b = 0) := by
  cases g with
  | none => exact ⟨fun x hx => proper_of_start hx, eq_zero_of_start⟩
  | some g =>
    unfold step
    simp only
    split
    · rename_i hn
      have hnext := hg g rfl _ hn.1 hn.2
      split
      · rename_i ho
        rw [show g.owed - 1 = 0 by omega] at hnext
        exact ⟨by simp, fun h => absurd (List.mem_singleton.mp h).symm (ofNat_ne_nul hnext)⟩
      · rename_i ho
        refine ⟨?_, by simp⟩
        rintro x ⟨⟩
        intro n hl hh
        obtain ⟨k, hk⟩ : ∃ k, g.owed - 1 = k + 1 := ⟨g.owed - 2, by omega⟩
        rw [hk] at hnext ⊢
        exact hnext (n % 64) (Nat.mod_lt _ (by decide))
    · refine ⟨fun x hx => proper_of_start hx, fun h => ?_⟩
      exact eq_zero_of_start ((List.mem_cons.mp h).resolve_left (by decide))

lemma zero_mem_of_nul_mem_run {g : Option Begun} {bs : List UInt8} (hg : ∀ x ∈ g, x.Proper)
    (h : '\x00' ∈ run g bs) : 0 ∈ bs := by
  induction bs generalizing g with
  | nil =>
    cases g with
    | none => simp [run] at h
    | some g => simp [run, replacement] at h
  | cons b bs ih =>
    obtain ⟨hnext, hzero⟩ := step_proper hg b
    rw [run_cons, List.mem_append] at h
    rcases h with h | h
    · exact hzero h ▸ List.mem_cons_self
    · exact List.mem_cons_of_mem b (ih hnext h)

/-- **Bytes without a zero byte are read as a text without U+0000.** -/
theorem nulFree_decodeLossy {bs : List UInt8} (h : 0 ∉ bs) : NulFree (decodeLossy bs) := by
  intro hmem
  rw [decodeLossy, String.toList_ofList] at hmem
  exact h (zero_mem_of_nul_mem_run (by simp) hmem)

/-! ### Bytes that are a text -/

/-- With any continuation bytes, as many as are owed, the bytes become those of a character, and the
value that of the same character. -/
def Spells : Nat → Nat → List UInt8 → Prop
  | 0, v, bytes => String.utf8EncodeChar (Char.ofNat v) = bytes
  | owed + 1, v, bytes => ∀ b : UInt8, 0x80 ≤ b.toNat → b.toNat ≤ 0xBF →
      Spells owed (64 * v + b.toNat % 64) (bytes ++ [b])

/-- Any byte that continues the character leads to the bytes of one. -/
def Begun.Spelt (g : Begun) (bytes : List UInt8) : Prop :=
  ∀ b : UInt8, g.low ≤ b.toNat → b.toNat ≤ g.high →
    Spells (g.owed - 1) (64 * g.value + b.toNat % 64) (bytes ++ [b])

lemma toNat_val_ofNat {v : Nat} (h : v.isValidChar) : (Char.ofNat v).val.toNat = v := by
  rw [Char.ofNat, dif_pos h]
  rfl

lemma ofNat_eq {n : Nat} {b : UInt8} (h : n = b.toNat) : UInt8.ofNat n = b := by
  rw [h, UInt8.ofNat_toNat]

lemma encodeChar_one {b : UInt8} (h : b.toNat ≤ 0x7F) :
    String.utf8EncodeChar (Char.ofNat b.toNat) = [b] := by
  unfold String.utf8EncodeChar
  simp only [toNat_val_ofNat (v := b.toNat) (.inl (by omega))]
  rw [if_pos h, ofNat_eq rfl]

lemma encodeChar_two {v : Nat} {a b : UInt8} (h : 0x7F < v) (h' : v ≤ 0x7FF)
    (ha : v / 64 + 0xC0 = a.toNat) (hb : v % 64 + 0x80 = b.toNat) :
    String.utf8EncodeChar (Char.ofNat v) = [a, b] := by
  unfold String.utf8EncodeChar
  simp only [toNat_val_ofNat (v := v) (.inl (by omega))]
  rw [if_neg (by omega), if_pos h', ofNat_eq (b := a) (by omega), ofNat_eq hb]

lemma encodeChar_three {v : Nat} {a b c : UInt8} (h : 0x7FF < v) (h' : v ≤ 0xFFFF)
    (hs : v < 0xD800 ∨ 0xDFFF < v) (ha : v / 4096 + 0xE0 = a.toNat)
    (hb : v / 64 % 64 + 0x80 = b.toNat) (hc : v % 64 + 0x80 = c.toNat) :
    String.utf8EncodeChar (Char.ofNat v) = [a, b, c] := by
  have hvalid : v.isValidChar := hs.imp_right fun h => ⟨h, by omega⟩
  unfold String.utf8EncodeChar
  simp only [toNat_val_ofNat hvalid]
  rw [if_neg (by omega), if_neg (by omega), if_pos h', ofNat_eq (b := a) (by omega), ofNat_eq hb,
    ofNat_eq hc]

lemma encodeChar_four {v : Nat} {a b c d : UInt8} (h : 0xFFFF < v) (h' : v < 0x110000)
    (ha : v / 262144 + 0xF0 = a.toNat) (hb : v / 4096 % 64 + 0x80 = b.toNat)
    (hc : v / 64 % 64 + 0x80 = c.toNat) (hd : v % 64 + 0x80 = d.toNat) :
    String.utf8EncodeChar (Char.ofNat v) = [a, b, c, d] := by
  unfold String.utf8EncodeChar
  simp only [toNat_val_ofNat (v := v) (.inr ⟨by omega, h'⟩)]
  rw [if_neg (by omega), if_neg (by omega), if_neg (by omega), ofNat_eq (b := a) (by omega),
    ofNat_eq hb, ofNat_eq hc, ofNat_eq hd]

lemma spelt_three {a : UInt8} {low high value : Nat} (ha : value + 0xE0 = a.toNat)
    (hl : 0x80 ≤ low) (hh : high ≤ 0xBF) (hvalue : value < 16) (hlong : value = 0 → 0xA0 ≤ low)
    (hs : value = 0xD → high ≤ 0x9F) : (⟨2, low, high, value⟩ : Begun).Spelt [a] := by
  intro b hb hb' c hc hc'
  simp only at hb hb' ⊢
  exact encodeChar_three (by omega) (by omega) (by omega) (by omega) (by omega) (by omega)

lemma spelt_four {a : UInt8} {low high value : Nat} (ha : value + 0xF0 = a.toNat)
    (hl : 0x80 ≤ low) (hh : high ≤ 0xBF) (hvalue : value ≤ 4) (hlong : value = 0 → 0x90 ≤ low)
    (hs : value = 4 → high ≤ 0x8F) : (⟨3, low, high, value⟩ : Begun).Spelt [a] := by
  intro b hb hb' c hc hc' d hd hd'
  simp only at hb hb' ⊢
  exact encodeChar_four (by omega) (by omega) (by omega) (by omega) (by omega) (by omega)

/-- A byte between characters is one, or begins one, or is replaced. -/
lemma spelt_of_start {b : UInt8} (h : replacement ∉ (start b).1) :
    (∃ c, start b = ([c], none) ∧ String.utf8EncodeChar c = [b]) ∨
      ∃ g, start b = ([], some g) ∧ g.Spelt [b] := by
  unfold start at h ⊢
  simp only at h ⊢
  split_ifs at h ⊢ with h1 h2 h3 h4 h5 h6 h7 h8
  · exact .inl ⟨_, rfl, encodeChar_one h1⟩
  · refine .inr ⟨_, rfl, fun b' hl hh => ?_⟩
    simp only at hl hh ⊢
    exact encodeChar_two (by omega) (by omega) (by omega) (by omega)
  · refine .inr ⟨_, rfl, spelt_three ?_ ?_ ?_ ?_ ?_ ?_⟩ <;> omega
  · refine .inr ⟨_, rfl, spelt_three ?_ ?_ ?_ ?_ ?_ ?_⟩ <;> omega
  · refine .inr ⟨_, rfl, spelt_three ?_ ?_ ?_ ?_ ?_ ?_⟩ <;> omega
  · refine .inr ⟨_, rfl, spelt_four ?_ ?_ ?_ ?_ ?_ ?_⟩ <;> omega
  · refine .inr ⟨_, rfl, spelt_four ?_ ?_ ?_ ?_ ?_ ?_⟩ <;> omega
  · refine .inr ⟨_, rfl, spelt_four ?_ ?_ ?_ ?_ ?_ ?_⟩ <;> omega
  · exact absurd (List.mem_singleton_self replacement) h

/-- The bytes read since the last character. -/
def Pending (g : Option Begun) (bytes : List UInt8) : Prop :=
  match g with
  | none => bytes = []
  | some g => g.Spelt bytes

/-- One byte completes a character whose bytes were read, or continues one, or something is replaced. -/
lemma pending_of_step {g : Option Begun} {bytes : List UInt8} {b : UInt8} (hg : Pending g bytes)
    (h : replacement ∉ (step g b).1) :
    (∃ c, step g b = ([c], none) ∧ String.utf8EncodeChar c = bytes ++ [b]) ∨
      ∃ g', step g b = ([], some g') ∧ g'.Spelt (bytes ++ [b]) := by
  cases g with
  | none =>
    obtain rfl : bytes = [] := hg
    exact spelt_of_start h
  | some g =>
    have hspelt : g.Spelt bytes := hg
    unfold step at h ⊢
    simp only at h ⊢
    split at h
    · rename_i hb
      rw [if_pos hb]
      have hnext := hspelt b hb.1 hb.2
      split
      · rename_i ho
        rw [show g.owed - 1 = 0 by omega] at hnext
        exact .inl ⟨_, rfl, hnext⟩
      · rename_i ho
        obtain ⟨k, hk⟩ : ∃ k, g.owed - 1 = k + 1 := ⟨g.owed - 2, by omega⟩
        rw [hk] at hnext ⊢
        exact .inr ⟨_, rfl, hnext⟩
    · exact absurd List.mem_cons_self h

lemma flatMap_run {g : Option Begun} {bytes bs : List UInt8} (hg : Pending g bytes)
    (h : replacement ∉ run g bs) :
    (run g bs).flatMap String.utf8EncodeChar = bytes ++ bs := by
  induction bs generalizing g bytes with
  | nil =>
    cases g with
    | none =>
      obtain rfl : bytes = [] := hg
      rfl
    | some g => exact absurd (List.mem_singleton_self replacement) h
  | cons b bs ih =>
    rw [run_cons] at h ⊢
    rw [List.mem_append, not_or] at h
    rcases pending_of_step hg h.1 with ⟨c, hs, hc⟩ | ⟨g', hs, hg'⟩
    · rw [hs] at h ⊢
      rw [List.flatMap_append, List.flatMap_singleton, hc, ih (g := none) rfl h.2]
      simp
    · rw [hs] at h ⊢
      rw [List.nil_append, ih (g := some g') hg' h.2]
      simp

/-- **Bytes that are read without a replacement** are those of the text that is read. -/
theorem encode_decodeLossy {bs : List UInt8} (h : replacement ∉ (decodeLossy bs).toList) :
    encode (decodeLossy bs) = bs := by
  rw [decodeLossy, String.toList_ofList] at h
  rw [encode, decodeLossy, String.toList_ofList]
  exact flatMap_run (g := none) rfl h

end Mdf.Utf8
