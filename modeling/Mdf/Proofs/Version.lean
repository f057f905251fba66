import Mathlib.Data.Option.Basic
import Mdf.Proofs.Text.Blank
import Mdf.Proofs.Text.Lossy
import Mdf.Proofs.Text.Numeral
import Mdf.Version

/-!
# Reading revisions

Which texts and which fields are read as a revision: between blanks, those that show its text
(`Version.Shows`).  The numeral before the point is read like any other one, so it may have zeros and
a plus sign in front, while behind the point there are exactly two digits (`parse_iff_shows`).
-/

namespace Mdf

/-! ### Trimmed texts -/

namespace Text

variable {α : Type} {p : α → Bool}

/-- Nothing is dropped up to an element that is not in the class. -/
lemma dropTrailing_append {l t : List α} (hne : l ≠ []) (h : p (l.getLast hne) = false) :
    dropTrailing p (l ++ t) = l ++ dropTrailing p t := by
  simp only [dropTrailing_eq_rdropWhile]
  induction t using List.reverseRecOn with
  | nil =>
    rw [List.append_nil, List.rdropWhile_nil, List.append_nil, List.rdropWhile_eq_self_iff]
    exact fun _ => Bool.eq_false_iff.mp h
  | append_singleton t a ih =>
    rw [← List.append_assoc, List.rdropWhile_concat, List.rdropWhile_concat]
    split
    · exact ih
    · exact List.append_assoc l t [a]

/-- Blanks around a text without blanks are trimmed. -/
lemma toList_trim {before cs after : List Char} (hne : cs ≠ []) (h : ∀ c ∈ cs, isBlank c = false)
    (hbefore : before.all isBlank) (hafter : after.all isBlank) :
    (trim (String.ofList (before ++ (cs ++ after)))).toList = cs := by
  obtain ⟨c, cs, rfl⟩ := List.exists_cons_of_ne_nil hne
  have hfirst : (before ++ (c :: cs ++ after)).dropWhile isBlank = c :: cs ++ after := by
    rw [List.dropWhile_append_of_pos (List.all_eq_true.mp hbefore), List.cons_append,
      List.dropWhile_cons_of_neg (Bool.eq_false_iff.mp (h c List.mem_cons_self))]
  rw [trim, String.toList_ofList, String.toList_ofList, hfirst,
    dropTrailing_append hne (h _ (List.getLast_mem hne)), ← List.nil_append after,
    dropTrailing_append_of_all (List.all_eq_true.mp hafter)]
  exact List.append_nil _

end Text

namespace Version

variable {s : String} {v : Version} {cs before after : List Char} {raw : List UInt8}

/-! ### Shown revisions -/

/-- The text of a revision, with zeros and a plus sign in front or not. -/
def Shows (v : Version) (cs : List Char) : Prop :=
  ∃ k, cs = List.replicate k '0' ++ v.text.toList ∨
    cs = '+' :: (List.replicate k '0' ++ v.text.toList)

/-- The digits behind the point. -/
def minorDigits (v : Version) : List Char :=
  List.replicate (2 - (Nat.toDigits 10 v.minor.toNat).length) '0' ++ Nat.toDigits 10 v.minor.toNat

lemma toList_text (v : Version) :
    v.text.toList = Nat.toDigits 10 v.major.toNat ++ '.' :: v.minorDigits := by
  cases v <;> decide

/-- A shown revision is a shown number, a point, and two digits. -/
lemma shows_iff : v.Shows cs ↔ ∃ lead, Numeral.Shows v.major.toNat lead ∧
    cs = lead ++ '.' :: v.minorDigits := by
  simp only [Shows, Numeral.Shows, toList_text]
  constructor
  · rintro ⟨k, rfl | rfl⟩
    · exact ⟨_, ⟨k, .inl rfl⟩, (List.append_assoc ..).symm⟩
    · exact ⟨_, ⟨k, .inr rfl⟩, by simp⟩
  · rintro ⟨lead, ⟨k, rfl | rfl⟩, rfl⟩
    · exact ⟨k, .inl (List.append_assoc ..)⟩
    · exact ⟨k, .inr (by simp)⟩

/-- The characters of a shown revision. -/
def isMark (c : Char) : Bool := c.isDigit || c == '+' || c == '.'

lemma isMark_of_mem (h : v.Shows cs) : ∀ c ∈ cs, isMark c = true := by
  obtain ⟨lead, hlead, rfl⟩ := shows_iff.mp h
  refine List.forall_mem_append.mpr ⟨fun c hc => ?_, List.forall_mem_cons.mpr ⟨rfl, fun c hc => ?_⟩⟩
  · rcases hlead.isDigit_or c hc with hd | rfl
    · rw [isMark, hd, Bool.true_or, Bool.true_or]
    · rfl
  · rw [isMark, Numeral.isDigit_of_mem c hc, Bool.true_or, Bool.true_or]

lemma Shows.ne_nil (h : v.Shows cs) : cs ≠ [] := by
  obtain ⟨lead, -, rfl⟩ := shows_iff.mp h
  simp

lemma toNat_of_isMark {c : Char} (h : isMark c = true) : 0x2B ≤ c.toNat ∧ c.toNat ≤ 0x39 := by
  unfold isMark at h
  rw [Bool.or_eq_true, Bool.or_eq_true, beq_iff_eq, beq_iff_eq] at h
  rcases h with (h | rfl) | rfl
  · obtain ⟨hlow, hhigh⟩ := Char.isDigit_iff_toNat.mp h
    exact ⟨Nat.le_trans (by decide) hlow, hhigh⟩
  · decide
  · decide

lemma isBlank_of_isMark {c : Char} (h : isMark c = true) : Text.isBlank c = false := by
  obtain ⟨hlow, hhigh⟩ := toNat_of_isMark h
  simp only [Text.isBlank, Bool.or_eq_false_iff, Bool.and_eq_false_iff, decide_eq_false_iff_not,
    beq_eq_false_iff_ne]
  omega

/-! ### Texts -/

lemma splitPoint?_eq_some_iff {major minor : List Char} :
    splitPoint? cs = some (major, minor) ↔ cs = major ++ '.' :: minor ∧ '.' ∉ major := by
  have hpos : ∀ l : List Char, '.' ∉ l → ∀ c ∈ l, decide (c ≠ '.') = true := by
    intro l hl c hc
    exact decide_eq_true fun he => hl (he ▸ hc)
  constructor
  · intro h
    have hsplit := List.takeWhile_append_dropWhile (p := (· ≠ '.')) (l := cs)
    unfold splitPoint? at h
    split at h
    · cases h
    · rename_i c r hr
      cases h
      have hc : c = '.' := by
        have hhead := List.head?_dropWhile_not (fun c => decide (c ≠ '.')) cs
        rw [hr, List.head?_cons] at hhead
        simpa using hhead
      rw [hr, hc] at hsplit
      refine ⟨hsplit.symm, fun hmem => ?_⟩
      simpa using List.mem_takeWhile_imp hmem
  · rintro ⟨rfl, hmajor⟩
    have hdrop : (major ++ '.' :: minor).dropWhile (· ≠ '.') = '.' :: minor := by
      rw [List.dropWhile_append_of_pos (hpos major hmajor), List.dropWhile_cons_of_neg (by simp)]
    unfold splitPoint?
    rw [hdrop, List.takeWhile_append_of_pos (hpos major hmajor),
      List.takeWhile_cons_of_neg (by simp), List.append_nil]

lemma ofNumbers?_eq_some_iff {major minor : Nat} :
    ofNumbers? major minor = some v ↔ v.major.toNat = major ∧ v.minor.toNat = minor := by
  constructor
  · intro h
    have hv := List.find?_some h
    rwa [Bool.and_eq_true, beq_iff_eq, beq_iff_eq] at hv
  · rintro ⟨rfl, rfl⟩
    cases v <;> decide

/-- Two digits that are read as a number are its digits. -/
lemma minor_eq_iff {minor : List Char} : (minor.length = 2 ∧ minor.all Char.isDigit) ∧
    Numeral.read? 10 256 minor = some v.minor.toNat ↔ minor = v.minorDigits := by
  rw [Numeral.read?_ten_eq_some_iff]
  constructor
  · rintro ⟨⟨hlength, hdigits⟩, -, k, rfl | rfl⟩
    · rw [List.length_append, List.length_replicate] at hlength
      rw [minorDigits, ← hlength, Nat.add_sub_cancel]
    · cases hdigits
  · rintro rfl
    exact ⟨by cases v <;> decide, v.minor.toNat_lt, _, .inl rfl⟩

/-- **The texts that are read as a revision** are those that show it between blanks. -/
theorem parse?_eq_some_iff : parse? s = some v ↔ v.Shows (Text.trim s).toList := by
  rw [shows_iff]
  unfold parse?
  simp only [Option.bind_eq_bind, Option.bind_eq_some_iff, Prod.exists, splitPoint?_eq_some_iff,
    Option.guard_eq_some', ofNumbers?_eq_some_iff]
  constructor
  · rintro ⟨major, minor, ⟨hs, -⟩, -, hminor, m, hm, n, hn, rfl, rfl⟩
    exact ⟨major, (Numeral.read?_ten_eq_some_iff.mp hm).2, by
      rw [hs, minor_eq_iff.mp ⟨hminor, hn⟩]⟩
  · rintro ⟨major, hmajor, hs⟩
    obtain ⟨hminor, hn⟩ := minor_eq_iff.mpr (rfl : v.minorDigits = v.minorDigits)
    refine ⟨major, v.minorDigits, ⟨hs, ?_⟩, (), hminor, _,
      Numeral.read?_ten_eq_some_iff.mpr ⟨v.major.toNat_lt, hmajor⟩, _, hn, rfl, rfl⟩
    intro hpoint
    rcases hmajor.isDigit_or '.' hpoint with h | h
    · cases h
    · cases h

lemma parse_eq_ok_iff_shows : parse s = .ok v ↔ v.Shows (Text.trim s).toList := by
  rw [← parse?_eq_some_iff]
  unfold parse
  cases parse? s <;> simp

/-- Every other text is refused, and the error shows all of it. -/
lemma parse_eq_error_iff :
    parse s = .error (.unsupportedVersion s) ↔ ∀ v : Version, ¬v.Shows (Text.trim s).toList := by
  simp only [← parse?_eq_some_iff]
  unfold parse
  cases parse? s <;> simp

/-! ### Fields -/

/-- The characters that do not count behind the text in a field. -/
def isFill (c : Char) : Bool := c == ' ' || c == '\x00'

lemma isFill_of_isMark {c : Char} (h : isMark c = true) : isFill c = false := by
  have hrange := toNat_of_isMark h
  rw [isFill, Bool.or_eq_false_iff, beq_eq_false_iff_ne, beq_eq_false_iff_ne]
  constructor
  · rintro rfl
    revert hrange
    decide
  · rintro rfl
    revert hrange
    decide

lemma ofField_eq (raw : List UInt8) : ofField raw =
    parse (String.ofList (Text.dropTrailing isFill (Utf8.decodeLossy raw).toList)) := rfl

/-- **The fields that are read as a revision** are the bytes of a text that shows it, between blanks and
before any spaces and U+0000. -/
theorem ofField_eq_ok_iff : ofField raw = .ok v ↔ ∃ before cs after fill,
    raw = Utf8.encode (String.ofList (before ++ (cs ++ (after ++ fill)))) ∧
      before.all Text.isBlank ∧ after.all Text.isBlank ∧ fill.all isFill ∧ v.Shows cs := by
  rw [ofField_eq, parse_eq_ok_iff_shows]
  constructor
  · intro h
    obtain ⟨before, after, ht, hbefore, hafter, -⟩ := Text.exists_eq_trim
      (String.ofList (Text.dropTrailing isFill (Utf8.decodeLossy raw).toList))
    generalize (Text.trim _).toList = cs at h ht
    have htext : (Utf8.decodeLossy raw).toList = before ++ (cs ++ (after ++
        (Utf8.decodeLossy raw).toList.rtakeWhile isFill)) := by
      rw [String.toList_ofList, Text.dropTrailing_eq_rdropWhile] at ht
      rw [← List.append_assoc cs, ← List.append_assoc before, ← ht,
        List.rdropWhile_append_rtakeWhile]
    have hfill : ((Utf8.decodeLossy raw).toList.rtakeWhile isFill).all isFill :=
      List.all_eq_true.mpr fun _ => List.mem_rtakeWhile_imp
    -- nothing of that is a replacement, so the bytes are those of the text
    have hproper : Utf8.replacement ∉ (Utf8.decodeLossy raw).toList := by
      rw [htext]
      simp only [List.mem_append, not_or]
      refine ⟨fun hc => ?_, fun hc => ?_, fun hc => ?_, fun hc => ?_⟩
      · cases List.all_eq_true.mp hbefore _ hc
      · cases isMark_of_mem h _ hc
      · cases List.all_eq_true.mp hafter _ hc
      · cases List.all_eq_true.mp hfill _ hc
    refine ⟨before, cs, after, _, ?_, hbefore, hafter, hfill, h⟩
    rw [← htext, String.ofList_toList, Utf8.encode_decodeLossy hproper]
  · rintro ⟨before, cs, after, fill, rfl, hbefore, hafter, hfill, h⟩
    have hlast : isFill ((before ++ cs).getLast (by simp [h.ne_nil])) = false := by
      rw [List.getLast_append_of_ne_nil _ h.ne_nil]
      exact isFill_of_isMark (isMark_of_mem h _ (List.getLast_mem _))
    have hdrop : Text.dropTrailing isFill (before ++ (cs ++ (after ++ fill))) =
        before ++ (cs ++ Text.dropTrailing isFill after) := by
      rw [← List.append_assoc, ← List.append_assoc, Text.dropTrailing_append_of_all
        (List.all_eq_true.mp hfill), Text.dropTrailing_append _ hlast, List.append_assoc]
    have hafter' : (Text.dropTrailing isFill after).all Text.isBlank :=
      List.all_eq_true.mpr fun c hc => List.all_eq_true.mp hafter c
        ((Text.dropTrailing_prefix isFill after).subset hc)
    rw [Utf8.decodeLossy_encode, String.toList_ofList, hdrop,
      Text.toList_trim h.ne_nil (fun c hc => isBlank_of_isMark (isMark_of_mem h c hc)) hbefore hafter']
    exact h

/-- **A text or a field is read as a revision exactly if it shows one**: between blanks stands the text
of the revision, in front of which zeros and a plus sign do not count.  Every other text is refused.  In
a field, spaces and zero bytes behind the text do not count either. -/
theorem parse_iff_shows (s : String) (raw : List UInt8) :
    (∀ v, parse s = .ok v ↔ v.Shows (Text.trim s).toList) ∧
      (parse s = .error (.unsupportedVersion s) ↔
        ∀ v : Version, ¬v.Shows (Text.trim s).toList) ∧
      ∀ v, ofField raw = .ok v ↔ ∃ before cs after fill,
        raw = Utf8.encode (String.ofList (before ++ (cs ++ (after ++ fill)))) ∧
          before.all Text.isBlank ∧ after.all Text.isBlank ∧ fill.all isFill ∧ v.Shows cs :=
  ⟨fun _ => parse_eq_ok_iff_shows, parse_eq_error_iff, fun _ => ofField_eq_ok_iff⟩

/-- A revision that is read need not stand in the text as it is written: a plus sign is accepted. -/
theorem parse_signed : parse "+4.10" = .ok .v410 ∧ Text.trim "+4.10" ≠ text .v410 ∧
    ofField (Utf8.encode "+4.10   ") = .ok .v410 := by
  decide

end Version

end Mdf
