import Mdf.Proofs.Markup.Comment
import Mdf.Proofs.Text.Numeral

/-!
# Reading references

Which names are read as a reference to which character: the five names of the format, and the number
of a character in decimal or hexadecimal digits (`Denotes`).  The digits are read like any other
numeral, so a plus sign may stand in front of them (`Signed`), and nothing else is read
(`resolve?_eq_some_iff`).  In a document a reference that is read adds its character to the text, and
any other one ends the parse (`parse_reference_cases`).
-/

namespace Mdf

namespace Markup

variable {name : List Char} {c : Char}

/-! ### References -/

/-- The references of the format, by name and by number. -/
inductive Denotes : List Char → Char → Prop
  | lt : Denotes "lt".toList '<'
  | gt : Denotes "gt".toList '>'
  | amp : Denotes "amp".toList '&'
  | apos : Denotes "apos".toList '\''
  | quot : Denotes "quot".toList '"'
  | decimal {digits : List Char} {c : Char} (h : Numeral.Spells 10 c.toNat digits) :
    Denotes ('#' :: digits) c
  | hexadecimal {digits : List Char} {c : Char} (h : Numeral.Spells 16 c.toNat digits) :
    Denotes ('#' :: 'x' :: digits) c

/-- References by number with a plus sign in front of the digits. -/
inductive Signed : List Char → Char → Prop
  | decimal {digits : List Char} {c : Char} (h : Numeral.Spells 10 c.toNat digits) :
    Signed ('#' :: '+' :: digits) c
  | hexadecimal {digits : List Char} {c : Char} (h : Numeral.Spells 16 c.toNat digits) :
    Signed ('#' :: 'x' :: '+' :: digits) c

/-- What is read as a reference to a character. -/
def Reads (name : List Char) (c : Char) : Prop := Denotes name c ∨ Signed name c

lemma charOfNumber?_eq_some_iff {n : Nat} : charOfNumber? n = some c ↔ n = c.toNat := by
  unfold charOfNumber?
  constructor
  · intro h
    split at h
    · rename_i hn
      cases h
      rw [Char.ofNat, dif_pos hn]
      rfl
    · cases h
  · rintro rfl
    have hvalid : c.toNat.isValidChar := c.valid
    rw [if_pos hvalid, Char.ofNat_toNat]

/-- A number is read as the character that has it. -/
lemma read?_bind_charOfNumber? {base : Nat} (hb : base ≤ 16) (digits : List Char) :
    (Numeral.read? base UInt32.size digits).bind charOfNumber? = some c ↔
      Numeral.Spells base c.toNat digits ∨
        ∃ rest, digits = '+' :: rest ∧ Numeral.Spells base c.toNat rest := by
  have hlt : c.toNat < UInt32.size := c.val.toNat_lt
  simp only [Option.bind_eq_some_iff, charOfNumber?_eq_some_iff, Numeral.read?_eq_some_iff hb]
  constructor
  · rintro ⟨n, ⟨-, h⟩, rfl⟩
    exact h
  · intro h
    exact ⟨_, ⟨hlt, h⟩, rfl⟩

/-- The mark of hexadecimal digits is no decimal digit. -/
lemma not_spells_ten_mark (n : Nat) (digits : List Char) : ¬Numeral.Spells 10 n ('x' :: digits) := by
  have hmark : Numeral.digit? 10 'x' = none := by decide
  rw [Numeral.spells_iff (by decide), Numeral.digits?, hmark]
  simp

/-- A plus sign is outside of the format. -/
lemma Signed.not_denotes {d : Char} (h : Signed name c) : ¬Denotes name d := by
  have hplus (base : Nat) (hb : base ≤ 16) (n : Nat) (digits : List Char) :
      ¬Numeral.Spells base n ('+' :: digits) := by
    rw [Numeral.spells_iff hb, Numeral.digits?_plus]
    simp
  intro hd
  cases h with
  | decimal =>
    cases hd with
    | decimal hd => exact hplus 10 (by decide) _ _ hd
  | hexadecimal =>
    cases hd with
    | decimal hd => exact not_spells_ten_mark _ _ hd
    | hexadecimal hd => exact hplus 16 (by decide) _ _ hd

lemma find?_entities_eq_some_iff : (entities.find? fun e => e.2.toList == name).map Prod.fst = some c ↔
    ∃ e ∈ entities, e.2.toList = name ∧ e.1 = c := by
  constructor
  · intro h
    obtain ⟨e, he, rfl⟩ := Option.map_eq_some_iff.mp h
    exact ⟨e, List.mem_of_find?_eq_some he, by simpa using List.find?_some he, rfl⟩
  · rintro ⟨e, he, rfl, rfl⟩
    have hall : ∀ e ∈ entities,
        (entities.find? fun d => d.2.toList == e.2.toList).map Prod.fst = some e.1 := by decide
    exact hall e he

/-- **A name is read as a reference exactly if it is one of the format**, or one by number with a plus
sign in front of the digits. -/
theorem resolve?_eq_some_iff : resolve? name = some c ↔ Reads name c := by
  unfold resolve? Reads
  split
  · rename_i digits
    rw [read?_bind_charOfNumber? (by decide)]
    constructor
    · rintro (h | ⟨rest, rfl, h⟩)
      · exact .inl (.hexadecimal h)
      · exact .inr (.hexadecimal h)
    · rintro (h | h)
      · cases h with
        | decimal h => exact absurd h (not_spells_ten_mark _ _)
        | hexadecimal h => exact .inl h
      · cases h with
        | hexadecimal h => exact .inr ⟨_, rfl, h⟩
  · rename_i digits hmark
    rw [read?_bind_charOfNumber? (by decide)]
    constructor
    · rintro (h | ⟨rest, rfl, h⟩)
      · exact .inl (.decimal h)
      · exact .inr (.decimal h)
    · rintro (h | h)
      · cases h with
        | decimal h => exact .inl h
        | hexadecimal h => exact absurd rfl (hmark _)
      · cases h with
        | decimal h => exact .inr ⟨_, rfl, h⟩
        | hexadecimal h => exact absurd rfl (hmark _)
  · rename_i hhex hdec
    rw [find?_entities_eq_some_iff]
    constructor
    · rintro ⟨e, he, rfl, rfl⟩
      simp only [entities, List.mem_cons, List.not_mem_nil, or_false] at he
      rcases he with rfl | rfl | rfl | rfl | rfl
      · exact .inl .lt
      · exact .inl .gt
      · exact .inl .amp
      · exact .inl .apos
      · exact .inl .quot
    · rintro (h | h)
      · cases h with
        | lt => exact ⟨('<', "lt"), by decide, rfl, rfl⟩
        | gt => exact ⟨('>', "gt"), by decide, rfl, rfl⟩
        | amp => exact ⟨('&', "amp"), by decide, rfl, rfl⟩
        | apos => exact ⟨('\'', "apos"), by decide, rfl, rfl⟩
        | quot => exact ⟨('"', "quot"), by decide, rfl, rfl⟩
        | decimal h => exact absurd rfl (hdec _)
        | hexadecimal h => exact absurd rfl (hhex _)
      · cases h with
        | decimal h => exact absurd rfl (hdec _)
        | hexadecimal h => exact absurd rfl (hhex _)

end Markup

namespace Comment

open Markup Partial

variable {document : String} {p : Partial} {name after : List Char}

/-! ### References in a document -/

/-- The parser gets to the state `p`, and the rest `r` of the document is still to be read. -/
def Reaches (document : String) (p : Partial) (r : List Char) : Prop :=
  ∃ before ts, document.toList = before ++ r ∧ tokens document = ts ++ lex r ∧
    ts.foldlM step start = .ok p

/-- What becomes of a document depends on the state and on the rest of it. -/
lemma Reaches.ofTokens_eq {r : List Char} (h : Reaches document p r) :
    Comment.ofTokens (tokens document) = (do (← (lex r).foldlM step p).finish) := by
  obtain ⟨before, ts, -, htokens, hfold⟩ := h
  rw [ofTokens, htokens, List.foldlM_append, hfold, ok_bind]

lemma step_reference {c : Char} (hc : resolve? name = some c) (p : Partial) :
    p.step (.reference name) = .ok { p with text := p.text.push c } := by
  simp only [step, hc]

lemma step_reference_none (hc : resolve? name = none) (p : Partial) :
    p.step (.reference name) = .error (.unknownEntity (String.ofList name)) := by
  simp only [step, hc]

/-- The only step that reports an unknown entity is one on a reference that is not read. -/
lemma resolve?_of_step {token : Token} {s : String} (h : p.step token = .error (.unknownEntity s)) :
    resolve? s.toList = none := by
  cases token with
  | char c => cases h
  | verbatim t => cases h
  | opening name => cases h
  | empty name => cases h
  | defect => cases h
  | reference name =>
    cases hc : resolve? name with
    | some c => rw [step_reference hc] at h; cases h
    | none =>
      rw [step_reference_none hc] at h
      cases h
      rwa [String.toList_ofList]
  | closing name =>
    simp only [step] at h
    split at h
    · split at h <;> cases h
    · cases h

lemma resolve?_of_foldlM {ts : List Token} {s : String}
    (h : ts.foldlM step p = .error (.unknownEntity s)) : resolve? s.toList = none := by
  induction ts generalizing p with
  | nil => cases h
  | cons token ts ih =>
    rw [List.foldlM_cons] at h
    cases hstep : p.step token with
    | ok q =>
      rw [hstep] at h
      exact ih h
    | error e =>
      rw [hstep] at h
      cases h
      exact resolve?_of_step hstep

/-- What is reported as an unknown entity is no reference that is read. -/
lemma resolve?_of_parse {s : String}
    (h : parse document = .error (.invalidMetadata (.unknownEntity s))) :
    resolve? s.toList = none := by
  unfold parse ofTokens at h
  cases hfold : (tokens document).foldlM step start with
  | error e =>
    rw [hfold] at h
    cases h
    exact resolve?_of_foldlM hfold
  | ok q =>
    rw [hfold, ok_bind] at h
    unfold finish at h
    split at h
    · cases h
    · rename_i he
      cases h
      split at he
      · cases he
      · split at he <;> cases he

/-- **A reference is read or ends the parse.**  Where a reference follows within a document, either its
name is read as one character, which is added to the text before the parser goes on behind the
reference, or its name is reported as unknown. -/
theorem parse_reference_cases (hname : ∀ c ∈ name, inReference c)
    (h : Reaches document p ('&' :: (name ++ ';' :: after))) :
    (∃ c, (∀ d, Reads name d ↔ d = c) ∧ Reaches document { p with text := p.text.push c } after ∧
      parse document ≠ .error (.invalidMetadata (.unknownEntity (String.ofList name)))) ∨
    ((∀ c, ¬Reads name c) ∧
      parse document = .error (.invalidMetadata (.unknownEntity (String.ofList name)))) := by
  have hlex := lex_reference hname after
  simp only [← resolve?_eq_some_iff]
  cases hc : resolve? name with
  | some c =>
    refine .inl ⟨c, fun d => by rw [Option.some.injEq, eq_comm], ?_, fun hp => ?_⟩
    · obtain ⟨before, ts, hdocument, htokens, hfold⟩ := h
      refine ⟨before ++ '&' :: (name ++ [';']), ts ++ [.reference name], ?_, ?_, ?_⟩
      · rw [hdocument]
        simp
      · rw [htokens, hlex]
        simp
      · rw [List.foldlM_append, hfold, ok_bind, List.foldlM_cons, step_reference hc]
        rfl
    · have hnone := resolve?_of_parse hp
      rw [String.toList_ofList, hc] at hnone
      cases hnone
  | none =>
    refine .inr ⟨by simp, ?_⟩
    rw [parse, h.ofTokens_eq, hlex, List.foldlM_cons, step_reference_none hc]
    rfl

/-- Digits behind a plus sign, and the number of half a surrogate pair. -/
theorem parse_reference_cases_signed :
    Reaches "<a>x&#x+1F600;y</a>" ⟨⟨"a", []⟩, [['a']], "x"⟩ "&#x+1F600;y</a>".toList ∧
      Reaches "<a>x&#x+1F600;y</a>" ⟨⟨"a", []⟩, [['a']], "x😀"⟩ "y</a>".toList ∧
      Reaches "<a>x&#xD800;y</a>" ⟨⟨"a", []⟩, [['a']], "x"⟩ "&#xD800;y</a>".toList ∧
      parse "<a>x&#xD800;y</a>" = .error (.invalidMetadata (.unknownEntity "#xD800")) := by
  have hread : Reads "#x+1F600".toList '😀' := resolve?_eq_some_iff.mp (by decide)
  have hunread : ∀ c, ¬Reads "#xD800".toList c := by
    intro c hc
    have hnone : resolve? "#xD800".toList = none := by decide
    rw [← resolve?_eq_some_iff, hnone] at hc
    cases hc
  have h₁ : Reaches "<a>x&#x+1F600;y</a>" ⟨⟨"a", []⟩, [['a']], "x"⟩ "&#x+1F600;y</a>".toList :=
    ⟨"<a>x".toList, [.opening ['a'], .char 'x'], by decide, by decide +kernel, by decide⟩
  have h₂ : Reaches "<a>x&#xD800;y</a>" ⟨⟨"a", []⟩, [['a']], "x"⟩ "&#xD800;y</a>".toList :=
    ⟨"<a>x".toList, [.opening ['a'], .char 'x'], by decide, by decide +kernel, by decide⟩
  have hcases₁ := @parse_reference_cases _ _ "#x+1F600".toList "y</a>".toList
    (List.all_eq_true.mp (by decide)) h₁
  have hcases₂ := @parse_reference_cases _ _ "#xD800".toList "y</a>".toList
    (List.all_eq_true.mp (by decide)) h₂
  refine ⟨h₁, ?_, h₂, ?_⟩
  · rcases hcases₁ with ⟨c, hc, hreaches, -⟩ | ⟨hnone, -⟩
    · obtain rfl := (hc '😀').mp hread
      exact hreaches
    · exact absurd hread (hnone '😀')
  · rcases hcases₂ with ⟨c, hc, -, -⟩ | ⟨-, hparse⟩
    · exact absurd ((hc c).mpr rfl) (hunread c)
    · exact hparse

/-- **A plus sign is accepted** in front of the digits, where the format has none. -/
theorem reads_signed :
    parse "<HDcomment><TX>&#+65;</TX></HDcomment>" = .ok ⟨"HDcomment", [("TX", "A")]⟩ ∧
      ∀ c, ¬Denotes ['#', '+', '6', '5'] c := by
  have hsigned : Signed ['#', '+', '6', '5'] 'A' :=
    .decimal ((Numeral.spells_iff (by decide)).mpr ⟨by decide, by decide⟩)
  exact ⟨by decide +kernel, fun _ => hsigned.not_denotes⟩

end Comment

end Mdf
