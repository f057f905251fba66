import Mathlib.Tactic.Common
import Mdf.Markup.Reference
import Mdf.Markup.Token

/-!
# Lexing what was escaped

An escaped text is lexed to one token for each of its characters, whatever follows it, and a tag is
lexed to its token, whatever the values of its attributes are.  Escaping leaves no U+0000 behind that
was not there before.
-/

namespace Mdf.Markup

variable {s r content : List Char} {c : Char}

/-! ### Texts -/

/-- The token of a character that was escaped. -/
def escapedToken (c : Char) : Token :=
  match entities.find? fun e => e.1 == c with
  | some (_, name) => .reference name.toList
  | none => .char c

/-- Whether a token is a piece of text. -/
def Token.isText : Token → Bool
  | .char _ | .reference _ | .verbatim _ => true
  | .opening _ | .closing _ | .empty _ | .defect => false

lemma isText_escapedToken (c : Char) : (escapedToken c).isText := by
  unfold escapedToken
  split <;> rfl

lemma lex_char (hl : c ≠ '<') (ha : c ≠ '&') (r : List Char) : lex (c :: r) = .char c :: lex r := by
  rw [lex.eq_4]
  · exact hl
  · exact ha

lemma lex_reference {name : List Char} (h : ∀ c ∈ name, inReference c) (r : List Char) :
    lex ('&' :: (name ++ ';' :: r)) = .reference name :: lex r := by
  have hsemi : ¬inReference ';' = true := by decide
  have hd : (name ++ ';' :: r).dropWhile inReference = ';' :: r := by
    rw [List.dropWhile_append_of_pos h, List.dropWhile_cons_of_neg hsemi]
  have ht : (name ++ ';' :: r).takeWhile inReference = name := by
    rw [List.takeWhile_append_of_pos h, List.takeWhile_cons_of_neg hsemi, List.append_nil]
  rw [lex.eq_3]
  split
  · rename_i hr
    cases hd.symm.trans hr
    rw [ht]
  · rename_i hr
    exact absurd hd (hr r)

/-- A character with a meaning of its own is written by name, and any other one as it is. -/
lemma escapeChar_cases (c : Char) :
    (∃ name, (c, name) ∈ entities ∧ escapeChar c = reference name ∧
      escapedToken c = .reference name.toList) ∨
    (escapeChar c = [c] ∧ escapedToken c = .char c ∧ c ≠ '<' ∧ c ≠ '&') := by
  unfold escapeChar escapedToken
  cases h : entities.find? fun e => e.1 == c with
  | some e =>
    have he : e.1 = c := by simpa using List.find?_some h
    exact .inl ⟨e.2, he ▸ List.mem_of_find?_eq_some h, rfl, rfl⟩
  | none =>
    have hc := List.find?_eq_none.mp h
    refine .inr ⟨rfl, rfl, ?_, ?_⟩
    · rintro rfl
      exact hc ('<', "lt") (by decide) (by decide)
    · rintro rfl
      exact hc ('&', "amp") (by decide) (by decide)

lemma inReference_of_mem_entities {e : Char × String} (h : e ∈ entities) :
    ∀ c ∈ e.2.toList, inReference c := by
  have hall : ∀ e ∈ entities, e.2.toList.all inReference := by decide
  exact List.all_eq_true.mp (hall e h)

lemma lex_escapeChar (c : Char) (r : List Char) :
    lex (escapeChar c ++ r) = escapedToken c :: lex r := by
  rcases escapeChar_cases c with ⟨name, hmem, hc, ht⟩ | ⟨hc, ht, hl, ha⟩
  · have hr : reference name ++ r = '&' :: (name.toList ++ ';' :: r) := by simp [reference]
    rw [hc, ht, hr, lex_reference (inReference_of_mem_entities hmem)]
  · rw [hc, ht, List.singleton_append, lex_char hl ha]

/-- **An escaped text is lexed to a token for each of its characters.** -/
theorem lex_escape (s r : List Char) :
    lex (s.flatMap escapeChar ++ r) = s.map escapedToken ++ lex r := by
  induction s with
  | nil => rfl
  | cons c s ih => rw [List.flatMap_cons, List.append_assoc, lex_escapeChar, ih, List.map_cons,
      List.cons_append]

/-- Escaping adds no U+0000. -/
lemma nul_mem_escapeChar (c : Char) : '\x00' ∈ escapeChar c ↔ c = '\x00' := by
  rcases escapeChar_cases c with ⟨name, hmem, hc, -⟩ | ⟨hc, -⟩
  · have hall : ∀ e ∈ entities, '\x00' ∉ reference e.2 ∧ e.1 ≠ '\x00' := by decide
    rw [hc]
    exact iff_of_false (hall _ hmem).1 (hall _ hmem).2
  · rw [hc, List.mem_singleton, eq_comm]

lemma escapeChar_nul : escapeChar '\x00' = ['\x00'] := by decide

/-! ### Tags -/

/-- Whether a text can stand in a tag and before others within one. -/
def IsPlain (s : List Char) : Prop := ∀ c ∈ s, c ≠ '>' ∧ c ≠ '\'' ∧ c ≠ '"'

/-- Whether a tag goes on behind a text within it, as it does in front of the text. -/
def Passes (s : List Char) : Prop :=
  ∀ r, cutTag none (s ++ r) = (cutTag none r).map fun p => (s ++ p.1, p.2)

lemma passes_nil : Passes [] := fun r => by simp

lemma Passes.append {t : List Char} (h : Passes s) (ht : Passes t) : Passes (s ++ t) := by
  intro r
  rw [List.append_assoc, h, ht, Option.map_map]
  simp [Function.comp_def]

lemma passes_plain (h : IsPlain s) : Passes s := by
  induction s with
  | nil => exact passes_nil
  | cons c s ih =>
    intro r
    obtain ⟨⟨hg, hs, hd⟩, hrest⟩ := List.forall_mem_cons.mp h
    have hq : (if c = '\'' ∨ c = '"' then some c else none) = none :=
      if_neg fun hc => hc.elim hs hd
    rw [List.cons_append, cutTag]
    simp only [if_neg hg, hq, ih hrest r, Option.map_map]
    rfl

lemma cutTag_quoted (h : '"' ∉ s) (r : List Char) :
    cutTag (some '"') (s ++ '"' :: r) = (cutTag none r).map fun p => (s ++ '"' :: p.1, p.2) := by
  induction s with
  | nil => simp [cutTag]
  | cons c s ih =>
    rw [List.mem_cons, not_or] at h
    rw [List.cons_append, cutTag]
    simp only [if_neg (Ne.symm h.1), ih h.2, Option.map_map]
    rfl

/-- A tag ends behind what passes, at the next `>`. -/
lemma Passes.cutTag_eq (h : Passes s) (r : List Char) :
    cutTag none (s ++ '>' :: r) = some (s, r) := by
  rw [h]
  simp [cutTag]

lemma tagOf_eq (h : content.getLast? ≠ some '/') :
    tagOf content = .opening (content.takeWhile fun c => !isSpace c) := if_neg h

lemma tagOf_slash (content : List Char) :
    tagOf (content ++ ['/']) = .empty (content.takeWhile fun c => !isSpace c) := by
  unfold tagOf
  rw [if_pos (by simp), List.dropLast_concat]

/-- A tag that starts an element. -/
lemma lex_startTag (hs : ∀ x ∈ s.head?, x ≠ '/' ∧ x ≠ '!' ∧ x ≠ '?')
    (hc : cutTag none s = some (content, r)) :
    lex ('<' :: s) = tagOf content :: lex r := by
  have hconstruct : construct s = some (some (tagOf content), r) := by
    rw [construct.eq_5, hc, Option.map_some]
    · rintro t rfl
      exact (hs '/' rfl).1 rfl
    · rintro t rfl
      exact (hs '!' rfl).2.1 rfl
    · rintro t rfl
      exact (hs '?' rfl).2.2 rfl
    · rintro t rfl
      exact (hs '?' rfl).2.2 rfl
  rw [lex.eq_2]
  split
  · rename_i h
    cases hconstruct.symm.trans h
    rfl
  · rename_i h
    cases hconstruct.symm.trans h

/-- A tag that ends an element. -/
lemma lex_endTag (hc : cutTag none s = some (content, r)) :
    lex ('<' :: '/' :: s) = endTagOf content :: lex r := by
  have hconstruct : construct ('/' :: s) = some (some (endTagOf content), r) := by
    rw [construct.eq_1, hc, Option.map_some]
  rw [lex.eq_2]
  split
  · rename_i h
    cases hconstruct.symm.trans h
    rfl
  · rename_i h
    cases hconstruct.symm.trans h

/-! ### Names -/

/-- The characters that have a meaning of their own in a tag, apart from spaces. -/
def tagMarks : List Char := ['<', '>', '&', '\'', '"', '/', '!', '?', '=']

/-- Whether a character has no meaning of its own in a tag. -/
def isTagChar (c : Char) : Bool := !isSpace c && !tagMarks.contains c

/-- A text that can be the name of a tag. -/
def IsTagName (s : List Char) : Prop := s ≠ [] ∧ s.all isTagChar

/-- A name of an element that is nothing but letters, digits and underscores. -/
def IsName (s : List Char) : Prop := s ≠ [] ∧ s.all fun c => c.isAlphanum || c == '_'

instance : DecidablePred IsName := fun s =>
  inferInstanceAs (Decidable (s ≠ [] ∧ s.all fun c => c.isAlphanum || c == '_'))

variable {name : List Char}

lemma IsName.ne (h : IsName name) {x d : Char} (hx : x ∈ name)
    (hd : (d.isAlphanum || d == '_') = false) : x ≠ d := by
  rintro rfl
  rw [List.all_eq_true.mp h.2 x hx] at hd
  cases hd

lemma IsName.isTagName (h : IsName name) : IsTagName name := by
  have hmarks : tagMarks.all fun d => !(d.isAlphanum || d == '_') := by decide
  refine ⟨h.1, List.all_eq_true.mpr fun x hx => ?_⟩
  have hmark : x ∉ tagMarks := fun hmem =>
    h.ne hx (by simpa using List.all_eq_true.mp hmarks x hmem) rfl
  have hspace : isSpace x = false := by
    simp only [isSpace, Bool.or_eq_false_iff, beq_eq_false_iff_ne]
    exact ⟨⟨⟨h.ne hx (by decide), h.ne hx (by decide)⟩, h.ne hx (by decide)⟩,
      h.ne hx (by decide)⟩
  simpa [isTagChar, hspace] using hmark

lemma IsTagName.ne (h : IsTagName name) {x d : Char} (hx : x ∈ name) (hd : isTagChar d = false) :
    x ≠ d := by
  rintro rfl
  rw [List.all_eq_true.mp h.2 x hx] at hd
  cases hd

lemma IsTagName.isPlain (h : IsTagName name) : IsPlain name := fun _ hx =>
  ⟨h.ne hx (by decide), h.ne hx (by decide), h.ne hx (by decide)⟩

lemma IsTagName.not_isSpace (h : IsTagName name) {x : Char} (hx : x ∈ name) : isSpace x = false := by
  have hchar := List.all_eq_true.mp h.2 x hx
  rw [isTagChar, Bool.and_eq_true_iff, Bool.not_eq_true'] at hchar
  exact hchar.1

lemma IsTagName.head? (h : IsTagName name) (r : List Char) :
    ∀ x ∈ (name ++ r).head?, x ≠ '/' ∧ x ≠ '!' ∧ x ≠ '?' := by
  obtain ⟨y, t, rfl⟩ := List.exists_cons_of_ne_nil h.1
  rintro x hx
  have hy : y = x := by simpa using hx
  have hmem : x ∈ y :: t := hy ▸ List.mem_cons_self
  exact ⟨h.ne hmem (by decide), h.ne hmem (by decide), h.ne hmem (by decide)⟩

/-- The name of a tag reaches to the first space. -/
lemma IsTagName.takeWhile (h : IsTagName name) {r : List Char} (hr : ∀ x ∈ r.head?, isSpace x) :
    ((name ++ r).takeWhile fun c => !isSpace c) = name := by
  rw [List.takeWhile_append_of_pos fun _ hx => by rw [h.not_isSpace hx]; rfl]
  cases r with
  | nil => rw [List.takeWhile_nil, List.append_nil]
  | cons x r => rw [List.takeWhile_cons_of_neg (by simp [hr x rfl]), List.append_nil]

/-! ### Attributes -/

/-- An attribute as it stands in a tag. -/
def setting (name value : List Char) : List Char :=
  ' ' :: (name ++ '=' :: '"' :: (value.flatMap escapeChar ++ ['"']))

lemma quote_notMem_escapeChar (c : Char) : '"' ∉ escapeChar c := by
  have hall : ∀ e ∈ entities, '"' ∉ reference e.2 := by decide
  rcases escapeChar_cases c with ⟨entity, hmem, hc, -⟩ | ⟨hc, -⟩
  · rw [hc]
    exact hall _ hmem
  · intro hmem
    rw [hc, List.mem_singleton] at hmem
    subst hmem
    exact absurd hc (by decide)

lemma passes_setting (h : IsTagName name) (value : List Char) : Passes (setting name value) := by
  have hfront : IsPlain (' ' :: (name ++ ['='])) := by
    intro c hc
    rcases List.mem_cons.mp hc with rfl | hc
    · decide
    rcases List.mem_append.mp hc with hc | hc
    · exact h.isPlain c hc
    · rw [List.mem_singleton.mp hc]
      decide
  have hvalue : Passes ('"' :: (value.flatMap escapeChar ++ ['"'])) := by
    have hquote : '"' ∉ value.flatMap escapeChar := fun hmem => by
      obtain ⟨c, -, hc⟩ := List.mem_flatMap.mp hmem
      exact quote_notMem_escapeChar c hc
    intro r
    rw [List.cons_append, List.append_assoc, List.singleton_append, cutTag]
    simp [cutTag_quoted hquote, Function.comp_def]
  have hsplit : setting name value =
      ' ' :: (name ++ ['=']) ++ '"' :: (value.flatMap escapeChar ++ ['"']) := by
    simp [setting]
  rw [hsplit]
  exact (passes_plain hfront).append hvalue

/-- The attributes of a tag, each a name and a value. -/
def settings (as : List (List Char × List Char)) : List Char :=
  as.flatMap fun a => setting a.1 a.2

variable {as : List (List Char × List Char)}

lemma passes_settings (h : ∀ a ∈ as, IsTagName a.1) : Passes (settings as) := by
  induction as with
  | nil => exact passes_nil
  | cons a as ih =>
    obtain ⟨ha, has⟩ := List.forall_mem_cons.mp h
    exact (passes_setting ha a.2).append (ih has)

lemma head?_settings (as : List (List Char × List Char)) :
    ∀ x ∈ (settings as).head?, isSpace x := by
  cases as with
  | nil => simp [settings]
  | cons a as => simp [settings, setting, isSpace]

lemma getLast?_settings (as : List (List Char × List Char)) :
    (settings as).getLast? ≠ some '/' := by
  rcases List.eq_nil_or_concat as with rfl | ⟨as, a, rfl⟩
  · simp [settings]
  · simp [settings, setting, List.getLast?_append, List.getLast?_cons]

/-! ### Tags of elements -/

lemma getLast?_tag (h : IsTagName name) (as : List (List Char × List Char)) :
    (name ++ settings as).getLast? ≠ some '/' := by
  rw [List.getLast?_append]
  cases hl : (settings as).getLast? with
  | none => exact fun hlast => h.ne (List.mem_of_getLast? hlast) (by decide) rfl
  | some x => exact fun hlast => getLast?_settings as (hl.trans hlast)

/-- **A start tag opens the element**, whatever its attributes are. -/
lemma lex_opening_attributes (h : IsTagName name) (has : ∀ a ∈ as, IsTagName a.1) (r : List Char) :
    lex ('<' :: (name ++ settings as ++ '>' :: r)) = .opening name :: lex r := by
  have hcut := ((passes_plain h.isPlain).append (passes_settings has)).cutTag_eq r
  have hhead := h.head? (settings as ++ '>' :: r)
  rw [← List.append_assoc] at hhead
  rw [lex_startTag hhead hcut, tagOf_eq (getLast?_tag h as), h.takeWhile (head?_settings as)]

/-- **The start tag of a name opens the element.** -/
lemma lex_opening (h : IsTagName name) (r : List Char) :
    lex ('<' :: (name ++ '>' :: r)) = .opening name :: lex r := by
  have hnone : ∀ a ∈ ([] : List (List Char × List Char)), IsTagName a.1 := by simp
  have hlex := lex_opening_attributes h hnone r
  rwa [settings, List.flatMap_nil, List.append_nil] at hlex

/-- **A tag of an empty element is one token.** -/
lemma lex_empty (h : IsTagName name) (has : ∀ a ∈ as, IsTagName a.1) (r : List Char) :
    lex ('<' :: (name ++ settings as ++ '/' :: '>' :: r)) = .empty name :: lex r := by
  have hslash : Passes ['/'] := passes_plain (by simp [IsPlain])
  have hcut := (((passes_plain h.isPlain).append (passes_settings has)).append hslash).cutTag_eq r
  have hhead := h.head? (settings as ++ '/' :: '>' :: r)
  rw [← List.append_assoc] at hhead
  rw [List.append_assoc, List.singleton_append] at hcut
  rw [lex_startTag hhead hcut, tagOf_slash, h.takeWhile (head?_settings as)]

/-- **The end tag of a name closes the element.** -/
lemma lex_closing (h : IsTagName name) (r : List Char) :
    lex ('<' :: '/' :: (name ++ '>' :: r)) = .closing name :: lex r := by
  have hd : name.reverse.dropWhile isSpace = name.reverse := by
    obtain ⟨y, t, hy⟩ := List.exists_cons_of_ne_nil (List.reverse_ne_nil_iff.mpr h.1)
    have hmem : y ∈ name := List.mem_reverse.mp (hy ▸ List.mem_cons_self)
    rw [hy, List.dropWhile_cons_of_neg (by simp [h.not_isSpace hmem])]
  have hend : endTagOf name = .closing name := by
    unfold endTagOf
    rw [hd]
    split
    · rename_i hnil
      exact absurd (List.reverse_eq_nil_iff.mp hnil) h.1
    · rw [List.reverse_reverse]
  rw [lex_endTag ((passes_plain h.isPlain).cutTag_eq r), hend]

end Mdf.Markup
