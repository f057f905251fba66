/-!
# Tokens of markup

`lex` divides a text into tokens.  Comments, processing instructions and document types leave no
token behind, so they do not interrupt the text around them.  Where the text breaks a rule of lexing
the tokens end with `defect`.

A tag reaches to the first `>` outside of quotes, and its name is what stands before the first
blank. Names are not checked, so `<>` opens an element without a name.
-/

namespace Mdf.Markup

/-- A piece of markup. -/
inductive Token where
  | char (c : Char)
  /-- A reference, by its name. -/
  | reference (name : List Char)
  /-- Text in which nothing has a meaning of its own. -/
  | verbatim (text : List Char)
  | opening (name : List Char)
  | closing (name : List Char)
  /-- An element without content. -/
  | empty (name : List Char)
  /-- The text is no markup from here on. -/
  | defect
deriving DecidableEq, Repr

/-- What divides the parts of a tag. -/
def isSpace (c : Char) : Bool := c == ' ' || c == '\t' || c == '\r' || c == '\n'

/-! ### Where constructs end -/

/-- The text before the first occurrence of a mark, and the text behind it. -/
def cut (mark : List Char) : List Char → Option (List Char × List Char)
  | [] => none
  | c :: r =>
    if mark.isPrefixOf (c :: r) then some ([], (c :: r).drop mark.length)
    else (cut mark r).map fun (before, after) => (c :: before, after)

/-- The text before the first `>` outside of quotes, and the text behind it; at the start within the
given quote, if any. -/
def cutTag (quote : Option Char) : List Char → Option (List Char × List Char)
  | [] => none
  | c :: r =>
    let go (q : Option Char) := (cutTag q r).map fun (before, after) => (c :: before, after)
    match quote with
    | some q => go (if c = q then none else quote)
    | none =>
      if c = '>' then some ([], r)
      else go (if c = '\'' ∨ c = '"' then some c else none)

/-- The text before the `>` that closes as many `<` as are open, and the text behind it. -/
def cutNested (depth : Nat) : List Char → Option (List Char × List Char)
  | [] => none
  | c :: r =>
    let go (d : Nat) := (cutNested d r).map fun (before, after) => (c :: before, after)
    if c = '<' then go (depth + 1)
    else if c = '>' then
      match depth with
      | 0 => some ([], r)
      | d + 1 => go d
    else go depth

theorem length_of_cons {c : Char} {n : Nat} {o : Option (List Char × List Char)}
    {a b : List Char} (h : (o.map fun p => (c :: p.1, p.2)) = some (a, b))
    (ho : ∀ a', o = some (a', b) → b.length ≤ n) : b.length ≤ n + 1 := by
  obtain ⟨⟨a', b'⟩, h', heq⟩ := Option.map_eq_some_iff.mp h
  cases heq
  exact Nat.le_succ_of_le (ho a' h')

theorem length_cut {mark s a b : List Char} (h : cut mark s = some (a, b)) :
    b.length ≤ s.length := by
  induction s generalizing a with
  | nil => cases h
  | cons c r ih =>
    rw [cut] at h
    split at h
    · cases h
      simp
    · exact length_of_cons h fun _ => ih

theorem length_cutTag {q : Option Char} {s a b : List Char} (h : cutTag q s = some (a, b)) :
    b.length ≤ s.length := by
  induction s generalizing q a with
  | nil => cases h
  | cons c r ih =>
    unfold cutTag at h
    split at h
    · exact length_of_cons h fun _ => ih
    · split at h
      · cases h
        simp
      · exact length_of_cons h fun _ => ih

theorem length_cutNested {d : Nat} {s a b : List Char} (h : cutNested d s = some (a, b)) :
    b.length ≤ s.length := by
  induction s generalizing d a with
  | nil => cases h
  | cons c r ih =>
    unfold cutNested at h
    split at h
    · exact length_of_cons h fun _ => ih
    · split at h
      · split at h
        · cases h
          simp
        · exact length_of_cons h fun _ => ih
      · exact length_of_cons h fun _ => ih

/-! ### Lexing -/

/-- The token of a start tag, which is an empty element if it ends in a slash. -/
def tagOf (content : List Char) : Token :=
  let name (s : List Char) := s.takeWhile fun c => !isSpace c
  if content.getLast? = some '/' then .empty (name content.dropLast) else .opening (name content)

/-- The token of an end tag.  Spaces behind the name do not count; spaces alone are kept, and so
they are the name of no element. -/
def endTagOf (content : List Char) : Token :=
  match content.reverse.dropWhile isSpace with
  | [] => .closing content
  | name => .closing name.reverse

/-- What follows `<!`: a comment, verbatim text or a document type. -/
def declaration (s : List Char) : Option (Option Token × List Char) :=
  if "--".toList.isPrefixOf s then (cut "-->".toList (s.drop 2)).map fun (_, r) => (none, r)
  else if "[CDATA[".toList.isPrefixOf s then
    (cut "]]>".toList (s.drop 7)).map fun (text, r) => (some (.verbatim text), r)
  else if (s.take 7).map Char.toUpper = "DOCTYPE".toList then
    match cutNested 0 (s.drop 7) with
    | some (content, r) => if content.all isSpace then none else some (none, r)
    | none => none
  else none

/-- What follows `<`: the token, if there is one, and the text behind the construct. -/
def construct : List Char → Option (Option Token × List Char)
  | '/' :: s => (cutTag none s).map fun (content, r) => (some (endTagOf content), r)
  | '!' :: s => declaration s
  | '?' :: '>' :: _ => none
  | '?' :: s => (cut "?>".toList s).map fun (_, r) => (none, r)
  | s => (cutTag none s).map fun (content, r) => (some (tagOf content), r)

theorem length_construct {s r : List Char} {t : Option Token} (h : construct s = some (t, r)) :
    r.length ≤ s.length := by
  unfold construct at h
  split at h
  · obtain ⟨⟨a, b⟩, h', heq⟩ := Option.map_eq_some_iff.mp h
    cases heq
    have := length_cutTag h'
    simp only [List.length_cons]
    omega
  · unfold declaration at h
    split at h
    · obtain ⟨⟨a, b⟩, h', heq⟩ := Option.map_eq_some_iff.mp h
      cases heq
      have := length_cut h'
      simp only [List.length_drop, List.length_cons] at *
      omega
    · split at h
      · obtain ⟨⟨a, b⟩, h', heq⟩ := Option.map_eq_some_iff.mp h
        cases heq
        have := length_cut h'
        simp only [List.length_drop, List.length_cons] at *
        omega
      · split at h
        · split at h
          · rename_i h'
            split at h
            · cases h
            · cases h
              have := length_cutNested h'
              simp only [List.length_drop, List.length_cons] at *
              omega
          · cases h
        · cases h
  · cases h
  · obtain ⟨⟨a, b⟩, h', heq⟩ := Option.map_eq_some_iff.mp h
    cases heq
    have := length_cut h'
    simp only [List.length_cons]
    omega
  · obtain ⟨⟨a, b⟩, h', heq⟩ := Option.map_eq_some_iff.mp h
    cases heq
    exact length_cutTag h'

/-- What may stand within a reference. -/
def inReference (c : Char) : Bool := c ≠ ';' && c ≠ '&' && c ≠ '<'

/-- The tokens of a text. -/
def lex : List Char → List Token
  | [] => []
  | '<' :: s =>
    match _h : construct s with
    | some (t, r) => t.toList ++ lex r
    | none => [.defect]
  | '&' :: s =>
    match _h : s.dropWhile inReference with
    | ';' :: r => .reference (s.takeWhile inReference) :: lex r
    | _ => [.defect]
  | c :: s => .char c :: lex s
termination_by s => s.length
decreasing_by
  · have := length_construct _h
    simp only [List.length_cons]
    omega
  · have hs := (List.dropWhile_suffix (l := s) inReference).length_le
    rw [_h] at hs
    simp only [List.length_cons] at *
    omega
  · simp

/-- The tokens of a document, which may start with a byte order mark. -/
def tokens (document : String) : List Token :=
  match document.toList with
  | '\uFEFF' :: s => lex s
  | s => lex s

end Mdf.Markup
