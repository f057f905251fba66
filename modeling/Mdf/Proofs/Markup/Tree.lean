import Mdf.Proofs.Markup.Comment

/-!
# Trees of elements

A document is parsed to the leaves of its tree, whatever its form: of the leaves that are not blank
the first one of each local name is kept (`parse_tree`).  Spaces and line breaks may stand between
any two tags, and a tag may have a namespace and attributes.

The text since the last tag is blank wherever an element starts or a node ends, so nodes and empty
tags add nothing; this is what the induction over the tree carries along.
-/

namespace Mdf.Markup

/-! ### Names -/

/-- A name without a colon. -/
structure Name where
  chars : List Char
  ne_nil : chars ≠ []
  all_isTagChar : chars.all fun c => isTagChar c && c != ':'

namespace Name

lemma isTagName (n : Name) : IsTagName n.chars := by
  refine ⟨n.ne_nil, List.all_eq_true.mpr fun c hc => ?_⟩
  exact (Bool.and_eq_true_iff.mp (List.all_eq_true.mp n.all_isTagChar c hc)).1

lemma ne_colon (n : Name) {c : Char} (hc : c ∈ n.chars) : c ≠ ':' :=
  bne_iff_ne.mp (Bool.and_eq_true_iff.mp (List.all_eq_true.mp n.all_isTagChar c hc)).2

end Name

/-- A name that may have a namespace in front of it. -/
structure QualifiedName where
  space : Option Name
  name : Name

namespace QualifiedName

/-- The name as it stands in a tag. -/
def chars (n : QualifiedName) : List Char :=
  n.space.elim [] (fun s => s.chars ++ [':']) ++ n.name.chars

/-- The name without its namespace. -/
def localPart (n : QualifiedName) : String := String.ofList n.name.chars

lemma isTagName (n : QualifiedName) : IsTagName n.chars := by
  have hname := n.name.isTagName
  have hspace : (n.space.elim [] fun s => s.chars ++ [':']).all isTagChar := by
    cases n.space with
    | none => rfl
    | some s => rw [Option.elim_some, List.all_append, s.isTagName.2]; rfl
  exact ⟨fun hnil => hname.1 (List.append_eq_nil_iff.mp hnil).2,
    List.all_append.trans (by rw [hspace, hname.2]; rfl)⟩

lemma localName_chars (n : QualifiedName) : Comment.localName n.chars = n.localPart := by
  have hcolon (m : Name) (r : List Char) :
      (m.chars ++ r).dropWhile (· ≠ ':') = r.dropWhile (· ≠ ':') :=
    List.dropWhile_append_of_pos fun c hc => decide_eq_true (m.ne_colon hc)
  have hname := hcolon n.name []
  rw [List.append_nil] at hname
  unfold Comment.localName chars localPart
  cases n.space with
  | none => rw [Option.elim_none, List.nil_append, hname]; rfl
  | some s => rw [Option.elim_some, List.append_assoc, hcolon s]; rfl

lemma localPart_ne_empty (n : QualifiedName) : n.localPart ≠ "" := fun h =>
  n.name.ne_nil (String.ofList_eq_empty_iff.mp h)

end QualifiedName

/-! ### Trees -/

/-- What is between two tags: spaces, tabs and line breaks. -/
structure Gap where
  chars : List Char
  all_isSpace : chars.all isSpace

/-- The name of an element, and its attributes. -/
structure Tag where
  name : QualifiedName
  attributes : List (QualifiedName × String)

mutual

/-- An element: a text between two tags, a tag alone, or other elements between two tags. -/
inductive Element where
  | leaf (tag : Tag) (text : String)
  | empty (tag : Tag)
  | node (tag : Tag) (content : Content)

/-- Elements, with gaps around each of them. -/
inductive Content where
  | nil (gap : Gap)
  | cons (gap : Gap) (element : Element) (rest : Content)

end

namespace Tag

/-- The inside of a tag that starts an element. -/
def front (t : Tag) : List Char :=
  t.name.chars ++ settings (t.attributes.map fun a => (a.1.chars, a.2.toList))

/-- What closes the element. -/
def back (t : Tag) : List Char := '<' :: '/' :: (t.name.chars ++ ['>'])

end Tag

def Element.tag : Element → Tag
  | .leaf tag _ | .empty tag | .node tag _ => tag

mutual

/-- An element as it is written. -/
def Element.render : Element → List Char
  | .leaf tag text => '<' :: (tag.front ++ '>' :: (text.toList.flatMap escapeChar ++ tag.back))
  | .empty tag => '<' :: (tag.front ++ ['/', '>'])
  | .node tag content => '<' :: (tag.front ++ '>' :: (content.render ++ tag.back))

/-- Elements as they are written. -/
def Content.render : Content → List Char
  | .nil gap => gap.chars
  | .cons gap element rest => gap.chars ++ element.render ++ rest.render

end

/-- A document: one element, with a gap before it and one behind it. -/
def Element.document (root : Element) (before after : Gap) : String :=
  String.ofList (before.chars ++ (root.render ++ after.chars))

example :
    Element.document
      (.node ⟨⟨none, ⟨['H', 'D'], by decide, by decide⟩⟩, []⟩
        (.cons ⟨['\n', ' '], by decide⟩
          (.leaf ⟨⟨some ⟨['m'], by decide, by decide⟩, ⟨['T', 'X'], by decide, by decide⟩⟩, []⟩
            "a & b")
          (.nil ⟨['\n'], by decide⟩)))
      ⟨[], by decide⟩ ⟨['\n'], by decide⟩ =
    "<HD>\n <m:TX>a &amp; b</m:TX>\n</HD>\n" := by decide

mutual

/-- The local name and the text of each leaf, in the order of the document. -/
def Element.leaves : Element → List (String × String)
  | .leaf tag text => [(tag.name.localPart, text)]
  | .empty _ => []
  | .node _ content => content.leaves

/-- The same for several elements. -/
def Content.leaves : Content → List (String × String)
  | .nil _ => []
  | .cons _ element rest => element.leaves ++ rest.leaves

end

/-! ### Tokens -/

mutual

/-- The tokens of an element. -/
def Element.tokens : Element → List Token
  | .leaf tag text => Comment.leafTokens tag.name.chars text.toList
  | .empty tag => [.empty tag.name.chars]
  | .node tag content =>
    .opening tag.name.chars :: (content.tokens ++ [.closing tag.name.chars])

/-- The tokens of elements. -/
def Content.tokens : Content → List Token
  | .nil gap => gap.chars.map .char
  | .cons gap element rest => gap.chars.map .char ++ (element.tokens ++ rest.tokens)

end

namespace Tag

variable (t : Tag) (r : List Char)

lemma isTagName_attributes :
    ∀ a ∈ t.attributes.map fun a => (a.1.chars, a.2.toList), IsTagName a.1 := by
  intro a ha
  obtain ⟨b, -, rfl⟩ := List.mem_map.mp ha
  exact b.1.isTagName

lemma lex_front : lex ('<' :: (t.front ++ '>' :: r)) = .opening t.name.chars :: lex r :=
  lex_opening_attributes t.name.isTagName t.isTagName_attributes r

lemma lex_front_slash : lex ('<' :: (t.front ++ '/' :: '>' :: r)) = .empty t.name.chars :: lex r :=
  lex_empty t.name.isTagName t.isTagName_attributes r

lemma lex_back : lex (t.back ++ r) = .closing t.name.chars :: lex r := by
  have hback : t.back ++ r = '<' :: '/' :: (t.name.chars ++ '>' :: r) := by simp [back]
  rw [hback, lex_closing t.name.isTagName]

end Tag

lemma Gap.lex_chars (g : Gap) (r : List Char) :
    lex (g.chars ++ r) = g.chars.map .char ++ lex r := by
  obtain ⟨s, hs⟩ := g
  dsimp only
  induction s with
  | nil => rfl
  | cons c s ih =>
    rw [List.all_cons, Bool.and_eq_true_iff] at hs
    have hl : c ≠ '<' := by rintro rfl; exact absurd hs.1 (by decide)
    have ha : c ≠ '&' := by rintro rfl; exact absurd hs.1 (by decide)
    rw [List.cons_append, lex_char hl ha, ih hs.2, List.map_cons, List.cons_append]

mutual

/-- **An element is lexed to its tokens**, whatever follows it. -/
theorem Element.lex_render (e : Element) (r : List Char) :
    lex (e.render ++ r) = e.tokens ++ lex r := by
  cases e with
  | leaf tag text =>
    have hrender : (Element.leaf tag text).render ++ r = '<' :: (tag.front ++ '>' ::
        (text.toList.flatMap escapeChar ++ (tag.back ++ r))) := by simp [Element.render]
    rw [hrender, tag.lex_front, lex_escape, tag.lex_back, Element.tokens, Comment.leafTokens]
    simp
  | empty tag =>
    have hrender : (Element.empty tag).render ++ r = '<' :: (tag.front ++ '/' :: '>' :: r) := by
      simp [Element.render]
    rw [hrender, tag.lex_front_slash, Element.tokens, List.singleton_append]
  | node tag content =>
    have hrender : (Element.node tag content).render ++ r = '<' :: (tag.front ++ '>' ::
        (content.render ++ (tag.back ++ r))) := by simp [Element.render]
    rw [hrender, tag.lex_front, content.lex_render, tag.lex_back, Element.tokens]
    simp

theorem Content.lex_render (c : Content) (r : List Char) :
    lex (c.render ++ r) = c.tokens ++ lex r := by
  cases c with
  | nil gap => rw [Content.render, gap.lex_chars, Content.tokens]
  | cons gap element rest =>
    rw [Content.render, List.append_assoc, List.append_assoc, gap.lex_chars, element.lex_render,
      rest.lex_render, Content.tokens, List.append_assoc, List.append_assoc]

end

/-! ### Parsing -/

open Comment Partial

lemma isBlank_of_isSpace {c : Char} (h : isSpace c) : Text.isBlank c := by
  simp only [isSpace, Bool.or_eq_true, beq_iff_eq] at h
  rcases h with ((rfl | rfl) | rfl) | rfl <;> decide

/-- A gap adds nothing to a text but blanks. -/
lemma Gap.foldlM_chars (g : Gap) {p : Partial} (hp : p.text.toList.all Text.isBlank) :
    ∃ text, text.toList.all Text.isBlank ∧
      (g.chars.map Token.char).foldlM step p = .ok ⟨p.comment, p.stack, text⟩ := by
  obtain ⟨s, hs⟩ := g
  dsimp only
  induction s generalizing p with
  | nil => exact ⟨p.text, hp, rfl⟩
  | cons c s ih =>
    rw [List.all_cons, Bool.and_eq_true_iff] at hs
    have hpush : (p.text.push c).toList.all Text.isBlank := by
      rw [String.toList_push, List.all_append, hp]
      simpa using isBlank_of_isSpace hs.1
    exact ih hpush hs.2

mutual

/-- **The tokens of an element add its leaves** to a comment, and leave no text behind. -/
theorem Element.foldlM_tokens (e : Element) {p : Partial} (hp : p.text.toList.all Text.isBlank) :
    ∃ text, text.toList.all Text.isBlank ∧ e.tokens.foldlM step p =
      .ok ⟨e.leaves.foldl (fun c f => c.addField f.1 (Text.trim f.2))
        (p.noteRoot e.tag.name.chars).comment, p.stack, text⟩ := by
  cases e with
  | leaf tag text =>
    refine ⟨"", rfl, ?_⟩
    rw [Element.tokens, foldlM_leafTokens, tag.name.localName_chars]
    rfl
  | empty tag =>
    refine ⟨p.text, hp, ?_⟩
    have hstep : p.step (.empty tag.name.chars) = .ok (p.noteRoot tag.name.chars) := rfl
    rw [Element.tokens, List.foldlM_cons, hstep, ok_bind, noteRoot_eq]
    rfl
  | node tag content =>
    -- what stands before the end tag is blank, so the node is no field itself
    obtain ⟨text, htext, hcontent⟩ := content.foldlM_tokens
      (p := ⟨(p.noteRoot tag.name.chars).comment, tag.name.chars :: p.stack, ""⟩) (by simp) rfl
    have htrim : Text.trim text = "" := Text.trim_eq_empty_iff.mpr htext
    refine ⟨"", rfl, ?_⟩
    rw [Element.tokens, List.foldlM_cons, step_opening, ok_bind, List.foldlM_append, hcontent,
      ok_bind, List.foldlM_cons, step_closing, htrim, addField, if_pos (.inl rfl)]
    rfl

theorem Content.foldlM_tokens (c : Content) {p : Partial} (hs : p.stack ≠ [])
    (hp : p.text.toList.all Text.isBlank) :
    ∃ text, text.toList.all Text.isBlank ∧ c.tokens.foldlM step p =
      .ok ⟨c.leaves.foldl (fun c f => c.addField f.1 (Text.trim f.2)) p.comment, p.stack, text⟩ := by
  cases c with
  | nil gap => exact gap.foldlM_chars hp
  | cons gap element rest =>
    obtain ⟨t₁, h₁, hgap⟩ := gap.foldlM_chars hp
    obtain ⟨t₂, h₂, helement⟩ := element.foldlM_tokens (p := ⟨p.comment, p.stack, t₁⟩) h₁
    rw [noteRoot_of_stack (by exact hs)] at helement
    obtain ⟨t₃, h₃, hrest⟩ := rest.foldlM_tokens (p := ⟨_, p.stack, t₂⟩) hs h₂
    refine ⟨t₃, h₃, ?_⟩
    rw [Content.tokens, List.foldlM_append, hgap, ok_bind, List.foldlM_append, helement, ok_bind,
      hrest, Content.leaves, List.foldl_append]

end

lemma Element.tokens_document (root : Element) (before after : Gap) :
    Markup.tokens (root.document before after) =
      before.chars.map .char ++ (root.tokens ++ after.chars.map .char) := by
  have hhead : (root.document before after).toList.head? ≠ some '\uFEFF' := by
    rw [document, String.toList_ofList]
    obtain ⟨s, hs⟩ := before
    cases s with
    | nil => cases root <;> exact head?_ne_mark _
    | cons c s =>
      rw [List.all_cons, Bool.and_eq_true_iff] at hs
      rintro ⟨⟩
      exact absurd hs.1 (by decide)
  have hafter := after.lex_chars []
  rw [List.append_nil, lex, List.append_nil] at hafter
  rw [tokens_eq hhead, document, String.toList_ofList, before.lex_chars, root.lex_render, hafter]

/-- **A document is parsed to the leaves of its tree**: of those that are not blank the first one of
each local name is kept, in the order of the document. -/
theorem parse_tree (root : Element) (before after : Gap) :
    parse (root.document before after) =
      .ok ⟨root.tag.name.localPart, firsts (nonBlank root.leaves)⟩ := by
  have hnote (text : String) : (Partial.noteRoot ⟨⟨"", []⟩, [], text⟩ root.tag.name.chars).comment =
      ⟨root.tag.name.localPart, []⟩ := by
    rw [noteRoot, if_pos ⟨rfl, rfl⟩, root.tag.name.localName_chars]
  obtain ⟨t₁, h₁, hbefore⟩ := before.foldlM_chars (p := start) rfl
  obtain ⟨t₂, h₂, hroot⟩ := root.foldlM_tokens (p := ⟨⟨"", []⟩, [], t₁⟩) h₁
  rw [hnote, ← ofFields, ofFields_eq] at hroot
  obtain ⟨t₃, -, hafter⟩ := after.foldlM_chars
    (p := ⟨⟨root.tag.name.localPart, firsts (nonBlank root.leaves)⟩, [], t₂⟩) h₂
  have hfold : (tokens (root.document before after)).foldlM step start =
      .ok ⟨⟨root.tag.name.localPart, firsts (nonBlank root.leaves)⟩, [], t₃⟩ := by
    rw [root.tokens_document, List.foldlM_append, hbefore, ok_bind, List.foldlM_append]
    exact (congrArg (· >>= _) hroot).trans hafter
  rw [parse, ofTokens, hfold, ok_bind, finish]
  simp only [List.getLast?_nil, if_neg root.tag.name.localPart_ne_empty]

end Mdf.Markup
