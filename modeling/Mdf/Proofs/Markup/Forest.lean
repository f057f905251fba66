import Mdf.Proofs.Markup.Comment

/-!
# Where fields come from

The tokens of a document that is parsed are those of exactly one forest: pieces of text, empty tags,
and elements with a content of their own, side by side (`parse_eq_ok_iff`, `tokens_append_inj`).  Any
element may become a field.  Its value is the text behind the last of its children that has an end
tag, which is all of its text if it has no children; of the elements of one local name the first one
for which that text is not blank is taken, in the order of the end tags.

So a field need not come from an element without children.  `onlyLeaves_iff` says when all of them do.
-/

namespace Mdf.Markup

/-- The text that a token stands for, if it stands for text. -/
def Token.text? : Token → Option String
  | .char c => some (String.singleton c)
  | .reference name => (resolve? name).map String.singleton
  | .verbatim text => some (String.ofList text)
  | .opening _ | .closing _ | .empty _ | .defect => none

/-- What stands between two tags, or in a document. -/
inductive Forest where
  | nil
  /-- A piece of text. -/
  | text (token : Token) (s : String) (h : token.text? = some s) (rest : Forest)
  /-- An empty tag. -/
  | empty (name : List Char) (rest : Forest)
  | element (name : List Char) (content rest : Forest)

namespace Forest

/-- The tokens of a forest. -/
def tokens : Forest → List Token
  | nil => []
  | text token _ _ rest => token :: rest.tokens
  | empty name rest => .empty name :: rest.tokens
  | element name content rest =>
    .opening name :: (content.tokens ++ .closing name :: rest.tokens)

/-- The whole text, that of the elements included. -/
def fullText : Forest → String
  | nil => ""
  | text _ s _ rest => s ++ rest.fullText
  | empty _ rest => rest.fullText
  | element _ content rest => content.fullText ++ rest.fullText

/-- The text behind the last element with an end tag, where `before` has been found so far. -/
def textFrom (before : String) : Forest → String
  | nil => before
  | text _ s _ rest => rest.textFrom (before ++ s)
  | empty _ rest => rest.textFrom before
  | element _ _ rest => rest.textFrom ""

/-- Whether there is nothing but text. -/
def isText : Forest → Bool
  | nil => true
  | text _ _ _ rest => rest.isText
  | empty _ _ | element _ _ _ => false

/-- The names of the outermost elements. -/
def roots : Forest → List (List Char)
  | nil => []
  | text _ _ _ rest => rest.roots
  | empty name rest | element name _ rest => name :: rest.roots

/-- An element with a content of its own. -/
structure Node where
  name : List Char
  content : Forest

/-- The elements with a content of their own, in the order of their end tags. -/
def nodes : Forest → List Node
  | nil => []
  | text _ _ _ rest | empty _ rest => rest.nodes
  | element name content rest => content.nodes ++ ⟨name, content⟩ :: rest.nodes

namespace Node

def localName (e : Node) : String := Comment.localName e.name

/-- Whether an element has no children. -/
def isLeaf (e : Node) : Bool := e.content.isText

/-- The text behind the last child with an end tag. -/
def lastText (e : Node) : String := e.content.textFrom ""

def hasText (e : Node) : Bool := !e.lastText.toList.all Text.isBlank

/-- The field that an element gives. -/
def field (e : Node) : String × String := (e.localName, Text.trim e.lastText)

end Node

/-- The first element of each local name that has text, in the order of the end tags. -/
def sources (f : Forest) : List Node :=
  (f.nodes.filter Node.hasText).eraseDupsBy fun d e => d.localName == e.localName

/-- The first local name that is not empty, where one may have been found before. -/
def rootFrom (root : String) (names : List (List Char)) : String :=
  names.foldl (fun root name => if root = "" then Comment.localName name else root) root

/-- The first local name of an outermost element that is not empty. -/
def root (f : Forest) : String := rootFrom "" f.roots

/-- Every one of the fields is the name and the whole text of an element without children. -/
def OnlyLeaves (f : Forest) (fields : List (String × String)) : Prop :=
  ∀ x ∈ fields, ∃ e ∈ f.nodes, e.isLeaf ∧ x = (e.localName, Text.trim e.content.fullText)

instance (f : Forest) (fields : List (String × String)) : Decidable (f.OnlyLeaves fields) :=
  inferInstanceAs (Decidable (∀ x ∈ fields, ∃ e ∈ f.nodes, _ ∧ _))

/-! ### The forest of tokens -/

/-- A token in front of a forest, if it is a piece of text. -/
def addText (token : Token) (f : Forest) : Forest :=
  match h : token.text? with
  | some s => text token s h f
  | none => f

/-- Divides tokens at the end tags that belong to no start tag among them: the forest in front of the
first one, and for each one its name and the forest behind it. -/
def divide : List Token → Forest × List Node
  | [] => (nil, [])
  | .opening name :: ts =>
    match divide ts with
    | (f, e :: rest) => (element name f e.content, rest)
    | (f, []) => (element name f nil, [])
  | .closing name :: ts => (nil, ⟨name, (divide ts).1⟩ :: (divide ts).2)
  | .empty name :: ts => (empty name (divide ts).1, (divide ts).2)
  | token :: ts => (addText token (divide ts).1, (divide ts).2)

/-- The forest of the tokens of a document. -/
def ofTokens (ts : List Token) : Forest := (divide ts).1

/-- The tokens that end elements, and what stands behind each end tag. -/
def endTokens (rest : List Node) : List Token :=
  rest.flatMap fun e => .closing e.name :: e.content.tokens

lemma addText_eq {token : Token} {s : String} (h : token.text? = some s) (f : Forest) :
    addText token f = text token s h f := by
  unfold addText
  split
  · rename_i s' h'
    cases h.symm.trans h'
    rfl
  · rename_i h'
    cases h.symm.trans h'

lemma divide_text {token : Token} {s : String} (h : token.text? = some s) (ts : List Token) :
    divide (token :: ts) = (text token s h (divide ts).1, (divide ts).2) := by
  rw [← addText_eq h]
  cases token with
  | opening name => cases h
  | closing name => cases h
  | empty name => cases h
  | char c => rfl
  | reference name => rfl
  | verbatim t => rfl
  | defect => rfl

/-- A forest is found in front of tokens that start with an end tag. -/
lemma divide_tokens {f : Forest} {ts : List Token} {rest : List Node} (h : divide ts = (nil, rest)) :
    divide (f.tokens ++ ts) = (f, rest) := by
  induction f generalizing ts rest with
  | nil => exact h
  | text token s hs f ih => rw [tokens, List.cons_append, divide_text hs, ih h]
  | empty name f ih => rw [tokens, List.cons_append, divide, ih h]
  | element name content f ihContent ih =>
    have hclose : divide (.closing name :: (f.tokens ++ ts)) = (nil, ⟨name, f⟩ :: rest) := by
      rw [divide, ih h]
    rw [tokens, List.cons_append, List.append_assoc, List.cons_append, divide, ihContent hclose]

/-- **A forest is determined by its tokens.** -/
theorem ofTokens_tokens (f : Forest) : ofTokens f.tokens = f := by
  have h : divide (f.tokens ++ []) = (f, []) := divide_tokens rfl
  rw [List.append_nil] at h
  rw [ofTokens, h]

/-! ### Parsing a forest -/

open Comment Partial

/-- The root behind elements that may stand within others. -/
def rootAfter (p : Partial) (names : List (List Char)) : String :=
  if p.stack = [] then rootFrom p.comment.root names else p.comment.root

/-- The name and the last text of each element. -/
def fields (f : Forest) : List (String × String) := f.nodes.map fun e => (e.localName, e.lastText)

lemma step_text {token : Token} {s : String} (h : token.text? = some s) (p : Partial) :
    p.step token = .ok ⟨p.comment, p.stack, p.text ++ s⟩ := by
  cases token with
  | char c =>
    cases h
    rw [← String.push_eq_append]
    rfl
  | verbatim t =>
    cases h
    rfl
  | reference name =>
    obtain ⟨c, hc, rfl⟩ := Option.map_eq_some_iff.mp h
    simp only [step, hc, String.push_eq_append]
  | opening name => cases h
  | closing name => cases h
  | empty name => cases h
  | defect => cases h

lemma step_empty (p : Partial) (name : List Char) :
    p.step (.empty name) = .ok ⟨(p.noteRoot name).comment, p.stack, p.text⟩ := by
  rw [← noteRoot_eq]
  rfl

lemma comment_noteRoot (p : Partial) (name : List Char) :
    (p.noteRoot name).comment = ⟨rootAfter p [name], p.comment.fields⟩ := by
  unfold noteRoot rootAfter rootFrom
  by_cases hs : p.stack = []
  · by_cases hr : p.comment.root = "" <;> simp [hs, hr]
  · simp [hs]

lemma rootAfter_cons (p : Partial) (name : List Char) (names : List (List Char)) (text : String)
    (fields : List (String × String)) :
    rootAfter ⟨⟨rootAfter p [name], fields⟩, p.stack, text⟩ names = rootAfter p (name :: names) := by
  unfold rootAfter rootFrom
  by_cases hs : p.stack = [] <;> simp [hs]

/-- The fields that a comment has afterwards do not depend on its root. -/
lemma exists_foldl_addField (found fields : List (String × String)) :
    ∃ kept, ∀ root, fields.foldl (fun c f => c.addField f.1 (Text.trim f.2)) (⟨root, found⟩ : Comment) =
      ⟨root, kept⟩ := by
  refine ⟨found ++ firsts ((nonBlank fields).filter fun f => !(found.lookup f.1).isSome), fun root => ?_⟩
  rw [foldl_addField]
  rfl

/-- **The tokens of a forest add the last texts of its elements**, and leave its own last text. -/
theorem foldlM_tokens (f : Forest) (p : Partial) :
    f.tokens.foldlM step p =
      .ok ⟨f.fields.foldl (fun c f => c.addField f.1 (Text.trim f.2))
        ⟨rootAfter p f.roots, p.comment.fields⟩, p.stack, f.textFrom p.text⟩ := by
  induction f generalizing p with
  | nil =>
    have hroot : rootAfter p [] = p.comment.root := by simp [rootAfter, rootFrom]
    rw [roots, hroot]
    rfl
  | text token s hs f ih =>
    rw [tokens, List.foldlM_cons, step_text hs, ok_bind, ih]
    rfl
  | empty name f ih =>
    rw [tokens, List.foldlM_cons, step_empty, ok_bind, ih, comment_noteRoot, rootAfter_cons]
    rfl
  | element name content f ihContent ih =>
    have hinner (c : Comment) : rootAfter ⟨c, name :: p.stack, ""⟩ content.roots = c.root := by
      simp [rootAfter]
    have hfields : (element name content f).fields =
        content.fields ++ (localName name, content.textFrom "") :: f.fields := by
      simp [fields, nodes, Node.localName, Node.lastText]
    -- the element is added behind those within it
    obtain ⟨kept, hkept⟩ := exists_foldl_addField p.comment.fields
      (content.fields ++ [(localName name, content.textFrom "")])
    have hadd := hkept (rootAfter p [name])
    rw [List.foldl_append, List.foldl_cons, List.foldl_nil] at hadd
    rw [tokens, List.foldlM_cons, step_opening, ok_bind, List.foldlM_append, ihContent, hinner,
      ok_bind, List.foldlM_cons, comment_noteRoot, step_closing, ok_bind, hadd, ih, rootAfter_cons,
      hfields, List.append_cons, List.foldl_append, hkept]
    rfl

/-- A piece of text that is parsed stands for a text. -/
lemma exists_text_of_step {token : Token} {p q : Partial} (ht : token.isText)
    (h : p.step token = .ok q) : ∃ s, token.text? = some s ∧ q.stack = p.stack := by
  cases token with
  | char c =>
    cases h
    exact ⟨_, rfl, rfl⟩
  | verbatim t =>
    cases h
    exact ⟨_, rfl, rfl⟩
  | reference name =>
    simp only [step] at h
    split at h
    · rename_i c hc
      cases h
      exact ⟨String.singleton c, by rw [Token.text?, hc]; rfl, rfl⟩
    · cases h
  | opening name => cases ht
  | closing name => cases ht
  | empty name => cases ht
  | defect => cases ht

/-- **What is parsed to the end is a forest**, with an end tag behind it for each element that was open
before. -/
theorem divide_of_foldlM {ts : List Token} {p q : Partial} (h : ts.foldlM step p = .ok q)
    (hq : q.stack = []) :
    ts = (divide ts).1.tokens ++ endTokens (divide ts).2 ∧ (divide ts).2.map Node.name = p.stack := by
  induction ts generalizing p with
  | nil =>
    cases h
    exact ⟨rfl, hq.symm⟩
  | cons token ts ih =>
    obtain ⟨p', hstep, hrest⟩ := bind_eq_ok_iff.mp h
    obtain ⟨hts, hstack⟩ := ih hrest
    have htext (ht : token.isText) : token :: ts =
        (divide (token :: ts)).1.tokens ++ endTokens (divide (token :: ts)).2 ∧
          (divide (token :: ts)).2.map Node.name = p.stack := by
      obtain ⟨s, hs, hstack'⟩ := exists_text_of_step ht hstep
      rw [divide_text hs]
      exact ⟨congrArg (token :: ·) hts, hstack.trans hstack'⟩
    cases token with
    | char c => exact htext rfl
    | reference name => exact htext rfl
    | verbatim t => exact htext rfl
    | empty name =>
      rw [step_empty] at hstep
      cases hstep
      exact ⟨congrArg (Token.empty name :: ·) hts, hstack⟩
    | opening name =>
      rw [step_opening] at hstep
      cases hstep
      -- the element ends at the first end tag behind it
      rw [divide]
      rcases hd : divide ts with ⟨f, _ | ⟨e, rest⟩⟩
      · rw [hd] at hstack
        cases hstack
      · rw [hd] at hts hstack
        obtain ⟨rfl, htail⟩ := List.cons.inj hstack
        refine ⟨?_, htail⟩
        rw [hts]
        simp [tokens, endTokens]
    | closing name =>
      simp only [step] at hstep
      split at hstep
      · rename_i top stack htop
        split at hstep
        · rename_i heq
          cases hstep
          rw [divide, htop, List.map_cons, hstack, ← heq]
          refine ⟨?_, rfl⟩
          rw [tokens, List.nil_append, endTokens, List.flatMap_cons]
          exact congrArg (Token.closing top :: ·) hts
        · cases hstep
      · cases hstep
    | defect => cases hstep

/-- What is parsed from the start is a forest. -/
lemma tokens_eq_of_foldlM {ts : List Token} {q : Partial} (h : ts.foldlM step start = .ok q)
    (hq : q.stack = []) : ts = (ofTokens ts).tokens := by
  obtain ⟨hts, hnames⟩ := divide_of_foldlM h hq
  have hrest : (divide ts).2 = [] := List.map_eq_nil_iff.mp hnames
  rwa [hrest, endTokens, List.flatMap_nil, List.append_nil] at hts

lemma foldlM_start (f : Forest) :
    f.tokens.foldlM step start = .ok ⟨ofFields f.root f.fields, [], f.textFrom ""⟩ := by
  have hroot : rootAfter start f.roots = f.root := if_pos rfl
  rw [foldlM_tokens, hroot]
  rfl

lemma finish_eq_ok_iff {p : Partial} {c : Comment} :
    p.finish = .ok c ↔ p.stack = [] ∧ p.comment.root ≠ "" ∧ c = p.comment := by
  unfold finish
  cases hlast : p.stack.getLast? with
  | some name =>
    have hne : p.stack ≠ [] := by
      rintro hnil
      simp [hnil] at hlast
    simp [hne]
  | none =>
    have hnil := List.getLast?_eq_none_iff.mp hlast
    by_cases hroot : p.comment.root = "" <;> simp [hnil, hroot, eq_comm]

lemma parse_eq_ok {document : String} {c : Comment} :
    parse document = .ok c ↔ Comment.ofTokens (Markup.tokens document) = .ok c := by
  unfold parse
  cases Comment.ofTokens (Markup.tokens document) <;> simp

/-- **A document is parsed exactly if its tokens are those of a forest** in which an outermost element
has a local name.  The comment keeps the last texts of the elements. -/
theorem parse_eq_ok_iff {document : String} {c : Comment} :
    parse document = .ok c ↔ ∃ f : Forest, Markup.tokens document = f.tokens ∧ f.root ≠ "" ∧
      c = ⟨f.root, firsts (nonBlank f.fields)⟩ := by
  rw [parse_eq_ok, Comment.ofTokens]
  constructor
  · intro h
    obtain ⟨q, hfold, hfinish⟩ := bind_eq_ok_iff.mp h
    obtain ⟨hstack, hroot, rfl⟩ := finish_eq_ok_iff.mp hfinish
    have htokens := tokens_eq_of_foldlM hfold hstack
    rw [htokens, foldlM_start, ofFields_eq] at hfold
    cases hfold
    exact ⟨_, htokens, hroot, rfl⟩
  · rintro ⟨f, htokens, hroot, rfl⟩
    rw [htokens, foldlM_start, ok_bind, ofFields_eq]
    exact finish_eq_ok_iff.mpr ⟨rfl, hroot, rfl⟩

/-! ### Elements that give a field -/

/-- Where there is nothing but text, all of it is behind the last element. -/
lemma textFrom_of_isText {f : Forest} (h : f.isText) (before : String) :
    f.textFrom before = before ++ f.fullText := by
  induction f generalizing before with
  | nil => exact String.append_empty.symm
  | text token s hs f ih => rw [textFrom, ih h, fullText, String.append_assoc]
  | empty name f => cases h
  | element name content f => cases h

/-- An element without children gives its whole text. -/
lemma Node.field_of_isLeaf {e : Node} (h : e.isLeaf) :
    e.field = (e.localName, Text.trim e.content.fullText) := by
  rw [field, lastText, textFrom_of_isText h, String.empty_append]

/-- **The fields that are kept** are those of the first element of each name that has text. -/
lemma firsts_nonBlank_fields (f : Forest) :
    firsts (nonBlank f.fields) = f.sources.map Node.field := by
  have hblank : nonBlank f.fields = (f.nodes.filter Node.hasText).map Node.field := by
    rw [nonBlank, fields, List.filter_map, List.map_map]
    rfl
  rw [hblank, firsts, eraseDupsBy_map]
  rfl

lemma mem_sources_iff {f : Forest} {e : Node} : e ∈ f.sources ↔
    (f.nodes.filter Node.hasText).find? (fun d => d.localName == e.localName) = some e :=
  mem_eraseDupsBy_iff Node.localName _ e

lemma mem_nodes_of_mem_sources {f : Forest} {e : Node} (h : e ∈ f.sources) : e ∈ f.nodes :=
  List.mem_of_mem_filter (List.mem_of_find?_eq_some (mem_sources_iff.mp h))

lemma onlyLeaves_map_field_iff (f : Forest) : f.OnlyLeaves (f.sources.map Node.field) ↔
    ∀ e ∈ f.sources, ¬e.isLeaf → ∃ d ∈ f.nodes, d.isLeaf ∧ d.field = e.field := by
  constructor
  · intro h e he _
    obtain ⟨d, hd, hleaf, hfield⟩ := h e.field (List.mem_map_of_mem he)
    exact ⟨d, hd, hleaf, by rw [hfield, Node.field_of_isLeaf hleaf]⟩
  · intro h x hx
    obtain ⟨e, he, rfl⟩ := List.mem_map.mp hx
    by_cases hleaf : e.isLeaf
    · exact ⟨e, mem_nodes_of_mem_sources he, hleaf, Node.field_of_isLeaf hleaf⟩
    · obtain ⟨d, hd, hleaf, hfield⟩ := h e he hleaf
      exact ⟨d, hd, hleaf, by rw [← hfield, Node.field_of_isLeaf hleaf]⟩

/-- **The fields of a comment come from the elements of its document** in the order of their end tags:
from the first element of each local name that has text behind the last of its children with an end
tag, and that text is the value.  So every field is the whole text of an element without children
exactly if each parent that gives one repeats what such an element gives. -/
theorem onlyLeaves_iff {document : String} {c : Comment} (h : parse document = .ok c) :
    ∃ f : Forest, (∀ g : Forest, Markup.tokens document = g.tokens ↔ g = f) ∧
      c = ⟨f.root, f.sources.map Node.field⟩ ∧
      (∀ e, e ∈ f.sources ↔
        (f.nodes.filter Node.hasText).find? (fun d => d.localName == e.localName) = some e) ∧
      (f.OnlyLeaves c.fields ↔
        ∀ e ∈ f.sources, ¬e.isLeaf → ∃ d ∈ f.nodes, d.isLeaf ∧ d.field = e.field) := by
  obtain ⟨f, htokens, -, rfl⟩ := parse_eq_ok_iff.mp h
  have honly (g : Forest) : Markup.tokens document = g.tokens ↔ g = f := by
    constructor
    · intro hg
      rw [← ofTokens_tokens g, ← hg, htokens, ofTokens_tokens]
    · rintro rfl
      exact htokens
  refine ⟨f, honly, by rw [firsts_nonBlank_fields], fun _ => mem_sources_iff, ?_⟩
  rw [firsts_nonBlank_fields]
  exact onlyLeaves_map_field_iff f

/-! ### A parent with text -/

/-- A text, one character after the other. -/
def ofChars : List Char → Forest
  | [] => nil
  | c :: s => text (.char c) (String.singleton c) rfl (ofChars s)

/-- A parent with an empty tag within its text, and a child with text before the end of it. -/
def mixed : Forest :=
  element "a".toList
    (text (.char 'x') "x" rfl
      (empty "b".toList (element "c".toList (ofChars "y".toList) (ofChars "z".toList)))) nil

lemma tokens_mixed : Markup.tokens "<a>x<b/><c>y</c>z</a>" = mixed.tokens := by decide +kernel

lemma parse_mixed : parse "<a>x<b/><c>y</c>z</a>" = .ok ⟨"a", [("c", "y"), ("a", "z")]⟩ :=
  parse_eq_ok_iff.mpr ⟨mixed, tokens_mixed, by decide, by decide⟩

theorem onlyLeaves_iff_mixed :
    parse "<a>x<b/><c>y</c>z</a>" = .ok ⟨"a", [("c", "y"), ("a", "z")]⟩ ∧
      ∃ f : Forest, (∀ g : Forest, Markup.tokens "<a>x<b/><c>y</c>z</a>" = g.tokens ↔ g = f) ∧
        f.sources.map Node.field = [("c", "y"), ("a", "z")] ∧
        f.sources.map Node.isLeaf = [true, false] ∧
        ¬f.OnlyLeaves [("c", "y"), ("a", "z")] := by
  obtain ⟨f, hf, hc, -, honly⟩ := onlyLeaves_iff parse_mixed
  obtain rfl := (hf mixed).mp tokens_mixed
  refine ⟨parse_mixed, mixed, hf, (congrArg Comment.fields hc).symm, by decide, fun h => ?_⟩
  exact absurd (honly.mp h) (by decide)

/-- **The text of a parent becomes a field**: it stands behind the last child. -/
theorem not_onlyLeaves_tail :
    parse "<HDcomment><TX>x</TX>tail</HDcomment>" =
        .ok ⟨"HDcomment", [("TX", "x"), ("HDcomment", "tail")]⟩ ∧
      ∀ f : Forest, Markup.tokens "<HDcomment><TX>x</TX>tail</HDcomment>" = f.tokens →
        ¬f.OnlyLeaves [("TX", "x"), ("HDcomment", "tail")] := by
  have htokens : Markup.tokens "<HDcomment><TX>x</TX>tail</HDcomment>" =
      (element "HDcomment".toList
        (element "TX".toList (ofChars "x".toList) (ofChars "tail".toList)) nil).tokens := by
    decide +kernel
  refine ⟨parse_eq_ok_iff.mpr ⟨_, htokens, by decide, by decide⟩, fun f hf => ?_⟩
  rw [htokens] at hf
  rw [← ofTokens_tokens f, ← hf, ofTokens_tokens]
  decide

end Forest

end Mdf.Markup
