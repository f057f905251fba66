import Mdf.Proofs.Markup.Fields
import Mdf.Proofs.Markup.Token
import Mdf.Proofs.Result
import Mdf.Proofs.Text.Utf8

/-!
# Reading back comments

A document that was written is parsed to its fields, whatever their texts are (`parse_document`), so
the two comments of a new file are read back but for blanks (`parse_written`).  The document of a file
header is kept up to its first U+0000, and it has one if the text of the comment has one; what is left
then breaks off within an element (`parse_headerDocument_error`).
-/

namespace Mdf.Comment

open Markup

/-! ### Steps -/

namespace Partial

variable {p q : Partial} {name : List Char}

lemma step_escapedToken (p : Partial) (c : Char) :
    p.step (escapedToken c) = .ok { p with text := p.text.push c } := by
  rcases escapeChar_cases c with ⟨name, hmem, -, ht⟩ | ⟨-, ht, -, -⟩
  · rw [ht]
    simp only [step, resolve?_of_mem hmem]
  · rw [ht]
    rfl

/-- The tokens of an escaped text add it to the text. -/
lemma foldlM_escapedToken (p : Partial) (s : List Char) :
    (s.map escapedToken).foldlM step p = .ok { p with text := p.text ++ String.ofList s } := by
  induction s generalizing p with
  | nil => rw [String.ofList_nil, String.append_empty]; rfl
  | cons c s ih =>
    have hpush : p.text.push c ++ String.ofList s = p.text ++ String.ofList (c :: s) := by
      rw [String.push_eq_append, String.ofList_cons, String.append_assoc]
    rw [List.map_cons, List.foldlM_cons, step_escapedToken, ok_bind, ih, hpush]

lemma noteRoot_of_stack (h : p.stack ≠ []) : p.noteRoot name = p := if_neg fun hc => h hc.2

lemma noteRoot_eq (p : Partial) (name : List Char) :
    p.noteRoot name = ⟨(p.noteRoot name).comment, p.stack, p.text⟩ := by
  unfold noteRoot
  split <;> rfl

end Partial

/-- A name without a colon is local. -/
lemma localName_of_isName {name : List Char} (h : IsName name) :
    localName name = String.ofList name := by
  have hd : name.dropWhile (· ≠ ':') = [] :=
    List.dropWhile_eq_nil_iff.mpr fun x hx => by simpa using h.ne hx (by decide)
  unfold localName
  rw [hd]

/-! ### Tokens of a document -/

/-- The tokens of an element that holds a text. -/
def leafTokens (name text : List Char) : List Token :=
  .opening name :: (text.map escapedToken ++ [.closing name])

/-- The start of a document, up to its fields. -/
def prologue (root : List Char) : List Char :=
  '<' :: (root ++ " xmlns=\"http://www.asam.net/mdf/v4\">".toList)

lemma toList_leaf (name text : String) :
    (leaf name text).toList = '<' :: (name.toList ++ '>' :: (text.toList.flatMap escapeChar ++
      '<' :: '/' :: (name.toList ++ ['>']))) := by
  simp [leaf, escape]

lemma toList_document (root : String) (fields : List (String × String)) :
    (document root fields).toList = prologue root.toList ++
      ((fields.flatMap fun f => (leaf f.1 f.2).toList) ++ '<' :: '/' :: (root.toList ++ ['>'])) := by
  simp [document, prologue, xmlNamespace, List.flatMap_map]

lemma lex_prologue {root : List Char} (h : IsName root) (r : List Char) :
    lex (prologue root ++ r) = .opening root :: lex r := by
  have hnamespace : " xmlns=\"http://www.asam.net/mdf/v4\"".toList =
      settings [("xmlns".toList, xmlNamespace.toList)] := by decide
  have hprologue : prologue root ++ r =
      '<' :: (root ++ settings [("xmlns".toList, xmlNamespace.toList)] ++ '>' :: r) := by
    rw [← hnamespace]
    simp [prologue]
  have hxmlns : IsName "xmlns".toList := by decide
  rw [hprologue, lex_opening_attributes h.isTagName (by simpa using hxmlns.isTagName)]

lemma lex_leaf {name : String} (h : IsName name.toList) (text : String) (r : List Char) :
    lex ((leaf name text).toList ++ r) = leafTokens name.toList text.toList ++ lex r := by
  have hs : (leaf name text).toList ++ r = '<' :: (name.toList ++ '>' ::
      (text.toList.flatMap escapeChar ++ '<' :: '/' :: (name.toList ++ '>' :: r))) := by
    rw [toList_leaf]
    simp
  rw [hs, lex_opening h.isTagName, lex_escape, lex_closing h.isTagName, leafTokens]
  simp

lemma lex_fields {fields : List (String × String)} (h : ∀ f ∈ fields, IsName f.1.toList)
    (r : List Char) :
    lex ((fields.flatMap fun f => (leaf f.1 f.2).toList) ++ r) =
      (fields.flatMap fun f => leafTokens f.1.toList f.2.toList) ++ lex r := by
  induction fields with
  | nil => rfl
  | cons f fields ih =>
    obtain ⟨hf, hfields⟩ := List.forall_mem_cons.mp h
    rw [List.flatMap_cons, List.append_assoc, lex_leaf hf, ih hfields, List.flatMap_cons,
      List.append_assoc]

/-- A tag is no byte order mark. -/
lemma head?_ne_mark (r : List Char) : ('<' :: r).head? ≠ some '\uFEFF' := by
  rw [List.head?_cons]
  decide

/-- The tokens of a document without a byte order mark. -/
lemma tokens_eq {document : String} (h : document.toList.head? ≠ some '\uFEFF') :
    tokens document = lex document.toList := by
  unfold tokens
  split
  · rename_i hd
    rw [hd] at h
    exact absurd rfl h
  · rfl

/-! ### Parsing -/

open Partial

lemma step_opening (p : Partial) (name : List Char) :
    p.step (.opening name) = .ok ⟨(p.noteRoot name).comment, name :: p.stack, ""⟩ := by
  simp only [step, noteRoot]
  split <;> rfl

lemma step_closing (c : Comment) (name : List Char) (stack : List (List Char)) (text : String) :
    Partial.step ⟨c, name :: stack, text⟩ (.closing name) =
      .ok ⟨c.addField (localName name) (Text.trim text), stack, ""⟩ := if_pos rfl

/-- The tokens of a leaf add it as a field. -/
lemma foldlM_leafTokens (p : Partial) (name : List Char) (text : String) :
    (leafTokens name text.toList).foldlM step p =
      .ok ⟨(p.noteRoot name).comment.addField (localName name) (Text.trim text), p.stack, ""⟩ := by
  rw [leafTokens, List.foldlM_cons, step_opening, ok_bind, List.foldlM_append, foldlM_escapedToken,
    ok_bind, String.empty_append, String.ofList_toList, List.foldlM_cons, step_closing]
  rfl

lemma foldlM_fields {p : Partial} (hp : p.stack ≠ []) {fields : List (String × String)}
    (h : ∀ f ∈ fields, IsName f.1.toList) (ht : p.text = "") :
    (fields.flatMap fun f => leafTokens f.1.toList f.2.toList).foldlM step p =
      .ok { p with comment := fields.foldl (fun c f => c.addField f.1 (Text.trim f.2)) p.comment } := by
  induction fields generalizing p with
  | nil => rfl
  | cons f fields ih =>
    obtain ⟨hf, hfields⟩ := List.forall_mem_cons.mp h
    rw [List.flatMap_cons, List.foldlM_append, foldlM_leafTokens, noteRoot_of_stack hp,
      localName_of_isName hf, String.ofList_toList, ok_bind, ih (by exact hp) hfields rfl,
      List.foldl_cons, ht]

lemma step_root {root : String} (h : IsName root.toList) :
    start.step (.opening root.toList) = .ok ⟨⟨root, []⟩, [root.toList], ""⟩ := by
  simp [step, start, noteRoot, localName_of_isName h]

variable {root : String} {fields : List (String × String)}

lemma tokens_document (h : IsName root.toList) (hf : ∀ f ∈ fields, IsName f.1.toList) :
    tokens (document root fields) = .opening root.toList ::
      ((fields.flatMap fun f => leafTokens f.1.toList f.2.toList) ++ [.closing root.toList]) := by
  rw [tokens_eq (by rw [toList_document]; exact head?_ne_mark _), toList_document, lex_prologue h,
    lex_fields hf, lex_closing h.isTagName, lex]

/-- **A document is parsed to its fields**, whatever their texts are. -/
theorem parse_document (h : IsName root.toList) (hf : ∀ f ∈ fields, IsName f.1.toList) :
    parse (document root fields) = .ok (ofFields root fields) := by
  have hroot : (ofFields root fields).root = root := by rw [ofFields_eq]
  have hne : root ≠ "" := fun he => h.1 (by rw [he]; rfl)
  have hclose : Partial.step ⟨ofFields root fields, [root.toList], ""⟩ (.closing root.toList) =
      .ok ⟨ofFields root fields, [], ""⟩ := by
    have htrim : Text.trim "" = "" := by decide
    rw [step_closing, htrim, addField, if_pos (.inl rfl)]
  have hfields := foldlM_fields (p := ⟨⟨root, []⟩, [root.toList], ""⟩) (by simp) hf rfl
  have hfold : (tokens (document root fields)).foldlM step start =
      .ok ⟨ofFields root fields, [], ""⟩ := by
    rw [tokens_document h hf, List.foldlM_cons, step_root h, ok_bind, List.foldlM_append, hfields,
      ok_bind]
    exact (List.foldlM_cons ..).trans (by rw [← ofFields, hclose]; rfl)
  have hfinish : (Partial.mk (ofFields root fields) [] "").finish = .ok (ofFields root fields) := by
    simp only [finish, List.getLast?_nil, hroot, if_neg hne]
  rw [parse, ofTokens, hfold, ok_bind, hfinish]

/-! ### Documents of a new file -/

/-- A document of fields with different names is parsed to those that are not blank. -/
lemma parse_document_of_nodup (h : IsName root.toList) (hf : ∀ f ∈ fields, IsName f.1.toList)
    (hnodup : (fields.map Prod.fst).Nodup) :
    parse (document root fields) = .ok ⟨root, nonBlank fields⟩ := by
  have hfirsts : firsts (nonBlank fields) = nonBlank fields :=
    firsts_of_nodup (hnodup.sublist (sublist_nonBlank fields))
  rw [parse_document h hf, ofFields_eq, hfirsts]

/-- The tokens of a document that are no text. -/
def tags (document : String) : List Token := (tokens document).filter fun t => !t.isText

lemma filter_leafTokens (name text : List Char) :
    (leafTokens name text).filter (fun t => !t.isText) = [.opening name, .closing name] := by
  have htext : (text.map escapedToken).filter (fun t => !t.isText) = [] := by
    rw [List.filter_map, List.map_eq_nil_iff, List.filter_eq_nil_iff]
    intro c _
    simp [isText_escapedToken c]
  rw [leafTokens, List.filter_cons_of_pos rfl, List.filter_append, htext]
  rfl

/-- **The elements of a document do not depend on its texts.** -/
theorem tags_document (h : IsName root.toList) (hf : ∀ f ∈ fields, IsName f.1.toList) :
    tags (document root fields) = .opening root.toList ::
      ((fields.flatMap fun f => [.opening f.1.toList, .closing f.1.toList]) ++
        [.closing root.toList]) := by
  rw [tags, tokens_document h hf, List.filter_cons_of_pos rfl, List.filter_append,
    List.filter_flatMap]
  simp only [filter_leafTokens]
  rfl

/-- **The comments of a new file are read back**, without blanks around their texts and without the
fields that are blank.  No text adds or ends an element. -/
theorem parse_written (t a b c d : String) :
    parse (headerDocument t) =
      .ok ⟨"HDcomment", if t.toList.all Text.isBlank then [] else [("TX", Text.trim t)]⟩ ∧
    parse (historyDocument a b c d) =
      .ok ⟨"FHcomment",
        nonBlank [("TX", a), ("tool_id", b), ("tool_vendor", c), ("tool_version", d)]⟩ ∧
    tags (headerDocument t) =
      [.opening "HDcomment".toList, .opening "TX".toList, .closing "TX".toList,
        .closing "HDcomment".toList] ∧
    tags (historyDocument a b c d) =
      .opening "FHcomment".toList ::
        ((["TX", "tool_id", "tool_vendor", "tool_version"].flatMap fun name =>
          [.opening name.toList, .closing name.toList]) ++ [.closing "FHcomment".toList]) := by
  have hroots : IsName "HDcomment".toList ∧ IsName "FHcomment".toList := by decide
  have hnames : IsName "TX".toList ∧ IsName "tool_id".toList ∧ IsName "tool_vendor".toList ∧
      IsName "tool_version".toList := by decide
  have hheader : ∀ f ∈ [(textField, t)], IsName f.1.toList := by
    simpa [textField] using hnames.1
  have hhistory : ∀ f ∈ [(textField, a), ("tool_id", b), ("tool_vendor", c), ("tool_version", d)],
      IsName f.1.toList := by
    simpa [textField] using hnames
  have hdifferent : ["TX", "tool_id", "tool_vendor", "tool_version"].Nodup := by decide
  refine ⟨?_, ?_, tags_document hroots.1 hheader, tags_document hroots.2 hhistory⟩
  · rw [headerDocument, parse_document_of_nodup hroots.1 hheader (by simp), nonBlank_cons]
    simp only [Text.trim_eq_empty_iff]
    rfl
  · exact parse_document_of_nodup hroots.2 hhistory hdifferent

/-! ### U+0000 -/

lemma nul_notMem_escape {text : String} (h : Utf8.NulFree text) :
    '\x00' ∉ text.toList.flatMap escapeChar := by
  intro hmem
  obtain ⟨c, hc, hn⟩ := List.mem_flatMap.mp hmem
  exact h ((nul_mem_escapeChar c).mp hn ▸ hc)

/-- A document of texts without U+0000 has none. -/
lemma nulFree_document (h : Utf8.NulFree root)
    (hf : ∀ f ∈ fields, Utf8.NulFree f.1 ∧ Utf8.NulFree f.2) :
    Utf8.NulFree (document root fields) := by
  have hprologue : '\x00' ∉ prologue root.toList := by
    rw [Utf8.NulFree] at h
    simp [prologue, h]
  have hfields : '\x00' ∉ fields.flatMap fun f => (leaf f.1 f.2).toList := by
    intro hmem
    obtain ⟨f, hfmem, hn⟩ := List.mem_flatMap.mp hmem
    obtain ⟨hname, htext⟩ := hf f hfmem
    have hescape := nul_notMem_escape htext
    rw [Utf8.NulFree] at hname
    rw [toList_leaf] at hn
    simp [hname, hescape] at hn
  have hclose : '\x00' ∉ '<' :: '/' :: (root.toList ++ ['>']) := by
    rw [Utf8.NulFree] at h
    simp [h]
  rw [Utf8.NulFree, toList_document, List.mem_append, List.mem_append]
  exact fun hmem => hmem.elim hprologue fun hmem => hmem.elim hfields hclose

/-! ### The comment of a file -/

/-- The comment of a file header. -/
def ofHeader (text : String) : Comment := ofFields "HDcomment" [(textField, text)]

/-- What stands before the text in the document of a file header. -/
def headerStart : List Char := prologue "HDcomment".toList ++ '<' :: ("TX".toList ++ ['>'])

lemma toList_headerDocument (text : String) :
    (headerDocument text).toList =
      headerStart ++ (text.toList.flatMap escapeChar ++ "</TX></HDcomment>".toList) := by
  rw [headerDocument, toList_document]
  simp [toList_leaf, headerStart, textField]

/-- **The comment of a file is read back** if it is without U+0000. -/
theorem parse_headerDocument {text : String} (h : Utf8.NulFree text) :
    parse (Utf8.beforeNul (headerDocument text)) = .ok (ofHeader text) := by
  have hfield : IsName textField.toList ∧ Utf8.NulFree textField := by decide
  have hfree : Utf8.NulFree (headerDocument text) :=
    nulFree_document (by decide) (by simpa using ⟨hfield.2, h⟩)
  rw [Utf8.beforeNul_eq_self hfree, headerDocument]
  exact parse_document (by decide) (by simpa using hfield.1)

lemma takeWhile_escape {s : List Char} (h : '\x00' ∈ s) (r : List Char) :
    (s.flatMap escapeChar ++ r).takeWhile (· ≠ '\x00') =
      (s.takeWhile (· ≠ '\x00')).flatMap escapeChar := by
  induction s with
  | nil => simp at h
  | cons c s ih =>
    rw [List.flatMap_cons, List.append_assoc]
    by_cases hc : c = '\x00'
    · subst hc
      simp [escapeChar_nul]
    · have hs : '\x00' ∈ s := (List.mem_cons.mp h).resolve_left (Ne.symm hc)
      have hescape : ∀ d ∈ escapeChar c, decide (d ≠ '\x00') = true := by
        intro d hd
        have hne : d ≠ '\x00' := fun e => hc ((nul_mem_escapeChar c).mp (e ▸ hd))
        simpa using hne
      rw [List.takeWhile_append_of_pos hescape, ih hs, List.takeWhile_cons_of_pos (by simpa using hc),
        List.flatMap_cons]

/-- **A comment with U+0000 breaks off within its element**, so its file has no comment that can be
read. -/
theorem parse_headerDocument_error {text : String} (h : ¬Utf8.NulFree text) :
    parse (Utf8.beforeNul (headerDocument text)) =
      .error (.invalidMetadata (.unclosedElement "HDcomment")) := by
  have hcut : (Utf8.beforeNul (headerDocument text)).toList =
      headerStart ++ (text.toList.takeWhile (· ≠ '\x00')).flatMap escapeChar := by
    have hstart : ∀ d ∈ headerStart, decide (d ≠ '\x00') = true :=
      List.all_eq_true.mp (by decide)
    rw [Utf8.beforeNul, String.toList_ofList, toList_headerDocument,
      List.takeWhile_append_of_pos hstart, takeWhile_escape (not_not.mp h)]
  have htokens : tokens (Utf8.beforeNul (headerDocument text)) =
      .opening "HDcomment".toList :: .opening "TX".toList ::
        (text.toList.takeWhile (· ≠ '\x00')).map escapedToken := by
    have htx : IsName "TX".toList := by decide
    have hstart : ∀ r, headerStart ++ r =
        prologue "HDcomment".toList ++ '<' :: ("TX".toList ++ '>' :: r) := by simp [headerStart]
    rw [tokens_eq (by rw [hcut]; exact head?_ne_mark _), hcut, hstart, lex_prologue (by decide),
      lex_opening htx.isTagName, ← List.append_nil (List.flatMap _ _), lex_escape, lex,
      List.append_nil]
  have hfold : (tokens (Utf8.beforeNul (headerDocument text))).foldlM step start =
      .ok ⟨⟨"HDcomment", []⟩, ["TX".toList, "HDcomment".toList],
        String.ofList (text.toList.takeWhile (· ≠ '\x00'))⟩ := by
    rw [htokens, List.foldlM_cons, step_root (by decide), ok_bind, List.foldlM_cons]
    exact (foldlM_escapedToken _ _).trans (by simp [noteRoot_of_stack])
  rw [parse, ofTokens, hfold, ok_bind]
  rfl

end Mdf.Comment
