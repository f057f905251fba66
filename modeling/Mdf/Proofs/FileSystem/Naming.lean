import Mathlib.Data.List.TakeWhile
import Mdf.Proofs.FileSystem.Tree

/-!
# Giving a file name another extension

A path is a front, which is empty or ends in a slash, and what stands behind it (`EndsIn`), for a
file a name.  Another extension changes the name in one of three ways and keeps the front
(`Renames`).  So the new path leads to the same file only if it is the same path, which it is exactly
if the name has the extension already (`withExtension_eq_self_iff`), and its temporary file never is
that file.
-/

namespace Mdf

namespace Path

variable {p q : Path} {front name name' stem x : List Char} {ext : String}

/-! ### The last name -/

/-- A text divided at the last place of one of its characters. -/
lemma exists_eq_append_cons {c : Char} {s : List Char} (h : c ∈ s) :
    ∃ a b, s = a ++ c :: b ∧ c ∉ b := by
  obtain ⟨a, b, hs, ha⟩ := List.eq_append_cons_of_mem (List.mem_reverse.mpr h)
  refine ⟨b.reverse, a.reverse, ?_, by simpa using ha⟩
  rw [← List.reverse_reverse s, hs]
  simp

lemma decide_ne_of_mem_reverse {c : Char} {s : List Char} (h : c ∉ s) :
    ∀ d ∈ s.reverse, decide (d ≠ c) = true := by
  intro d hd
  refine decide_eq_true fun heq => h ?_
  rw [← heq]
  exact List.mem_reverse.mp hd

/-- What stands in a path behind a front that is empty or ends in a slash. -/
structure EndsIn (p : Path) (front name : List Char) : Prop where
  text : p.text.toList = front ++ name
  front : front = [] ∨ ∃ s, front = s ++ ['/']
  slash : '/' ∉ name

/-- A name, and no step to a directory. -/
structure IsName (name : List Char) : Prop where
  slash : '/' ∉ name
  ne_nil : name ≠ []
  ne_dot : name ≠ ['.']
  ne_up : name ≠ ['.', '.']

lemma exists_endsIn (p : Path) : ∃ front name, p.EndsIn front name := by
  by_cases h : '/' ∈ p.text.toList
  · obtain ⟨a, b, hs, hb⟩ := exists_eq_append_cons h
    exact ⟨a ++ ['/'], b, by rw [hs]; simp, .inr ⟨a, rfl⟩, hb⟩
  · exact ⟨[], p.text.toList, rfl, .inl rfl, h⟩

namespace EndsIn

/-- Paths are the same if they have the same behind one front. -/
lemma eq_iff (hp : p.EndsIn front name) (hq : q.EndsIn front name') : q = p ↔ name' = name := by
  constructor
  · rintro rfl
    exact List.append_cancel_left (hq.text.symm.trans hp.text)
  · rintro rfl
    obtain ⟨s⟩ := p
    obtain ⟨s'⟩ := q
    exact congrArg Path.mk (String.toList_inj.mp (hq.text.trans hp.text.symm))

/-- A text put behind a path is put behind its name. -/
lemma withSuffix (h : p.EndsIn front name) {u : String} (hu : '/' ∉ u.toList) :
    (p.withSuffix u).EndsIn front (name ++ u.toList) := by
  refine ⟨?_, h.front, by simp [h.slash, hu]⟩
  rw [Path.withSuffix, String.toList_append, h.text, List.append_assoc]

/-- Paths with one front have the same parts before the last. -/
lemma exists_parts (hf : front = [] ∨ ∃ s, front = s ++ ['/']) : ∃ above,
    ∀ {p : Path} {name : List Char}, p.EndsIn front name → name ≠ [] →
      p.parts = above ++ [String.ofList name] := by
  rcases hf with rfl | ⟨s, rfl⟩
  · refine ⟨[], fun h hne => ?_⟩
    rw [parts, h.text, List.nil_append, splitSlash_of_not_mem h.slash]
    simp [hne]
  · refine ⟨((splitSlash s).filter (· ≠ [])).map String.ofList, fun h hne => ?_⟩
    rw [parts, h.text, List.append_assoc, List.singleton_append, splitSlash_append_slash,
      splitSlash_of_not_mem h.slash]
    simp [hne]

end EndsIn

lemma skipTail_reverse (hs : '/' ∉ name) (hne : name ≠ []) (hdot : name ≠ ['.'])
    (front : List Char) :
    skipTail (front ++ name).reverse = name.reverse ++ front.reverse := by
  rw [← List.mem_reverse] at hs
  rw [← List.reverse_ne_nil_iff] at hne
  rw [ne_eq, ← List.reverse_inj] at hdot
  rw [List.reverse_append, skipTail]
  · intro r hr
    rcases List.exists_cons_of_ne_nil hne with ⟨c, cs, hc⟩
    rw [hc, List.cons_append, List.cons.injEq] at hr
    exact hs (by simp [hc, hr.1])
  · intro r hr
    rcases List.exists_cons_of_ne_nil hne with ⟨c, cs, hc⟩
    rw [hc, List.cons_append, List.cons.injEq] at hr
    cases cs with
    | nil => exact hdot (by rw [hc, hr.1]; rfl)
    | cons c' cs =>
      rw [List.cons_append, List.cons.injEq] at hr
      exact hs (by simp [hc, hr.2.1])

/-- The last name of a text. -/
lemma splitName?_append (hf : front = [] ∨ ∃ s, front = s ++ ['/']) (hs : '/' ∉ name)
    (hne : name ≠ []) (hdot : name ≠ ['.']) : splitName? (front ++ name) =
      if name = ['.', '.'] then none else some (front, name) := by
  have hname := decide_ne_of_mem_reverse hs
  have hfront : front.reverse.takeWhile (· ≠ '/') = [] ∧
      front.reverse.dropWhile (· ≠ '/') = front.reverse := by
    rcases hf with rfl | ⟨s, rfl⟩ <;> simp
  rw [splitName?, skipTail_reverse hs hne hdot, List.takeWhile_append_of_pos hname,
    List.dropWhile_append_of_pos hname, hfront.1, hfront.2]
  simp [hne, hdot]

/-! ### The extension -/

lemma splitExtension_append (stem : List Char) (hx : '.' ∉ x) : splitExtension (stem ++ '.' :: x) =
    if stem = [] then ('.' :: x, none) else (stem, some x) := by
  have hpoint := decide_ne_of_mem_reverse hx
  have hreverse : (stem ++ '.' :: x).reverse = x.reverse ++ '.' :: stem.reverse := by simp
  rw [splitExtension, hreverse, List.takeWhile_append_of_pos hpoint,
    List.dropWhile_append_of_pos hpoint]
  by_cases hs : stem = []
  · simp [hs]
  · simp [hs]

lemma splitExtension_eq_some_iff : splitExtension name = (stem, some x) ↔
    stem ≠ [] ∧ '.' ∉ x ∧ name = stem ++ '.' :: x := by
  constructor
  · intro h
    by_cases hpoint : '.' ∈ name
    · obtain ⟨stem', x', rfl, hx⟩ := exists_eq_append_cons hpoint
      rw [splitExtension_append stem' hx] at h
      split at h
      · cases h
      · rename_i hs
        cases h
        exact ⟨hs, hx, rfl⟩
    · have hnone : name.reverse.dropWhile (· ≠ '.') = [] :=
        List.dropWhile_eq_nil_iff.mpr (decide_ne_of_mem_reverse hpoint)
      rw [splitExtension, hnone, List.drop_nil] at h
      cases h
  · rintro ⟨hs, hx, rfl⟩
    rw [splitExtension_append stem hx, if_neg hs]

/-- How a name changes with a new extension. -/
inductive Renames (ext : List Char) (name : List Char) : List Char → Prop
  /-- The name has none yet. -/
  | added (h : splitExtension name = (name, none)) : Renames ext name (name ++ '.' :: ext)
  | replaced {stem x : List Char} (h : splitExtension name = (stem, some x)) (hdot : stem ≠ ['.']) :
      Renames ext name (stem ++ '.' :: ext)
  /-- What is left without the old extension is no name, and gets none. -/
  | lost {x : List Char} (h : splitExtension name = (['.'], some x)) : Renames ext name ['.', '.']

lemma splitExtension_cases (name : List Char) :
    splitExtension name = (name, none) ∨ ∃ stem x, splitExtension name = (stem, some x) := by
  unfold splitExtension
  split
  · exact .inl rfl
  · exact .inr ⟨_, _, rfl⟩

/-- The characters of the old extension are taken off the name. -/
lemma EndsIn.toList_withExtension (h : p.EndsIn front name) (hn : IsName name) (ext : String) :
    (p.withExtension ext).text.toList = setExtension
      (front ++ name.take (name.length - ((splitExtension name).2.getD []).length)) ext := by
  have hlength : ((splitExtension name).2.getD []).length ≤ name.length := by
    rcases splitExtension_cases name with hnone | ⟨stem, x, hsome⟩
    · simp [hnone]
    · obtain ⟨-, -, rfl⟩ := splitExtension_eq_some_iff.mp hsome
      rw [hsome]
      simp
      omega
  have hextension : extensionLength (front ++ name) =
      ((splitExtension name).2.getD []).length := by
    rw [extensionLength, splitName?_append h.front h.slash hn.ne_nil hn.ne_dot, if_neg hn.ne_up]
  rw [withExtension, String.toList_ofList, h.text, hextension, List.length_append,
    Nat.add_sub_assoc hlength, List.take_length_add_append]

lemma setExtension_append (hf : front = [] ∨ ∃ s, front = s ++ ['/']) (hs : '/' ∉ name)
    (hne : name ≠ []) (hdot : name ≠ ['.']) (ext : String) : setExtension (front ++ name) ext =
      if name = ['.', '.'] then front ++ name
      else front ++ (splitExtension name).1 ++ '.' :: ext.toList := by
  rw [setExtension, splitName?_append hf hs hne hdot]
  by_cases hup : name = ['.', '.']
  · rw [if_pos hup, if_pos hup]
  · rw [if_neg hup, if_neg hup]

/-- A path with another extension has the same front. -/
lemma EndsIn.exists_renames (h : p.EndsIn front name) (hn : IsName name) (hext : '/' ∉ ext.toList) :
    ∃ name', (p.withExtension ext).EndsIn front name' ∧ Renames ext.toList name name' := by
  have htext := h.toList_withExtension hn ext
  rcases splitExtension_cases name with hnone | ⟨stem, x, hsome⟩
  · rw [hnone, Option.getD_none, List.length_nil, Nat.sub_zero, List.take_length,
      setExtension_append h.front h.slash hn.ne_nil hn.ne_dot, if_neg hn.ne_up, hnone,
      List.append_assoc] at htext
    exact ⟨_, ⟨htext, h.front, by simp [h.slash, hext]⟩, .added hnone⟩
  · obtain ⟨hs, hx, rfl⟩ := splitExtension_eq_some_iff.mp hsome
    have hslash : '/' ∉ stem := fun hmem => h.slash (List.mem_append_left _ hmem)
    have htake : (stem ++ '.' :: x).take ((stem ++ '.' :: x).length - x.length) =
        stem ++ ['.'] := by
      have hlength : (stem ++ '.' :: x).length - x.length = (stem ++ ['.']).length := by
        simp
        omega
      rw [hlength, List.append_cons stem '.' x, List.take_left]
    rw [hsome, Option.getD_some, htake,
      setExtension_append h.front (by simp [hslash]) (by simp) (by simp [hs])] at htext
    by_cases hdot : stem = ['.']
    · subst hdot
      exact ⟨_, ⟨htext, h.front, by decide⟩, .lost hsome⟩
    · have hup : stem ++ ['.'] ≠ ['.', '.'] := fun heq =>
        hdot (List.append_cancel_right (heq.trans (List.append_cons [] '.' ['.'])))
      rw [if_neg hup, splitExtension_append stem (List.not_mem_nil), if_neg hs,
        List.append_assoc] at htext
      exact ⟨_, ⟨htext, h.front, by simp [hslash, hext]⟩, .replaced hsome hdot⟩

namespace Renames

variable {ext : List Char}

lemma ne_nil (h : Renames ext name name') : name' ≠ [] := by
  cases h <;> simp

/-- No name is that of the temporary file of what it becomes. -/
lemma ne_temporary (h : Renames ext name name') : name ≠ name' ++ ".tmp".toList := by
  have hpoint : '.' ∈ ".tmp".toList := by decide
  intro heq
  cases h with
  | added =>
    have hlength := congrArg List.length heq
    simp at hlength
  | replaced hsome =>
    obtain ⟨-, hx, hname⟩ := splitExtension_eq_some_iff.mp hsome
    rw [hname, List.append_assoc] at heq
    cases List.append_cancel_left heq
    exact hx (List.mem_append_right _ hpoint)
  | lost hsome =>
    obtain ⟨-, hx, hname⟩ := splitExtension_eq_some_iff.mp hsome
    rw [hname, List.append_cons ['.'] '.'] at heq
    rw [List.append_cancel_left heq] at hx
    exact hx hpoint

end Renames

/-- The last name of the path is a stem with the extension. -/
def HasExtension (p : Path) (ext : String) : Prop := ∃ front stem,
  p.EndsIn front (stem ++ '.' :: ext.toList) ∧ stem ≠ [] ∧ stem ≠ ['.']

lemma isName_stem (hslash : '/' ∉ stem ++ '.' :: x) (hs : stem ≠ []) (hdot : stem ≠ ['.']) :
    IsName (stem ++ '.' :: x) := by
  rcases stem with _ | ⟨c, _ | ⟨d, stem⟩⟩
  · exact absurd rfl hs
  · exact ⟨hslash, by simp, by simp, by simpa using fun hc _ => hdot (by rw [hc])⟩
  · exact ⟨hslash, by simp, by simp, by simp⟩

/-- **A path to a name stays the same exactly if the name has the extension already.** -/
theorem withExtension_eq_self_iff (h : p.EndsIn front name) (hn : IsName name)
    (hslash : '/' ∉ ext.toList) (hpoint : '.' ∉ ext.toList) :
    p.withExtension ext = p ↔ p.HasExtension ext := by
  constructor
  · intro hself
    obtain ⟨name', h', hrenames⟩ := h.exists_renames hn hslash
    have hname := (h.eq_iff h').mp hself
    cases hrenames with
    | added => simp at hname
    | replaced hsome hdot =>
      rw [← hname] at h
      exact ⟨front, _, h, (splitExtension_eq_some_iff.mp hsome).1, hdot⟩
    | lost => exact absurd hname.symm hn.ne_up
  · rintro ⟨front, stem, h, hs, hdot⟩
    have hsplit : splitExtension (stem ++ '.' :: ext.toList) = (stem, some ext.toList) :=
      splitExtension_eq_some_iff.mpr ⟨hs, hpoint, rfl⟩
    obtain ⟨name', h', hrenames⟩ := h.exists_renames (isName_stem h.slash hs hdot) hslash
    refine (h.eq_iff h').mpr ?_
    cases hrenames with
    | added hnone => cases (Prod.mk.inj (hsplit.symm.trans hnone)).2
    | replaced hsome => rw [(Prod.mk.inj (hsplit.symm.trans hsome)).1]
    | lost hsome => exact absurd (Prod.mk.inj (hsplit.symm.trans hsome)).1 hdot

end Path

namespace Tree

open Mdf.Path

variable {t : Tree} {p q : Path} {front name name' : List Char} {part ext : String}
  {l above : Location}

/-- A part that leads from a directory to none is a name in the directory. -/
lemma eq_of_place?_singleton (hr : t.Reached above) (hl : t.entry? l ≠ some .directory)
    (h : t.place? above [part] = some l) : part ≠ "." ∧ part ≠ ".." ∧ l = above ++ [part] := by
  have hne : ∀ k, t.entry? k = some .directory → k ≠ l := by
    rintro k hk rfl
    exact hl hk
  rw [place?] at h
  split at h
  · exact absurd (Option.some.inj h) (hne above hr.directory)
  split at h
  · exact absurd (Option.some.inj h) (hne above.dropLast hr.dropLast.directory)
  split at h
  · cases h
  rename_i hdot hup _
  rw [if_pos rfl] at h
  exact ⟨hdot, hup, (Option.some.inj h).symm⟩

/-- A path at which a file can be made ends in a name, and of the names behind its front only this
one leads to its location. -/
lemma isName_of_fileLocation (h : p.EndsIn front name) (hl : t.fileLocation p = .ok l) :
    IsName name ∧ ∀ {q : Path} {name' : List Char}, q.EndsIn front name' → name' ≠ [] →
      t.location? q = some l → name' = name := by
  obtain ⟨hlocation, hfile, hend⟩ := fileLocation_eq_ok_iff.mp hl
  obtain ⟨-, htext, -, hplace⟩ := location?_eq_some_iff.mp hlocation
  obtain ⟨parts, hparts⟩ := EndsIn.exists_parts h.front
  have hne : name ≠ [] := by
    rintro rfl
    have hfront := h.text
    rw [List.append_nil] at hfront
    rcases h.front with hnil | ⟨s, hs⟩
    · exact htext (String.toList_eq_nil_iff.mp (hfront.trans hnil))
    · simp [endsInSlash, hfront, hs] at hend
  rw [hparts h hne] at hplace
  obtain ⟨above, hr, hrest⟩ := exists_of_place?_append reached_nil (List.cons_ne_nil _ _) hplace
  rw [hrest] at hplace
  obtain ⟨hdot, hup, hconcat⟩ := eq_of_place?_singleton hr hfile hplace
  refine ⟨⟨h.slash, hne, fun hname => hdot (by rw [hname]), fun hname => hup (by rw [hname])⟩,
    fun hq hne' hq' => ?_⟩
  obtain ⟨-, -, -, hplace'⟩ := location?_eq_some_iff.mp hq'
  rw [hparts hq hne', hrest] at hplace'
  obtain ⟨-, -, hconcat'⟩ := eq_of_place?_singleton hr hfile hplace'
  have hnames := List.append_cancel_left (hconcat'.symm.trans hconcat)
  exact String.ofList_inj.mp (List.singleton_inj.mp hnames)

/-- **With another extension a path leads to the same file only if the name has that extension
already**, and then it is the same path. -/
theorem location?_withExtension_iff (hl : t.fileLocation p = .ok l) (hslash : '/' ∉ ext.toList)
    (hpoint : '.' ∉ ext.toList) :
    t.location? (p.withExtension ext) = some l ↔ p.HasExtension ext := by
  obtain ⟨front, name, h⟩ := exists_endsIn p
  obtain ⟨hname, honly⟩ := isName_of_fileLocation h hl
  obtain ⟨name', h', hrenames⟩ := h.exists_renames hname hslash
  rw [← withExtension_eq_self_iff h hname hslash hpoint]
  constructor
  · intro hl'
    exact (h.eq_iff h').mpr (honly h' hrenames.ne_nil hl')
  · intro hself
    rw [hself]
    exact (fileLocation_eq_ok_iff.mp hl).1

/-- **The temporary file of a path with another extension never is the file of the path.** -/
theorem location?_temporary_withExtension_ne (hl : t.fileLocation p = .ok l)
    (hslash : '/' ∉ ext.toList) :
    t.location? (Output.temporary (p.withExtension ext)) ≠ some l := by
  intro hl'
  obtain ⟨front, name, h⟩ := exists_endsIn p
  obtain ⟨hname, honly⟩ := isName_of_fileLocation h hl
  obtain ⟨name', h', hrenames⟩ := h.exists_renames hname hslash
  have htemporary := h'.withSuffix (show '/' ∉ ".tmp".toList by decide)
  exact hrenames.ne_temporary (honly htemporary (by simp [hrenames.ne_nil]) hl').symm

end Tree

end Mdf
