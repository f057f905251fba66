import Mathlib.Data.List.Induction
import Mathlib.Tactic.Common
import Mdf.FileSystem.Output
import Mdf.FileSystem.Tree

/-!
# Locations in a tree of files

A path leads to a location, whatever stands there: `Tree.location?` depends on the directories of the
tree alone (`Tree.SameDirectories`).  The operations on files change what stands at one location and
keep the directories (`Tree.Changes`), so a path leads to the same location before and after.

The temporary file of an output has a location of its own (`exists_location_of_temporary`): if it can
be made, then the target is a directory, or has no name, or is a file in the same directory.
-/

namespace Mdf

/-! ### Paths -/

namespace Path

lemma splitSlash_ne_nil (s : List Char) : splitSlash s ≠ [] := by
  cases s with
  | nil => simp [splitSlash]
  | cons c s =>
    rw [splitSlash]
    split
    · simp
    · split <;> simp

lemma splitSlash_append_slash (s u : List Char) :
    splitSlash (s ++ '/' :: u) = splitSlash s ++ splitSlash u := by
  induction s with
  | nil => simp [splitSlash]
  | cons c s ih =>
    by_cases hc : c = '/'
    · simp [splitSlash, hc, ih]
    · obtain ⟨part, parts, hs⟩ := List.exists_cons_of_ne_nil (splitSlash_ne_nil s)
      simp [splitSlash, hc, ih, hs]

lemma splitSlash_of_not_mem {s : List Char} (h : '/' ∉ s) : splitSlash s = [s] := by
  induction s with
  | nil => rfl
  | cons c s ih =>
    rw [List.mem_cons, not_or] at h
    rw [splitSlash, if_neg (fun hc => h.1 hc.symm), ih h.2]

/-- What is put behind a text without a slash belongs to its last part. -/
lemma exists_splitSlash_append (s : List Char) : ∃ front name, splitSlash s = front ++ [name] ∧
    (∀ u, '/' ∉ u → splitSlash (s ++ u) = front ++ [name ++ u]) ∧
    (s.getLast? = some '/' → name = []) := by
  induction s using List.reverseRecOn with
  | nil => exact ⟨[], [], rfl, fun u hu => splitSlash_of_not_mem hu, by simp⟩
  | append_singleton s c ih =>
    by_cases hc : c = '/'
    · subst hc
      refine ⟨splitSlash s, [], splitSlash_append_slash s [], fun u hu => ?_, fun _ => rfl⟩
      rw [List.append_assoc, List.singleton_append, splitSlash_append_slash,
        splitSlash_of_not_mem hu, List.nil_append]
    · obtain ⟨front, name, -, happend, -⟩ := ih
      refine ⟨front, name ++ [c], happend [c] (by simpa using fun h => hc h.symm), fun u hu => ?_,
        by simp [hc]⟩
      rw [List.append_assoc, List.append_assoc]
      refine happend _ ?_
      rw [List.singleton_append, List.mem_cons, not_or]
      exact ⟨fun h => hc h.symm, hu⟩

/-- The parts of a path, and of the path with a text behind it. -/
lemma exists_parts_withSuffix (p : Path) : ∃ front name,
    p.parts = front ++ (if name = "" then [] else [name]) ∧
    (∀ u, '/' ∉ u.toList → u ≠ "" → (p.withSuffix u).parts = front ++ [name ++ u]) ∧
    (p.endsInSlash = true → name = "") := by
  obtain ⟨front, name, hs, happend, hslash⟩ := exists_splitSlash_append p.text.toList
  refine ⟨(front.filter (· ≠ [])).map String.ofList, String.ofList name, ?_, fun u hu hne => ?_, ?_⟩
  · by_cases hn : name = []
    · simp [parts, hs, hn]
    · simp [parts, hs, hn]
  · have htext : (p.withSuffix u).text.toList = p.text.toList ++ u.toList := String.toList_append
    have hlast : name ++ u.toList ≠ [] := by simp [hne]
    simp [parts, htext, happend _ hu, hlast]
  · intro h
    rw [hslash (by simpa [endsInSlash] using h)]

end Path

namespace Tree

variable {t t' t'' : Tree} {p : Path} {l l' k here : Location} {e : Entry}
  {parts : List String} {name : String} {d : List UInt8}

/-! ### Where paths lead -/

/-- The location to which parts of a path lead from a directory, whatever stands there. -/
def place? (t : Tree) (here : Location) : List String → Option Location
  | [] => some here
  | name :: parts =>
    if name = "." then t.place? here parts
    else if name = ".." then t.place? here.dropLast parts
    else if nameLimit < name.utf8ByteSize then none
    else if parts = [] then some (here ++ [name])
    else if t.entry? (here ++ [name]) = some .directory then t.place? (here ++ [name]) parts
    else none

/-- The location to which a path leads, whatever stands there. -/
def location? (t : Tree) (p : Path) : Option Location :=
  if '\x00' ∈ p.text.toList ∨ p.text = "" ∨ pathLimit < p.text.utf8ByteSize then none
  else t.place? [] p.parts

/-- What a path finds at a location. -/
def target (t : Tree) (l : Location) : Target :=
  match t.entry? l with
  | some e => .found l e
  | none => .missing l

/-- A directory in directories, up to the root. -/
def Reached (t : Tree) (here : Location) : Prop := ∀ l, l <+: here → t.entry? l = some .directory

lemma reached_nil : t.Reached [] := by
  intro l hl
  rw [List.prefix_nil.mp hl]
  rfl

lemma Reached.directory (h : t.Reached here) : t.entry? here = some .directory :=
  h here List.prefix_rfl

lemma Reached.dropLast (h : t.Reached here) : t.Reached here.dropLast :=
  fun l hl => h l (hl.trans (List.dropLast_prefix here))

lemma Reached.concat (h : t.Reached here) (hn : t.entry? (here ++ [name]) = some .directory) :
    t.Reached (here ++ [name]) := by
  intro l hl
  rcases List.prefix_concat_iff.mp hl with rfl | hl
  · exact hn
  · exact h l hl

/-- A walk comes to the location to which its parts lead, or fails if there is none. -/
lemma walk_cases (h : t.Reached here) (parts : List String) :
    (∃ l, t.place? here parts = some l ∧ t.walk here parts = .ok (t.target l)) ∨
      t.place? here parts = none ∧ ∃ e, t.walk here parts = .error e := by
  induction parts generalizing here with
  | nil => exact .inl ⟨here, rfl, by rw [walk, target, h.directory]⟩
  | cons name parts ih =>
    by_cases hdot : name = "."
    · subst hdot
      simpa [place?, walk] using ih h
    by_cases hup : name = ".."
    · subst hup
      simpa [place?, walk] using ih h.dropLast
    by_cases hlong : nameLimit < name.utf8ByteSize
    · simp [place?, walk, hdot, hup, hlong]
    by_cases hlast : parts = []
    · subst hlast
      refine .inl ⟨here ++ [name], by simp [place?, hdot, hup, hlong], ?_⟩
      rw [walk, if_neg hlong, target]
      · cases he : t.entry? (here ++ [name]) with
        | none => rfl
        | some e => cases e <;> simp [walk]
      · exact hdot
      · exact hup
    · cases he : t.entry? (here ++ [name]) with
      | none => simp [place?, walk, hdot, hup, hlong, hlast, he]
      | some e =>
        cases e with
        | directory => simpa [place?, walk, hdot, hup, hlong, hlast, he] using ih (h.concat he)
        | file d => simp [place?, walk, hdot, hup, hlong, hlast, he]

lemma location?_eq_some_iff : t.location? p = some l ↔ '\x00' ∉ p.text.toList ∧ p.text ≠ "" ∧
    p.text.utf8ByteSize ≤ pathLimit ∧ t.place? [] p.parts = some l := by
  unfold location?
  split
  · rename_i h
    refine iff_of_false (by simp) ?_
    rintro ⟨hnul, hempty, hlong, -⟩
    rcases h with h | h | h
    · exact hnul h
    · exact hempty h
    · exact Nat.not_lt.mpr hlong h
  · rename_i h
    rw [not_or, not_or, Nat.not_lt] at h
    exact ⟨fun hl => ⟨h.1, h.2.1, h.2.2, hl⟩, fun hl => hl.2.2.2⟩

lemma resolve_of_location? (h : t.location? p = some l) : t.resolve p =
    match t.entry? l with
    | some (.file d) => if p.endsInSlash then .error .notDirectory else .ok (.found l (.file d))
    | some .directory => .ok (.found l .directory)
    | none => .ok (.missing l) := by
  obtain ⟨hnul, hempty, hlong, hplace⟩ := location?_eq_some_iff.mp h
  have hwalk : t.walk [] p.parts = .ok (t.target l) := by
    rcases t.walk_cases reached_nil p.parts with ⟨l', hl', hwalk⟩ | ⟨hnone, -⟩
    · rw [hplace] at hl'
      cases hl'
      exact hwalk
    · rw [hplace] at hnone
      cases hnone
  rw [resolve, String.contains_char_eq, if_neg (by simpa using hnul), if_neg hempty,
    if_neg (Nat.not_lt.mpr hlong), hwalk, target]
  cases t.entry? l with
  | none => rfl
  | some e => cases e <;> rfl

lemma resolve_of_location?_eq_none (h : t.location? p = none) : ∃ e, t.resolve p = .error e := by
  unfold location? at h
  unfold resolve
  split
  · exact ⟨_, rfl⟩
  split
  · exact ⟨_, rfl⟩
  split
  · exact ⟨_, rfl⟩
  rw [if_neg (by simp_all)] at h
  rcases t.walk_cases reached_nil p.parts with ⟨l, hl, -⟩ | ⟨-, e, hwalk⟩
  · rw [h] at hl
    cases hl
  · exact ⟨e, by rw [hwalk]⟩

/-- What stands at a path stands at its location, but no path that ends in a slash is a file's. -/
lemma get?_eq_some_iff : t.get? p = some e ↔ ∃ l, t.location? p = some l ∧ t.entry? l = some e ∧
    (e = .directory ∨ p.endsInSlash = false) := by
  unfold get?
  cases hl : t.location? p with
  | none =>
    obtain ⟨_, hr⟩ := resolve_of_location?_eq_none hl
    simp [hr]
  | some l =>
    rw [resolve_of_location? hl]
    cases he : t.entry? l with
    | none => simp [he]
    | some e' => cases e' <;> grind

lemma get?_eq_none (h : t.location? p = some l) (he : t.entry? l = none) : t.get? p = none := by
  refine Option.eq_none_iff_forall_ne_some.mpr fun e hget => ?_
  obtain ⟨k, hk, hk', -⟩ := get?_eq_some_iff.mp hget
  rw [h] at hk
  cases hk
  rw [he] at hk'
  cases hk'

/-- A file can be made where a path leads to no directory. -/
lemma fileLocation_eq_ok_iff : t.fileLocation p = .ok l ↔
    t.location? p = some l ∧ t.entry? l ≠ some .directory ∧ p.endsInSlash = false := by
  unfold fileLocation
  cases hl : t.location? p with
  | none =>
    obtain ⟨_, hr⟩ := resolve_of_location?_eq_none hl
    simp [hr]
  | some l' =>
    rw [resolve_of_location? hl]
    cases he : t.entry? l' with
    | none => grind
    | some e => cases e <;> grind

lemma locationOfFile_eq_ok_iff : t.locationOfFile p = .ok (l, d) ↔
    t.location? p = some l ∧ t.entry? l = some (.file d) ∧ p.endsInSlash = false := by
  unfold locationOfFile
  cases hl : t.location? p with
  | none =>
    obtain ⟨_, hr⟩ := resolve_of_location?_eq_none hl
    simp [hr]
  | some l' =>
    rw [resolve_of_location? hl]
    cases he : t.entry? l' with
    | none => grind
    | some e => cases e <;> grind

lemma read_eq_ok_iff : t.read p = .ok d ↔ t.get? p = some (.file d) := by
  unfold read get?
  cases t.resolve p with
  | error e => simp
  | ok target =>
    cases target with
    | missing l => simp
    | found l e => cases e <;> simp

/-- A file can be replaced where it stands. -/
lemma exists_fileLocation_of_get? (h : t.get? p = some (.file d)) :
    ∃ l, t.fileLocation p = .ok l ∧ t.entry? l = some (.file d) := by
  obtain ⟨l, hl, he, hslash⟩ := get?_eq_some_iff.mp h
  refine ⟨l, fileLocation_eq_ok_iff.mpr ⟨hl, by simp [he], ?_⟩, he⟩
  exact hslash.resolve_left (by simp)

lemma read_of_locationOfFile (h : t.locationOfFile p = .ok (l, d)) : t.read p = .ok d := by
  obtain ⟨hl, he, hslash⟩ := locationOfFile_eq_ok_iff.mp h
  rw [read, resolve_of_location? hl, he]
  simp [hslash]

/-! ### Trees with the same directories -/

/-- Every directory of the one tree is a directory of the other. -/
def KeepsDirectories (t t' : Tree) : Prop :=
  ∀ k, t.entry? k = some .directory → t'.entry? k = some .directory

/-- Parts of a path still lead where they led before. -/
lemma KeepsDirectories.place? (h : t.KeepsDirectories t') (hl : t.place? here parts = some l) :
    t'.place? here parts = some l := by
  induction parts generalizing here with
  | nil => exact hl
  | cons name parts ih =>
    rw [Tree.place?] at hl ⊢
    split at hl
    · rename_i hdot
      rw [if_pos hdot]
      exact ih hl
    rename_i hdot
    rw [if_neg hdot]
    split at hl
    · rename_i hup
      rw [if_pos hup]
      exact ih hl
    rename_i hup
    rw [if_neg hup]
    split at hl
    · cases hl
    rename_i hshort
    rw [if_neg hshort]
    split at hl
    · rename_i hlast
      rw [if_pos hlast]
      exact hl
    rename_i hlast
    rw [if_neg hlast]
    split at hl
    · rename_i hdir
      rw [if_pos (h _ hdir)]
      exact ih hl
    · cases hl

lemma KeepsDirectories.location? (h : t.KeepsDirectories t') (hl : t.location? p = some l) :
    t'.location? p = some l := by
  obtain ⟨hnul, hempty, hlong, hplace⟩ := location?_eq_some_iff.mp hl
  exact location?_eq_some_iff.mpr ⟨hnul, hempty, hlong, h.place? hplace⟩

/-- Two trees have the same directories. -/
def SameDirectories (t t' : Tree) : Prop :=
  ∀ k, t'.entry? k = some .directory ↔ t.entry? k = some .directory

namespace SameDirectories

lemma keepsDirectories (h : t.SameDirectories t') : t.KeepsDirectories t' := fun k => (h k).mpr

lemma symm (h : t.SameDirectories t') : t'.SameDirectories t := fun k => (h k).symm

lemma trans (h : t.SameDirectories t') (h' : t'.SameDirectories t'') : t.SameDirectories t'' :=
  fun k => (h' k).trans (h k)

/-- Paths lead to the same locations in both. -/
lemma location?_eq (h : t.SameDirectories t') (p : Path) : t'.location? p = t.location? p :=
  Option.ext fun _ => ⟨h.symm.keepsDirectories.location?, h.keepsDirectories.location?⟩

lemma fileLocation_eq_ok_iff (h : t.SameDirectories t') :
    t'.fileLocation p = .ok k ↔ t.fileLocation p = .ok k := by
  rw [Tree.fileLocation_eq_ok_iff, Tree.fileLocation_eq_ok_iff, h.location?_eq, ne_eq, ne_eq, h k]

lemma get?_eq_directory_iff (h : t.SameDirectories t') :
    t'.get? p = some .directory ↔ t.get? p = some .directory := by
  rw [get?_eq_some_iff, get?_eq_some_iff, h.location?_eq]
  exact exists_congr fun k => and_congr_right fun _ => and_congr_left fun _ => h k

end SameDirectories

/-- Trees with the same at every location have the same at every path. -/
lemma get?_congr (h : ∀ k, t'.entry? k = t.entry? k) (p : Path) : t'.get? p = t.get? p := by
  have hsame : t.SameDirectories t' := fun k => by rw [h k]
  refine Option.ext fun e => ?_
  rw [get?_eq_some_iff, get?_eq_some_iff, hsame.location?_eq]
  exact exists_congr fun k => by rw [h k]

/-! ### The temporary file -/

/-- The parts before the last ones lead to a directory, and the parts behind lead on from there. -/
lemma exists_of_place?_append {front rest : List String} (h : t.Reached here) (hne : rest ≠ [])
    (hl : t.place? here (front ++ rest) = some l) :
    ∃ above, t.Reached above ∧
      ∀ rest', t.place? here (front ++ rest') = t.place? above rest' := by
  induction front generalizing here with
  | nil => exact ⟨here, h, fun rest' => rfl⟩
  | cons part front ih =>
    rw [List.cons_append, place?] at hl
    split at hl
    · rename_i hdot
      obtain ⟨above, hr, hrest⟩ := ih h hl
      exact ⟨above, hr, fun rest' => by rw [List.cons_append, place?, if_pos hdot, hrest]⟩
    split at hl
    · rename_i hdot hup
      obtain ⟨above, hr, hrest⟩ := ih h.dropLast hl
      exact ⟨above, hr, fun rest' => by
        rw [List.cons_append, place?, if_neg hdot, if_pos hup, hrest]⟩
    split at hl
    · cases hl
    rw [if_neg (by simp [hne])] at hl
    split at hl
    · rename_i hdot hup hlong hdir
      obtain ⟨above, hr, hrest⟩ := ih (h.concat hdir) hl
      refine ⟨above, hr, fun rest' => ?_⟩
      rw [← hrest, List.cons_append, place?, if_neg hdot, if_neg hup, if_neg hlong, if_pos hdir]
      split
      · rename_i hnil
        rw [hnil]
        rfl
      · rfl
    · cases hl

/-- Parts that end with a name lead into a directory, to which the parts before the name lead. -/
lemma exists_of_place?_concat {front : List String} (h : t.Reached here)
    (hname : name ≠ "." ∧ name ≠ "..") (hl : t.place? here (front ++ [name]) = some l) :
    ∃ above, t.Reached above ∧ l = above ++ [name] ∧ name.utf8ByteSize ≤ nameLimit ∧
      ∀ rest, t.place? here (front ++ rest) = t.place? above rest := by
  obtain ⟨above, hr, hrest⟩ := exists_of_place?_append h (List.cons_ne_nil name []) hl
  rw [hrest, place?, if_neg hname.1, if_neg hname.2] at hl
  split at hl
  · cases hl
  · rename_i hlong
    rw [if_pos rfl] at hl
    cases hl
    exact ⟨above, hr, rfl, Nat.not_lt.mp hlong, hrest⟩

/-- A path with a text behind it leads to a name that ends with the text, in the directory in which
the path leads to the name without the text. -/
lemma exists_of_location?_withSuffix {u : String} (hu : '/' ∉ u.toList) (hlong : 2 < u.length)
    (h : t.location? (p.withSuffix u) = some l) :
    ∃ above name, t.Reached above ∧ l = above ++ [name ++ u] ∧
      (name ++ u).utf8ByteSize ≤ nameLimit ∧ (p.endsInSlash = true → name = "") ∧
      ∀ k, p.text ≠ "" → t.place? above (if name = "" then [] else [name]) = some k →
        t.location? p = some k := by
  obtain ⟨hnul, -, hsize, hplace⟩ := location?_eq_some_iff.mp h
  obtain ⟨front, name, hparts, hsuffix, hslash⟩ := p.exists_parts_withSuffix
  have hlength : (name ++ u).length = name.length + u.length := String.length_append ..
  have hdots : name ++ u ≠ "." ∧ name ++ u ≠ ".." := by
    constructor
    · intro hdot
      have hone : ".".length = 1 := rfl
      rw [hdot] at hlength
      omega
    · intro hup
      have htwo : "..".length = 2 := rfl
      rw [hup] at hlength
      omega
  have hne : u ≠ "" := by
    rintro rfl
    cases hlong
  rw [hsuffix u hu hne] at hplace
  obtain ⟨above, hr, hl, hlimit, hrest⟩ := exists_of_place?_concat reached_nil hdots hplace
  refine ⟨above, name, hr, hl, hlimit, hslash, fun k hp hk => ?_⟩
  have htext : (p.withSuffix u).text = p.text ++ u := rfl
  rw [htext, String.toList_append, List.mem_append, not_or] at hnul
  rw [htext, String.utf8ByteSize_append] at hsize
  exact location?_eq_some_iff.mpr ⟨hnul.1, hp, by omega, by rw [hparts, hrest, hk]⟩

/-- The last character of the last name of a location. -/
def ending? (l : Location) : Option Char := l.getLast?.bind fun name => name.toList.getLast?

/-- A name ends as the path that leads to it. -/
lemma ending?_of_location?_withSuffix {u : String} (hu : '/' ∉ u.toList) (hlong : 2 < u.length)
    (h : t.location? (p.withSuffix u) = some l) : ending? l = u.toList.getLast? := by
  obtain ⟨above, name, -, rfl, -⟩ := exists_of_location?_withSuffix hu hlong h
  have hne : u.toList ≠ [] := by
    intro hnil
    rw [String.toList_eq_nil_iff.mp hnil] at hlong
    cases hlong
  rw [ending?, List.getLast?_concat, Option.bind_some, String.toList_append, List.getLast?_append,
    List.getLast?_eq_some_getLast hne, Option.some_or]

/-- Where a temporary file can be made, its target leads to another location. -/
theorem exists_location_of_temporary (h : t.fileLocation (Output.temporary p) = .ok l)
    (hp : p.text ≠ "") : ∃ l', t.location? p = some l' ∧ l' ≠ l ∧
      (p.endsInSlash = false ∨ t.entry? l' = some .directory) := by
  obtain ⟨hl, hfile, -⟩ := fileLocation_eq_ok_iff.mp h
  obtain ⟨above, name, hr, rfl, hsize, hslash, hlocation⟩ :=
    exists_of_location?_withSuffix (by decide) (by decide) hl
  -- a directory is not where a file can be made
  have hdirectory : ∀ l', t.entry? l' = some .directory → l' ≠ above ++ [name ++ ".tmp"] := by
    rintro l' hl' rfl
    exact hfile hl'
  by_cases hempty : name = ""
  · rw [if_pos hempty] at hlocation
    exact ⟨above, hlocation _ hp rfl, hdirectory _ hr.directory, .inr hr.directory⟩
  have hnoslash : p.endsInSlash = false := by
    rw [← Bool.not_eq_true]
    exact fun h => hempty (hslash h)
  rw [if_neg hempty] at hlocation
  by_cases hdot : name = "."
  · refine ⟨above, hlocation _ hp ?_, hdirectory _ hr.directory, .inr hr.directory⟩
    rw [place?, if_pos hdot, place?]
  by_cases hup : name = ".."
  · have hdrop := hr.dropLast.directory
    refine ⟨above.dropLast, hlocation _ hp ?_, hdirectory _ hdrop, .inr hdrop⟩
    rw [place?, if_neg hdot, if_pos hup, place?]
  · have hshort : ¬nameLimit < name.utf8ByteSize := by
      rw [String.utf8ByteSize_append] at hsize
      omega
    refine ⟨above ++ [name], hlocation _ hp ?_, ?_, .inl hnoslash⟩
    · rw [place?, if_neg hdot, if_neg hup, if_neg hshort, if_pos rfl]
    · intro heq
      have hname := List.singleton_inj.mp (List.append_cancel_left heq)
      have hlength : (name ++ ".tmp").length = name.length + 4 := String.length_append ..
      rw [← hname] at hlength
      omega

/-- A target never stands where its temporary file can be made. -/
lemma location?_ne_of_temporary (h : t.fileLocation (Output.temporary p) = .ok l) :
    t.location? p ≠ some l := by
  intro hp
  obtain ⟨k, hk, hne, -⟩ :=
    exists_location_of_temporary h (location?_eq_some_iff.mp hp).2.1
  rw [hp] at hk
  cases hk
  exact hne rfl

/-! ### Changes -/

lemma lookup_filter_ne (entries : List (Location × Entry)) (l k : Location) :
    (entries.filter fun e => e.1 ≠ l).lookup k = if k = l then none else entries.lookup k := by
  induction entries with
  | nil => simp
  | cons e entries ih =>
    obtain ⟨k', e⟩ := e
    by_cases hk : k' = l
    · subst hk
      rw [List.filter_cons_of_neg (by simp), ih]
      by_cases hkk : k = k'
      · rw [if_pos hkk, if_pos hkk]
      · rw [if_neg hkk, if_neg hkk, List.lookup_cons, beq_false_of_ne hkk]
    · rw [List.filter_cons_of_pos (by simpa using hk), List.lookup_cons, List.lookup_cons, ih]
      by_cases hkk : k = k'
      · simp [hkk, hk]
      · rw [beq_false_of_ne hkk]

lemma entry?_erase (hl : l ≠ []) (k : Location) :
    entry? (t.erase l) k = if k = l then none else t.entry? k := by
  unfold entry? erase
  by_cases hk : k = []
  · rw [if_pos hk, if_pos hk, hk, if_neg hl.symm]
  · rw [if_neg hk, if_neg hk]
    exact lookup_filter_ne t.entries l k

lemma entry?_insert (hl : l ≠ []) (e : Entry) (k : Location) :
    entry? (t.insert l e) k = if k = l then some e else t.entry? k := by
  by_cases hk : k = l
  · subst hk
    unfold entry? insert
    rw [if_neg hl, List.lookup_cons, beq_self_eq_true, if_pos rfl]
  · have herase := entry?_erase (t := t) hl k
    rw [if_neg hk] at herase ⊢
    rw [← herase]
    unfold entry? insert
    rw [List.lookup_cons, beq_false_of_ne hk]

/-- The tree is as before but for what stands at one location, and has the same directories. -/
structure Changes (t t' : Tree) (l : Location) (e : Option Entry) : Prop where
  lookup : ∀ k, t'.entry? k = if k = l then e else t.entry? k
  before : t.entry? l ≠ some .directory
  after : e ≠ some .directory

lemma ne_nil_of_not_directory (h : t.entry? l ≠ some .directory) : l ≠ [] := by
  rintro rfl
  exact h rfl

lemma changes_insert (h : t.entry? l ≠ some .directory) (d : List UInt8) :
    Changes t (t.insert l (.file d)) l (some (.file d)) :=
  ⟨entry?_insert (ne_nil_of_not_directory h) _, h, by simp⟩

lemma changes_erase (h : t.entry? l ≠ some .directory) : Changes t (t.erase l) l none :=
  ⟨entry?_erase (ne_nil_of_not_directory h), h, by simp⟩

namespace Changes

variable {a b : Option Entry}

lemma self (h : Changes t t' l a) : t'.entry? l = a := by
  rw [h.lookup, if_pos rfl]

lemma of_ne (h : Changes t t' l a) (hk : k ≠ l) : t'.entry? k = t.entry? k := by
  rw [h.lookup, if_neg hk]

lemma trans (h : Changes t t' l a) (h' : Changes t' t'' l b) : Changes t t'' l b := by
  refine ⟨fun k => ?_, h.before, h'.after⟩
  rw [h'.lookup]
  by_cases hk : k = l
  · rw [if_pos hk, if_pos hk]
  · rw [if_neg hk, if_neg hk, h.of_ne hk]

lemma sameDirectories (h : Changes t t' l a) : t.SameDirectories t' := by
  intro k
  by_cases hk : k = l
  · subst hk
    rw [h.self]
    exact iff_of_false h.after h.before
  · rw [h.of_ne hk]

/-- Paths lead to the same locations as before. -/
lemma location?_eq (h : Changes t t' l a) (p : Path) : t'.location? p = t.location? p :=
  h.sameDirectories.location?_eq p

lemma fileLocation_eq_ok_iff (h : Changes t t' l a) :
    t'.fileLocation p = .ok k ↔ t.fileLocation p = .ok k :=
  h.sameDirectories.fileLocation_eq_ok_iff

lemma get?_of_ne (h : Changes t t' l a) (hp : t.location? p ≠ some l) : t'.get? p = t.get? p := by
  refine Option.ext fun e => ?_
  rw [get?_eq_some_iff, get?_eq_some_iff, h.location?_eq]
  refine exists_congr fun k => and_congr_right fun hk => ?_
  rw [h.of_ne]
  rintro rfl
  exact hp hk

/-- A path to the location finds what stands there now. -/
lemma get?_of_location? (h : Changes t t' l a) (hp : t.location? p = some l)
    (hs : p.endsInSlash = false) : t'.get? p = a := by
  refine Option.ext fun e => ?_
  rw [get?_eq_some_iff, h.location?_eq, hp]
  simp [h.self, hs]

end Changes

/-- A target beside which a temporary file can be made is one where a file can be made, or it is a
directory or has no name. -/
lemma target_cases (h : t.fileLocation (Output.temporary p) = .ok l) :
    (∃ l', t.fileLocation p = .ok l') ∨ p.text = "" ∨ t.get? p = some .directory := by
  by_cases hp : p.text = ""
  · exact .inr (.inl hp)
  obtain ⟨k, hk, -, hk'⟩ := exists_location_of_temporary h hp
  by_cases hdir : t.entry? k = some .directory
  · exact .inr (.inr (get?_eq_some_iff.mpr ⟨k, hk, hdir, .inl rfl⟩))
  · exact .inl ⟨k, fileLocation_eq_ok_iff.mpr ⟨hk, hdir, hk'.resolve_right hdir⟩⟩

/-- No file can be made without a name or in place of a directory. -/
lemma exists_fileLocation_eq_error (h : p.text = "" ∨ t.get? p = some .directory) :
    ∃ e, t.fileLocation p = .error e := by
  cases hl : t.fileLocation p with
  | error e => exact ⟨e, rfl⟩
  | ok l =>
    obtain ⟨hlocation, hdir, -⟩ := fileLocation_eq_ok_iff.mp hl
    rcases h with hempty | hget
    · exact absurd hempty (location?_eq_some_iff.mp hlocation).2.1
    · obtain ⟨k, hk, hk', -⟩ := get?_eq_some_iff.mp hget
      rw [hlocation] at hk
      cases hk
      exact absurd hk' hdir

end Tree

end Mdf
