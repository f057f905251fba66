import Mathlib.Tactic.Common
import Mdf.Export.Csv

/-!
# Reading comma-separated values

`Csv.read` reads a table by the rules of RFC 4180 with line feeds as record ends: a field stands
between quotes or has none, a quote between quotes is written twice, and nothing but a comma or the
end of the record follows a closing quote.  A text that breaks these rules is no table.

Every table whose records have a field is read back as it was (`read_table`), whatever its fields
are.
-/

namespace Mdf.Csv

/-! ### The reader -/

/-- Where a reader stands within a field. -/
inductive Place where
  /-- Before the first character. -/
  | start
  /-- In a field without quotes. -/
  | bare
  /-- Between quotes. -/
  | quoted
  /-- Behind a quote that ends the field, or is the first of two. -/
  | closing
deriving DecidableEq, Repr

/-- What has been read of a table. -/
structure Reading where
  /-- The records that have ended. -/
  records : List (List String)
  /-- The fields of the current record that have ended. -/
  fields : List String
  /-- The characters of the current field. -/
  text : List Char
  place : Place
deriving DecidableEq, Repr

namespace Reading

/-- Nothing has been read. -/
def init : Reading := ⟨[], [], [], .start⟩

def endField (r : Reading) : Reading := ⟨r.records, r.fields ++ [String.ofList r.text], [], .start⟩

def endRecord (r : Reading) : Reading :=
  ⟨r.records ++ [r.fields ++ [String.ofList r.text]], [], [], .start⟩

/-- Reads a character outside of quotes. -/
def outside (r : Reading) (c : Char) : Option Reading :=
  if c = ',' then some r.endField
  else if c = '\n' then some r.endRecord
  else if c = quote ∨ c = '\r' ∨ r.place = .closing then none
  else some { r with text := r.text ++ [c], place := .bare }

/-- Reads a character. -/
def step (r : Reading) (c : Char) : Option Reading :=
  match r.place with
  | .start => if c = quote then some { r with place := .quoted } else r.outside c
  | .bare => r.outside c
  | .quoted =>
    if c = quote then some { r with place := .closing } else some { r with text := r.text ++ [c] }
  | .closing =>
    if c = quote then some { r with text := r.text ++ [c], place := .quoted } else r.outside c

/-- The records at the end of the text, where the last one need not have ended. -/
def finish (r : Reading) : Option (List (List String)) :=
  if r.place = .quoted then none
  else if r.place = .start ∧ r.fields = [] then some r.records
  else some r.endRecord.records

end Reading

open Reading

/-- The table that a text holds, if it follows the rules. -/
def read (s : String) : Option (List (List String)) := s.toList.foldlM step init >>= finish

/-! ### Fields -/

namespace Reading

variable {r : Reading} {c : Char}

lemma step_of_ne_quote (hp : r.place ≠ .quoted) (hc : c ≠ quote) : r.step c = r.outside c := by
  unfold step
  split
  · exact if_neg hc
  · rfl
  · rename_i h
    exact absurd h hp
  · exact if_neg hc

lemma step_comma (hp : r.place ≠ .quoted) : r.step ',' = some r.endField :=
  step_of_ne_quote hp (by decide)

lemma step_newline (hp : r.place ≠ .quoted) : r.step '\n' = some r.endRecord :=
  step_of_ne_quote hp (by decide)

lemma step_plain (hp : r.place = .start ∨ r.place = .bare) (hc : isSpecial c = false) :
    r.step c = some { r with text := r.text ++ [c], place := .bare } := by
  simp only [isSpecial, Bool.or_eq_false_iff, beq_eq_false_iff_ne] at hc
  obtain ⟨⟨⟨hcomma, hquote⟩, hnewline⟩, hreturn⟩ := hc
  have hquoted : r.place ≠ .quoted := by rcases hp with hp | hp <;> rw [hp] <;> decide
  have hclosing : r.place ≠ .closing := by rcases hp with hp | hp <;> rw [hp] <;> decide
  rw [step_of_ne_quote hquoted hquote, outside, if_neg hcomma, if_neg hnewline,
    if_neg (by simp [hquote, hreturn, hclosing])]

/-- A character between quotes is read from what is written for it. -/
lemma foldlM_double (hp : r.place = .quoted) (c : Char) :
    (if c = quote then [quote, quote] else [c]).foldlM step r =
      some { r with text := r.text ++ [c] } := by
  obtain ⟨records, fields, text, place⟩ := r
  cases hp
  by_cases hc : c = quote
  · subst hc
    rfl
  · rw [if_neg hc]
    simp only [List.foldlM_cons, List.foldlM_nil, step, if_neg hc, Option.bind_eq_bind,
      Option.bind_some, pure]

lemma foldlM_doubled (hp : r.place = .quoted) (cs : List Char) :
    (cs.flatMap fun c => if c = quote then [quote, quote] else [c]).foldlM step r =
      some { r with text := r.text ++ cs } := by
  induction cs generalizing r with
  | nil => rw [List.append_nil]; rfl
  | cons c cs ih =>
    rw [List.flatMap_cons, List.foldlM_append, foldlM_double hp, Option.bind_eq_bind,
      Option.bind_some, ih (r := { r with text := r.text ++ [c] }) hp, List.append_assoc,
      List.singleton_append]

lemma foldlM_plain (hp : r.place = .start ∨ r.place = .bare) {cs : List Char}
    (hc : ∀ c ∈ cs, isSpecial c = false) :
    ∃ place, place ≠ .quoted ∧
      cs.foldlM step r = some { r with text := r.text ++ cs, place := place } := by
  induction cs generalizing r with
  | nil =>
    refine ⟨r.place, ?_, by rw [List.append_nil]; rfl⟩
    rcases hp with hp | hp <;> rw [hp] <;> decide
  | cons c cs ih =>
    obtain ⟨hc, hcs⟩ := List.forall_mem_cons.mp hc
    obtain ⟨place, hplace, hread⟩ := ih (r := { r with text := r.text ++ [c], place := .bare })
      (.inr rfl) hcs
    refine ⟨place, hplace, ?_⟩
    rw [List.foldlM_cons, step_plain hp hc, Option.bind_eq_bind, Option.bind_some, hread,
      List.append_assoc, List.singleton_append]

/-- **A field is read back**, up to the character behind it. -/
lemma foldlM_field (records : List (List String)) (fields : List String) (s : String) :
    ∃ place, place ≠ .quoted ∧
      (field s).toList.foldlM step ⟨records, fields, [], .start⟩ =
        some ⟨records, fields, s.toList, place⟩ := by
  unfold field
  by_cases hs : s.toList.any isSpecial
  · refine ⟨.closing, by decide, ?_⟩
    have hopen : step ⟨records, fields, [], .start⟩ quote =
        some ⟨records, fields, [], .quoted⟩ := rfl
    have htext := foldlM_doubled (r := ⟨records, fields, [], .quoted⟩) rfl s.toList
    have hclose : step ⟨records, fields, s.toList, .quoted⟩ quote =
        some ⟨records, fields, s.toList, .closing⟩ := rfl
    rw [if_pos hs, String.toList_ofList, quoted, List.foldlM_append, List.foldlM_cons, hopen]
    simp only [Option.bind_eq_bind, Option.bind_some, htext, List.nil_append, List.foldlM_cons,
      hclose, List.foldlM_nil, Option.pure_def]
  · rw [if_neg hs]
    exact foldlM_plain (.inl rfl) (by simpa using hs)

end Reading

/-! ### Records -/

lemma record_singleton (f : String) : record [f] = field f ++ "\n" := by
  rw [record, List.map_cons, List.map_nil, String.intercalate_singleton]

lemma record_cons_cons (f g : String) (fs : List String) :
    record (f :: g :: fs) = field f ++ "," ++ record (g :: fs) := by
  rw [record, List.map_cons, List.map_cons, String.intercalate_cons_cons, record, List.map_cons,
    String.append_assoc]

/-- A record begins with its first field. -/
lemma exists_record_eq (f : String) (fs : List String) :
    ∃ rest, (record (f :: fs)).toList = (field f).toList ++ rest := by
  cases fs with
  | nil => exact ⟨_, by rw [record_singleton, String.toList_append]⟩
  | cons g fs =>
    exact ⟨_, by rw [record_cons_cons, String.toList_append, String.toList_append,
      List.append_assoc]⟩

/-- **A record is read back.** -/
lemma foldlM_record (records : List (List String)) (done : List String) {fields : List String}
    (hf : fields ≠ []) : (record fields).toList.foldlM step ⟨records, done, [], .start⟩ =
      some ⟨records ++ [done ++ fields], [], [], .start⟩ := by
  obtain ⟨f, fs, rfl⟩ := List.exists_cons_of_ne_nil hf
  clear hf
  induction fs generalizing f done with
  | nil =>
    obtain ⟨place, hplace, hread⟩ := foldlM_field records done f
    have hend := step_newline (r := ⟨records, done, f.toList, place⟩) hplace
    rw [record_singleton, String.toList_append, List.foldlM_append, hread]
    simp only [Option.bind_eq_bind, Option.bind_some, show "\n".toList = ['\n'] from rfl,
      List.foldlM_cons, hend, List.foldlM_nil, Option.pure_def, endRecord, String.ofList_toList]
  | cons g fs ih =>
    obtain ⟨place, hplace, hread⟩ := foldlM_field records done f
    have hend := step_comma (r := ⟨records, done, f.toList, place⟩) hplace
    rw [record_cons_cons, String.toList_append, String.toList_append, List.foldlM_append,
      List.foldlM_append, hread]
    simp only [Option.bind_eq_bind, Option.bind_some, show ",".toList = [','] from rfl,
      List.foldlM_cons, hend, List.foldlM_nil, Option.pure_def, endField, String.ofList_toList, ih,
      List.append_assoc, List.singleton_append]

/-! ### Tables -/

/-- A table begins with its first field. -/
lemma exists_table_eq (f : String) (fs : List String) (lines : List (List String)) :
    ∃ rest, (table ((f :: fs) :: lines)).toList = (field f).toList ++ rest := by
  obtain ⟨rest, hrest⟩ := exists_record_eq f fs
  rw [table, String.toList_join, List.map_cons, List.flatMap_cons, hrest, List.append_assoc]
  exact ⟨_, rfl⟩

lemma foldlM_table (records : List (List String)) {lines : List (List String)}
    (hl : ∀ line ∈ lines, line ≠ []) : (table lines).toList.foldlM step ⟨records, [], [], .start⟩ =
      some ⟨records ++ lines, [], [], .start⟩ := by
  rw [table, String.toList_join]
  induction lines generalizing records with
  | nil => rw [List.append_nil]; rfl
  | cons line lines ih =>
    obtain ⟨hline, hlines⟩ := List.forall_mem_cons.mp hl
    rw [List.map_cons, List.flatMap_cons, List.foldlM_append, foldlM_record records [] hline,
      Option.bind_eq_bind, Option.bind_some, ih _ hlines, List.nil_append, List.append_assoc,
      List.singleton_append]

/-- **A table is read back as it was**, whatever its fields are, if each record has one. -/
theorem read_table {lines : List (List String)} (hl : ∀ line ∈ lines, line ≠ []) :
    read (table lines) = some lines := by
  rw [read, init, foldlM_table [] hl, List.nil_append]
  rfl

example : read "a,\"b\"\"\n,\"\n,c\n" = some [["a", "b\"\n,"], ["", "c"]] := by decide
example : read "a\"b\n" = none := by decide

end Mdf.Csv
