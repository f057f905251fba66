import Mathlib.Data.List.DropRight
import Mathlib.Tactic.Common
import Mdf.Text.Blank

/-!
# Trimmed texts

Trimming removes the blank characters at the ends of a text and nothing else (`exists_eq_trim`), so a
trimmed text is left as it is, and nothing is left of blank characters alone.
-/

namespace Mdf.Text

lemma dropTrailing_eq_rdropWhile {α : Type} (p : α → Bool) (l : List α) :
    dropTrailing p l = l.rdropWhile p := rfl

@[simp] theorem trimEnd_trimEnd (s : String) : trimEnd (trimEnd s) = trimEnd s := by
  simp only [trimEnd, String.toList_ofList, dropTrailing_eq_rdropWhile,
    List.rdropWhile_idempotent]

lemma isPrefix_trimEnd (s : String) : (trimEnd s).toList <+: s.toList := by
  rw [trimEnd, String.toList_ofList]
  exact dropTrailing_prefix isBlank s.toList

/-- **Trimming removes the blanks at either end of a text**, and nothing else. -/
theorem exists_eq_trim (s : String) : ∃ before after : List Char,
    s.toList = before ++ ((trim s).toList ++ after) ∧ before.all isBlank ∧ after.all isBlank ∧
      (∀ c ∈ (trim s).toList.head?, ¬isBlank c) ∧ (∀ c ∈ (trim s).toList.getLast?, ¬isBlank c) := by
  have htrim : (trim s).toList = (s.toList.dropWhile isBlank).rdropWhile isBlank := by
    rw [trim, String.toList_ofList, dropTrailing_eq_rdropWhile]
  rw [htrim]
  refine ⟨s.toList.takeWhile isBlank, (s.toList.dropWhile isBlank).rtakeWhile isBlank, ?_,
    List.all_eq_true.mpr fun _ => List.mem_takeWhile_imp,
    List.all_eq_true.mpr fun _ => List.mem_rtakeWhile_imp, ?_, ?_⟩
  · rw [List.rdropWhile_append_rtakeWhile, List.takeWhile_append_dropWhile]
  · intro c hc
    -- what is left starts where the text without its first blanks does
    obtain ⟨rest, hrest⟩ := List.rdropWhile_prefix isBlank (s.toList.dropWhile isBlank)
    have hfirst := List.head?_dropWhile_not isBlank s.toList
    rw [← hrest, List.mem_head?_append_of_mem_head? hc] at hfirst
    exact Bool.eq_false_iff.mp hfirst
  · intro c hc
    have hne : (s.toList.dropWhile isBlank).rdropWhile isBlank ≠ [] := by
      rintro hnil
      rw [hnil] at hc
      cases hc
    rw [List.getLast?_eq_some_getLast hne] at hc
    cases hc
    exact List.rdropWhile_last_not isBlank _ hne

@[simp] theorem trim_eq_empty_iff {s : String} : trim s = "" ↔ s.toList.all isBlank := by
  obtain ⟨before, after, hs, hbefore, hafter, hhead, -⟩ := exists_eq_trim s
  constructor
  · intro h
    rw [hs, h, List.all_append, List.all_append, hbefore, hafter]
    rfl
  · intro h
    rw [hs, List.all_append, List.all_append, Bool.and_eq_true_iff, Bool.and_eq_true_iff] at h
    cases hl : (trim s).toList with
    | nil => exact String.toList_inj.mp hl
    | cons c cs =>
      rw [hl] at h hhead
      exact absurd (List.all_eq_true.mp h.2.1 c List.mem_cons_self) (hhead c rfl)

end Mdf.Text
