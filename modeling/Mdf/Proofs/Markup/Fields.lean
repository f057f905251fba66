import Mdf.Markup.Comment
import Mdf.Proofs.Text.Blank

/-!
# Fields of a comment

The fields of a comment are added one after the other.  Of those with a text that is not blank, the
first one of each name is kept, without the blanks at either end of its text (`foldl_addField`).
-/

namespace Mdf.Comment

variable {fields : List (String × String)}

/-- The fields with a text that is not blank, without the blanks at either end of it. -/
def nonBlank (fields : List (String × String)) : List (String × String) :=
  (fields.filter fun f => !f.2.toList.all Text.isBlank).map fun f => (f.1, Text.trim f.2)

/-- The first field of each name, in their order. -/
def firsts (fields : List (String × String)) : List (String × String) :=
  fields.eraseDupsBy fun f g => f.1 == g.1

lemma firsts_cons (f : String × String) (fields : List (String × String)) :
    firsts (f :: fields) = f :: firsts (fields.filter fun g => g.1 ≠ f.1) := by
  rw [firsts, List.eraseDupsBy_cons, firsts]
  simp

/-- The first ones of a list of images are the images of the first ones. -/
lemma eraseDupsBy_map {α β : Type} (g : α → β) (r : β → β → Bool) (l : List α) :
    (l.map g).eraseDupsBy r = (l.eraseDupsBy fun a b => r (g a) (g b)).map g := by
  match l with
  | [] => rfl
  | a :: l =>
    rw [List.map_cons, List.eraseDupsBy_cons, List.eraseDupsBy_cons, List.map_cons, List.filter_map,
      eraseDupsBy_map g r]
    rfl
termination_by l.length
decreasing_by exact Nat.lt_succ_of_le (List.length_filter_le ..)

/-- What is kept of a list is the first of its key. -/
lemma mem_eraseDupsBy_iff {α κ : Type} [DecidableEq κ] (key : α → κ) (l : List α) (a : α) :
    a ∈ l.eraseDupsBy (fun a b => key a == key b) ↔
      l.find? (fun b => key b == key a) = some a := by
  match l with
  | [] => simp
  | b :: l =>
    rw [List.eraseDupsBy_cons, List.mem_cons, mem_eraseDupsBy_iff key, List.find?_filter]
    by_cases hkey : key b = key a
    · -- behind `b` there is none of its key left
      rw [List.find?_cons_of_pos (by simpa using hkey),
        List.find?_eq_none.mpr fun c _ => by simp [hkey]]
      simp [eq_comm]
    · have hne : a ≠ b := by
        rintro rfl
        exact hkey rfl
      have hsame : ∀ c, decide (decide ((key c == key b) = false) = true ∧ (key c == key a) = true) =
          (key c == key a) := by
        intro c
        by_cases hc : key c = key a <;> simp [hc, Ne.symm hkey]
      rw [List.find?_cons_of_neg (by simpa using hkey)]
      simp only [hsame, or_iff_right hne]
termination_by l.length
decreasing_by exact Nat.lt_succ_of_le (List.length_filter_le ..)

/-- Fields of different names are all kept. -/
lemma firsts_of_nodup (h : (fields.map Prod.fst).Nodup) : firsts fields = fields := by
  induction fields with
  | nil => rfl
  | cons f fields ih =>
    rw [List.map_cons, List.nodup_cons] at h
    have hother : (fields.filter fun g => g.1 ≠ f.1) = fields := by
      rw [List.filter_eq_self]
      intro g hg
      exact decide_eq_true fun he => h.1 (he ▸ List.mem_map_of_mem hg)
    rw [firsts_cons, hother, ih h.2]

lemma sublist_nonBlank (fields : List (String × String)) :
    ((nonBlank fields).map Prod.fst).Sublist (fields.map Prod.fst) := by
  rw [nonBlank, List.map_map]
  exact List.filter_sublist.map Prod.fst

lemma nonBlank_cons (f : String × String) (fields : List (String × String)) :
    nonBlank (f :: fields) =
      if Text.trim f.2 = "" then nonBlank fields else (f.1, Text.trim f.2) :: nonBlank fields := by
  by_cases h : Text.trim f.2 = ""
  · rw [if_pos h, nonBlank, List.filter_cons_of_neg (by simpa using h), nonBlank]
  · rw [if_neg h, nonBlank, List.filter_cons_of_pos (by simpa using h), List.map_cons, nonBlank]

lemma isSome_field?_append_singleton (c : Comment) (name value other : String) :
    (field? ⟨c.root, c.fields ++ [(name, value)]⟩ other).isSome =
      ((c.field? other).isSome || other == name) := by
  have hlast : ([(name, value)].lookup other).isSome = (other == name) := by
    rw [List.lookup_cons]
    split <;> simp_all
  rw [field?, List.lookup_append, Option.isSome_or, hlast, field?]

/-- **Of the fields of each name the first one is kept** that is not blank, unless the comment has one
already. -/
theorem foldl_addField (c : Comment) (fields : List (String × String)) :
    fields.foldl (fun c f => c.addField f.1 (Text.trim f.2)) c =
      ⟨c.root, c.fields ++ firsts ((nonBlank fields).filter fun f => !(c.field? f.1).isSome)⟩ := by
  induction fields generalizing c with
  | nil => simp [nonBlank, firsts]
  | cons f fields ih =>
    rw [List.foldl_cons, ih, nonBlank_cons, addField]
    by_cases hblank : Text.trim f.2 = ""
    · rw [if_pos (.inl hblank), if_pos hblank]
    rw [if_neg hblank]
    by_cases hfound : (c.field? f.1).isSome
    · rw [if_pos (.inr hfound), List.filter_cons_of_neg (by rw [hfound]; decide)]
    · -- of the fields behind this one, those of its name have become second ones
      have hnew (g : String × String) :
          (!(field? ⟨c.root, c.fields ++ [(f.1, Text.trim f.2)]⟩ g.1).isSome) =
            (decide (g.1 ≠ f.1) && !(c.field? g.1).isSome) := by
        rw [isSome_field?_append_singleton, Bool.not_or, Bool.and_comm, beq_eq_decide,
          ← decide_not]
      rw [if_neg (not_or.mpr ⟨hblank, hfound⟩), List.filter_cons_of_pos (by simpa using hfound),
        firsts_cons, List.filter_filter]
      simp only [hnew, List.append_assoc, List.singleton_append]

/-- The comment of the fields of a document. -/
def ofFields (root : String) (fields : List (String × String)) : Comment :=
  fields.foldl (fun c f => c.addField f.1 (Text.trim f.2)) ⟨root, []⟩

/-- A comment keeps the first field of each name that is not blank. -/
theorem ofFields_eq (root : String) (fields : List (String × String)) :
    ofFields root fields = ⟨root, firsts (nonBlank fields)⟩ := by
  have hall : (nonBlank fields).filter (fun f => !(field? ⟨root, []⟩ f.1).isSome) =
      nonBlank fields := List.filter_eq_self.mpr fun _ _ => rfl
  rw [ofFields, foldl_addField, hall, List.nil_append]

example : ofFields "r" [("a", " "), ("a", " 1\t"), ("b", "2"), ("a", "3")] =
    ⟨"r", [("a", "1"), ("b", "2")]⟩ := by decide

end Mdf.Comment
