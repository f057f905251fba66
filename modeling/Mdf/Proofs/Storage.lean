import Mdf.Proofs.Result
import Mdf.Storage

/-!
# Transposing and back

A rearrangement of as many bytes as there are never faults, and `transpose` and `untranspose` take
back each other (`transpose_cancels`).  Transposing moves the byte in a row and a column to the same
place of the table with its rows and columns exchanged, and what does not fill a row stays where it
is both ways.
-/

namespace Mdf.Storage

/-! ### One rearrangement -/

/-- Where the byte at an index comes from. -/
def source (a b i : Nat) : Nat := i % a * b + i / a

/-- A row and a column of a table have an index in it. -/
lemma mul_add_lt {a b row col : Nat} (hr : row < a) (hc : col < b) : row * b + col < a * b :=
  calc row * b + col < row * b + b := Nat.add_lt_add_left hc _
    _ = (row + 1) * b := (Nat.succ_mul _ _).symm
    _ ≤ a * b := Nat.mul_le_mul_right b hr

lemma source_lt {a b i : Nat} (h : i < a * b) : source a b i < a * b := by
  have ha : 0 < a := Nat.pos_of_ne_zero (by rintro rfl; simp at h)
  exact mul_add_lt (Nat.mod_lt i ha) (Nat.div_lt_of_lt_mul h)

/-- Where the byte in a row and a column comes from, if the columns stand one after the other. -/
lemma source_mul_add {a row : Nat} (b col : Nat) (h : row < a) :
    source a b (col * a + row) = row * b + col := by
  have hm : (col * a + row) % a = row := by
    rw [Nat.mul_comm, Nat.mul_add_mod, Nat.mod_eq_of_lt h]
  have hq : (col * a + row) / a = col := by
    rw [Nat.mul_comm, Nat.mul_add_div (by omega), Nat.div_eq_of_lt h, Nat.add_zero]
  rw [source, hm, hq]

/-- The two ways to read the rows and columns of one table undo each other. -/
lemma source_source {a b i : Nat} (h : i < b * a) : source a b (source b a i) = i := by
  have hsource : source b a i = i % b * a + i / b := rfl
  rw [hsource, source_mul_add b (i % b) (Nat.div_lt_of_lt_mul h), Nat.mul_comm]
  exact Nat.div_add_mod i b

lemma sourceIndex_eq {a b i : Nat} (h : i < a * b) (hw : a * b < Checked.wordBound) :
    sourceIndex a b i = .ok (source a b i) := by
  have hs := Nat.lt_trans (source_lt h) hw
  have hm : i % a * b ≤ source a b i := Nat.le_add_right ..
  rw [sourceIndex, Checked.mul_of_lt (by omega)]
  exact Checked.add_of_lt hs

/-- The bytes of a rearrangement. -/
def rearranged (a b : Nat) (d : List UInt8) : List UInt8 :=
  (List.range (a * b)).map fun i => d.getD (source a b i) 0

@[simp] lemma length_rearranged (a b : Nat) (d : List UInt8) :
    (rearranged a b d).length = a * b := by
  simp [rearranged]

lemma rearrange_eq {a b : Nat} {d : List UInt8} (hd : a * b ≤ d.length)
    (hw : d.length < Checked.wordBound) : rearrange a b d = .ok (rearranged a b d) := by
  refine mapM_eq_ok fun i hi => ?_
  rw [List.mem_range] at hi
  have hs := Nat.lt_of_lt_of_le (source_lt hi) hd
  rw [sourceIndex_eq hi (by omega)]
  show Checked.item d.toArray (source a b i) = _
  rw [Checked.item_of_lt (by simpa using hs)]
  simp [hs]

lemma getElem?_rearranged {a b i : Nat} {d : List UInt8} (hi : i < a * b)
    (hd : a * b ≤ d.length) : (rearranged a b d)[i]? = d[source a b i]? := by
  have hs := Nat.lt_of_lt_of_le (source_lt hi) hd
  simp [rearranged, hi, hs]

lemma rearranged_rearranged {a b : Nat} {d rest : List UInt8} (hd : b * a ≤ d.length) :
    rearranged b a (rearranged a b d ++ rest) = d.take (b * a) := by
  refine List.ext_getElem (by simp; omega) fun i hi _ => ?_
  rw [length_rearranged] at hi
  have h1 : source b a i < a * b := Nat.mul_comm b a ▸ source_lt hi
  have h2 : source a b (source b a i) = i := source_source hi
  have h3 : i < d.length := by omega
  simp only [rearranged, List.getElem_map, List.getElem_range, List.getElem_take]
  rw [List.getD_eq_getElem?_getD, List.getElem?_append_left (by simpa using h1)]
  simp [h1, h2, h3]

/-- Bytes of which the first ones are rearranged. -/
def turned (a b : Nat) (d : List UInt8) : List UInt8 := rearranged a b d ++ d.drop (a * b)

lemma length_turned {a b : Nat} {d : List UInt8} (hd : a * b ≤ d.length) :
    (turned a b d).length = d.length := by
  rw [turned, List.length_append, length_rearranged, List.length_drop]
  omega

lemma turned_turned {a b : Nat} {d : List UInt8} (hd : a * b ≤ d.length) :
    turned b a (turned a b d) = d := by
  have hr : rearranged b a (turned a b d) = d.take (b * a) :=
    rearranged_rearranged (Nat.mul_comm a b ▸ hd)
  have hrest : (turned a b d).drop (b * a) = d.drop (b * a) := by
    rw [turned, List.drop_left' (by rw [length_rearranged, Nat.mul_comm]), Nat.mul_comm]
  rw [turned, hr, hrest, List.take_append_drop]

/-! ### Transposing -/

section Table

variable {columns : Nat} {d : List UInt8}

/-- Too few bytes or columns for a table stay as they are. -/
lemma transpose_of_not_table (h : columns ≤ 1 ∨ d.length < columns) : transpose columns d = .ok d :=
  if_pos h

lemma untranspose_of_not_table (h : columns ≤ 1 ∨ d.length < columns) :
    untranspose columns d = .ok d := if_pos h

lemma transpose_eq (h : ¬(columns ≤ 1 ∨ d.length < columns)) (hw : d.length < Checked.wordBound) :
    transpose columns d = .ok (turned (d.length / columns) columns d) := by
  have hle := Nat.div_mul_le_self d.length columns
  simp only [transpose, if_neg h, rearrange_eq hle hw]
  rw [Checked.mul_of_lt (by omega)]
  show (Checked.slice d _ d.length >>= fun rest => _) = _
  rw [Checked.slice_of_le hle (Nat.le_refl _), List.take_length]
  rfl

lemma untranspose_eq (h : ¬(columns ≤ 1 ∨ d.length < columns)) (hw : d.length < Checked.wordBound) :
    untranspose columns d = .ok (turned columns (d.length / columns) d) := by
  have hle := Nat.div_mul_le_self d.length columns
  simp only [untranspose, if_neg h, rearrange_eq (Nat.mul_div_le d.length columns) hw]
  rw [Checked.mul_of_lt (by omega)]
  show (Checked.slice d _ d.length >>= fun rest => _) = _
  rw [Checked.slice_of_le hle (Nat.le_refl _), List.take_length, turned, Nat.mul_comm columns]
  rfl

/-- **Transposing never faults**, and it keeps the number of bytes. -/
theorem transpose_ok (columns : Nat) (hw : d.length < Checked.wordBound) :
    ∃ t, transpose columns d = .ok t ∧ t.length = d.length := by
  by_cases h : columns ≤ 1 ∨ d.length < columns
  · exact ⟨d, transpose_of_not_table h, rfl⟩
  · exact ⟨_, transpose_eq h hw, length_turned (Nat.div_mul_le_self d.length columns)⟩

/-- **Transposing back never faults**, and it keeps the number of bytes. -/
theorem untranspose_ok (columns : Nat) (hw : d.length < Checked.wordBound) :
    ∃ t, untranspose columns d = .ok t ∧ t.length = d.length := by
  by_cases h : columns ≤ 1 ∨ d.length < columns
  · exact ⟨d, untranspose_of_not_table h, rfl⟩
  · exact ⟨_, untranspose_eq h hw, length_turned (Nat.mul_div_le d.length columns)⟩

/-- **Transposing back takes back the transposing**, for every number of columns. -/
theorem untranspose_transpose {t : List UInt8} (hw : d.length < Checked.wordBound)
    (ht : transpose columns d = .ok t) : untranspose columns t = .ok d := by
  by_cases h : columns ≤ 1 ∨ d.length < columns
  · cases (transpose_of_not_table h).symm.trans ht
    exact untranspose_of_not_table h
  · cases (transpose_eq h hw).symm.trans ht
    have hl := length_turned (Nat.div_mul_le_self d.length columns)
    rw [untranspose_eq (by rwa [hl]) (by rwa [hl]), hl,
      turned_turned (Nat.div_mul_le_self d.length columns)]

/-- **Transposing takes back the transposing back**, for every number of columns. -/
theorem transpose_untranspose {t : List UInt8} (hw : d.length < Checked.wordBound)
    (ht : untranspose columns d = .ok t) : transpose columns t = .ok d := by
  by_cases h : columns ≤ 1 ∨ d.length < columns
  · cases (untranspose_of_not_table h).symm.trans ht
    exact transpose_of_not_table h
  · cases (untranspose_eq h hw).symm.trans ht
    have hl := length_turned (Nat.mul_div_le d.length columns)
    rw [transpose_eq (by rwa [hl]) (by rwa [hl]), hl,
      turned_turned (Nat.mul_div_le d.length columns)]

/-- The byte in a row and a column stands in that column and row after the transposing. -/
lemma getElem?_turned {rows row col : Nat} (hd : rows * columns ≤ d.length) (hr : row < rows)
    (hc : col < columns) : (turned rows columns d)[col * rows + row]? =
      d[row * columns + col]? := by
  have hi : col * rows + row < rows * columns := Nat.mul_comm rows columns ▸ mul_add_lt hc hr
  rw [turned, List.getElem?_append_left (by rwa [length_rearranged]),
    getElem?_rearranged hi hd, source_mul_add columns col hr]

/-- **Transposing and transposing back cancel each other.**  Both are defined for all bytes and keep
their number, whatever the number of columns is.  If there are bytes for a row of more than one
column, the byte in a row and a column goes where the columns one after the other have it, and what
does not fill a row stays at the end. -/
theorem transpose_cancels (columns : Nat) {d : List UInt8} (hw : d.length < Checked.wordBound) :
    ∃ t u, transpose columns d = .ok t ∧ untranspose columns d = .ok u ∧
      untranspose columns t = .ok d ∧ transpose columns u = .ok d ∧
      t.length = d.length ∧ u.length = d.length ∧
      (1 < columns → columns ≤ d.length →
        (∀ row < d.length / columns, ∀ col < columns, row * columns + col < d.length ∧
          t[col * (d.length / columns) + row]? = d[row * columns + col]?) ∧
        t.drop (d.length - d.length % columns) = d.drop (d.length - d.length % columns)) := by
  obtain ⟨t, ht, htl⟩ := transpose_ok columns hw
  obtain ⟨u, hu, hul⟩ := untranspose_ok columns hw
  refine ⟨t, u, ht, hu, untranspose_transpose hw ht, transpose_untranspose hw hu, htl, hul, ?_⟩
  intro hcolumns hle
  have hd := Nat.div_mul_le_self d.length columns
  cases (transpose_eq (by omega) hw).symm.trans ht
  have hbody : d.length - d.length % columns = d.length / columns * columns := by
    have hsplit := Nat.div_add_mod d.length columns
    rw [Nat.mul_comm] at hsplit
    omega
  refine ⟨fun row hr col hc => ⟨?_, getElem?_turned hd hr hc⟩, ?_⟩
  · exact Nat.lt_of_lt_of_le (mul_add_lt hr hc) hd
  · rw [hbody, turned, List.drop_left' (length_rearranged ..)]

end Table

theorem transpose_cancels_seven :
    ([1, 2, 3, 4, 5, 6, 7] : List UInt8).length < Checked.wordBound ∧
      ∃ t u, transpose 3 [1, 2, 3, 4, 5, 6, 7] = .ok t ∧
        untranspose 3 [1, 2, 3, 4, 5, 6, 7] = .ok u ∧
        untranspose 3 t = .ok [1, 2, 3, 4, 5, 6, 7] ∧ transpose 3 u = .ok [1, 2, 3, 4, 5, 6, 7] ∧
        t.length = 7 ∧ u.length = 7 ∧ t[2 * 2 + 1]? = some 6 ∧ t.drop 6 = [7] := by
  have hw : ([1, 2, 3, 4, 5, 6, 7] : List UInt8).length < Checked.wordBound := by decide
  obtain ⟨t, u, ht, hu, hback, hforth, htl, hul, htable⟩ := transpose_cancels 3 hw
  obtain ⟨hplace, hrest⟩ := htable (by decide) (by decide)
  exact ⟨hw, t, u, ht, hu, hback, hforth, htl, hul, (hplace 1 (by decide) 2 (by decide)).2, hrest⟩

end Mdf.Storage
