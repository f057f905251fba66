import Mathlib.Tactic.Ring
import Mdf.Proofs.Deflate.Basic

/-!
# Words of canonical codes

Of a code the decoder keeps the number of words of each length, and the symbols in the order of
their words.  `takes_symbol` says that it finds the symbol of each word of the format.  The
induction is on what is left of the word: the bits read so far are a number beyond the words of
their length, for each length starts at twice what the one before it ends with.
-/

namespace Mdf.Deflate

open PrefixCode

variable {ls : List Nat} {s n m : Nat} {u v w : List Bool}

/-! ### Numbers of words -/

lemma foldl_word (v : List Bool) (a : Nat) :
    v.foldl (fun v b => 2 * v + b.toNat) a = a * 2 ^ v.length + wordValue v := by
  induction v generalizing a with
  | nil => simp [wordValue]
  | cons b v ih =>
    have hword : wordValue (b :: v) = v.foldl (fun v b => 2 * v + b.toNat) (2 * 0 + b.toNat) := rfl
    rw [hword, List.foldl_cons, ih, ih, List.length_cons, Nat.pow_succ]
    ring

lemma wordValue_append (u v : List Bool) :
    wordValue (u ++ v) = wordValue u * 2 ^ v.length + wordValue v := by
  rw [wordValue, List.foldl_append, foldl_word]
  rfl

lemma wordValue_lt (w : List Bool) : wordValue w < 2 ^ w.length := by
  induction w using List.reverseRecOn with
  | nil => decide
  | append_singleton w b ih =>
    have hb : b.toNat ≤ 1 := b.toNat_le
    have hbit : wordValue [b] = b.toNat := by simp [wordValue]
    rw [wordValue_append, hbit, List.length_append, List.length_singleton, Nat.pow_succ]
    omega

lemma firstWord_succ (hn : n ≠ 0) : firstWord ls (n + 1) = 2 * (firstWord ls n + ls.count n) := by
  rw [firstWord, if_neg hn]

/-- Longer words start behind all words that begin as a word of this length does. -/
lemma mul_le_firstWord (hn : n ≠ 0) (j : Nat) :
    (firstWord ls n + ls.count n) * 2 ^ (j + 1) ≤ firstWord ls (n + (j + 1)) := by
  induction j with
  | zero =>
    rw [Nat.zero_add, firstWord_succ hn]
    omega
  | succ j ih =>
    calc (firstWord ls n + ls.count n) * 2 ^ (j + 1 + 1)
        = 2 * ((firstWord ls n + ls.count n) * 2 ^ (j + 1)) := by ring
      _ ≤ 2 * firstWord ls (n + (j + 1)) := Nat.mul_le_mul_left 2 ih
      _ ≤ firstWord ls (n + (j + 1) + 1) := by
        rw [firstWord_succ (by omega)]
        omega

/-- A part of a word is a number beyond the words of its length. -/
lemma IsWord.beyond (h : IsWord ls s (u ++ v)) (hu : u ≠ []) (hv : v ≠ []) :
    firstWord ls u.length + ls.count u.length ≤ wordValue u := by
  obtain ⟨j, hj⟩ : ∃ j, v.length = j + 1 := Nat.exists_eq_succ_of_ne_zero (by simpa using hv)
  have hne : u.length ≠ 0 := by simpa using hu
  have hgrowth : _ ≤ firstWord ls _ := mul_le_firstWord hne j
  have hvalue := h.value
  have hlt := wordValue_lt v
  rw [wordValue_append, List.length_append, hj] at hvalue
  rw [hj] at hlt
  by_contra hless
  have hnext : (wordValue u + 1) * 2 ^ (j + 1) ≤
      (firstWord ls u.length + ls.count u.length) * 2 ^ (j + 1) :=
    Nat.mul_le_mul_right _ (by omega)
  rw [Nat.add_mul] at hnext
  omega

lemma IsWord.count_pos (h : IsWord ls s w) : 0 < ls.count w.length :=
  List.count_pos_iff.mpr (List.mem_of_getElem? h.length)

/-! ### Symbols in the order of their words -/

/-- The symbols with a word of the given length, in their order. -/
def symbolsOf (ls : List Nat) (n : Nat) : List Nat :=
  ls.zipIdx.filterMap fun (l, symbol) => if l = n then some symbol else none

lemma length_symbolsOf (ls : List Nat) (n : Nat) : (symbolsOf ls n).length = ls.count n := by
  have hfrom (i : Nat) : ((ls.zipIdx i).filterMap fun (l, symbol) =>
      if l = n then some symbol else none).length = ls.count n := by
    induction ls generalizing i with
    | nil => rfl
    | cons l ls ih =>
      rw [List.zipIdx_cons, List.filterMap_cons, List.count_cons]
      by_cases hl : l = n
      · simp [hl, ih]
      · simp [hl, ih]
  exact hfrom 0

/-- As many symbols stand before a symbol as have a word of its length and are less. -/
lemma getElem?_symbolsOf (h : ls[s]? = some n) :
    (symbolsOf ls n)[(ls.take s).count n]? = some s := by
  have hfrom (i : Nat) : ((ls.zipIdx i).filterMap fun (l, symbol) =>
      if l = n then some symbol else none)[(ls.take s).count n]? = some (i + s) := by
    induction ls generalizing i s with
    | nil => cases h
    | cons l ls ih =>
      rw [List.zipIdx_cons, List.filterMap_cons]
      cases s with
      | zero =>
        cases h
        simp
      | succ s =>
        have hrest := ih h (i + 1)
        rw [Nat.add_assoc, Nat.add_comm 1 s] at hrest
        rw [List.take_succ_cons, List.count_cons]
        by_cases hl : l = n
        · simpa [hl] using hrest
        · simpa [hl] using hrest
  simpa [symbolsOf] using hfrom 0

/-- The number of words of at most so many bits. -/
def wordsUpTo (ls : List Nat) (m : Nat) : Nat := ((lengths.take m).map fun n => ls.count n).sum

lemma drop_lengths (hm : m < 15) : lengths.drop m = (m + 1) :: lengths.drop (m + 1) := by
  have hlt : m < lengths.length := by simpa [lengths, maxWordLength] using hm
  rw [List.drop_eq_getElem_cons hlt]
  simp [lengths]

lemma wordsUpTo_succ (hm : m < 15) : wordsUpTo ls (m + 1) = wordsUpTo ls m + ls.count (m + 1) := by
  have hlt : m < lengths.length := by simpa [lengths, maxWordLength] using hm
  rw [wordsUpTo, List.take_succ_eq_append_getElem hlt]
  simp [wordsUpTo, lengths]

/-- A symbol stands behind those with shorter words, and behind those before it with words as long
as its own. -/
lemma getElem?_symbols (hm : m < 15) (h : ls[s]? = some (m + 1)) :
    (ofLengths ls).symbols[wordsUpTo ls m + (ls.take s).count (m + 1)]? = some s := by
  have hsymbols : (ofLengths ls).symbols = (lengths.flatMap (symbolsOf ls)).toArray := rfl
  have hshorter : ((lengths.take m).flatMap (symbolsOf ls)).length = wordsUpTo ls m := by
    simp only [List.length_flatMap, length_symbolsOf, wordsUpTo]
  have hbefore := getElem?_symbolsOf h
  obtain ⟨hlt, -⟩ := List.getElem?_eq_some_iff.mp hbefore
  rw [hsymbols, List.getElem?_toArray, ← List.take_append_drop m lengths, drop_lengths hm,
    List.flatMap_append, List.flatMap_cons,
    List.getElem?_append_right (by rw [hshorter]; exact Nat.le_add_right ..), hshorter,
    Nat.add_sub_cancel_left, List.getElem?_append_left hlt, hbefore]

/-- Some length beyond `m` is in use if there is a word of more than `m` bits. -/
lemma all_counts_eq_false (h : IsWord ls s w) (hm : m < w.length) :
    ((lengths.drop m).map fun n => ls.count n).all (· == 0) = false := by
  have hmem : w.length ∈ lengths.drop m := by
    refine List.mem_drop_iff_getElem.mpr ⟨w.length - 1 - m, ?_, ?_⟩
    · have := h.le
      simp only [lengths, maxWordLength, List.length_map, List.length_range]
      omega
    · simp only [lengths, List.getElem_map, List.getElem_range]
      omega
  have hcount := h.count_pos
  rw [List.all_eq_false]
  exact ⟨_, List.mem_map_of_mem hmem, by simpa using hcount.ne'⟩

/-! ### Following a word -/

namespace Inflater

lemma takes_follow (h : IsWord ls s (u ++ v)) (hv : v ≠ []) :
    Takes (follow (ofLengths ls).symbols (wordValue u) (firstWord ls (u.length + 1))
      (wordsUpTo ls u.length) ((lengths.drop u.length).map fun n => ls.count n)) v s := by
  induction v generalizing u with
  | nil => exact absurd rfl hv
  | cons b v ih =>
    have hle := h.le
    rw [List.length_append, List.length_cons] at hle
    have hu : u.length < 15 := by omega
    have hlength : (u ++ [b]).length = u.length + 1 := by simp
    have hword : 2 * wordValue u + number [b] = wordValue (u ++ [b]) := by
      have hbit : wordValue [b] = b.toNat := by simp [wordValue]
      rw [wordValue_append, hbit]
      simp only [number, List.length_singleton]
      omega
    rw [List.append_cons] at h
    rw [drop_lengths hu, List.map_cons]
    unfold follow
    refine takes_bind (takes_bits (w := [b]) rfl) ?_
    dsimp only
    rw [hword]
    by_cases hlast : v = []
    · -- the word is complete: its number is that of the symbol among the words of its length
      subst hlast
      rw [List.append_nil] at h
      have hvalue := h.value
      have hsymbol := h.length
      rw [hlength] at hvalue hsymbol
      have hbefore : (ls.take s).count (u.length + 1) < ls.count (u.length + 1) := by
        have hmem := getElem?_symbolsOf hsymbol
        obtain ⟨hlt, -⟩ := List.getElem?_eq_some_iff.mp hmem
        rwa [length_symbolsOf] at hlt
      rw [if_pos (by omega), hvalue, Nat.add_sub_cancel_left, getElem?_symbols hu hsymbol]
      exact takes_pure s
    · have hbeyond := h.beyond (by simp) hlast
      rw [hlength] at hbeyond
      have hlonger : u.length + 1 < (u ++ [b] ++ v).length := by
        have := List.length_pos_iff.mpr hlast
        simp only [List.length_append, List.length_singleton]
        omega
      have hmore := all_counts_eq_false h hlonger
      rw [if_neg (by omega), if_neg (by rw [hmore]; exact Bool.false_ne_true),
        ← firstWord_succ (by omega), ← wordsUpTo_succ hu]
      have hrest := ih h hlast
      rwa [hlength] at hrest

/-- **The decoder finds the symbol of each word.** -/
theorem takes_symbol (h : IsWord ls s w) : Takes (symbol (ofLengths ls)) w s :=
  takes_follow (u := []) h (List.ne_nil_of_length_pos h.pos)

end Inflater

/-! ### Codes that the decoder uses -/

lemma share_ofLengths (ls : List Nat) :
    (ofLengths ls).share = (lengths.map fun n => ls.count n * 2 ^ (15 - n)).sum := by
  have hzip : (ofLengths ls).counts.zip lengths = lengths.map fun n => (ls.count n, n) := by
    have hpairs : (lengths.map fun n => ls.count n).zip (lengths.map id) =
        lengths.map fun n => (ls.count n, n) := List.zip_map'
    rwa [List.map_id] at hpairs
  have hsum (pairs : List (Nat × Nat)) (a : Nat) :
      pairs.foldl (fun acc (count, n) => acc + count <<< (maxWordLength - n)) a =
        a + (pairs.map fun p => p.1 * 2 ^ (15 - p.2)).sum := by
    induction pairs generalizing a with
    | nil => rfl
    | cons p pairs ih =>
      obtain ⟨count, n⟩ := p
      rw [List.foldl_cons, ih, List.map_cons, List.sum_cons, ← Nat.add_assoc]
      dsimp only
      rw [Nat.shiftLeft_eq]
      rfl
  rw [share, hzip, hsum, Nat.zero_add, List.map_map]
  rfl

lemma isComplete_ofLengths (h : IsComplete ls) : (ofLengths ls).isComplete = true := by
  obtain ⟨hle, hsum⟩ := h
  have hone : ∀ l ≤ 15, (lengths.map fun n => (if l = n then 1 else 0) * 2 ^ (15 - n)).sum =
      if l = 0 then 0 else 2 ^ (15 - l) := by decide
  have hshare : (lengths.map fun n => ls.count n * 2 ^ (15 - n)).sum =
      (ls.map fun l => if l = 0 then 0 else 2 ^ (15 - l)).sum := by
    clear hsum
    induction ls with
    | nil => rfl
    | cons l ls ih =>
      have hrest := ih fun l' hl' => hle l' (List.mem_cons_of_mem _ hl')
      rw [List.map_cons, List.sum_cons, ← hrest, ← hone l (hle l (List.mem_cons_self ..)),
        ← List.sum_map_add]
      refine congrArg List.sum (List.map_congr_left fun n _ => ?_)
      rw [List.count_cons, ← Nat.add_mul, Nat.add_comm]
      simp
  rw [isComplete, share_ofLengths, hshare, hsum]
  rfl

/-- Symbols without a word do not count. -/
lemma ofLengths_counts (ls : List Nat) :
    (ofLengths ls).counts = lengths.map fun n => (ls.filter (· ≠ 0)).count n := by
  refine List.map_congr_left fun n hn => (List.count_filter ?_).symm
  obtain ⟨m, -, rfl⟩ := List.mem_map.mp hn
  simp

lemma size_symbols (ls : List Nat) : (ofLengths ls).symbols.size = (ofLengths ls).counts.sum := by
  have hsymbols : (ofLengths ls).symbols = (lengths.flatMap (symbolsOf ls)).toArray := rfl
  simp only [hsymbols, List.size_toArray, List.length_flatMap, length_symbolsOf]
  rfl

lemma isUsable_ofLengths (h : IsCode ls) : (ofLengths ls).isUsable = true := by
  rw [isUsable, Bool.or_eq_true]
  rcases h with h | h | h
  · exact .inl (isComplete_ofLengths h)
  · right
    rw [isTrivial, size_symbols, ofLengths_counts, h]
    decide
  · right
    rw [isTrivial, size_symbols, ofLengths_counts, h]
    decide

end Mdf.Deflate
