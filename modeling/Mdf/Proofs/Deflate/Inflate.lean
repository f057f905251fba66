import Mdf.Deflate.Zlib
import Mdf.Proofs.Deflate.Huffman

/-!
# Inflating a stream of the format

`inflate_of_stream` is the main statement: every stream of the format is inflated to its output, or,
where that outgrows the capacity, to as much of the output as fits.  A derivation of the format is
followed step by step (`Leads`); the bits that are left bound the steps, since every symbol and
every block takes some.
-/

namespace Mdf.Deflate

open PrefixCode

variable {capacity position steps : Nat} {out after between d : List UInt8} {w v : List Bool}
  {literals distances : List Nat}

namespace Inflater

/-! ### Steps that write -/

section Leads

variable {α β : Type} {m : Inflater α} {next : α → Inflater β} {a : α} {b : β}

/-- At a position in the stream the step takes exactly these bits, and extends one output to the
other, if that fits the capacity; otherwise it stops full, with as much of it as fits. -/
def Leads (capacity position : Nat) (m : Inflater α) (w : List Bool) (out : List UInt8) (a : α)
    (after : List UInt8) : Prop :=
  ∀ ⦃s : BitSource⦄ ⦃bits : List Bool⦄, s.Holds position (w ++ bits) → out.length ≤ capacity →
    if after.length ≤ capacity then ∃ t : BitSource, t.Holds (position + w.length) bits ∧
      m.run.run ⟨s, out.toArray⟩ = (.ok a, ⟨t, after.toArray⟩)
    else ∃ t : BitSource,
      m.run.run ⟨s, out.toArray⟩ = (.error .full, ⟨t, (after.take capacity).toArray⟩)

lemma Takes.leads (h : Takes m w a) : Leads capacity position m w out a out := by
  intro s bits hs hout
  rw [if_pos hout]
  exact h hs out.toArray

lemma leads_bind (hm : Leads capacity position m w out a between)
    (hn : Leads capacity (position + w.length) (next a) v between b after)
    (hle : between <+: after) : Leads capacity position (m >>= next) (w ++ v) out b after := by
  intro s bits hs hout
  rw [List.append_assoc] at hs
  have hfirst := hm hs hout
  by_cases hfits : between.length ≤ capacity
  · rw [if_pos hfits] at hfirst
    obtain ⟨t, ht, hrun⟩ := hfirst
    have hrest := hn ht hfits
    rw [run_bind, hrun, List.length_append, ← Nat.add_assoc]
    exact hrest
  · rw [if_neg hfits] at hfirst
    obtain ⟨t, hrun⟩ := hfirst
    have hlength := hle.length_le
    obtain ⟨more, rfl⟩ := hle
    rw [if_neg (by omega), run_bind, hrun, List.take_append_of_le_length (by omega)]
    exact ⟨t, rfl⟩

/-- A step behind one that only reads. -/
lemma leads_takes_bind (hm : Takes m w a)
    (hn : Leads capacity (position + w.length) (next a) v out b after) :
    Leads capacity position (m >>= next) (w ++ v) out b after := by
  intro s bits hs hout
  rw [List.append_assoc] at hs
  obtain ⟨t, ht, hrun⟩ := hm hs out.toArray
  have hrest := hn ht hout
  rw [run_bind, hrun, List.length_append, ← Nat.add_assoc]
  exact hrest

/-- A step behind which no bit is taken. -/
lemma leads_bind_nil (hm : Leads capacity position m w out a between)
    (hn : Leads capacity (position + w.length) (next a) [] between b after)
    (hle : between <+: after) : Leads capacity position (m >>= next) w out b after := by
  rw [← List.append_nil w]
  exact leads_bind hm hn hle

/-- A step that bounds its own steps by the bits that are left. -/
lemma leads_get_bind {next : Progress → Inflater β}
    (hn : ∀ p : Progress, w.length ≤ p.source.size →
      Leads capacity position (next p) w out b after) :
    Leads capacity position (get >>= next) w out b after := by
  intro s bits hs hout
  have hsize : w.length ≤ s.size := by
    rw [hs.size_eq, List.length_append]
    omega
  exact hn ⟨s, out.toArray⟩ hsize hs hout

/-- A step that looks at the output. -/
lemma leads_get_out_bind {next : Progress → Inflater β}
    (hn : ∀ p : Progress, p.out = out.toArray → Leads capacity position (next p) w out b after) :
    Leads capacity position (get >>= next) w out b after :=
  fun s _ hs hout => hn ⟨s, out.toArray⟩ rfl hs hout

end Leads

lemma leads_align {pad : List Bool} (hpad : pad.length < 8)
    (haligned : (position + pad.length) % 8 = 0) :
    Leads capacity position align pad out () out := by
  intro s bits hs hout
  rw [if_pos hout]
  exact ⟨s.align, hs.align hpad haligned, rfl⟩

lemma leads_emit (b : UInt8) :
    Leads capacity position (emit capacity b) [] out () (out ++ [b]) := by
  intro s bits hs hout
  have hsize : (out ++ [b]).length = out.length + 1 := List.length_append
  rw [emit, run_get_bind]
  by_cases hlt : out.length < capacity
  · rw [if_pos (by omega), if_pos (by simpa using hlt)]
    refine ⟨s, hs, ?_⟩
    rw [← List.push_toArray]
    rfl
  · rw [if_neg (by omega), if_neg (by simpa using hlt), List.take_append_of_le_length (by omega),
      List.take_of_length_le (by omega)]
    exact ⟨s, rfl⟩

lemma leads_copyInput (d : List UInt8) :
    Leads capacity position (copyInput capacity d.length) (d.flatMap bitsOf) out () (out ++ d) := by
  induction d generalizing position out with
  | nil =>
    rw [List.append_nil]
    exact (takes_pure ()).leads
  | cons b d ih =>
    have hemit : Leads capacity (position + (bitsOf b).length)
        (emit capacity (UInt8.ofNat b.toNat)) [] out () (out ++ [b]) := by
      rw [UInt8.ofNat_toNat]
      exact leads_emit b
    rw [List.append_cons]
    exact leads_takes_bind (takes_byte b) (leads_bind hemit ih (List.prefix_append ..))

/-- The next byte of a match is the one before the end of the output. -/
lemma byteBefore_of_isMatch {distance length : Nat} (h : IsMatch distance (length + 1) out after) :
    out ++ [byteBefore out.toArray distance] <+: after := by
  obtain ⟨more, rfl⟩ := h.kept
  have hlength := h.length
  rw [List.length_append] at hlength
  obtain ⟨b, more, rfl⟩ := List.exists_cons_of_length_eq_add_one (Nat.add_left_cancel hlength)
  have hpos := h.pos
  have hwithin := h.within
  have hnext := h.repeats out.length (by simp) (Nat.le_refl _)
  rw [List.getElem?_append_right (Nat.le_refl _), Nat.sub_self, List.getElem?_cons_zero,
    List.getElem?_append_left (by omega)] at hnext
  have hbyte : byteBefore out.toArray distance = b := by
    rw [byteBefore, if_pos (by simpa using hwithin), Array.getD_eq_getD_getElem?,
      List.getElem?_toArray, List.size_toArray, ← hnext]
    rfl
  rw [hbyte]
  exact ⟨more, by simp⟩

lemma leads_copyBack {distance length : Nat} (h : IsMatch distance length out after) :
    Leads capacity position (copyBack capacity distance length) [] out () after := by
  induction length generalizing out with
  | zero =>
    have heq : out = after := h.kept.eq_of_length h.length.symm
    subst heq
    exact (takes_pure ()).leads
  | succ length ih =>
    have hnext := byteBefore_of_isMatch h
    have hlength := h.length
    have hsize : (out ++ [byteBefore out.toArray distance]).length = out.length + 1 :=
      List.length_append
    have hrest : IsMatch distance length (out ++ [byteBefore out.toArray distance]) after :=
      { pos := h.pos
        within := by have := h.within; omega
        kept := hnext
        length := by omega
        repeats := fun i hi hle => h.repeats i hi (by omega) }
    unfold copyBack
    refine leads_get_out_bind fun p hp => ?_
    rw [hp]
    exact leads_bind (leads_emit _) (ih hrest) hnext

/-! ### Symbols -/

lemma lengthTable_eq : ∀ k < 29, lengthTable[k]? = some (lengthBase k, lengthExtra k) := by decide

lemma distanceTable_eq : ∀ t < 30, distanceTable[t]? = some (distanceBase t, distanceExtra t) := by
  decide

lemma leads_symbols (h : Symbols literals distances w out after) (hsteps : w.length < steps) :
    Leads capacity position
      (symbols capacity (ofLengths literals) (ofLengths distances) steps) w out () after := by
  induction h generalizing position steps with
  | @stop w out hword =>
    obtain ⟨n, rfl⟩ : ∃ n, steps = n + 1 := Nat.exists_eq_succ_of_ne_zero (by omega)
    rw [← List.append_nil w]
    unfold symbols
    refine leads_takes_bind (takes_symbol hword) ?_
    rw [if_neg (by decide), if_pos rfl]
    exact (takes_pure ()).leads
  | @literal w bits b out after hword hrest ih =>
    obtain ⟨n, rfl⟩ : ∃ n, steps = n + 1 := Nat.exists_eq_succ_of_ne_zero (by omega)
    have hpos := hword.pos
    rw [List.length_append] at hsteps
    unfold symbols
    refine leads_takes_bind (takes_symbol hword) ?_
    rw [if_pos b.toNat_lt, UInt8.ofNat_toNat]
    exact leads_bind (leads_emit b) (ih (by omega)) hrest.isPrefix
  | @copy k t w extra w' extra' bits out copied after hk hword hextra ht hword' hextra' hmatch
      hrest ih =>
    obtain ⟨n, rfl⟩ : ∃ n, steps = n + 1 := Nat.exists_eq_succ_of_ne_zero (by omega)
    have hpos := hword.pos
    simp only [List.length_append] at hsteps
    unfold symbols
    refine leads_takes_bind (takes_symbol hword) ?_
    rw [if_neg (by omega), if_neg (by omega), Nat.add_sub_cancel_left]
    refine leads_takes_bind (takes_extended (lengthTable_eq k hk) hextra)
      (leads_takes_bind (takes_symbol hword')
        (leads_takes_bind (takes_extended (distanceTable_eq t ht) hextra') ?_))
    exact leads_bind (leads_copyBack hmatch) (ih (by omega)) hrest.isPrefix

lemma leads_coded (h : Symbols literals distances w out after) :
    Leads capacity position (coded capacity (ofLengths literals) (ofLengths distances)) w out ()
      after :=
  leads_get_bind fun _ hsize => leads_symbols h (Nat.lt_succ_of_le hsize)

/-! ### Codes that a block gives -/

lemma fixedLiterals_eq : fixedLiterals = ofLengths fixedLiteralLengths :=
  congrArg ofLengths (by decide +kernel)

lemma fixedDistances_eq : fixedDistances = ofLengths fixedDistanceLengths := rfl

lemma metaOrder_eq : metaOrder = codeOrder := by decide

/-- Looking a key up among pairs is finding its place among the keys. -/
lemma lookup_zip (keys values : List Nat) {s : Nat} (hs : s ∈ keys) :
    (keys.zip values).lookup s = values[keys.idxOf s]? := by
  induction keys generalizing values with
  | nil => cases hs
  | cons key keys ih =>
    cases values with
    | nil => rfl
    | cons value values =>
      rw [List.zip_cons_cons, List.lookup_cons, List.idxOf_cons]
      by_cases hkey : key = s
      · simp [hkey]
      · have hne : s ≠ key := fun heq => hkey heq.symm
        have hrest : s ∈ keys := (List.mem_cons.mp hs).resolve_left hne
        rw [beq_eq_false_iff_ne.mpr hne, beq_eq_false_iff_ne.mpr hkey]
        exact ih values hrest

lemma codeLengths_eq (given : List (List Bool)) :
    ((List.range 19).map fun s => ((metaOrder.zip (given.map number)).lookup s).getD 0) =
      codeLengths given := by
  have hmem : ∀ s ∈ List.range 19, s ∈ codeOrder := by decide
  refine List.map_congr_left fun s hs => ?_
  rw [metaOrder_eq, lookup_zip _ _ (hmem s hs), List.getD_eq_getElem?_getD]

/-- A run of equal lengths, and what follows it. -/
lemma takes_run (steps missing : Nat) {code : PrefixCode} {ls after : List Nat}
    {value least extra : Nat} (hw : w.length = extra) (hle : least + number w ≤ missing + 1)
    (hrest : Takes (wordLengths code steps (missing + 1 - (least + number w))
      (ls ++ List.replicate (least + number w) value)) v after) :
    Takes (do
      let n := least + (← bits extra)
      if n ≤ missing + 1 then
        wordLengths code steps (missing + 1 - n) (ls ++ List.replicate n value)
      else throw .corrupt) (w ++ v) after := by
  refine takes_bind (takes_bits hw) ?_
  dsimp only
  rwa [if_pos hle]

lemma takes_wordLengths {code ls after : List Nat} {missing : Nat} (h : Lengths code w ls after)
    (hmissing : after.length = ls.length + missing) (hsteps : w.length < steps) :
    Takes (wordLengths (ofLengths code) steps missing ls) w after := by
  induction h generalizing steps missing with
  | done =>
    obtain ⟨n, rfl⟩ : ∃ n, steps = n + 1 := Nat.exists_eq_succ_of_ne_zero (by omega)
    obtain rfl : missing = 0 := by omega
    exact takes_pure _
  | @one s w bits ls after hs hword hrest ih =>
    obtain ⟨n, rfl⟩ : ∃ n, steps = n + 1 := Nat.exists_eq_succ_of_ne_zero (by omega)
    have hpos := hword.pos
    have hle := hrest.length_le
    rw [List.length_append, List.length_singleton] at hle
    rw [List.length_append] at hsteps
    obtain ⟨k, rfl⟩ : ∃ k, missing = k + 1 := Nat.exists_eq_succ_of_ne_zero (by omega)
    unfold wordLengths
    refine takes_bind (takes_symbol hword) ?_
    dsimp only
    rw [if_pos hs]
    exact ih (by rw [List.length_append, List.length_singleton]; omega) (by omega)
  | @run s value least extraBits w extra bits ls after hrun hword hextra hrest ih =>
    obtain ⟨n, rfl⟩ : ∃ n, steps = n + 1 := Nat.exists_eq_succ_of_ne_zero (by omega)
    have hpos := hword.pos
    have hle := hrest.length_le
    have hleast : 0 < least := by cases hrun <;> decide
    rw [List.length_append, List.length_replicate] at hle
    simp only [List.length_append] at hsteps
    obtain ⟨k, rfl⟩ : ∃ k, missing = k + 1 := Nat.exists_eq_succ_of_ne_zero (by omega)
    have hmore := takes_run n k hextra (by omega)
      (ih (by rw [List.length_append, List.length_replicate]; omega) (by omega))
    unfold wordLengths
    refine takes_bind (takes_symbol hword) ?_
    dsimp only
    cases hrun with
    | last hlast =>
      rw [if_neg (by decide), if_pos rfl, hlast]
      exact hmore
    | zeros =>
      rw [if_neg (by decide), if_neg (by decide), if_pos rfl]
      exact hmore
    | moreZeros =>
      rw [if_neg (by decide), if_neg (by decide), if_neg (by decide)]
      exact hmore

/-- **The codes that a block gives are read.** -/
lemma takes_codes (h : Codes w literals distances) :
    Takes codes w (ofLengths literals, ofLengths distances) := by
  obtain ⟨hhlit, hhdist, hhclen, hliterals, hliterals', hdistances, hdistances', hgiven, hwidth,
    hcomplete, hlengths, hcode, hcode'⟩ := h
  unfold codes
  refine takes_bind (takes_bits hhlit) (takes_bind (takes_bits hhdist)
    (takes_bind (takes_bits hhclen) ?_))
  dsimp only
  rw [if_neg (by omega), ← hgiven]
  refine takes_bind (takes_numbers hwidth) ?_
  rw [codeLengths_eq, if_neg (by simp [isComplete_ofLengths hcomplete])]
  refine takes_get_bind fun p hsize => ?_
  have hmissing : (literals ++ distances).length =
      ([] : List Nat).length + (literals.length + distances.length) := by
    rw [List.length_append, List.length_nil, Nat.zero_add]
  rw [← hliterals, ← hdistances]
  refine takes_bind_nil (takes_wordLengths hlengths hmissing (by omega)) ?_
  rw [ List.take_left, List.drop_left,
    if_neg (by simp [isUsable_ofLengths hcode, isUsable_ofLengths hcode'])]
  exact takes_pure _

/-! ### Blocks -/

lemma leads_stored {pad size : List Bool} (hpad : pad.length < 8)
    (haligned : (position + pad.length) % 8 = 0) (hsize : size.length = 16)
    (hlength : number size = d.length) :
    Leads capacity position (stored capacity)
      (pad ++ (size ++ (size.map not ++ d.flatMap bitsOf))) out () (out ++ d) := by
  have hcheck : number size + number (size.map not) = 0xFFFF := by
    have hsum := number_add_not size
    rw [hsize] at hsum
    omega
  unfold stored
  refine leads_bind (leads_align hpad haligned) ?_ (List.prefix_append ..)
  refine leads_takes_bind (takes_bits hsize) (leads_takes_bind (takes_bits (by simpa)) ?_)
  rw [if_pos hcheck, hlength]
  exact leads_copyInput d

lemma leads_body (h : Body position w out after) :
    Leads capacity position (bits 2 >>= block capacity) w out () after := by
  cases h with
  | stored hpad haligned hsize hlength =>
    exact leads_takes_bind (takes_bits (w := [false, false]) rfl)
      (leads_stored hpad haligned hsize hlength)
  | @fixed bits _ _ h =>
    have hcoded : Leads capacity (position + 2) (coded capacity fixedLiterals fixedDistances) bits
        out () after := by
      rw [fixedLiterals_eq, fixedDistances_eq]
      exact leads_coded h
    exact leads_takes_bind (takes_bits (w := [true, false]) rfl) hcoded
  | dynamic hcodes h =>
    exact leads_takes_bind (takes_bits (w := [false, true]) rfl)
      (leads_takes_bind (takes_codes hcodes) (leads_coded h))

lemma leads_blocks (h : Blocks position w out after) (hsteps : w.length < steps) :
    Leads capacity position (blocks capacity steps) w out () after := by
  induction h generalizing steps with
  | @last position bits out after hbody =>
    obtain ⟨n, rfl⟩ : ∃ n, steps = n + 1 := Nat.exists_eq_succ_of_ne_zero (by omega)
    unfold blocks
    refine leads_takes_bind (takes_bits (w := [true]) rfl) ?_
    rw [← bind_assoc]
    exact leads_bind_nil (leads_body hbody) (takes_pure ()).leads (List.prefix_refl _)
  | @more position bits bits' out between after hbody hrest ih =>
    obtain ⟨n, rfl⟩ : ∃ n, steps = n + 1 := Nat.exists_eq_succ_of_ne_zero (by omega)
    rw [List.length_cons, List.length_append] at hsteps
    unfold blocks
    refine leads_takes_bind (takes_bits (w := [false]) rfl) ?_
    rw [← bind_assoc]
    exact leads_bind (leads_body hbody) (ih (by omega)) hrest.isPrefix

/-! ### The container -/

lemma takes_header {method flags : UInt8} (h : IsHeader method flags) :
    Takes header (bitsOf method ++ bitsOf flags) () := by
  unfold header
  refine takes_bind (takes_byte method) (takes_bind_nil (takes_byte flags) ?_)
  rw [IsHeader] at h
  rw [if_pos h]
  exact takes_pure ()

end Inflater

lemma foldl_adlerStep (d : List UInt8) :
    d.foldl adlerStep (1, 0) = (byteSum d % adlerBase, sumOfSums d % adlerBase) := by
  induction d using List.reverseRecOn with
  | nil => rfl
  | append_singleton d b ih =>
    have hbytes : byteSum (d ++ [b]) = byteSum d + b.toNat := by
      simp [byteSum, Nat.add_assoc]
    have hsums : sumOfSums (d ++ [b]) = sumOfSums d + byteSum (d ++ [b]) := by
      have hbefore : ∀ i ∈ List.range d.length,
          byteSum ((d ++ [b]).take (i + 1)) = byteSum (d.take (i + 1)) := by
        intro i hi
        rw [List.take_append_of_le_length (List.mem_range.mp hi)]
      rw [sumOfSums, List.length_append, List.length_singleton, List.range_succ, List.map_append,
        List.sum_append, List.map_congr_left hbefore, List.map_singleton, List.sum_singleton,
        List.take_of_length_le (by simp), sumOfSums]
    rw [List.foldl_append, ih, List.foldl_cons, List.foldl_nil, adlerStep, hsums, hbytes]
    simp only [Nat.mod_add_mod, Nat.add_mod_mod]

/-- The decoder's checksum is that of the format. -/
lemma adler32_toArray (d : List UInt8) : adler32 d.toArray = checksum d := by
  rw [adler32, List.foldl_toArray, foldl_adlerStep]
  rfl

lemma checksum_lt (d : List UInt8) : checksum d < 2 ^ 32 := by
  unfold checksum
  omega

namespace Inflater

lemma leads_trailer {pad : List Bool} (hpad : pad.length < 8)
    (haligned : (position + pad.length) % 8 = 0) :
    Leads capacity position trailer (pad ++ (checksumBytes out).flatMap bitsOf) out () out := by
  have hsum : (UInt8.ofNat (checksum out / 2 ^ 24)).toNat <<< 24 +
      (UInt8.ofNat (checksum out / 2 ^ 16)).toNat <<< 16 +
      (UInt8.ofNat (checksum out / 2 ^ 8)).toNat <<< 8 +
      (UInt8.ofNat (checksum out / 2 ^ 0)).toNat = checksum out := by
    have := checksum_lt out
    simp only [UInt8.toNat_ofNat', Nat.shiftLeft_eq]
    omega
  unfold trailer
  refine leads_bind (leads_align hpad haligned) ?_ (List.prefix_refl _)
  refine leads_takes_bind (takes_byte _) (leads_takes_bind (takes_byte _)
    (leads_takes_bind (takes_byte _) (leads_takes_bind (takes_byte _) ?_)))
  refine leads_get_out_bind fun p hp => ?_
  rw [hp, adler32_toArray, if_pos hsum]
  exact (takes_pure ()).leads

end Inflater

open Inflater

/-- **A stream of the format is inflated to its output**, as far as that fits the capacity. -/
theorem inflate_of_stream {z : List UInt8} (h : Stream z out) (capacity : Nat) :
    inflate capacity z = if out.length ≤ capacity then (.ok (), out.toArray)
      else (.error .full, (out.take capacity).toArray) := by
  obtain ⟨hheader, hbits, hpad, hblocks⟩ := h
  rename_i method flags body rest bits pad
  have hz : (method :: flags :: (body ++ (checksumBytes out ++ rest))).flatMap bitsOf =
      (bitsOf method ++ bitsOf flags) ++ (bits ++ (pad ++ (checksumBytes out).flatMap bitsOf)) ++
        rest.flatMap bitsOf := by
    simp only [List.flatMap_cons, List.flatMap_append, hbits, List.append_assoc]
  have haligned : (16 + bits.length + pad.length) % 8 = 0 := by
    have hlength := congrArg List.length hbits
    rw [length_flatMap_bitsOf, List.length_append] at hlength
    omega
  have hstream : Leads capacity 16 (stream capacity) bits [] () out :=
    leads_get_bind fun _ hsize => leads_blocks hblocks (Nat.lt_succ_of_le hsize)
  have hcontainer : Leads capacity 0 (container capacity) _ [] () out :=
    leads_takes_bind (takes_header hheader)
      (leads_bind hstream (leads_trailer hpad haligned) (List.prefix_refl _))
  have hrun := hcontainer (hz ▸ BitSource.holds_ofBytes _) (Nat.zero_le _)
  unfold inflate
  split at hrun
  · rename_i hfits
    obtain ⟨t, -, hrun⟩ := hrun
    rw [hrun, if_pos hfits]
  · rename_i hfits
    obtain ⟨t, hrun⟩ := hrun
    rw [hrun, if_neg hfits]

/-! ### More capacity -/

namespace Inflater

variable {α β : Type} {m m' n n' : Inflater α} {next next' : α → Inflater β} {capacity' : Nat}

/-- Where the first step does not stop full, the second one does the same. -/
def AgreesUnlessFull (m m' : Inflater α) : Prop :=
  ∀ p, (m.run.run p).1 = .error .full ∨ m'.run.run p = m.run.run p

lemma agrees_refl (m : Inflater α) : AgreesUnlessFull m m := fun _ => .inr rfl

lemma agrees_bind (hm : AgreesUnlessFull m m')
    (hn : ∀ a, AgreesUnlessFull (next a) (next' a)) :
    AgreesUnlessFull (m >>= next) (m' >>= next') := by
  intro p
  rw [run_bind, run_bind]
  obtain hfull | hsame := hm p
  · left
    cases hrun : m.run.run p with
    | mk result q =>
      rw [hrun] at hfull
      dsimp only at hfull
      rw [hfull]
  · rw [hsame]
    cases m.run.run p with
    | mk result q =>
      cases result with
      | ok a => exact hn a q
      | error e => exact .inr rfl

lemma agrees_get_bind {next next' : Progress → Inflater β}
    (h : ∀ p, AgreesUnlessFull (next p) (next' p)) :
    AgreesUnlessFull (get >>= next) (get >>= next') :=
  fun p => h p p

lemma agrees_ite {condition : Prop} [Decidable condition] (hm : AgreesUnlessFull m m')
    (hn : AgreesUnlessFull n n') :
    AgreesUnlessFull (if condition then m else n) (if condition then m' else n') := by
  split
  · exact hm
  · exact hn

variable (hle : capacity ≤ capacity')
include hle

lemma agrees_emit (b : UInt8) : AgreesUnlessFull (emit capacity b) (emit capacity' b) := by
  intro p
  rw [emit, emit, run_get_bind, run_get_bind]
  by_cases hlt : p.out.size < capacity
  · rw [if_pos hlt, if_pos (by omega)]
    exact .inr rfl
  · rw [if_neg hlt]
    exact .inl rfl

lemma agrees_copyInput (k : Nat) :
    AgreesUnlessFull (copyInput capacity k) (copyInput capacity' k) := by
  induction k with
  | zero => exact agrees_refl _
  | succ k ih =>
    exact agrees_bind (agrees_refl _) fun _ => agrees_bind (agrees_emit hle _) fun _ => ih

lemma agrees_copyBack (distance k : Nat) :
    AgreesUnlessFull (copyBack capacity distance k) (copyBack capacity' distance k) := by
  induction k with
  | zero => exact agrees_refl _
  | succ k ih =>
    exact agrees_get_bind fun _ => agrees_bind (agrees_emit hle _) fun _ => ih

lemma agrees_symbols (literals distances : PrefixCode) (k : Nat) :
    AgreesUnlessFull (symbols capacity literals distances k)
      (symbols capacity' literals distances k) := by
  induction k with
  | zero => exact agrees_refl _
  | succ k ih =>
    refine agrees_bind (agrees_refl _) fun s => agrees_ite ?_ (agrees_ite (agrees_refl _) ?_)
    · exact agrees_bind (agrees_emit hle _) fun _ => ih
    · refine agrees_bind (agrees_refl _) fun _ => agrees_bind (agrees_refl _) fun _ => ?_
      exact agrees_bind (agrees_refl _) fun _ =>
        agrees_bind (agrees_copyBack hle _ _) fun _ => ih

lemma agrees_coded (literals distances : PrefixCode) :
    AgreesUnlessFull (coded capacity literals distances) (coded capacity' literals distances) :=
  agrees_get_bind fun _ => agrees_symbols hle _ _ _

lemma agrees_stored : AgreesUnlessFull (stored capacity) (stored capacity') := by
  unfold stored
  refine agrees_bind (agrees_refl _) fun _ => agrees_bind (agrees_refl _) fun _ => ?_
  exact agrees_bind (agrees_refl _) fun _ =>
    agrees_ite (agrees_copyInput hle _) (agrees_refl _)

lemma agrees_block (kind : Nat) :
    AgreesUnlessFull (block capacity kind) (block capacity' kind) := by
  unfold block
  split
  · exact agrees_stored hle
  · exact agrees_coded hle _ _
  · unfold dynamic
    exact agrees_bind (agrees_refl _) fun _ => agrees_coded hle _ _
  · exact agrees_refl _

lemma agrees_blocks (k : Nat) : AgreesUnlessFull (blocks capacity k) (blocks capacity' k) := by
  induction k with
  | zero => exact agrees_refl _
  | succ k ih =>
    refine agrees_bind (agrees_refl _) fun _ => agrees_bind (agrees_refl _) fun kind => ?_
    exact agrees_bind (agrees_block hle kind) fun _ => agrees_ite (agrees_refl _) ih

end Inflater

/-- Where the output does not outgrow the capacity, more capacity changes nothing. -/
theorem inflate_of_le {capacity' : Nat} (hle : capacity ≤ capacity') {z : List UInt8}
    (h : (inflate capacity z).1 ≠ .error .full) : inflate capacity' z = inflate capacity z := by
  have hstream : AgreesUnlessFull (stream capacity) (stream capacity') :=
    agrees_get_bind fun _ => agrees_blocks hle _
  have hagrees : AgreesUnlessFull (container capacity) (container capacity') :=
    agrees_bind (agrees_refl _) fun _ => agrees_bind hstream fun _ => agrees_refl _
  obtain hfull | hsame := hagrees ⟨.ofBytes z, #[]⟩
  · exact absurd hfull h
  · unfold inflate
    rw [hsame]

end Mdf.Deflate
