import Mdf.Proofs.Deflate.Inflate

/-!
# Bytes that are kept as they are

The compressor that keeps bytes as they are writes streams of the format (`stream_compress`).
-/

namespace Mdf.Deflate

variable {position n : Nat} {d out : List UInt8}

lemma number_append (u v : List Bool) :
    number (u ++ v) = number u + 2 ^ u.length * number v := by
  induction u with
  | nil => simp [number]
  | cons b u ih =>
    rw [List.cons_append, number, number, ih, List.length_cons, Nat.pow_succ]
    ring

/-- The bits of bytes stand for the same number as the bytes. -/
lemma number_flatMap_bitsOf (d : List UInt8) :
    number (d.flatMap bitsOf) = LittleEndian.decode d := by
  induction d with
  | nil => rfl
  | cons b d ih =>
    rw [List.flatMap_cons, number_append, number_bitsOf, length_bitsOf, ih, LittleEndian.decode]
    omega

/-- Bits of one length are told by their number. -/
lemma eq_of_number_eq {u v : List Bool} (hlength : u.length = v.length)
    (h : number u = number v) : u = v := by
  have hbit : ∀ b c : Bool, b.toNat = c.toNat → b = c := by decide
  induction u generalizing v with
  | nil => exact (List.length_eq_zero_iff.mp hlength.symm).symm
  | cons b u ih =>
    cases v with
    | nil => cases hlength
    | cons c v =>
      simp only [number] at h
      have hb := b.toNat_le
      have hc := c.toNat_le
      have hrest : u = v := ih (Nat.succ.inj hlength) (by omega)
      have hfirst : b = c := hbit b c (by omega)
      rw [hfirst, hrest]

/-! ### Blocks -/

/-- A length and what it lacks to the greatest one are complements of each other. -/
lemma bits_complement (hn : n ≤ storedLimit) :
    (LittleEndian.encode 2 (storedLimit - n)).flatMap bitsOf =
      ((LittleEndian.encode 2 n).flatMap bitsOf).map not := by
  have hlimit : storedLimit = 65535 := rfl
  have hvalue {v : Nat} (hv : v ≤ storedLimit) :
      number ((LittleEndian.encode 2 v).flatMap bitsOf) = v := by
    rw [number_flatMap_bitsOf, LittleEndian.decode_encode_of_lt (by omega)]
  have hsum := number_add_not ((LittleEndian.encode 2 n).flatMap bitsOf)
  rw [hvalue hn, length_flatMap_bitsOf, LittleEndian.length_encode] at hsum
  refine eq_of_number_eq (by simp only [List.length_map, length_flatMap_bitsOf,
    LittleEndian.length_encode]) ?_
  rw [hvalue (Nat.sub_le ..)]
  omega

/-- The bits of a block of bytes as they are, behind its mark. -/
lemma body_stored (hposition : position % 8 = 0) (hd : d.length ≤ storedLimit) :
    Body (position + 1) ([false, false] ++ (List.replicate 5 false ++
      ((LittleEndian.encode 2 d.length).flatMap bitsOf ++
        ((LittleEndian.encode 2 (storedLimit - d.length)).flatMap bitsOf ++ d.flatMap bitsOf))))
      out (out ++ d) := by
  rw [bits_complement hd]
  refine .stored (by decide) ?_ ?_ ?_
  · rw [List.length_replicate]
    omega
  · rw [length_flatMap_bitsOf, LittleEndian.length_encode]
  · rw [number_flatMap_bitsOf, LittleEndian.decode_encode_of_lt]
    exact Nat.lt_succ_of_le hd

lemma flatMap_storedBlock (last : Bool) (d : List UInt8) :
    (storedBlock last d).flatMap bitsOf = last :: ([false, false] ++ (List.replicate 5 false ++
      ((LittleEndian.encode 2 d.length).flatMap bitsOf ++
        ((LittleEndian.encode 2 (storedLimit - d.length)).flatMap bitsOf ++
          d.flatMap bitsOf)))) := by
  have hmark : bitsOf (if last then 1 else 0) =
      last :: ([false, false] ++ List.replicate 5 false) := by
    cases last <;> decide
  rw [storedBlock, List.flatMap_cons, hmark]
  simp only [List.flatMap_append, List.append_assoc, List.cons_append]

/-- Blocks of bytes as they are hold these bytes. -/
theorem blocks_storedBlocks (hposition : position % 8 = 0) (d out : List UInt8) :
    Blocks position ((storedBlocks d).flatMap bitsOf) out (out ++ d) := by
  induction d using storedBlocks.induct generalizing position out with
  | case1 d hd =>
    rw [storedBlocks, if_pos hd, flatMap_storedBlock]
    exact .last (body_stored hposition hd)
  | case2 d hd ih =>
    have htake : (d.take storedLimit).length ≤ storedLimit := List.length_take_le ..
    have hlength := congrArg List.length (flatMap_storedBlock false (d.take storedLimit))
    rw [length_flatMap_bitsOf, List.length_cons] at hlength
    have hbehind : (position + 8 * (storedBlock false (d.take storedLimit)).length) % 8 = 0 := by
      omega
    have hrest := ih hbehind (out ++ d.take storedLimit)
    rw [List.append_assoc, List.take_append_drop, hlength, Nat.add_comm _ 1,
      ← Nat.add_assoc] at hrest
    rw [storedBlocks, if_neg hd, List.flatMap_append, flatMap_storedBlock]
    exact .more (body_stored hposition htake) hrest

/-! ### The container -/

lemma adlerBytes_eq (d : List UInt8) :
    adlerBytes (adlerOf (d.foldl adlerStep (1, 0))) = checksumBytes d := by
  have hsum : adlerOf (d.foldl adlerStep (1, 0)) = checksum d := by
    rw [foldl_adlerStep]
    rfl
  rw [hsum]
  simp [adlerBytes, LittleEndian.encode, checksumBytes, Nat.div_div_eq_div_mul]

/-- **What is kept as it is stands in a stream of the format.** -/
theorem stream_compress (d : List UInt8) : Stream (compress d) d := by
  have hbytes : compress d = 0x78 :: 0x01 :: (storedBlocks d ++ (checksumBytes d ++ [])) := by
    rw [compress, adlerBytes_eq]
    simp
  rw [hbytes]
  exact .mk (by decide) (List.append_nil _).symm (by decide)
    (blocks_storedBlocks (by decide) d [])

end Mdf.Deflate
