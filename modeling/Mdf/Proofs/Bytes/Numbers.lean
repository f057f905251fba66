import Mdf.Proofs.Bytes.Decode

/-!
# Numbers in bytes

`numberAt file o n` is the number in `n` bytes of a file, whether or not anything reads it there.  A
step that has read a number has read the one at its position, and stands behind it.  For each type
of numbers, the bytes that a value is written as are those that are read as the value
(`LittleEndian.eq_encode_toNat_iff`).
-/

namespace Mdf

namespace LittleEndian

/-- The bytes of a number are those that it is read from. -/
lemma eq_encode_iff {bs : List UInt8} {n v : Nat} (hlen : bs.length = n)
    (hv : v < 1 <<< (8 * n)) : bs = encode n v ↔ v = decode bs := by
  constructor
  · rintro rfl
    exact (decode_encode_of_lt hv).symm
  · rintro rfl
    rw [← hlen, encode_decode]

/-- The same for a type whose values are the numbers of `n` bytes. -/
lemma eq_encode_toNat_iff {α : Type} {toNat : α → Nat} {ofNat : Nat → α} {n : Nat}
    (hlt : ∀ v, toNat v < 1 <<< (8 * n)) (hof : ∀ v, ofNat (toNat v) = v)
    (hto : ∀ m < 1 <<< (8 * n), toNat (ofNat m) = m) {bs : List UInt8} (hlen : bs.length = n)
    (v : α) : bs = encode n (toNat v) ↔ v = ofNat (decode bs) := by
  rw [eq_encode_iff hlen (hlt v)]
  constructor
  · intro h
    rw [← h, hof]
  · rintro rfl
    exact hto _ (hlen ▸ decode_lt bs)

section Types

variable {bs : List UInt8}

lemma eq_singleton_iff (hlen : bs.length = 1) (v : UInt8) :
    bs = [v] ↔ v = UInt8.ofNat (decode bs) := by
  have hbyte : [v] = encode 1 v.toNat := by rw [encode, encode, UInt8.ofNat_toNat]
  rw [hbyte]
  exact eq_encode_toNat_iff UInt8.toNat_lt (fun _ => UInt8.ofNat_toNat)
    (fun _ => UInt8.toNat_ofNat_of_lt') hlen v

lemma eq_uint16_iff (hlen : bs.length = 2) (v : UInt16) :
    bs = uint16 v ↔ v = UInt16.ofNat (decode bs) :=
  eq_encode_toNat_iff UInt16.toNat_lt (fun _ => UInt16.ofNat_toNat)
    (fun _ => UInt16.toNat_ofNat_of_lt') hlen v

/-- Signed numbers are written in two's complement. -/
lemma eq_int16_iff (hlen : bs.length = 2) (v : Int16) :
    bs = int16 v ↔ v = (UInt16.ofNat (decode bs)).toInt16 := by
  rw [int16, eq_uint16_iff hlen]
  constructor
  · intro h
    rw [← h, Int16.toInt16_toUInt16]
  · rintro rfl
    rw [UInt16.toUInt16_toInt16]

lemma eq_uint32_iff (hlen : bs.length = 4) (v : UInt32) :
    bs = uint32 v ↔ v = UInt32.ofNat (decode bs) :=
  eq_encode_toNat_iff UInt32.toNat_lt (fun _ => UInt32.ofNat_toNat)
    (fun _ => UInt32.toNat_ofNat_of_lt') hlen v

lemma eq_uint64_iff (hlen : bs.length = 8) (v : UInt64) :
    bs = uint64 v ↔ v = UInt64.ofNat (decode bs) :=
  eq_encode_toNat_iff UInt64.toNat_lt (fun _ => UInt64.ofNat_toNat)
    (fun _ => UInt64.toNat_ofNat_of_lt') hlen v

lemma eq_encode_bits_iff (hlen : bs.length = 8) (v : Double) :
    bs = encode 8 v.bits.toNat ↔ v = ⟨BitVec.ofNat _ (decode bs)⟩ := by
  have hof : ∀ v : Double, (⟨BitVec.ofNat _ v.bits.toNat⟩ : Double) = v := by
    intro v
    rw [BitVec.ofNat_toNat, BitVec.setWidth_eq]
  exact eq_encode_toNat_iff (fun v : Double => v.bits.isLt) hof
    (fun m hm => (BitVec.toNat_ofNat ..).trans (Nat.mod_eq_of_lt hm)) hlen v

end Types

end LittleEndian

/-- The number in the `n` bytes at an offset of a file, least byte first. -/
def numberAt (file : List UInt8) (o n : Nat) : Nat := LittleEndian.decode ((file.drop o).take n)

lemma numberAt_lt (file : List UInt8) (o n : Nat) : numberAt file o n < 1 <<< (8 * n) := by
  have hlt := LittleEndian.decode_lt ((file.drop o).take n)
  have hle : 1 <<< (8 * ((file.drop o).take n).length) ≤ 1 <<< (8 * n) := by
    rw [Nat.one_shiftLeft, Nat.one_shiftLeft]
    exact Nat.pow_le_pow_right (by omega) (Nat.mul_le_mul_left 8 (List.length_take_le ..))
  exact Nat.lt_of_lt_of_le hlt hle

namespace Decode

variable {α β : Type} {file : List UInt8} {p q n : Nat}

lemma of_run_map {d : Decode α} {f : α → β} {b : β}
    (h : run (d >>= fun a => pure (f a)) file p = (.ok b, q)) :
    ∃ a, run d file p = (.ok a, q) ∧ b = f a := by
  obtain ⟨a, r, ha, h⟩ := run_bind_eq_ok_iff.mp h
  cases h
  exact ⟨a, ha, rfl⟩

/-! ### One step -/

lemma of_run_take {bs : List UInt8} (h : run (take n) file p = (.ok bs, q)) :
    bs = (file.drop p).take n ∧ q = p + n := by
  rw [run_take] at h
  split at h
  · cases h
    exact ⟨rfl, rfl⟩
  · cases h

lemma of_run_number {v : Nat} (h : run (number n) file p = (.ok v, q)) :
    v = numberAt file p n ∧ q = p + n := by
  unfold number at h
  rw [field_eq_take] at h
  obtain ⟨bs, hbs, rfl⟩ := of_run_map h
  obtain ⟨rfl, hq⟩ := of_run_take hbs
  exact ⟨rfl, hq⟩

lemma of_run_uint8 {v : UInt8} (h : run uint8 file p = (.ok v, q)) :
    v.toNat = numberAt file p 1 ∧ q = p + 1 := by
  obtain ⟨n, hn, rfl⟩ := of_run_map h
  obtain ⟨rfl, hq⟩ := of_run_number hn
  exact ⟨UInt8.toNat_ofNat_of_lt' (numberAt_lt file p 1), hq⟩

lemma of_run_uint16 {v : UInt16} (h : run uint16 file p = (.ok v, q)) :
    v.toNat = numberAt file p 2 ∧ q = p + 2 := by
  obtain ⟨n, hn, rfl⟩ := of_run_map h
  obtain ⟨rfl, hq⟩ := of_run_number hn
  exact ⟨UInt16.toNat_ofNat_of_lt' (numberAt_lt file p 2), hq⟩

lemma of_run_uint32 {v : UInt32} (h : run uint32 file p = (.ok v, q)) :
    v.toNat = numberAt file p 4 ∧ q = p + 4 := by
  obtain ⟨n, hn, rfl⟩ := of_run_map h
  obtain ⟨rfl, hq⟩ := of_run_number hn
  exact ⟨UInt32.toNat_ofNat_of_lt' (numberAt_lt file p 4), hq⟩

lemma of_run_uint64 {v : UInt64} (h : run uint64 file p = (.ok v, q)) :
    v.toNat = numberAt file p 8 ∧ q = p + 8 := by
  obtain ⟨n, hn, rfl⟩ := of_run_map h
  obtain ⟨rfl, hq⟩ := of_run_number hn
  exact ⟨UInt64.toNat_ofNat_of_lt' (numberAt_lt file p 8), hq⟩

/-! ### A step and what follows it -/

section Bind

variable {r : Nat} {b : β}

lemma of_size_bind {next : Nat → Decode β} (h : run (size >>= next) file p = (.ok b, r)) :
    run (next file.length) file p = (.ok b, r) := by
  rwa [run_bind_of_ok (run_size file p)] at h

lemma of_seek_bind {offset : Nat} {next : Unit → Decode β}
    (h : run (seek offset >>= next) file p = (.ok b, r)) :
    run (next ()) file offset = (.ok b, r) := by
  obtain ⟨_, q, hseek, hnext⟩ := run_bind_eq_ok_iff.mp h
  rw [run_seek] at hseek
  split at hseek
  · cases hseek
    exact hnext
  · cases hseek

lemma of_take_bind {next : List UInt8 → Decode β}
    (h : run (take n >>= next) file p = (.ok b, r)) :
    run (next ((file.drop p).take n)) file (p + n) = (.ok b, r) := by
  obtain ⟨bs, q, htake, hnext⟩ := run_bind_eq_ok_iff.mp h
  obtain ⟨rfl, rfl⟩ := of_run_take htake
  exact hnext

lemma of_skip_bind {next : Unit → Decode β} (h : run (skip n >>= next) file p = (.ok b, r)) :
    run (next ()) file (p + n) = (.ok b, r) := by
  obtain ⟨_, q, hskip, hnext⟩ := run_bind_eq_ok_iff.mp h
  obtain ⟨bs, htake, -⟩ := of_run_map hskip
  obtain ⟨-, rfl⟩ := of_run_take htake
  exact hnext

lemma of_uint8_bind {next : UInt8 → Decode β} (h : run (uint8 >>= next) file p = (.ok b, r)) :
    ∃ v, v.toNat = numberAt file p 1 ∧ run (next v) file (p + 1) = (.ok b, r) := by
  obtain ⟨v, q, hv, hnext⟩ := run_bind_eq_ok_iff.mp h
  obtain ⟨hv', rfl⟩ := of_run_uint8 hv
  exact ⟨v, hv', hnext⟩

lemma of_uint16_bind {next : UInt16 → Decode β} (h : run (uint16 >>= next) file p = (.ok b, r)) :
    ∃ v, v.toNat = numberAt file p 2 ∧ run (next v) file (p + 2) = (.ok b, r) := by
  obtain ⟨v, q, hv, hnext⟩ := run_bind_eq_ok_iff.mp h
  obtain ⟨hv', rfl⟩ := of_run_uint16 hv
  exact ⟨v, hv', hnext⟩

lemma of_uint32_bind {next : UInt32 → Decode β} (h : run (uint32 >>= next) file p = (.ok b, r)) :
    ∃ v, v.toNat = numberAt file p 4 ∧ run (next v) file (p + 4) = (.ok b, r) := by
  obtain ⟨v, q, hv, hnext⟩ := run_bind_eq_ok_iff.mp h
  obtain ⟨hv', rfl⟩ := of_run_uint32 hv
  exact ⟨v, hv', hnext⟩

lemma of_uint64_bind {next : UInt64 → Decode β} (h : run (uint64 >>= next) file p = (.ok b, r)) :
    ∃ v, v.toNat = numberAt file p 8 ∧ run (next v) file (p + 8) = (.ok b, r) := by
  obtain ⟨v, q, hv, hnext⟩ := run_bind_eq_ok_iff.mp h
  obtain ⟨hv', rfl⟩ := of_run_uint64 hv
  exact ⟨v, hv', hnext⟩

end Bind

/-- Numbers that were read stand one behind the other. -/
lemma of_run_uint64s {vs : List UInt64} (h : run (uint64s n) file p = (.ok vs, q)) :
    vs.length = n ∧ (∀ i < n, (vs.getD i 0).toNat = numberAt file (p + 8 * i) 8) ∧
      q = p + 8 * n := by
  induction n generalizing vs p with
  | zero =>
    cases h
    exact ⟨rfl, by simp, rfl⟩
  | succ n ih =>
    obtain ⟨v, hv, h⟩ := of_uint64_bind h
    obtain ⟨vs, hrest, rfl⟩ := of_run_map h
    obtain ⟨hlen, hall, rfl⟩ := ih hrest
    refine ⟨by rw [List.length_cons, hlen], fun i hi => ?_, by omega⟩
    cases i with
    | zero => exact hv
    | succ i =>
      rw [List.getD_cons_succ, hall i (by omega), Nat.mul_succ]
      congr 1
      omega

end Decode

end Mdf
