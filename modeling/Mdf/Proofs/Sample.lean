import Mdf.Proofs.Bytes.Numbers
import Mdf.Proofs.Result
import Mdf.Sample

/-!
# Samples and their bytes

A kind reads exactly the bytes that it writes (`Kind.word_eq_ok_iff`).  So samples are the same as
the list of their bytes (`Samples.encodings`): pushing these onto an empty buffer gives the samples
again, and what is pushed onto a buffer stands in its bytes as it came.
-/

namespace Mdf

/-- Bytes are read as the word that they are written for, and as no other. -/
lemma Kind.word_eq_ok_iff {k : Kind} {bs : List UInt8} {w : BitVec k.bits} :
    k.word bs = .ok w ↔ bs = Value.bytes ⟨k, w⟩ := by
  have hbits : ∀ v : BitVec k.bits, v.toNat < 1 <<< (8 * k.bytes) := by
    intro v
    rw [Nat.one_shiftLeft]
    exact v.isLt
  unfold word
  by_cases hlen : bs.length = k.bytes
  · rw [if_pos hlen, Except.ok.injEq, eq_comm]
    refine (LittleEndian.eq_encode_toNat_iff hbits (fun v => ?_) (fun m hm => ?_) hlen w).symm
    · rw [BitVec.ofNat_toNat, BitVec.setWidth_eq]
    · rw [Nat.one_shiftLeft] at hm
      exact (BitVec.toNat_ofNat ..).trans (Nat.mod_eq_of_lt hm)
  · rw [if_neg hlen]
    refine iff_of_false nofun ?_
    rintro rfl
    exact hlen (LittleEndian.length_encode ..)

namespace Samples

/-! ### One sample -/

/-- The bytes of the sample at an index. -/
def bytesAt (s : Samples) (i : Nat) : List UInt8 := (s.get? i).elim [] Value.bytes

variable {s : Samples} {i : Nat} {bs : List UInt8}

lemma get?_of_lt (h : i < s.length) : s.get? i = some ⟨s.kind, s.words[i]⟩ := by
  rw [get?, List.getElem?_eq_getElem h, Option.map_some]

lemma bytesAt_of_lt (h : i < s.length) :
    s.bytesAt i = LittleEndian.encode s.kind.bytes s.words[i].toNat := by
  rw [bytesAt, get?_of_lt h]
  rfl

lemma length_bytesAt (h : i < s.length) : (s.bytesAt i).length = s.kind.bytes := by
  rw [bytesAt_of_lt h, LittleEndian.length_encode]

lemma encode_of_lt (h : i < s.length) : s.encode i s.kind.bytes = .ok (s.bytesAt i) := by
  have hl := length_bytesAt h
  simp only [bytesAt, get?_of_lt h, Option.elim_some] at hl ⊢
  simp only [encode, get?_of_lt h, Value.encode, Checked.fill_of_length hl, liftM_ok_fault]

/-- **The bytes of a sample are read as the sample**, bit for bit. -/
theorem word_bytesAt (h : i < s.length) : s.kind.word (s.bytesAt i) = .ok s.words[i] :=
  Kind.word_eq_ok_iff.mpr (bytesAt_of_lt h)

/-! ### Pushing bytes -/

lemma run_push (s : Samples) (bs : List UInt8) :
    (push bs).run.run s = match s.kind.word bs with
      | .ok w => (.ok (), ⟨s.kind, s.words ++ [w]⟩)
      | .error e => (.error e, s) := by
  have hget : (get : ExceptT Error (StateM Samples) Samples).run.run s = (.ok s, s) := rfl
  rw [push, run_bind_of_run_ok hget]
  cases s.kind.word bs <;> rfl

lemma run_push_bytes (s : Samples) (w : BitVec s.kind.bits) :
    (push (Value.bytes ⟨s.kind, w⟩)).run.run s = (.ok (), ⟨s.kind, s.words ++ [w]⟩) := by
  rw [run_push, Kind.word_eq_ok_iff.mpr rfl]

/-- The sample that was pushed last is written at the end. -/
lemma encode_last (s : Samples) (w : BitVec s.kind.bits) :
    encode ⟨s.kind, s.words ++ [w]⟩ s.length s.kind.bytes = .ok (Value.bytes ⟨s.kind, w⟩) := by
  have hlen : (Value.bytes ⟨s.kind, w⟩).length = s.kind.bytes := LittleEndian.length_encode ..
  simp only [encode, get?, length, List.getElem?_concat_length, Option.map_some, Value.encode,
    Checked.fill_of_length hlen, liftM_ok_fault]

lemma exists_word (s : Samples) (h : bs.length = s.kind.bytes) :
    ∃ w, bs = Value.bytes ⟨s.kind, w⟩ :=
  ⟨_, Kind.word_eq_ok_iff.mp (if_pos h)⟩

/-- A source of another width is refused, and the buffer is left as it was. -/
lemma run_push_of_length_ne (h : bs.length ≠ s.kind.bytes) :
    (push bs).run.run s = (.error (.prematureEnd bs.length), s) := by
  rw [run_push, Kind.word, if_neg h]

/-! ### The bytes of all samples -/

/-- The bytes of the samples in their order. -/
def encodings (s : Samples) : Except Failure (List (List UInt8)) :=
  (List.range s.length).mapM fun i => s.encode i s.kind.bytes

lemma map_bytesAt_range (s : Samples) :
    (List.range s.length).map s.bytesAt = s.values.map Value.bytes := by
  refine List.ext_getElem (by simp [values, length]) fun i hi _ => ?_
  have hlt : i < s.length := by simpa using hi
  simp only [List.getElem_map, List.getElem_range, values, bytesAt_of_lt hlt]
  rfl

lemma encodings_eq_ok (s : Samples) : s.encodings = .ok (s.values.map Value.bytes) := by
  rw [← map_bytesAt_range]
  exact mapM_eq_ok fun i hi => encode_of_lt (List.mem_range.mp hi)

/-- Pushing the bytes of samples onto a buffer of their kind appends the samples. -/
lemma run_forM_push (k : Kind) (us ws : List (BitVec k.bits)) :
    (((values ⟨k, ws⟩).map Value.bytes).forM push).run.run ⟨k, us⟩ = (.ok (), ⟨k, us ++ ws⟩) := by
  induction ws generalizing us with
  | nil =>
    rw [List.append_nil]
    rfl
  | cons w ws ih =>
    have hpush : (push (Value.bytes ⟨k, w⟩)).run.run ⟨k, us⟩ = (.ok (), ⟨k, us ++ [w]⟩) :=
      run_push_bytes ⟨k, us⟩ w
    have hrest := ih (us ++ [w])
    rw [List.append_assoc] at hrest
    exact (run_bind_of_run_ok hpush _).trans hrest

/-- The sources that are as wide as a sample of the kind. -/
def fitting (k : Kind) (sources : List (List UInt8)) : List (List UInt8) :=
  sources.filter fun bs => bs.length = k.bytes

/-- The buffer behind a push, whether or not the source was refused. -/
def pushed (s : Samples) (bs : List UInt8) : Samples := ((push bs).run.run s).2

/-- One push keeps the kind, and adds its source to the bytes if it fits. -/
lemma values_pushed (s : Samples) (bs : List UInt8) :
    (s.pushed bs).kind = s.kind ∧
      (s.pushed bs).values.map Value.bytes = s.values.map Value.bytes ++ fitting s.kind [bs] := by
  by_cases h : bs.length = s.kind.bytes
  · obtain ⟨w, rfl⟩ := exists_word s h
    rw [pushed, run_push_bytes, fitting, List.filter_singleton, decide_eq_true h]
    simp [values]
  · rw [pushed, run_push_of_length_ne h, fitting, List.filter_singleton, decide_eq_false h]
    simp

/-- So does any number of pushes. -/
lemma values_foldl_pushed (s : Samples) (sources : List (List UInt8)) :
    (sources.foldl pushed s).kind = s.kind ∧
      (sources.foldl pushed s).values.map Value.bytes =
        s.values.map Value.bytes ++ fitting s.kind sources := by
  induction sources generalizing s with
  | nil => exact ⟨rfl, (List.append_nil _).symm⟩
  | cons bs sources ih =>
    obtain ⟨hkind, hvalues⟩ := values_pushed s bs
    obtain ⟨ihkind, ihvalues⟩ := ih (s.pushed bs)
    refine ⟨ihkind.trans hkind, ?_⟩
    rw [List.foldl_cons, ihvalues, hvalues, hkind, List.append_assoc, fitting, fitting, fitting,
      ← List.filter_append]
    rfl

/-- **Samples survive the way through their bytes bit for bit.**  The bytes of all samples, pushed
in their order onto an empty buffer, give the samples again; whatever is pushed onto a buffer, the
sources of the right width stand in its bytes behind those it had, as they came; and a source of
another width is refused and leaves the buffer as it was. -/
theorem encodings_faithful (s : Samples) :
    (∃ l, s.encodings = .ok l ∧ (l.forM push).run.run (empty s.kind) = (.ok (), s) ∧
      ∀ sources : List (List UInt8), (sources.foldl pushed s).kind = s.kind ∧
        (sources.foldl pushed s).encodings = .ok (l ++ fitting s.kind sources)) ∧
    ∀ bs, (bs.length = s.kind.bytes ∧
        ∃ t, (push bs).run.run s = (.ok (), t) ∧ t.encode s.length s.kind.bytes = .ok bs) ∨
      (bs.length ≠ s.kind.bytes ∧
        (push bs).run.run s = (.error (.prematureEnd bs.length), s)) := by
  refine ⟨⟨_, encodings_eq_ok s, run_forM_push s.kind [] s.words, fun sources => ?_⟩, fun bs => ?_⟩
  · obtain ⟨hkind, hvalues⟩ := values_foldl_pushed s sources
    exact ⟨hkind, by rw [encodings_eq_ok, hvalues]⟩
  · by_cases h : bs.length = s.kind.bytes
    · obtain ⟨w, rfl⟩ := exists_word s h
      exact .inl ⟨h, _, run_push_bytes s w, encode_last s w⟩
    · exact .inr ⟨h, run_push_of_length_ne h⟩

/-- A NaN with a payload and a negative zero keep their bits. -/
example : encodings ⟨.float32, [0x7fc00001#32, 0x80000000#32]⟩ =
    .ok [[0x01, 0x00, 0xc0, 0x7f], [0x00, 0x00, 0x00, 0x80]] := by decide

end Samples

end Mdf
