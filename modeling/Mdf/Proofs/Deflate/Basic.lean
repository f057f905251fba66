import Mdf.Proofs.Deflate.Format
import Mdf.Deflate.Inflate

/-!
# Steps that only read

A bit source is followed along the bits that it holds (`Holds`), with the position in the stream, by
which whole bytes end.  `Takes m w a` says that the step `m` takes exactly the bits `w`, gives `a`,
and leaves the output as it is, whatever follows these bits.
-/

namespace Mdf.Deflate

lemma length_bitsOf (b : UInt8) : (bitsOf b).length = 8 := by simp [bitsOf]

lemma length_flatMap_bitsOf (d : List UInt8) : (d.flatMap bitsOf).length = 8 * d.length := by
  induction d with
  | nil => rfl
  | cons b d ih =>
    rw [List.flatMap_cons, List.length_append, length_bitsOf, ih, List.length_cons]
    omega

/-- The bits of a byte stand for it. -/
@[simp] lemma number_bitsOf (b : UInt8) : number (bitsOf b) = b.toNat := by
  have hbits : ∀ n < 256, number ((List.range 8).map (Nat.testBit n)) = n := by decide +kernel
  exact hbits b.toNat b.toNat_lt

/-- A number and its complement. -/
lemma number_add_not (w : List Bool) : number w + number (w.map not) + 1 = 2 ^ w.length := by
  induction w with
  | nil => rfl
  | cons b w ih =>
    rw [List.map_cons, List.length_cons, Nat.pow_succ, ← ih]
    cases b <;> simp only [number, Bool.not_true, Bool.not_false, Bool.toNat_true, Bool.toNat_false]
    all_goals omega

/-! ### Bits of a source -/

namespace BitSource

/-- At a position in the stream the source holds some bits; bytes end at the multiples of eight. -/
structure Holds (s : BitSource) (position : Nat) (bits : List Bool) : Prop where
  bits_eq : s.pending ++ s.bytes.flatMap bitsOf = bits
  pending_lt : s.pending.length < 8
  aligned : (position + s.pending.length) % 8 = 0

variable {s : BitSource} {position : Nat} {b : Bool} {w pad bits : List Bool}

lemma holds_ofBytes (d : List UInt8) : (ofBytes d).Holds 0 (d.flatMap bitsOf) :=
  ⟨rfl, by simp [ofBytes], rfl⟩

lemma Holds.size_eq (h : s.Holds position bits) : s.size = bits.length := by
  rw [← h.bits_eq, List.length_append, length_flatMap_bitsOf, size]

lemma Holds.next? (h : s.Holds position (b :: bits)) :
    ∃ t, s.next? = some (b, t) ∧ t.Holds (position + 1) bits := by
  obtain ⟨pending, bytes⟩ := s
  obtain ⟨hbits, hlt, haligned⟩ := h
  dsimp only at hbits hlt haligned
  cases pending with
  | cons b' r =>
    cases hbits
    rw [List.length_cons] at hlt haligned
    exact ⟨⟨r, bytes⟩, rfl, rfl, by dsimp only; omega, by dsimp only; omega⟩
  | nil =>
    cases bytes with
    | nil => cases hbits
    | cons c bytes =>
      -- a byte is begun: its first bit is the next one, and seven are left of it
      cases hbits
      rw [List.length_nil] at haligned
      refine ⟨_, rfl, rfl, by simp, ?_⟩
      simp only [List.length_map, List.length_cons, List.length_nil]
      omega

lemma Holds.take? (h : s.Holds position (w ++ bits)) :
    ∃ t, s.take? w.length = some (number w, t) ∧ t.Holds (position + w.length) bits := by
  induction w generalizing s position with
  | nil => exact ⟨s, rfl, h⟩
  | cons b w ih =>
    obtain ⟨t, hnext, ht⟩ := h.next?
    obtain ⟨u, htake, hu⟩ := ih ht
    refine ⟨u, ?_, ?_⟩
    · simp only [List.length_cons, BitSource.take?, hnext, htake, number, Nat.add_comm]
    · rwa [Nat.add_right_comm, Nat.add_assoc] at hu

/-- What is padding up to a whole byte is what is left of the byte begun. -/
lemma Holds.align (h : s.Holds position (pad ++ bits)) (hpad : pad.length < 8)
    (haligned : (position + pad.length) % 8 = 0) : s.align.Holds (position + pad.length) bits := by
  have hlt := h.pending_lt
  have hpending := h.aligned
  have hlength : s.pending.length = pad.length := by omega
  obtain ⟨-, hbits⟩ := List.append_inj h.bits_eq hlength
  exact ⟨hbits, by simp [BitSource.align], by simpa [BitSource.align] using haligned⟩

end BitSource

/-! ### Steps -/

namespace Inflater

variable {α β : Type} {m : Inflater α} {next : α → Inflater β} {a : α} {b : β} {w v : List Bool}

lemma run_bind (m : Inflater α) (next : α → Inflater β) (p : Progress) :
    (m >>= next).run.run p =
      match m.run.run p with
      | (.ok a, q) => (next a).run.run q
      | (.error e, q) => (.error e, q) := by
  rw [ExceptT.run_bind, StateT.run_bind]
  rcases m.run.run p with ⟨_ | _, _⟩ <;> rfl

/-- The state itself is read without a step. -/
lemma run_get_bind (next : Progress → Inflater β) (p : Progress) :
    (get >>= next).run.run p = (next p).run.run p := rfl

/-- The step takes exactly these bits, whatever follows them, and gives the value. -/
def Takes (m : Inflater α) (w : List Bool) (a : α) : Prop :=
  ∀ ⦃s : BitSource⦄ ⦃position : Nat⦄ ⦃bits : List Bool⦄, s.Holds position (w ++ bits) →
    ∀ out : Array UInt8, ∃ t : BitSource, t.Holds (position + w.length) bits ∧
      m.run.run ⟨s, out⟩ = (.ok a, ⟨t, out⟩)

lemma takes_pure (a : α) : Takes (pure a) [] a := fun s _ _ h _ => ⟨s, h, rfl⟩

lemma takes_bind (hm : Takes m w a) (hn : Takes (next a) v b) :
    Takes (m >>= next) (w ++ v) b := by
  intro s position bits h out
  rw [List.append_assoc] at h
  obtain ⟨t, ht, hrun⟩ := hm h out
  obtain ⟨u, hu, hrun'⟩ := hn ht out
  refine ⟨u, by rwa [List.length_append, ← Nat.add_assoc], ?_⟩
  rw [run_bind, hrun]
  exact hrun'

/-- A step behind which no bit is taken. -/
lemma takes_bind_nil (hm : Takes m w a) (hn : Takes (next a) [] b) : Takes (m >>= next) w b := by
  rw [← List.append_nil w]
  exact takes_bind hm hn

/-- A step that bounds its own steps by the bits that are left. -/
lemma takes_get_bind {next : Progress → Inflater β}
    (hn : ∀ p : Progress, w.length ≤ p.source.size → Takes (next p) w b) :
    Takes (get >>= next) w b := by
  intro s position bits h out
  have hsize : w.length ≤ s.size := by
    rw [h.size_eq, List.length_append]
    omega
  exact hn ⟨s, out⟩ hsize h out

lemma takes_bits {n : Nat} (h : w.length = n) : Takes (bits n) w (number w) := by
  intro s position rest hs out
  obtain ⟨t, htake, ht⟩ := hs.take?
  rw [h] at htake
  exact ⟨t, ht, by rw [bits, run_get_bind, htake]; rfl⟩

lemma takes_byte (b : UInt8) : Takes (bits 8) (bitsOf b) b.toNat := by
  simpa using takes_bits (length_bitsOf b)

lemma takes_numbers {width : Nat} {given : List (List Bool)} (h : ∀ w ∈ given, w.length = width) :
    Takes (numbers width given.length) given.flatten (given.map number) := by
  induction given with
  | nil => exact takes_pure _
  | cons w given ih =>
    have hfirst : Takes (bits width) w (number w) := takes_bits (h w (List.mem_cons_self ..))
    have hrest := ih fun v hv => h v (List.mem_cons_of_mem _ hv)
    exact takes_bind hfirst (takes_bind_nil hrest (takes_pure _))

lemma takes_extended {table : List (Nat × Nat)} {k least extra : Nat}
    (h : table[k]? = some (least, extra)) (hw : w.length = extra) :
    Takes (extended table k) w (least + number w) := by
  unfold extended
  rw [h]
  exact takes_bind_nil (takes_bits hw) (takes_pure _)

end Inflater

end Mdf.Deflate
