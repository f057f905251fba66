import Mdf.Proofs.Bytes.Numbers

/-!
# The position of a reader

`Operation` lists the steps that readers are made of: moves, and bytes taken as they are or as a
number.  Where the bytes up to its target are there, an operation ends at the target with what those
bytes mean; elsewhere it is refused and stays where it was (`run_decode`).  So a reader that starts
at zero never leaves its input, whatever is asked of it (`after_le`).
-/

namespace Mdf

namespace Decode

/-- A step of a reader.  The id of a block is four bytes that are taken as they are. -/
inductive Operation where
  | seek (offset : Nat)
  | skip (n : Nat)
  | take (n : Nat)
  | uint8
  | uint16
  | int16
  | uint32
  | uint64
  | double

namespace Operation

def Result : Operation → Type
  | seek _ => Unit
  | skip _ => Unit
  | take _ => List UInt8
  | uint8 => UInt8
  | uint16 => UInt16
  | int16 => Int16
  | uint32 => UInt32
  | uint64 => UInt64
  | double => Double

def decode : (o : Operation) → Decode o.Result
  | seek offset => Decode.seek offset
  | skip n => Decode.skip n
  | take n => Decode.take n
  | uint8 => Decode.uint8
  | uint16 => Decode.uint16
  | int16 => Decode.int16
  | uint32 => Decode.uint32
  | uint64 => Decode.uint64
  | double => Decode.double

/-- The number of bytes that the operation takes. -/
def width : Operation → Nat
  | seek _ => 0
  | skip n | take n => n
  | uint8 => 1
  | uint16 | int16 => 2
  | uint32 => 4
  | uint64 | double => 8

/-- Where the operation ends that starts at a position. -/
def target (p : Nat) : Operation → Nat
  | seek offset => offset
  | o => p + o.width

/-- The error of an operation whose target is not in the input. -/
def refusal (input : List UInt8) : Operation → Error
  | seek offset => .invalidLink offset
  | _ => .prematureEnd input.length

/-- These bytes mean this value: bytes mean themselves, and a number is meant by the bytes that it
is written as. -/
def Means : (o : Operation) → List UInt8 → o.Result → Prop
  | seek _, _, _ => True
  | skip _, _, _ => True
  | take _, bs, taken => bs = taken
  | uint8, bs, v => bs = [v]
  | uint16, bs, v => bs = LittleEndian.uint16 v
  | int16, bs, v => bs = LittleEndian.int16 v
  | uint32, bs, v => bs = LittleEndian.uint32 v
  | uint64, bs, v => bs = LittleEndian.uint64 v
  | double, bs, v => bs = LittleEndian.encode 8 v.bits.toNat

/-- What an operation does that starts at a position of the input. -/
inductive Conforms (input : List UInt8) (p : Nat) (o : Operation) :
    Except Failure o.Result × Nat → Prop
  /-- It ends at its target, with the one value that the bytes from its start on mean. -/
  | moved {a : o.Result} (le : o.target p ≤ input.length)
      (means : ∀ b, o.Means ((input.drop p).take o.width) b ↔ b = a) :
      Conforms input p o (.ok a, o.target p)
  /-- Its target is not in the input, and it stays where it was. -/
  | stayed (lt : input.length < o.target p) :
      Conforms input p o (.error (.error (o.refusal input)), p)

/-! ### One operation -/

/-- What bytes of the width of the operation are read as. -/
def value : (o : Operation) → List UInt8 → o.Result
  | seek _, _ => ()
  | skip _, _ => ()
  | take _, bs => bs
  | uint8, bs => UInt8.ofNat (LittleEndian.decode bs)
  | uint16, bs => UInt16.ofNat (LittleEndian.decode bs)
  | int16, bs => (UInt16.ofNat (LittleEndian.decode bs)).toInt16
  | uint32, bs => UInt32.ofNat (LittleEndian.decode bs)
  | uint64, bs => UInt64.ofNat (LittleEndian.decode bs)
  | double, bs => ⟨BitVec.ofNat _ (LittleEndian.decode bs)⟩

variable {input : List UInt8}

/-- Bytes of the width of an operation mean what they are read as, and nothing else. -/
lemma means_iff {o : Operation} {bs : List UInt8} (hlen : bs.length = o.width) (b : o.Result) :
    o.Means bs b ↔ b = o.value bs := by
  cases o with
  | seek offset => exact iff_of_true trivial rfl
  | skip n => exact iff_of_true trivial rfl
  | take n => exact eq_comm
  | uint8 => exact LittleEndian.eq_singleton_iff hlen b
  | uint16 => exact LittleEndian.eq_uint16_iff hlen b
  | int16 => exact LittleEndian.eq_int16_iff hlen b
  | uint32 => exact LittleEndian.eq_uint32_iff hlen b
  | uint64 => exact LittleEndian.eq_uint64_iff hlen b
  | double => exact LittleEndian.eq_encode_bits_iff hlen b

end Operation

section Steps

variable {α β : Type} {n : Nat}

/-- The reader takes the next `n` bytes, whatever they are, as what `f` makes of them, and it is
refused where the input ends before. -/
def Takes (d : Decode α) (n : Nat) (f : List UInt8 → α) : Prop :=
  ∀ input p, run d input p =
    if p + n ≤ input.length then (.ok (f ((input.drop p).take n)), p + n)
    else (.error (.error (.prematureEnd input.length)), p)

lemma takes_take (n : Nat) : Takes (take n) n id := run_take n

lemma Takes.map {d : Decode α} {f : List UInt8 → α} (h : Takes d n f) (g : α → β) :
    Takes (d >>= fun a => pure (g a)) n (g ∘ f) := by
  intro input p
  rw [run_bind, h input p]
  by_cases hp : p + n ≤ input.length
  · simp only [if_pos hp, run_pure, Function.comp]
  · simp only [if_neg hp]

lemma takes_skip (n : Nat) : Takes (skip n) n fun _ => () := (takes_take n).map _

lemma takes_number (n : Nat) : Takes (number n) n LittleEndian.decode := by
  unfold number
  rw [field_eq_take]
  exact (takes_take n).map _

lemma takes_uint64 : Takes uint64 8 (UInt64.ofNat ∘ LittleEndian.decode) := (takes_number 8).map _

lemma Takes.run_eq {d : Decode α} {f : List UInt8 → α} {input : List UInt8} {p : Nat}
    (h : Takes d n f) (hp : p + n ≤ input.length) :
    run d input p = (.ok (f ((input.drop p).take n)), p + n) := by
  rw [h input p, if_pos hp]

/-- A number is read where its bytes are there. -/
lemma exists_run_uint64 {input : List UInt8} {p : Nat} (hp : p + 8 ≤ input.length) :
    ∃ v, run uint64 input p = (.ok v, p + 8) ∧ v.toNat = numberAt input p 8 :=
  have hv := takes_uint64.run_eq hp
  ⟨_, hv, (of_run_uint64 hv).1⟩

lemma exists_run_uint64s {input : List UInt8} {p : Nat} (hp : p + 8 * n ≤ input.length) :
    ∃ vs, run (uint64s n) input p = (.ok vs, p + 8 * n) := by
  induction n generalizing p with
  | zero => exact ⟨[], rfl⟩
  | succ n ih =>
    obtain ⟨v, hv, -⟩ := exists_run_uint64 (show p + 8 ≤ input.length by omega)
    obtain ⟨vs, hvs⟩ := ih (show p + 8 + 8 * n ≤ input.length by omega)
    have hend : p + 8 * (n + 1) = p + 8 + 8 * n := by omega
    rw [uint64s, run_bind_of_ok hv, run_bind_of_ok hvs, run_pure, hend]
    exact ⟨v :: vs, rfl⟩

end Steps

namespace Operation

variable {input : List UInt8} {p : Nat}

/-- **Every operation moves to its target or is refused.** -/
theorem run_decode (input : List UInt8) (p : Nat) (o : Operation) :
    run o.decode input p =
      if o.target p ≤ input.length then (.ok (o.value ((input.drop p).take o.width)), o.target p)
      else (.error (.error (o.refusal input)), p) := by
  cases o with
  | seek offset => exact run_seek offset input p
  | skip n => exact takes_skip n input p
  | take n => exact run_take n input p
  | uint8 => exact (takes_number 1).map UInt8.ofNat input p
  | uint16 => exact (takes_number 2).map UInt16.ofNat input p
  | int16 => exact ((takes_number 2).map UInt16.ofNat).map UInt16.toInt16 input p
  | uint32 => exact (takes_number 4).map UInt32.ofNat input p
  | uint64 => exact takes_uint64 input p
  | double => exact (takes_number 8).map (fun n => (⟨BitVec.ofNat _ n⟩ : Double)) input p

/-- Up to a target within the input there are as many bytes as the operation takes. -/
lemma length_taken {o : Operation} (h : o.target p ≤ input.length) :
    ((input.drop p).take o.width).length = o.width := by
  cases o with
  | seek offset => rfl
  | _ =>
    rw [List.length_take, List.length_drop]
    simp only [target] at h
    omega

lemma conforms (input : List UInt8) (p : Nat) (o : Operation) :
    o.Conforms input p (run o.decode input p) := by
  rw [run_decode]
  by_cases h : o.target p ≤ input.length
  · rw [if_pos h]
    exact .moved h (means_iff (length_taken h))
  · rw [if_neg h]
    exact .stayed (Nat.lt_of_not_le h)

/-- What conforms stays in the input. -/
lemma Conforms.le {o : Operation} {r : Except Failure o.Result × Nat} (h : o.Conforms input p r)
    (hp : p ≤ input.length) : r.2 ≤ input.length := by
  cases h with
  | moved le _ => exact le
  | stayed _ => exact hp

end Operation

/-! ### Sequences of operations -/

variable {input : List UInt8} {p : Nat}

/-- The position behind a sequence of operations; those that were refused have not moved it. -/
def after (input : List UInt8) (ops : List Operation) (p : Nat) : Nat :=
  ops.foldl (fun p o => (run o.decode input p).2) p

lemma after_le (ops : List Operation) (hp : p ≤ input.length) :
    after input ops p ≤ input.length := by
  induction ops generalizing p with
  | nil => exact hp
  | cons o ops ih => exact ih ((o.conforms input p).le hp)

/-- Within the input there is always a number of bytes that remain. -/
lemma run_remaining (hp : p ≤ input.length) :
    run remaining input p = (.ok (input.length - p), p) := by
  simp only [run, remaining, List.size_toArray, Checked.sub_of_le hp]
  rfl

/-- **A reader stays within its input.**  Behind any sequence of operations from the start, the
position is at most the length of the input, so that what remains is a number; and the next
operation moves to its target, with exactly what the bytes up to there mean, or it is refused and
leaves the position as it is. -/
theorem after_start_conforms (input : List UInt8) (ops : List Operation) (o : Operation) :
    after input ops 0 ≤ input.length ∧
      run remaining input (after input ops 0) =
        (.ok (input.length - after input ops 0), after input ops 0) ∧
      o.Conforms input (after input ops 0) (run o.decode input (after input ops 0)) := by
  have hle := after_le ops (Nat.zero_le input.length)
  exact ⟨hle, run_remaining hle, o.conforms input _⟩

end Decode

end Mdf
