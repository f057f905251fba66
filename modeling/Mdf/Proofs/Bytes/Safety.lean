import Mdf.Proofs.Bytes.Decode

/-!
# Readers without faults

`Sound input d Q`: from every position of the input the reader `d` ends with a value that has the
property `Q`, or with an error, and never with a fault.  Soundness composes along `>>=`, where each
step hands on what it knows of its value.
-/

namespace Mdf

/-- A failure that is no fault. -/
def Failure.IsError (f : Failure) : Prop := ∃ e, f = .error e

lemma Failure.isError_error (e : Error) : (Failure.error e).IsError := ⟨e, rfl⟩

/-- What may only be refused ends in no fault. -/
lemma ends_isError {α : Type} (x : Except Error α) :
    Ends Failure.IsError (fun a => x = .ok a) (liftM x : Except Failure α) :=
  ends_error (fun e _ => Failure.isError_error e) fun _ h => h

namespace Decode

variable {α β : Type} {input : List UInt8} {Q : α → Prop} {R : β → Prop}

/-- From every position the reader ends with a value of the property, or with an error. -/
def Sound (input : List UInt8) (d : Decode α) (Q : α → Prop) : Prop :=
  ∀ p, Ends Failure.IsError Q (run d input p).1

lemma Sound.mono {Q' : α → Prop} {d : Decode α} (h : Sound input d Q) (hQ : ∀ a, Q a → Q' a) :
    Sound input d Q' := fun p => (h p).mono hQ

/-! ### Sequences of steps -/

lemma sound_pure {a : α} (h : Q a) : Sound input (pure a) Q := fun _ => .ok h

lemma sound_refuse (e : Error) : Sound input (refuse e) Q := fun _ =>
  .error (Failure.isError_error e)

lemma sound_bind {d : Decode α} {next : α → Decode β} (h : Sound input d Q)
    (hn : ∀ a, Q a → Sound input (next a) R) : Sound input (d >>= next) R := by
  intro p
  have hd := h p
  rw [run_bind]
  rcases hrun : run d input p with ⟨a | f, q⟩
  · rw [hrun] at hd
    exact .error hd.of_error
  · rw [hrun] at hd
    cases hd with
    | ok ha => exact hn _ ha q

lemma sound_map {d : Decode α} {f : α → β} (h : Sound input d Q) (hf : ∀ a, Q a → R (f a)) :
    Sound input (d >>= fun a => pure (f a)) R :=
  sound_bind h fun a ha => sound_pure (hf a ha)

/-- Behind a check its condition does not hold. -/
lemma sound_refuseIf (condition : Prop) [Decidable condition] (e : Error) :
    Sound input (refuseIf condition e) fun _ => ¬condition := by
  intro p
  rw [run_refuseIf]
  split
  · exact .error (Failure.isError_error e)
  · rename_i h
    exact .ok h

lemma sound_liftM {x : Except Failure α} (h : Ends Failure.IsError Q x) :
    Sound input (liftM x) Q := by
  intro p
  rw [run_liftM]
  exact h

lemma sound_of_eq_ok {x : Except Fault α} {a : α} (h : x = .ok a) :
    Sound input (liftM (liftM x : Except Failure α)) (· = a) :=
  sound_liftM (ends_of_eq_ok h)

lemma sound_error (x : Except Error α) :
    Sound input (liftM (liftM x : Except Failure α)) fun a => x = .ok a :=
  sound_liftM (ends_isError x)

/-! ### Steps -/

lemma sound_size : Sound input size (· = input.length) := by
  intro p
  rw [run_size]
  exact .ok rfl

lemma sound_seek (offset : Nat) : Sound input (seek offset) fun _ => True := by
  intro p
  rw [run_seek]
  split
  · exact .ok trivial
  · exact .error (Failure.isError_error _)

lemma sound_take (n : Nat) : Sound input (take n) fun bs => bs.length = n := by
  intro p
  rw [run_take]
  split
  · rename_i h
    refine .ok ?_
    rw [List.length_take, List.length_drop]
    omega
  · exact .error (Failure.isError_error _)

lemma sound_skip (n : Nat) : Sound input (skip n) fun _ => True :=
  sound_map (sound_take n) fun _ _ => trivial

lemma sound_number (n : Nat) : Sound input (number n) fun _ => True := by
  unfold number
  rw [field_eq_take]
  exact sound_map (sound_take n) fun _ _ => trivial

lemma sound_uint8 : Sound input uint8 fun _ => True :=
  sound_map (sound_number 1) fun _ _ => trivial

lemma sound_uint16 : Sound input uint16 fun _ => True :=
  sound_map (sound_number 2) fun _ _ => trivial

lemma sound_int16 : Sound input int16 fun _ => True :=
  sound_map sound_uint16 fun _ _ => trivial

lemma sound_uint32 : Sound input uint32 fun _ => True :=
  sound_map (sound_number 4) fun _ _ => trivial

lemma sound_uint64 : Sound input uint64 fun _ => True :=
  sound_map (sound_number 8) fun _ _ => trivial

lemma sound_uint64s (n : Nat) : Sound input (uint64s n) fun vs => vs.length = n := by
  induction n with
  | zero => exact sound_pure rfl
  | succ n ih =>
    refine sound_bind sound_uint64 fun v _ => sound_map ih fun vs hvs => ?_
    rw [List.length_cons, hvs]

end Decode

end Mdf
