import Mdf.Proofs.Bytes.Decode

/-!
# Readers on longer inputs

`Persists d d'`: what the reader `d` gives on an input, the reader `d'` gives on every input that
starts with it, from the same position and up to the same position.  The two readers differ where a
reader has asked for the size of its input.  Only success persists: where the input ended too early, a
longer one may have what was missing.
-/

namespace Mdf

namespace Decode

variable {α β : Type}

/-- What the first reader gives on an input, the second one gives on every longer input. -/
def Persists (d d' : Decode α) : Prop :=
  ∀ input more p a q, run d input p = (.ok a, q) → run d' (input ++ more) p = (.ok a, q)

/-- What a reader gives on an input it gives on every longer one. -/
lemma Gives.append {d : Decode α} {input : List UInt8} {a : α} (h : Gives input d (.ok a))
    (hd : Persists d d) (more : List UInt8) : Gives (input ++ more) d (.ok a) :=
  fun p => congrArg Prod.fst (hd input more p a _ (h.run_eq p))

/-! ### Sequences of steps -/

lemma persists_pure (a : α) : Persists (pure a) (pure a) := fun _ _ _ _ _ h => h

/-- A refused input may go on in any way. -/
lemma persists_refuse (e : Error) (d : Decode α) : Persists (refuse e) d := by
  intro input more p a q h
  cases h

lemma persists_liftM (x : Except Failure α) : Persists (liftM x) (liftM x) := by
  intro input more p a q h
  rw [run_liftM] at h ⊢
  exact h

lemma persists_bind {d d' : Decode α} {next next' : α → Decode β} (h : Persists d d')
    (hn : ∀ a, Persists (next a) (next' a)) : Persists (d >>= next) (d' >>= next') := by
  intro input more p b r hrun
  obtain ⟨a, q, hd, hnext⟩ := run_bind_eq_ok_iff.mp hrun
  exact run_bind_eq_ok_iff.mpr ⟨a, q, h _ more _ _ _ hd, hn a _ more _ _ _ hnext⟩

/-- A step that reads nothing, and may have another result for a longer input. -/
lemma persists_liftM_bind {x : Except Failure α} {next : α → Decode β} {d : Decode β}
    (h : ∀ a, x = .ok a → Persists (next a) d) : Persists (liftM x >>= next) d := by
  intro input more p b r hrun
  obtain ⟨a, q, hlift, hnext⟩ := run_bind_eq_ok_iff.mp hrun
  obtain ⟨hx, rfl⟩ := of_run_liftM hlift
  exact h a hx _ more _ _ _ hnext

lemma persists_bind_refuse (d : Decode α) (e : α → Error) (d' : Decode β) :
    Persists (d >>= fun a => refuse (e a)) d' := by
  intro input more p b r hrun
  obtain ⟨a, q, -, hrefuse⟩ := run_bind_eq_ok_iff.mp hrun
  cases hrefuse

lemma persists_map {d d' : Decode α} {f : α → β} (h : Persists d d') :
    Persists (d >>= fun a => pure (f a)) (d' >>= fun a => pure (f a)) :=
  persists_bind h fun a => persists_pure (f a)

/-- A check that a longer input passes as well. -/
lemma persists_refuseIf_of_imp {c c' : Prop} [Decidable c] [Decidable c'] {e e' : Error}
    (h : c' → c) : Persists (refuseIf c e) (refuseIf c' e') := by
  intro input more p u q hrun
  obtain ⟨hc, rfl⟩ := of_run_refuseIf hrun
  rw [run_refuseIf, if_neg fun hc' => hc (h hc')]

lemma persists_refuseIf {c : Prop} [Decidable c] {e e' : Error} :
    Persists (refuseIf c e) (refuseIf c e') := persists_refuseIf_of_imp fun h => h

/-- What follows the size of the input is asked for a longer one. -/
lemma persists_size_bind {next next' : Nat → Decode β}
    (h : ∀ n n', n ≤ n' → Persists (next n) (next' n')) :
    Persists (size >>= next) (size >>= next') := by
  intro input more p b q hrun
  rw [run_bind_of_ok (run_size _ _)] at hrun ⊢
  exact h _ _ (by simp) _ more _ _ _ hrun

/-! ### Steps -/

lemma persists_seek (offset : Nat) : Persists (seek offset) (seek offset) := by
  intro input more p u q h
  rw [run_seek] at h
  split at h
  · rename_i hle
    cases h
    rw [run_seek, if_pos (by rw [List.length_append]; omega)]
  · cases h

lemma persists_take (n : Nat) : Persists (take n) (take n) := by
  intro input more p bs q h
  rw [run_take] at h
  split at h
  · rename_i hle
    cases h
    have hn : n ≤ (input.drop p).length := by
      rw [List.length_drop]
      omega
    rw [run_take, if_pos (by rw [List.length_append]; omega),
      List.drop_append_of_le_length (by omega), List.take_append_of_le_length hn]
  · cases h

lemma persists_skip (n : Nat) : Persists (skip n) (skip n) := persists_map (persists_take n)

lemma persists_number (n : Nat) : Persists (number n) (number n) := by
  unfold number
  rw [field_eq_take]
  exact persists_map (persists_take n)

lemma persists_uint8 : Persists uint8 uint8 := persists_map (persists_number 1)

lemma persists_uint16 : Persists uint16 uint16 := persists_map (persists_number 2)

lemma persists_int16 : Persists int16 int16 := persists_map persists_uint16

lemma persists_uint32 : Persists uint32 uint32 := persists_map (persists_number 4)

lemma persists_uint64 : Persists uint64 uint64 := persists_map (persists_number 8)

lemma persists_uint64s (n : Nat) : Persists (uint64s n) (uint64s n) := by
  induction n with
  | zero => exact persists_pure []
  | succ n ih => exact persists_bind persists_uint64 fun v => persists_map ih

end Decode

end Mdf
