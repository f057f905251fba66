import Mdf.Bytes.Decode
import Mdf.Proofs.Result

/-!
# What a reader gives

`Reads d bs a`: the reader `d` takes exactly the bytes `bs`, wherever they stand, and gives `a`.
`Gives file d r`: on the input `file`, the reader `d` ends with `r` from every position.

Readers of fields are of the first kind, and readers of blocks, which move to an offset first, are
of the second.  Both kinds compose along `>>=`, and a sequence of steps that ends with a value is
taken apart by `run_bind_eq_ok_iff`.  `Concludes d bs r` is for fields that may be refused once they
are read: where the bytes `bs` stand, the reader `d` ends with `r`.
-/

namespace Mdf

namespace Decode

variable {α β : Type}

/-! ### Bytes at the position -/

/-- The reader takes these bytes and gives this value. -/
def Reads (d : Decode α) (bs : List UInt8) (a : α) : Prop :=
  ∀ pre post, run d (pre ++ bs ++ post) pre.length = (.ok a, pre.length + bs.length)

/-- A reader started where its bytes stand. -/
lemma Reads.run {d : Decode α} {file pre bs post : List UInt8} {a : α} (h : Reads d bs a)
    (hfile : file = pre ++ bs ++ post) :
    Decode.run d file pre.length = (.ok a, pre.length + bs.length) := by
  rw [hfile]
  exact h pre post

lemma reads_pure (a : α) : Reads (pure a) [] a := fun _ _ => rfl

lemma reads_bind {d : Decode α} {next : α → Decode β} {bs cs : List UInt8} {a : α} {b : β}
    (h : Reads d bs a) (hn : Reads (next a) cs b) : Reads (d >>= next) (bs ++ cs) b := by
  intro pre post
  have h1 := h pre (cs ++ post)
  have h2 := hn (pre ++ bs) post
  have e : pre ++ (bs ++ cs) ++ post = pre ++ bs ++ (cs ++ post) := by simp
  have e' : pre ++ bs ++ cs ++ post = pre ++ bs ++ (cs ++ post) := by simp
  rw [e', List.length_append] at h2
  rw [e, run_bind_of_ok h1, h2, List.length_append, Nat.add_assoc]

/-- A first step that takes no bytes. -/
lemma reads_bind_nil {d : Decode α} {next : α → Decode β} {bs : List UInt8} {a : α} {b : β}
    (h : Reads d [] a) (hn : Reads (next a) bs b) : Reads (d >>= next) bs b := by
  simpa using reads_bind h hn

/-- A last step that takes no bytes. -/
lemma reads_bind_last {d : Decode α} {next : α → Decode β} {bs : List UInt8} {a : α} {b : β}
    (h : Reads d bs a) (hn : Reads (next a) [] b) : Reads (d >>= next) bs b := by
  simpa using reads_bind h hn

lemma reads_liftM {x : Except Failure α} {a : α} (h : x = .ok a) : Reads (liftM x) [] a := by
  subst h
  exact fun _ _ => rfl

lemma reads_refuseIf {condition : Prop} [Decidable condition] {e : Error} (h : ¬condition) :
    Reads (refuseIf condition e) [] () := by
  intro pre post
  rw [run_refuseIf, if_neg h]
  rfl

lemma reads_size_bind {next : Nat → Decode β} {bs : List UInt8} {b : β}
    (h : ∀ n, Reads (next n) bs b) : Reads (size >>= next) bs b := by
  intro pre post
  rw [run_bind_of_ok (run_size _ _), h _ pre post]

lemma reads_take (bs : List UInt8) : Reads (take bs.length) bs bs := by
  intro pre post
  have h : pre.length + bs.length ≤ (pre ++ bs ++ post).length := by simp
  rw [run_take, if_pos h, List.append_assoc, List.drop_left, List.take_left]

lemma reads_take_of_length {n : Nat} {bs : List UInt8} (h : bs.length = n) :
    Reads (take n) bs bs := by
  subst h
  exact reads_take bs

lemma reads_map {d : Decode α} {f : α → β} {bs : List UInt8} {a : α} (h : Reads d bs a) :
    Reads (d >>= fun x => pure (f x)) bs (f a) := by
  intro pre post
  rw [run_bind_of_ok (h pre post), run_pure]

lemma reads_skip {n : Nat} {bs : List UInt8} (h : bs.length = n) : Reads (skip n) bs () :=
  reads_map (reads_take_of_length h)

lemma reads_number {n : Nat} {bs : List UInt8} (h : bs.length = n) :
    Reads (number n) bs (LittleEndian.decode bs) := by
  unfold number
  rw [field_eq_take]
  exact reads_map (reads_take_of_length h)

lemma reads_uint8 (v : UInt8) : Reads uint8 [v] v := by
  have h := reads_map (f := UInt8.ofNat) (reads_number (show [v].length = 1 from rfl))
  have hv : UInt8.ofNat (LittleEndian.decode [v]) = v := by simp [LittleEndian.decode]
  rwa [hv] at h

lemma reads_uint16 (v : UInt16) : Reads uint16 (LittleEndian.uint16 v) v := by
  have h := reads_map (f := UInt16.ofNat) (reads_number (LittleEndian.length_uint16 v))
  rwa [LittleEndian.ofNat_decode_uint16] at h

lemma reads_int16 (v : Int16) : Reads int16 (LittleEndian.int16 v) v := by
  have h := reads_map (f := UInt16.toInt16) (reads_uint16 v.toUInt16)
  rwa [Int16.toInt16_toUInt16] at h

lemma reads_uint32 (v : UInt32) : Reads uint32 (LittleEndian.uint32 v) v := by
  have h := reads_map (f := UInt32.ofNat) (reads_number (LittleEndian.length_uint32 v))
  rwa [LittleEndian.ofNat_decode_uint32] at h

lemma reads_uint64 (v : UInt64) : Reads uint64 (LittleEndian.uint64 v) v := by
  have h := reads_map (f := UInt64.ofNat) (reads_number (LittleEndian.length_uint64 v))
  rwa [LittleEndian.ofNat_decode_uint64] at h

lemma reads_uint64s (vs : List UInt64) :
    Reads (uint64s vs.length) (vs.flatMap LittleEndian.uint64) vs := by
  induction vs with
  | nil => exact reads_pure []
  | cons v vs ih => exact reads_bind (reads_uint64 v) (reads_map ih)

/-! ### Readers that end with a value -/

lemma run_bind_eq_ok_iff {d : Decode α} {next : α → Decode β} {input : List UInt8} {p r : Nat}
    {b : β} : Decode.run (d >>= next) input p = (.ok b, r) ↔
      ∃ a q, Decode.run d input p = (.ok a, q) ∧ Decode.run (next a) input q = (.ok b, r) := by
  rw [run_bind]
  rcases Decode.run d input p with ⟨a | f, q⟩ <;> simp

lemma of_run_refuseIf {condition : Prop} [Decidable condition] {e : Error} {input : List UInt8}
    {p q : Nat} {u : Unit} (h : Decode.run (refuseIf condition e) input p = (.ok u, q)) :
    ¬condition ∧ q = p := by
  rw [run_refuseIf] at h
  split at h
  · cases h
  · rename_i hc
    cases h
    exact ⟨hc, rfl⟩

lemma of_run_liftM {x : Except Failure α} {input : List UInt8} {p q : Nat} {a : α}
    (h : Decode.run (liftM x) input p = (.ok a, q)) : x = .ok a ∧ q = p := by
  rw [run_liftM] at h
  cases h
  exact ⟨rfl, rfl⟩

/-- What follows a check has been read if the condition does not hold. -/
lemma run_refuseIf_bind_eq_ok_iff {condition : Prop} [Decidable condition] {e : Error}
    {next : Unit → Decode β} {input : List UInt8} {p r : Nat} {b : β} :
    Decode.run (refuseIf condition e >>= next) input p = (.ok b, r) ↔
      ¬condition ∧ Decode.run (next ()) input p = (.ok b, r) := by
  rw [run_bind_eq_ok_iff]
  constructor
  · rintro ⟨_, q, hcheck, hnext⟩
    obtain ⟨hc, rfl⟩ := of_run_refuseIf hcheck
    exact ⟨hc, hnext⟩
  · rintro ⟨hc, hnext⟩
    exact ⟨(), p, by rw [run_refuseIf, if_neg hc], hnext⟩

lemma run_liftM_bind_eq_ok_iff {x : Except Failure α} {next : α → Decode β} {input : List UInt8}
    {p r : Nat} {b : β} : Decode.run (liftM x >>= next) input p = (.ok b, r) ↔
      ∃ a, x = .ok a ∧ Decode.run (next a) input p = (.ok b, r) := by
  rw [run_bind, run_liftM]
  cases x <;> simp

/-! ### A whole input -/

/-- The reader ends with this result, from every position of the input. -/
def Gives (file : List UInt8) (d : Decode α) (r : Except Failure α) : Prop :=
  ∀ p, (run d file p).1 = r

variable {file : List UInt8}

lemma Gives.run_eq {d : Decode α} {r : Except Failure α} (h : Gives file d r) (p : Nat) :
    run d file p = (r, (run d file p).2) := Prod.ext (h p) rfl

lemma gives_pure (a : α) : Gives file (pure a) (.ok a) := fun _ => rfl

lemma gives_liftM {x r : Except Failure α} (h : x = r) : Gives file (liftM x) r := by
  intro p
  rw [run_liftM, h]

lemma gives_refuseIf {condition : Prop} [Decidable condition] {e : Error} (h : ¬condition) :
    Gives file (refuseIf condition e) (.ok ()) := by
  intro p
  rw [run_refuseIf, if_neg h]

lemma gives_size : Gives file size (.ok file.length) := by
  intro p
  rw [run_size]

lemma gives_bind {d : Decode α} {next : α → Decode β} {a : α} {r : Except Failure β}
    (h : Gives file d (.ok a)) (hn : Gives file (next a) r) : Gives file (d >>= next) r := by
  intro p
  rw [run_bind_of_ok (h.run_eq p)]
  exact hn _

lemma gives_bind_error {d : Decode α} {next : α → Decode β} {f : Failure}
    (h : Gives file d (.error f)) : Gives file (d >>= next) (.error f) := by
  intro p
  rw [run_bind, h.run_eq p]

/-! ### Bytes that may be refused -/

/-- Where these bytes stand, the reader ends with this result. -/
def Concludes (d : Decode α) (bs : List UInt8) (r : Except Failure α) : Prop :=
  ∀ pre post, (run d (pre ++ bs ++ post) pre.length).1 = r

lemma Reads.concludes {d : Decode α} {bs : List UInt8} {a : α} (h : Reads d bs a) :
    Concludes d bs (.ok a) := fun pre post => congrArg Prod.fst (h pre post)

lemma concludes_bind {d : Decode α} {next : α → Decode β} {bs cs : List UInt8} {a : α}
    {r : Except Failure β} (h : Reads d bs a) (hn : Concludes (next a) cs r) :
    Concludes (d >>= next) (bs ++ cs) r := by
  intro pre post
  have h1 := h pre (cs ++ post)
  have h2 := hn (pre ++ bs) post
  have e : pre ++ (bs ++ cs) ++ post = pre ++ bs ++ (cs ++ post) := by simp
  have e' : pre ++ bs ++ cs ++ post = pre ++ bs ++ (cs ++ post) := by simp
  rw [e', List.length_append] at h2
  rw [e, run_bind_of_ok h1, h2]

/-- A first step that takes no bytes. -/
lemma concludes_bind_nil {d : Decode α} {next : α → Decode β} {bs : List UInt8} {a : α}
    {r : Except Failure β} (h : Reads d [] a) (hn : Concludes (next a) bs r) :
    Concludes (d >>= next) bs r := by
  simpa using concludes_bind h hn

/-- A check decides between the refusal and what follows. -/
lemma concludes_refuseIf_bind {condition : Prop} [Decidable condition] {e : Error}
    {next : Unit → Decode β} {bs : List UInt8} {r : Except Failure β}
    (h : Concludes (next ()) bs r) :
    Concludes (refuseIf condition e >>= next) bs
      (if condition then .error (.error e) else r) := by
  intro pre post
  rw [run_bind, run_refuseIf]
  by_cases hc : condition
  · rw [if_pos hc, if_pos hc]
  · rw [if_neg hc, if_neg hc]
    exact h pre post

/-- A reader that moves to an offset, and then reads the bytes that stand there. -/
lemma gives_bind_concludes {d : Decode α} {next : α → Decode β} {pre bs post : List UInt8} {a : α}
    {r : Except Failure β} (hf : file = pre ++ bs ++ post)
    (h : ∀ p, run d file p = (.ok a, pre.length)) (hn : Concludes (next a) bs r) :
    Gives file (d >>= next) r := by
  intro p
  rw [run_bind_of_ok (h p), hf]
  exact hn pre post

end Decode

end Mdf
