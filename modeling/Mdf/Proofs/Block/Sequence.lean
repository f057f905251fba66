import Mdf.Proofs.Block.Basic

/-!
# Sequences of blocks

`Block.sequence n bs` are the bytes of blocks one after the other behind `n` bytes, each at the next
multiple of eight, and `Block.after n bs` is the offset of the next one.  Writing a block makes the
sequence longer by one, and setting a link changes one block of it.

`Block.Holds n bs file`: behind its first `n` bytes a file starts with these blocks, so each of them
stands at its offset.
-/

namespace Mdf

/-! ### Steps of a writer -/

namespace Encode

variable {α β : Type}

lemma run_bind_eq_ok_iff {m : Encode α} {next : α → Encode β} {buffer buffer' : List UInt8} {b : β} :
    (m >>= next).run buffer = .ok (b, buffer') ↔
      ∃ a between, m.run buffer = .ok (a, between) ∧ (next a).run between = .ok (b, buffer') := by
  rw [StateT.run_bind, bind_eq_ok_iff]
  exact Prod.exists

lemma run_pure_eq_ok {a b : α} {buffer buffer' : List UInt8}
    (h : (pure a : Encode α).run buffer = .ok (b, buffer')) : b = a ∧ buffer' = buffer := by
  cases h
  exact ⟨rfl, rfl⟩

lemma run_get_eq_ok {buffer buffer' read : List UInt8}
    (h : (get : Encode (List UInt8)).run buffer = .ok (read, buffer')) :
    read = buffer ∧ buffer' = buffer := by
  cases h
  exact ⟨rfl, rfl⟩

lemma run_set_eq_ok {buffer buffer' next : List UInt8} {u : PUnit}
    (h : (set next : Encode PUnit).run buffer = .ok (u, buffer')) : buffer' = next := by
  cases h
  rfl

lemma run_liftM_fault_eq_ok {x : Except Fault α} {a : α} {buffer buffer' : List UInt8}
    (h : (liftM x : Encode α).run buffer = .ok (a, buffer')) : x = .ok a ∧ buffer' = buffer := by
  cases x with
  | ok b =>
    cases h
    exact ⟨rfl, rfl⟩
  | error f => cases h

lemma run_liftM_eq_ok {x : Except Failure α} {a : α} {buffer buffer' : List UInt8}
    (h : (liftM x : Encode α).run buffer = .ok (a, buffer')) : x = .ok a ∧ buffer' = buffer := by
  cases x with
  | ok b =>
    cases h
    exact ⟨rfl, rfl⟩
  | error f => cases h

/-- A step that replaces the buffer, unless that fails. -/
lemma run_replace_eq_ok {f : List UInt8 → Except Fault (List UInt8)} {buffer buffer' : List UInt8}
    {u : Unit} (h : (do let next ← f (← get); set next : Encode Unit).run buffer = .ok (u, buffer')) :
    f buffer = .ok buffer' := by
  obtain ⟨_, _, hg, hn⟩ := run_bind_eq_ok_iff.mp h
  obtain ⟨rfl, rfl⟩ := run_get_eq_ok hg
  obtain ⟨_, _, hf, hs⟩ := run_bind_eq_ok_iff.mp hn
  obtain ⟨hf, rfl⟩ := run_liftM_fault_eq_ok hf
  rw [hf, run_set_eq_ok hs]

lemma run_bytes_eq_ok {bs buffer buffer' : List UInt8} {u : Unit}
    (h : (bytes bs).run buffer = .ok (u, buffer')) :
    buffer' = buffer ++ bs ∧ buffer'.length < Buffer.limit := by
  obtain ⟨rfl, hl⟩ := Buffer.allocate_eq_ok_iff.mp
    (run_replace_eq_ok (f := fun b => Buffer.allocate (b ++ bs)) h)
  exact ⟨rfl, hl⟩

lemma run_align_eq_ok {buffer buffer' : List UInt8} {u : Unit}
    (h : align.run buffer = .ok (u, buffer')) : buffer' = Buffer.aligned buffer := by
  obtain ⟨rfl, -⟩ := Buffer.allocate_eq_ok_iff.mp
    (run_replace_eq_ok (f := fun b => Buffer.allocate (Buffer.aligned b)) h)
  rfl

lemma run_patch_eq_ok {offset : Nat} {v : UInt64} {buffer buffer' : List UInt8} {u : Unit}
    (h : (patch offset v).run buffer = .ok (u, buffer')) :
    Buffer.patch buffer offset v = .ok buffer' :=
  run_replace_eq_ok (f := fun b => Buffer.patch b offset v) h

end Encode

namespace Block

/-- Writing a block appends it, and gives the offset at which it stands. -/
lemma run_write_eq_ok {b : Block} {buffer buffer' : List UInt8} {o : UInt64}
    (h : (write b).run buffer = .ok (o, buffer')) :
    buffer' = append buffer b ∧ buffer'.length < Buffer.limit ∧
      o.toNat = Buffer.alignUp buffer.length := by
  obtain ⟨_, _, ha, h⟩ := Encode.run_bind_eq_ok_iff.mp h
  cases Encode.run_align_eq_ok ha
  obtain ⟨offset, _, hp, h⟩ := Encode.run_bind_eq_ok_iff.mp h
  obtain ⟨_, _, hg, hp⟩ := Encode.run_bind_eq_ok_iff.mp hp
  obtain ⟨rfl, rfl⟩ := Encode.run_get_eq_ok hg
  obtain ⟨rfl, rfl⟩ := Encode.run_pure_eq_ok hp
  obtain ⟨_, _, hb, h⟩ := Encode.run_bind_eq_ok_iff.mp h
  obtain ⟨rfl, hl⟩ := Encode.run_bytes_eq_ok hb
  obtain ⟨rfl, rfl⟩ := Encode.run_pure_eq_ok h
  refine ⟨rfl, hl, ?_⟩
  rw [Buffer.length_aligned]
  simp only [List.length_append, Buffer.length_aligned, Buffer.limit] at hl
  exact UInt64.toNat_ofNat_of_lt' (by unfold UInt64.size; omega)

/-! ### Setting a link -/

/-- The block with a link set. -/
def setLink (b : Block) (i : Nat) (target : UInt64) : Block :=
  { b with links := b.links.set i target }

@[simp] lemma id_setLink (b : Block) (i : Nat) (target : UInt64) : (b.setLink i target).id = b.id :=
  rfl

@[simp] lemma size_setLink (b : Block) (i : Nat) (target : UInt64) :
    (b.setLink i target).size = b.size := by
  simp [size, setLink]

/-- The bytes of the block before its links. -/
def front (b : Block) : List UInt8 :=
  b.id.bytes ++ Buffer.zeros 4 ++ LittleEndian.uint64 (UInt64.ofNat b.size)
    ++ LittleEndian.uint64 (UInt64.ofNat b.links.length)

lemma bytes_eq (b : Block) :
    b.bytes = b.front ++ (b.links.flatMap LittleEndian.uint64 ++ b.data) := by
  simp only [bytes, head, front, size, List.append_assoc]

lemma length_front {b : Block} (h : b.id.bytes.length = 4) : b.front.length = fixedSize := by
  simp only [front, List.length_append, h, Buffer.length_zeros, LittleEndian.length_uint64,
    fixedSize]

lemma front_setLink (b : Block) (i : Nat) (target : UInt64) :
    (b.setLink i target).front = b.front := by
  have hl : (b.setLink i target).links.length = b.links.length := by simp [setLink]
  simp only [front, id_setLink, size_setLink, hl]

lemma patch_append {u v w : List UInt8} (hw : w.length = 8) (target : UInt64) :
    Buffer.patch (u ++ (w ++ v)) u.length target =
      .ok (u ++ (LittleEndian.uint64 target ++ v)) := by
  have hl : u.length + 8 ≤ (u ++ (w ++ v)).length := by
    simp only [List.length_append]
    omega
  have hd : (u ++ (w ++ v)).drop (u.length + 8) = v := by
    rw [← hw, ← List.append_assoc, ← List.length_append, List.drop_left]
  rw [Buffer.patch, if_pos hl, hd, List.take_left, List.append_assoc]

/-- **Overwriting the bytes of a link sets the link.** -/
lemma patch_setLink {b : Block} {i : Nat} (hid : b.id.bytes.length = 4) (hi : i < b.links.length)
    (pre post : List UInt8) (target : UInt64) :
    Buffer.patch (pre ++ b.bytes ++ post) (linkPosition pre.length i) target =
      .ok (pre ++ (b.setLink i target).bytes ++ post) := by
  obtain ⟨l, r, hl, hs, rfl⟩ : ∃ l r, b.links = l ++ b.links[i] :: r ∧
      b.links.set i target = l ++ target :: r ∧ l.length = i :=
    ⟨b.links.take i, b.links.drop (i + 1), by simp,
      by rw [List.set_eq_take_append_cons_drop, if_pos hi], by simp; omega⟩
  generalize b.links[l.length] = old at hl
  have hp : linkPosition pre.length l.length =
      (pre ++ (b.front ++ l.flatMap LittleEndian.uint64)).length := by
    simp only [linkPosition, headSize, List.length_append, length_front hid,
      LittleEndian.length_flatMap_uint64]
  have hpatch := patch_append (u := pre ++ (b.front ++ l.flatMap LittleEndian.uint64))
    (v := r.flatMap LittleEndian.uint64 ++ (b.data ++ post)) (LittleEndian.length_uint64 old) target
  rw [bytes_eq, bytes_eq, front_setLink, hp, hl]
  simp only [setLink, hs, List.flatMap_append, List.flatMap_cons, List.append_assoc] at hpatch ⊢
  exact hpatch

@[simp] lemma length_bytes_setLink (b : Block) (i : Nat) (target : UInt64) :
    (b.setLink i target).bytes.length = b.bytes.length := by
  simp only [bytes, List.length_append, length_head, setLink, List.length_set]

/-! ### Sequences -/

/-- The bytes of blocks behind `n` bytes, each at the next multiple of eight. -/
def sequence (n : Nat) : List Block → List UInt8
  | [] => []
  | b :: bs =>
    Buffer.zeros (Buffer.alignUp n - n) ++ b.bytes ++ sequence (Buffer.alignUp n + b.bytes.length) bs

/-- The offset of the block that follows blocks behind `n` bytes. -/
def after (n : Nat) (bs : List Block) : Nat := Buffer.alignUp (n + (sequence n bs).length)

lemma end_sequence_cons (n : Nat) (b : Block) (l : List Block) :
    n + (sequence n (b :: l)).length = Buffer.alignUp n + b.bytes.length +
      (sequence (Buffer.alignUp n + b.bytes.length) l).length := by
  have hle := Buffer.le_alignUp n
  simp only [sequence, List.length_append, Buffer.length_zeros]
  omega

lemma sequence_append (n : Nat) (l r : List Block) :
    sequence n (l ++ r) = sequence n l ++ sequence (n + (sequence n l).length) r := by
  induction l generalizing n with
  | nil => rfl
  | cons b l ih =>
    rw [end_sequence_cons, List.cons_append]
    simp only [sequence, ih, List.append_assoc]

lemma after_cons (n : Nat) (b : Block) (l : List Block) :
    after n (b :: l) = after (Buffer.alignUp n + b.bytes.length) l := by
  rw [after, after, end_sequence_cons]

/-- What stands before the block that follows: the blocks, and zero bytes up to its offset. -/
def lead (n : Nat) (bs : List Block) : List UInt8 :=
  sequence n bs ++ Buffer.zeros (after n bs - (n + (sequence n bs).length))

lemma length_lead (n : Nat) (bs : List Block) : n + (lead n bs).length = after n bs := by
  have hle : n + (sequence n bs).length ≤ after n bs := Buffer.le_alignUp _
  simp only [lead, List.length_append, Buffer.length_zeros]
  omega

lemma sequence_append_cons (n : Nat) (l r : List Block) (b : Block) :
    sequence n (l ++ b :: r) =
      lead n l ++ b.bytes ++ sequence (after n l + b.bytes.length) r := by
  rw [sequence_append]
  simp only [sequence, lead, after, List.append_assoc]

lemma append_sequence (u : List UInt8) (l : List Block) (b : Block) :
    append (u ++ sequence u.length l) b = u ++ sequence u.length (l ++ [b]) := by
  rw [sequence_append]
  simp only [append, Buffer.aligned, sequence, List.length_append, List.append_assoc,
    List.append_nil]

/-- **Overwriting the bytes of a link changes one block of a sequence.** -/
lemma patch_sequence {b : Block} {i : Nat} (hid : b.id.bytes.length = 4) (hi : i < b.links.length)
    (u : List UInt8) (l r : List Block) (target : UInt64) :
    Buffer.patch (u ++ sequence u.length (l ++ b :: r)) (linkPosition (after u.length l) i) target =
      .ok (u ++ sequence u.length (l ++ b.setLink i target :: r)) := by
  have hp := patch_setLink hid hi (u ++ lead u.length l)
    (sequence (after u.length l + b.bytes.length) r) target
  rw [List.length_append, length_lead] at hp
  rw [sequence_append_cons, sequence_append_cons, length_bytes_setLink]
  simpa only [List.append_assoc] using hp

/-- The file starts with these blocks behind its first `n` bytes. -/
structure Holds (n : Nat) (bs : List Block) (file : List UInt8) : Prop where
  /-- Memory holds the file. -/
  fits : file.length < Buffer.limit
  /-- Its bytes are those of the blocks, and of others behind them. -/
  split : ∃ u r, u.length = n ∧ file = u ++ sequence n (bs ++ r)

variable {n : Nat} {l r : List Block} {b : Block} {file : List UInt8}

/-- **Each block of a sequence stands at its offset.** -/
lemma Holds.at (h : Holds n (l ++ b :: r) file) (hn : 0 < n) (hid : b.id.bytes.length = 4) :
    At file (after n l) b := by
  obtain ⟨u, rest, rfl, hf⟩ := h.split
  have hle : u.length ≤ after u.length l := length_lead u.length l ▸ Nat.le_add_right ..
  refine ⟨by omega, hid, h.fits, u ++ lead u.length l,
    sequence (after u.length l + b.bytes.length) (r ++ rest), ?_, ?_⟩
  · rw [hf, List.append_assoc, List.cons_append, sequence_append_cons]
    simp only [List.append_assoc]
  · rw [List.length_append, length_lead]

end Block

end Mdf
