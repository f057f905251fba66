import Mdf.Block.Basic
import Mdf.Proofs.Bytes.Decode

/-!
# Reading back blocks

`Block.At file o b`: the block `b` stands at the offset `o` of a file.  The head of such a block is
read back whole, and so are the data by any reader of them.
-/

namespace Mdf

open Decode

/-- The ids of the blocks that are written have four characters. -/
lemma BlockId.length_bytes {i : BlockId} (h : i ∈ [hd, fh, dg, cg, cn, tx, md, dt, dz]) :
    i.bytes.length = 4 := by
  revert i
  decide

namespace Block

/-- The block stands at an offset of a file that memory holds. -/
structure At (file : List UInt8) (offset : Nat) (b : Block) : Prop where
  /-- Offset zero stands for no block. -/
  pos : 0 < offset
  /-- Every id has four characters. -/
  length_id : b.id.bytes.length = 4
  /-- The length of the file fits a link. -/
  fits : file.length < Buffer.limit
  /-- Its bytes are there. -/
  split : ∃ pre post, file = pre ++ b.bytes ++ post ∧ pre.length = offset

/-- What the head of the block says. -/
def header (b : Block) : Header := ⟨b.id, b.size, b.links⟩

lemma length_bytes {b : Block} (h : b.id.bytes.length = 4) : b.bytes.length = b.size := by
  simp only [bytes, size, headSize, fixedSize, List.length_append, length_head, h]

lemma length_head_of {id : BlockId} (h : id.bytes.length = 4) (links : List UInt64) (n : Nat) :
    (head id links n).length = headSize links.length := by
  rw [length_head, h, headSize, fixedSize]

lemma checkedHeadSize_of_lt {n : Nat} (h : headSize n < Checked.wordBound) :
    checkedHeadSize n = .ok (headSize n) := by
  unfold headSize at h
  unfold checkedHeadSize
  rw [Checked.mul_of_lt (by omega)]
  exact Checked.add_of_lt h

namespace At

variable {file : List UInt8} {o : Nat} {b : Block}

lemma le_length (h : At file o b) : o + b.size ≤ file.length := by
  obtain ⟨pre, post, rfl, rfl⟩ := h.split
  simp only [List.length_append, length_bytes h.length_id]
  omega

lemma size_lt (h : At file o b) : o + b.size < Buffer.limit :=
  Nat.lt_of_le_of_lt h.le_length h.fits

lemma offset_lt (h : At file o b) : o < file.length := by
  have := h.le_length
  simp only [size, headSize, fixedSize] at this
  omega

/-- No block stands where a link of zero would lead. -/
lemma link_ne {link : UInt64} (h : At file link.toNat b) : link ≠ 0 := by
  rintro rfl
  exact Nat.lt_irrefl 0 h.pos

lemma dataLength (h : At file o b) : b.header.dataLength = .ok b.data.length := by
  have hs := h.size_lt
  have hh : headSize b.links.length < Checked.wordBound := by
    simp only [size, Buffer.limit] at hs
    simp only [Checked.wordBound]
    omega
  have he : b.header.links.length = b.links.length := rfl
  simp only [Header.dataLength, he, checkedHeadSize_of_lt hh]
  simp [header, size]

end At

/-! ### Heads -/

namespace Header

lemma hasRoom_of_le {size length count : Nat} (hc : 8 * count ≤ size)
    (hb : headSize count < Checked.wordBound) (hl : headSize count ≤ length) :
    hasRoom size length count = .ok true := by
  have h : ¬size / 8 < count := by omega
  rw [hasRoom, if_neg h, checkedHeadSize_of_lt hb]
  exact congrArg Except.ok (decide_eq_true hl)

lemma reads_readRest {b : Block} {o n : Nat} (first : BlockId) (hs : o + b.size ≤ n)
    (hn : n < Buffer.limit) :
    Reads (readRest first b.id n o)
      (Buffer.zeros 4 ++ (LittleEndian.uint64 (UInt64.ofNat b.size) ++
        (LittleEndian.uint64 (UInt64.ofNat b.links.length) ++
          b.links.flatMap LittleEndian.uint64)))
      b.header := by
  have hsize : headSize b.links.length ≤ b.size := Nat.le_add_right ..
  have hlinks : 8 * b.links.length ≤ headSize b.links.length := Nat.le_add_left ..
  unfold Buffer.limit at hn
  have hl : (UInt64.ofNat b.size).toNat = b.size := by
    rw [UInt64.toNat_ofNat']
    omega
  have hc : (UInt64.ofNat b.links.length).toNat = b.links.length := by
    rw [UInt64.toNat_ofNat']
    omega
  have hr : hasRoom n b.size b.links.length = .ok true :=
    hasRoom_of_le (by omega) (by unfold Checked.wordBound; omega) hsize
  refine reads_bind (reads_skip (Buffer.length_zeros 4)) ?_
  refine reads_bind (reads_uint64 _) (reads_bind (reads_uint64 _) ?_)
  rw [hl, hc]
  refine reads_bind_nil (reads_liftM (by rw [hr]; rfl)) ?_
  rw [if_pos rfl]
  refine reads_bind_nil (reads_refuseIf (by omega)) ?_
  exact reads_map (reads_uint64s b.links)

/-- **The head of a block is read back whole**, if its id is among the expected ones. -/
theorem run_readAny {file : List UInt8} {o : Nat} {b : Block} {first : BlockId}
    {others : List BlockId} (h : At file o b)
    (hid : (first :: others).find? (fun i => i.bytes == b.id.bytes) = some b.id) (p : Nat) :
    run (readAny first others o) file p = (.ok b.header, o + headSize b.links.length) := by
  have hlt := h.offset_lt
  have hpos := h.pos
  have hle := h.le_length
  have hfits := h.fits
  have hseek : run (seek o) file p = (.ok (), o) := by rw [run_seek, if_pos (by omega)]
  have hin : run (refuseIf (o = 0 ∨ file.length ≤ o) (.invalidLink o)) file p = (.ok (), p) := by
    rw [run_refuseIf, if_neg (by omega)]
  obtain ⟨pre, post, hfile, rfl⟩ := h.split
  have hbytes : file = pre ++ (b.id.bytes ++ (Buffer.zeros 4 ++
      (LittleEndian.uint64 (UInt64.ofNat b.size) ++
        (LittleEndian.uint64 (UInt64.ofNat b.links.length) ++
          b.links.flatMap LittleEndian.uint64)))) ++ (b.data ++ post) := by
    rw [hfile, Block.bytes, head, Block.size]
    simp only [List.append_assoc]
  have hhead : (b.id.bytes ++ (Buffer.zeros 4 ++
      (LittleEndian.uint64 (UInt64.ofNat b.size) ++
        (LittleEndian.uint64 (UInt64.ofNat b.links.length) ++
          b.links.flatMap LittleEndian.uint64)))).length = headSize b.links.length := by
    rw [← length_head_of h.length_id b.links b.data.length, head, Block.size]
    simp only [List.append_assoc]
  unfold readAny
  rw [run_bind_of_ok (run_size file p), run_bind_of_ok hin, run_bind_of_ok hseek]
  rw [← hhead]
  refine Reads.run (reads_bind (reads_take_of_length h.length_id) ?_) hbytes
  rw [hid]
  exact reads_readRest first hle hfits

theorem run_read {file : List UInt8} {o : Nat} {b : Block} {minLinks minData : Nat}
    (h : At file o b) (hl : minLinks ≤ b.links.length) (hd : minData ≤ b.data.length) (p : Nat) :
    run (read b.id minLinks minData o) file p = (.ok b.header, o + headSize b.links.length) := by
  have hany : run (readAny b.id [] o) file p = _ := run_readAny h (by simp) p
  unfold read
  rw [run_bind_of_ok hany, run_bind_of_ok (by rw [run_refuseIf, if_neg (by simpa [header] using hl)]),
    run_bind_of_ok (a := b.data.length) (by rw [run_liftM, h.dataLength]; rfl),
    run_bind_of_ok (by rw [run_refuseIf, if_neg (by omega)]), run_pure]

end Header

/-! ### Data -/

/-- A reader of a block that starts with the head, and goes on with data that are there, whatever
follows in the file. -/
lemma At.gives_bind_append {α : Type} {file : List UInt8} {o : Nat} {b : Block} {d : Decode Header}
    {next : Header → Decode α} {bs rest : List UInt8} {r : Except Failure α} (h : At file o b)
    (more : List UInt8)
    (hd : ∀ p, run d (file ++ more) p = (.ok b.header, o + headSize b.links.length))
    (hdata : b.data = bs ++ rest) (hn : Concludes (next b.header) bs r) :
    Gives (file ++ more) (d >>= next) r := by
  obtain ⟨pre, post, hfile, rfl⟩ := h.split
  have hl : (pre ++ head b.id b.links b.data.length).length =
      pre.length + headSize b.links.length := by
    rw [List.length_append, length_head_of h.length_id]
  have hsplit : file ++ more =
      pre ++ head b.id b.links b.data.length ++ bs ++ (rest ++ (post ++ more)) := by
    rw [hfile, bytes, hdata]
    simp only [List.append_assoc]
  exact gives_bind_concludes hsplit (by rw [hl]; exact hd) hn

lemma At.gives_bind {α : Type} {file : List UInt8} {o : Nat} {b : Block} {d : Decode Header}
    {next : Header → Decode α} {bs rest : List UInt8} {a : α} (h : At file o b)
    (hd : ∀ p, run d file p = (.ok b.header, o + headSize b.links.length))
    (hdata : b.data = bs ++ rest) (hn : Reads (next b.header) bs a) :
    Gives file (d >>= next) (.ok a) := by
  have hgives := h.gives_bind_append [] (by rwa [List.append_nil]) hdata hn.concludes
  rwa [List.append_nil] at hgives

end Block

end Mdf
