import Mdf.Proofs.Block.Safety
import Mdf.Proofs.Block.View
import Mdf.Proofs.Bytes.Cursor
import Mdf.Proofs.Text.Utf8

/-!
# Heads of blocks within the file

The head of a block is read exactly where a block of an expected id stands that has room for its
links and ends within the file (`run_readAny_eq_ok_iff`).  So whoever has read a head may read on up
to the end of the data without another look at the length of the file.
-/

namespace Mdf

open Decode

lemma BlockId.bytes_injective : Function.Injective BlockId.bytes := by
  intro i j h
  obtain ⟨s⟩ := i
  obtain ⟨t⟩ := j
  exact congrArg BlockId.mk (Utf8.encode_injective h)

/-- An id of a list is found by its bytes. -/
lemma BlockId.find?_bytes_eq_some {ids : List BlockId} {id : BlockId} (h : id ∈ ids) :
    ids.find? (fun i => i.bytes == id.bytes) = some id := by
  have hsome : (ids.find? fun i => i.bytes == id.bytes).isSome :=
    List.find?_isSome.mpr ⟨id, h, beq_self_eq_true _⟩
  obtain ⟨i, hi⟩ := Option.isSome_iff_exists.mp hsome
  have hbytes : (i.bytes == id.bytes) = true :=
    List.find?_some (p := fun i : BlockId => i.bytes == id.bytes) hi
  rw [hi, bytes_injective (eq_of_beq hbytes)]

namespace Block.Header

variable {file : List UInt8} {o p q : Nat} {h : Header}

/-- What the head of a block promises to those who read on from `q`: it is the head that stands at
the offset, with room for its links and the whole block in the file, its id is one of those
expected, and the data are all that is left of the block from `q` on. -/
structure Confined (file : List UInt8) (o : Nat) (ids : List BlockId) (h : Header) (q : Nat) : Prop
    extends h.FoundAt file o where
  expected : h.id ∈ ids
  position : q = o + headSize h.links.length
  data : ∃ n, h.dataLength = .ok n ∧ q + n = o + h.length

namespace FoundAt

lemma length_lt (hf : h.FoundAt file o) : h.length < Checked.wordBound := by
  rw [← hf.length]
  exact numberAt_lt file (o + 8) 8

/-- A block that has room for its links has the data behind them. -/
lemma dataLength_eq_ok (hf : h.FoundAt file o) :
    h.dataLength = .ok (h.length - headSize h.links.length) := by
  unfold dataLength
  rw [checkedHeadSize_of_lt (Nat.lt_of_le_of_lt hf.room hf.length_lt)]
  rfl

/-- The links of a head are those that stand in its block. -/
lemma links_eq (hf : h.FoundAt file o) {links : List UInt64} (hlen : links.length = h.links.length)
    (hall : ∀ i < h.links.length, (links.getD i 0).toNat = numberAt file (linkPosition o i) 8) :
    links = h.links := by
  refine List.ext_getElem hlen fun i hi hi' => ?_
  have hlink := hf.link i
  rw [linkAt, if_pos (show i < countAt file o from hf.count ▸ hi'), ← hall i hi',
    Header.link] at hlink
  rw [List.getD_eq_getElem?_getD, List.getD_eq_getElem?_getD, List.getElem?_eq_getElem hi,
    List.getElem?_eq_getElem hi'] at hlink
  exact (UInt64.toNat_inj.mp hlink).symm

/-- Behind its id, the rest of a head that stands at the offset is read. -/
lemma run_readRest (hf : h.FoundAt file o) (first : BlockId) :
    run (readRest first h.id file.length o) file (o + 4) =
      (.ok h, o + headSize h.links.length) := by
  have hhead : headSize h.links.length = 24 + 8 * h.links.length := rfl
  have hroom := hf.room
  have hle := hf.le
  obtain ⟨length, hlengthRun, hlength⟩ :=
    exists_run_uint64 (show o + 8 + 8 ≤ file.length by omega)
  obtain ⟨count, hcountRun, hcount⟩ := exists_run_uint64 (show o + 16 + 8 ≤ file.length by omega)
  have hlength : length.toNat = h.length := hlength.trans hf.length
  have hcount : count.toNat = h.links.length := hcount.trans hf.count
  have hhas : hasRoom file.length length.toNat count.toNat = .ok true := by
    rw [hlength, hcount]
    exact hasRoom_of_le (by omega) (Nat.lt_of_le_of_lt hf.room hf.length_lt) hf.room
  obtain ⟨links, hlinksRun⟩ :=
    exists_run_uint64s (show o + 24 + 8 * count.toNat ≤ file.length by omega)
  obtain ⟨hlen, hall, -⟩ := of_run_uint64s hlinksRun
  have hlinks : links = h.links := by
    refine hf.links_eq (hlen.trans hcount) fun i hi => ?_
    rw [hall i (by omega), linkPosition, headSize, fixedSize, Nat.add_assoc]
  refine run_bind_eq_ok_iff.mpr ⟨(), o + 8, (takes_skip 4).run_eq (by omega), ?_⟩
  refine run_bind_eq_ok_iff.mpr ⟨length, o + 16, hlengthRun, ?_⟩
  refine run_bind_eq_ok_iff.mpr ⟨count, o + 24, hcountRun, ?_⟩
  refine run_liftM_bind_eq_ok_iff.mpr ⟨true, liftM_fault_eq_ok_iff.mpr hhas, ?_⟩
  refine run_refuseIf_bind_eq_ok_iff.mpr ⟨by omega, ?_⟩
  refine run_bind_eq_ok_iff.mpr ⟨links, o + 24 + 8 * count.toNat, hlinksRun, ?_⟩
  rw [run_pure, hlength, hlinks, hcount, Nat.add_assoc, ← hhead]

/-- A head that stands at the offset is read if its id is expected. -/
lemma run_readAny (hf : h.FoundAt file o) {first : BlockId} {others : List BlockId}
    (hid : h.id ∈ first :: others) (p : Nat) :
    run (readAny first others o) file p = (.ok h, o + headSize h.links.length) := by
  have hpos := hf.pos
  have hhead : headSize h.links.length = 24 + 8 * h.links.length := rfl
  have hroom := hf.room
  have hle := hf.le
  refine run_bind_eq_ok_iff.mpr ⟨file.length, p, run_size file p, ?_⟩
  refine run_refuseIf_bind_eq_ok_iff.mpr ⟨by omega, ?_⟩
  refine run_bind_eq_ok_iff.mpr ⟨(), o, by rw [run_seek, if_pos (by omega)], ?_⟩
  refine run_bind_eq_ok_iff.mpr ⟨idAt file o, o + 4, (takes_take 4).run_eq (by omega), ?_⟩
  rw [hf.id, BlockId.find?_bytes_eq_some hid]
  exact hf.run_readRest first

end FoundAt

/-- **A head is read exactly where a block stands that is confined to the file**, from whatever
position the reader has come. -/
theorem run_readAny_eq_ok_iff {first : BlockId} {others : List BlockId} :
    run (readAny first others o) file p = (.ok h, q) ↔ h.Confined file o (first :: others) q := by
  constructor
  · intro hr
    obtain ⟨hf, hid, rfl⟩ := of_run_readAny hr
    have hroom := hf.room
    exact ⟨hf, hid, rfl, _, hf.dataLength_eq_ok, by omega⟩
  · rintro ⟨hf, hid, rfl, -⟩
    exact hf.run_readAny hid p

/-- The arithmetic behind a head, that of its errors included, does not leave 64 bits on an input
that can be addressed. -/
lemma run_readAny_ne_fault (hi : Addressable file) (first : BlockId) (others : List BlockId)
    (f : Fault) : (run (readAny first others o) file p).1 ≠ .error (.fault f) := by
  intro hr
  have hsound := sound_readAny hi first others o p
  rw [hr] at hsound
  obtain ⟨e, he⟩ := hsound.of_error
  cases he

/-- **A head that has been read confines its block to the file**, and it is read wherever such a
block stands.  Beyond that, the arithmetic of the reader does not leave 64 bits on an input that can
be addressed, which is any that has fewer than `2 ^ 61 - 3` bytes. -/
theorem readAny_confines (file : List UInt8) (first : BlockId) (others : List BlockId) (o p : Nat) :
    (∀ h q, run (readAny first others o) file p = (.ok h, q) ↔
      h.Confined file o (first :: others) q) ∧
      (Addressable file → ∀ f, (run (readAny first others o) file p).1 ≠ .error (.fault f)) :=
  ⟨fun _ _ => run_readAny_eq_ok_iff, fun hi f => run_readAny_ne_fault hi first others f⟩

/-- A file of two heads: a text with one link and eight bytes, and one that announces more links
and bytes than 64 bits count. -/
def twoHeads : List UInt8 :=
  Buffer.zeros 8 ++ Block.bytes ⟨.tx, [5], Buffer.zeros 8⟩
    ++ BlockId.md.bytes ++ Buffer.zeros 4 ++ LittleEndian.uint64 (-1) ++ LittleEndian.uint64 (-1)

theorem readAny_confines_twoHeads :
    Addressable twoHeads ∧
      Confined twoHeads 8 [.tx, .md] ⟨.tx, 40, [5]⟩ 40 ∧
      ∀ f, (run (readAny .tx [.md] 48) twoHeads 0).1 ≠ .error (.fault f) := by
  have hi : Addressable twoHeads := by
    unfold Addressable
    decide
  have hr : run (readAny .tx [.md] 8) twoHeads 0 = (.ok ⟨.tx, 40, [5]⟩, 40) := by decide
  exact ⟨hi, ((readAny_confines twoHeads .tx [.md] 8 0).1 _ _).mp hr,
    (readAny_confines twoHeads .tx [.md] 48 0).2 hi⟩

end Block.Header

end Mdf
