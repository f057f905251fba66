import Mdf.Proofs.Block.View
import Mdf.Proofs.Measurement.Extension
import Mdf.Proofs.Measurement.Safety
import Mdf.Proofs.Session.Tiling

/-!
# Files that end too early

No file of a session can be read once its end is missing, wherever it was cut (`ofBytes_take`): in a
text, in compressed records or between two blocks.  What is read of the first bytes is what is read of
the whole file, so the header leads to the data group.  That is the last block, and a block is read
only where the whole of it is there.
-/

namespace Mdf

open Decode

/-- A block of a file is read from the first bytes only if these hold the whole of it. -/
lemma Block.Header.le_of_run_read_take {file : List UInt8} {o n p q minLinks minData : Nat}
    {b : Block} {h : Header} (hb : At file o b) (hl : minLinks ≤ b.links.length)
    (hd : minData ≤ b.data.length)
    (hr : run (read b.id minLinks minData o) (file.take n) p = (.ok h, q)) : o + b.size ≤ n := by
  have hle := (of_run_read hr).1.le
  have hwhole := persists_read b.id minLinks minData o _ (file.drop n) _ _ _ hr
  rw [List.take_append_drop, run_read hb hl hd] at hwhole
  cases hwhole
  have hlength : (file.take n).length ≤ n := List.length_take_le ..
  have hsize : b.header.length = b.size := rfl
  omega

namespace Session

variable {s : Session} {deflate : Deflate.Compressor} {bytes : List UInt8} {n : Nat}

/-- Where the header and the data group of a file stand: the header leads to the data group, and this
ends with the file. -/
lemma ends_of_file (hb : s.file deflate = .ok bytes) :
    bytes.length < Buffer.limit ∧ ∃ k : Links, Block.At bytes FileHeader.offset (s.header k).block ∧
      Block.At bytes k.dataGroup.toNat (DataGroup.block ⟨0, k.group, k.data, 0, 0⟩) ∧
      k.dataGroup.toNat + 64 = bytes.length := by
  obtain ⟨time, layout, -, hl, hwrite⟩ := file_eq_ok hb
  have hpack : Layout.pack 8 (encodings s.channels) = .ok layout := hl
  have hnext : ∀ c ∈ layout.channels, c.next = 0 := by
    intro c hc
    rw [(Layout.eq_value (by decide) hpack c hc).1]
    rfl
  obtain ⟨records, block, k, channels, m, cs, -, hblock, hlaid⟩ := laid_of_write hnext hwrite
  have hat : ∀ t ∈ (parts s layout time block k channels m cs).all,
      Block.At bytes t.offset t.block :=
    fun t ht => hlaid.at (Records.length_id_block hblock) ht
  obtain ⟨hheader, -, -, -, -, -, -, -, -, -, hdataGroup⟩ := Parts.forall_mem_all.mp hat
  exact ⟨hlaid.fits, k, hheader, hdataGroup, hlaid.end_dataGroup.1⟩

/-- The first bytes of a file are not read as a file. -/
lemma ofBytes_take_ne_ok (hb : s.file deflate = .ok bytes) (hn : n < bytes.length)
    (expected : Option Version) (m : Measurement) :
    Measurement.ofBytes (bytes.take n) expected ≠ .ok m := by
  intro h
  obtain ⟨-, k, hheader, hdataGroup, hend⟩ := ends_of_file hb
  obtain ⟨header, g, p, _, _, _, _, -, -, hread, -, -, hgroups, -⟩ :=
    Measurement.exists_parts_of_ofBytes h
  -- the header is that of the whole file
  have hwhole := FileHeader.persists_read FileHeader.offset _ (bytes.drop n) _ _ _ hread
  rw [List.take_append_drop] at hwhole
  have hgives := FileHeader.gives_read hheader p
  rw [hwhole] at hgives
  cases hgives
  -- so the chain of the groups begins with the data group
  obtain ⟨groups, hfold, -⟩ := of_run_map hgroups
  have hlink : k.dataGroup ≠ 0 := hdataGroup.link_ne
  obtain ⟨r, q, hstep⟩ := Chain.exists_run_of_run_fold hlink hfold
  obtain ⟨dg, q₁, hdg, -⟩ := run_bind_eq_ok_iff.mp hstep
  obtain ⟨head, q₂, hhead, -⟩ := run_bind_eq_ok_iff.mp hdg
  have hle : k.dataGroup.toNat + (DataGroup.block ⟨0, k.group, k.data, 0, 0⟩).size ≤ n :=
    Block.Header.le_of_run_read_take hdataGroup (by simp [DataGroup.block])
      (by simp [DataGroup.block]) hhead
  rw [DataGroup.size_block] at hle
  omega

/-- **The file of a session is refused with an error once its end is missing**, wherever it was cut
and whatever revision is expected, in every storage mode. -/
theorem ofBytes_take (hb : s.file deflate = .ok bytes) (hn : n < bytes.length)
    (expected : Option Version) :
    ∃ e, Measurement.ofBytes (bytes.take n) expected = .error (.error e) := by
  obtain ⟨hfits, -⟩ := ends_of_file hb
  have hi : Addressable (bytes.take n) := by
    have hle : (bytes.take n).length ≤ bytes.length := List.length_take_le' ..
    unfold Buffer.limit at hfits
    unfold Addressable Block.headSize Block.fixedSize Checked.wordBound
    omega
  have hends : Ends Failure.IsError Measurement.Rectangular
      (Measurement.ofBytes (bytes.take n) expected) := Measurement.sound_reader hi expected 0
  cases hr : Measurement.ofBytes (bytes.take n) expected with
  | ok m => exact absurd hr (ofBytes_take_ne_ok hb hn expected m)
  | error f =>
    rw [hr] at hends
    obtain ⟨e, rfl⟩ := hends.of_error
    exact ⟨e, rfl⟩

/-- Without its last byte the file cannot be read. -/
theorem ofBytes_take_floats :
    ∃ bytes, floats.file Deflate.storing = .ok bytes ∧ bytes.length = 1400 ∧
      ∃ e, Measurement.ofBytes (bytes.take 1399) (some .v410) = .error (.error e) := by
  have hlength : (floats.file Deflate.storing).toOption.map List.length = some 1400 := by
    decide +kernel
  obtain ⟨bytes, hb⟩ := exists_file_floats
  rw [hb] at hlength
  have hbytes : bytes.length = 1400 := Option.some.inj hlength
  exact ⟨bytes, hb, hbytes, ofBytes_take hb (by omega) (some .v410)⟩

end Session

end Mdf
