import Mdf.Proofs.Block.Extension
import Mdf.Proofs.Block.Extent
import Mdf.Proofs.Deflate.Zlib

/-!
# Storing records and reading them back

`gives_read_of_write` is the main statement: records that are written in any storage mode behind what
a buffer holds are read back, whatever is written behind them later.  The record size, by which a mode
may transpose them, need not divide their number.

The compressor is assumed to give something for all bytes (`Total`), and to be inverted by
decompression (`Inverts`).  What is left to fail is the memory for the block.
-/

namespace Mdf

open Block Decode Encode

/-- The compressor gives something for all bytes. -/
def Deflate.Compressor.Total (deflate : Deflate.Compressor) : Prop := ∀ d, ∃ z, deflate d = .ok z

lemma Deflate.total_storing : Deflate.storing.Total := fun d => ⟨Deflate.compress d, rfl⟩

namespace Records

variable {deflate : Deflate.Compressor} {mode : Storage} {size : UInt32} {records buffer : List UInt8}
  {b : Block}

/-- **Records have a block in every storage mode**, if the compressor gives something for them. -/
lemma block_ok (hd : deflate.Total) (mode : Storage) (size : UInt32)
    (hw : records.length < Checked.wordBound) :
    ∃ b, block deflate mode size records = .ok b := by
  unfold block
  cases hz : mode.zipType? with
  | none => exact ⟨_, rfl⟩
  | some zipType =>
    obtain ⟨arranged, ha, -⟩ : ∃ d, arrange mode size records = .ok d ∧ _ := arrange_ok hw
    obtain ⟨packed, hp⟩ := hd arranged
    have hcontainer := Deflate.Compressor.container_eq_ok_iff.mpr hp
    exact ⟨_, by simp only [ha, liftM_ok_fault, ok_bind, hcontainer, liftM_ok_error]; rfl⟩

/-- Writing records is writing their block. -/
lemma write_eq (h : block deflate mode size records = .ok b) :
    write deflate mode size records = b.write := by
  rw [write, h]
  rfl

/-- The block of records is written if there is room for it. -/
lemma appends_write {n : Nat} (h : block deflate mode size records = .ok b) :
    Appends n [b.size] (fun o => o.toNat = Buffer.alignUp n) (write deflate mode size records) :=
  write_eq h ▸ Block.appends_write (length_id_block h)

/-- Memory holds the block of records behind what a buffer holds. -/
def Fits (deflate : Deflate.Compressor) (mode : Storage) (size : UInt32)
    (records buffer : List UInt8) : Prop :=
  ∀ b, block deflate mode size records = .ok b →
    Buffer.alignUp buffer.length + b.size < Buffer.limit

/-- **Records that are written are read back**, in every storage mode and for every record size, from
the offset that writing them gives, whatever follows them.  They are written if memory holds their
block, and otherwise the lack of memory is what the writer ends for. -/
theorem gives_read_of_write (hi : deflate.Inverts) (hd : deflate.Total) (mode : Storage)
    (size : UInt32) (hbuffer : 0 < buffer.length) (hlimit : buffer.length < Buffer.limit)
    (hrecords : records.length < Buffer.limit) :
    (Fits deflate mode size records buffer →
      ∃ b o, (write deflate mode size records).run buffer = .ok (o, append buffer b) ∧
        o.toNat % 8 = 0 ∧ ∀ more, Gives (append buffer b ++ more) (read o.toNat) (.ok records)) ∧
    (¬Fits deflate mode size records buffer →
      ∃ f, (write deflate mode size records).run buffer = .error f ∧ f.Exhausted) := by
  obtain ⟨b, hb⟩ := block_ok hd mode size (Nat.lt_trans hrecords (by decide))
  obtain ⟨hok, hfail⟩ := appends_write hb buffer rfl hlimit
  rw [extent_singleton] at hok hfail
  constructor
  · intro hfits
    obtain ⟨o, file, hrun, -, ho⟩ := hok (hfits b hb)
    obtain ⟨rfl, hlength, -⟩ := run_write_eq_ok (write_eq hb ▸ hrun)
    have hat := at_append hbuffer (length_id_block hb) hlength
    refine ⟨b, o, hrun, ho ▸ Buffer.alignUp_mod _, fun more p => ?_⟩
    have hread := gives_read hi hb hrecords (ho ▸ hat)
    exact congrArg Prod.fst (persists_read o.toNat _ more p _ _ (hread.run_eq p))
  · intro hfits
    refine hfail (Nat.le_of_not_lt fun hlt => hfits fun b' hb' => ?_)
    cases hb.symm.trans hb'
    exact hlt

theorem gives_read_of_write_seven :
    Deflate.storing.Inverts ∧ Deflate.storing.Total ∧
      Fits Deflate.storing .transposed 3 [1, 2, 3, 4, 5, 6, 7] [0] ∧
      ∃ b o, (write Deflate.storing .transposed 3 [1, 2, 3, 4, 5, 6, 7]).run [0] =
          .ok (o, append [0] b) ∧ o.toNat % 8 = 0 ∧
        Gives (append [0] b ++ [8, 9]) (read o.toNat) (.ok [1, 2, 3, 4, 5, 6, 7]) := by
  have hfits : Fits Deflate.storing .transposed 3 [1, 2, 3, 4, 5, 6, 7] [0] := by
    intro b hb
    cases hb
    decide +kernel
  obtain ⟨hok, -⟩ := gives_read_of_write Deflate.inverts_storing Deflate.total_storing .transposed 3
    (show 0 < [0].length by decide) (by decide)
    (show [1, 2, 3, 4, 5, 6, 7].length < Buffer.limit by decide)
  obtain ⟨b, o, hrun, ho, hread⟩ := hok hfits
  exact ⟨Deflate.inverts_storing, Deflate.total_storing, hfits, b, o, hrun, ho, hread [8, 9]⟩

end Records

end Mdf
