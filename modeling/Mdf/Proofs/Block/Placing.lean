import Mdf.Proofs.Block.Extent
import Mdf.Proofs.Block.Fields

/-!
# Placing blocks of fields and reading them back

`readsBack_fields` is the main statement: a block of each of the five kinds of fields, whatever its
fields are, is written behind what a buffer holds and read back from there, whatever is written
behind it later.  Two kinds have values that are written but refused when they are read: a channel
group for values of variable length, and a channel of such values or of samples that start within a
byte.  What is left to fail is the memory for the block.
-/

namespace Mdf

open Block Decode Encode

namespace Block

variable {α : Type} {buffer : List UInt8} {b : Block} {read : Nat → Decode α}
  {r : Except Failure α}

/-! ### Writing -/

lemma length_append (hid : b.id.bytes.length = 4) :
    (append buffer b).length = Buffer.alignUp buffer.length + b.size := by
  rw [append, List.length_append, Buffer.length_aligned, length_bytes hid]

/-- A buffer that memory holds becomes longer by the block, if memory holds that as well. -/
lemma run_write (hid : b.id.bytes.length = 4)
    (hfits : (append buffer b).length < Buffer.limit) :
    ∃ o, b.write.run buffer = .ok (o, append buffer b) ∧
      o.toNat = Buffer.alignUp buffer.length := by
  have hle := Buffer.le_alignUp buffer.length
  rw [length_append hid] at hfits
  obtain ⟨o, buffer', hrun, -, ho⟩ := (appends_write hid buffer rfl (by omega)).1 hfits
  obtain ⟨rfl, -⟩ := run_write_eq_ok hrun
  exact ⟨o, hrun, ho⟩

lemma run_write_exhausted (hid : b.id.bytes.length = 4)
    (hlimit : Buffer.limit ≤ (append buffer b).length) :
    ∃ f, b.write.run buffer = .error f ∧ f.Exhausted := by
  by_cases hbuffer : buffer.length < Buffer.limit
  · rw [length_append hid] at hlimit
    exact (appends_write hid buffer rfl hbuffer).2 hlimit
  · -- what the buffer holds is too much already, so the padding is what fails
    have hle : Buffer.limit ≤ (Buffer.aligned buffer).length := by
      rw [Buffer.length_aligned]
      exact Nat.le_trans (Nat.not_lt.mp hbuffer) (Buffer.le_alignUp _)
    have halign : align.run buffer =
        .error (.fault (.capacity (Buffer.aligned buffer).length)) := by
      rw [align, run_replace fun buffer => Buffer.allocate (Buffer.aligned buffer),
        Buffer.allocate_eq_error hle]
      rfl
    exact ⟨_, run_bind_of_error halign, _, hle, .inl rfl⟩

/-! ### Reading back -/

/-- Behind what the buffer holds the block is written at a multiple of eight, and reading it from
there ends with the result, whatever follows it.  Where memory does not hold the block, that ends the
writing. -/
structure ReadsBack (buffer : List UInt8) (b : Block) (read : Nat → Decode α)
    (r : Except Failure α) : Prop where
  of_fits : (append buffer b).length < Buffer.limit →
    ∃ o, b.write.run buffer = .ok (o, append buffer b) ∧ o.toNat % 8 = 0 ∧
      ∀ more, Gives (append buffer b ++ more) (read o.toNat) r
  of_exhausted : Buffer.limit ≤ (append buffer b).length →
    ∃ f, b.write.run buffer = .error f ∧ f.Exhausted

/-- A block is read back from where it is written, if it is from wherever it stands. -/
lemma readsBack_of_at (hbuffer : 0 < buffer.length) (hid : b.id.bytes.length = 4)
    (h : ∀ {file o}, At file o b → ∀ more, Gives (file ++ more) (read o) r) :
    ReadsBack buffer b read r := by
  refine ⟨fun hfits => ?_, run_write_exhausted hid⟩
  obtain ⟨o, hrun, ho⟩ := run_write hid hfits
  have hat : At (append buffer b) o.toNat b := ho ▸ at_append hbuffer hid hfits
  exact ⟨o, hrun, ho ▸ Buffer.alignUp_mod _, h hat⟩

/-- **Blocks of fields are read back** from where they are written, whatever follows them.  Only a
group for values of variable length, and a channel of such values or of samples that start within a
byte, are refused, and they are refused for that. -/
theorem readsBack_fields (hbuffer : 0 < buffer.length) :
    (∀ h : FileHeader, ReadsBack buffer h.block FileHeader.read (.ok h)) ∧
    (∀ e : HistoryEntry, ReadsBack buffer e.block HistoryEntry.read (.ok e)) ∧
    (∀ g : DataGroup, ReadsBack buffer g.block DataGroup.read (.ok g)) ∧
    (∀ g : ChannelGroup, ReadsBack buffer g.block ChannelGroup.read
      (if g.flags.toNat % 2 = 1 then .error (.error (.unsupportedFeature .vlsdGroup))
        else .ok g)) ∧
    (∀ c : Channel, ReadsBack buffer c.block Channel.read
      (if c.channelType = Channel.variableLengthType then
          .error (.error (.unsupportedFeature .signalData))
        else if c.bitOffset ≠ 0 then .error (.error (.unsupportedFeature .bitOffset))
        else .ok c)) := by
  refine ⟨fun h => ?_, fun e => ?_, fun g => ?_, fun g => ?_, fun c => ?_⟩
  · exact readsBack_of_at hbuffer (BlockId.length_bytes (by simp [FileHeader.block])) fun hat =>
      (FileHeader.gives_read hat).append (FileHeader.persists_read _)
  · exact readsBack_of_at hbuffer (BlockId.length_bytes (by simp [HistoryEntry.block])) fun hat =>
      (HistoryEntry.gives_read hat).append (HistoryEntry.persists_read _)
  · exact readsBack_of_at hbuffer (BlockId.length_bytes (by simp [DataGroup.block])) fun hat =>
      (DataGroup.gives_read hat).append (DataGroup.persists_read _)
  · have hg : g.readBack = if g.flags.toNat % 2 = 1 then
        .error (.error (.unsupportedFeature .vlsdGroup)) else .ok g := by
      simp only [ChannelGroup.readBack, ChannelGroup.isVariableLength, decide_eq_true_eq]
    rw [← hg]
    exact readsBack_of_at hbuffer (BlockId.length_bytes (by simp [ChannelGroup.block]))
      ChannelGroup.gives_readBack
  · exact readsBack_of_at hbuffer (BlockId.length_bytes (by simp [Channel.block]))
      Channel.gives_readBack

/-- A channel that starts within a byte, with greatest values in its other fields. -/
def shifted : Channel where
  next := 0xFFFFFFFFFFFFFFFF
  name := 0xFFFFFFFFFFFFFFFF
  unit := 0xFFFFFFFFFFFFFFFF
  comment := 0xFFFFFFFFFFFFFFFF
  channelType := 0xFF
  syncType := 0xFF
  encoding := ⟨.complexBe, 0xFFFFFFFF⟩
  bitOffset := 3
  byteOffset := 0xFFFFFFFF
  flags := 0xFFFFFFFF

theorem readsBack_fields_shifted :
    0 < [(0xAA : UInt8)].length ∧
      (∃ o, shifted.block.write.run [0xAA] = .ok (o, append [0xAA] shifted.block) ∧
        o.toNat % 8 = 0 ∧ ∀ more, Gives (append [0xAA] shifted.block ++ more)
          (Channel.read o.toNat) (.error (.error (.unsupportedFeature .bitOffset)))) ∧
      ∃ o, (DataGroup.block ⟨1, 2, 3, 4, 0xFF⟩).write.run [0xAA] =
          .ok (o, append [0xAA] (DataGroup.block ⟨1, 2, 3, 4, 0xFF⟩)) ∧
        o.toNat % 8 = 0 ∧ ∀ more, Gives (append [0xAA] (DataGroup.block ⟨1, 2, 3, 4, 0xFF⟩) ++ more)
          (DataGroup.read o.toNat) (.ok ⟨1, 2, 3, 4, 0xFF⟩) := by
  have hbuffer : 0 < [(0xAA : UInt8)].length := by decide
  obtain ⟨-, -, hgroup, -, hchannel⟩ := readsBack_fields hbuffer
  refine ⟨hbuffer, ?_, (hgroup ⟨1, 2, 3, 4, 0xFF⟩).of_fits (by decide +kernel)⟩
  obtain ⟨o, hrun, ho, hread⟩ := (hchannel shifted).of_fits (by decide +kernel)
  exact ⟨o, hrun, ho, hread⟩

end Block

end Mdf
