import Mdf.Block.Chain
import Mdf.Proofs.Block.Fields
import Mdf.Proofs.Block.Records
import Mdf.Proofs.Bytes.Safety
import Mdf.Proofs.Deflate.Decoder

/-!
# Reading blocks without faults

The reader of each block is sound on every input that a block of links of its own size could still
be addressed in.  The head of a block hands on that the input has room for its links
(`Header.sound_readAny`), and from that the length of its data can be computed.
-/

namespace Mdf

open Decode Block

variable {input : List UInt8}

/-- The offsets of a block with as many links as the input has bytes fit 64 bits. -/
def Addressable (input : List UInt8) : Prop := headSize input.length < Checked.wordBound

/-! ### Heads -/

namespace Block.Header

/-- The input has room for the links. -/
def FitsIn (input : List UInt8) (h : Header) : Prop := 8 * h.links.length ≤ input.length

lemma checkedHeadSize_of_le (hi : Addressable input) {n : Nat} (hn : n ≤ input.length) :
    checkedHeadSize n = .ok (headSize n) := by
  apply checkedHeadSize_of_lt
  unfold Addressable headSize at hi
  unfold headSize
  omega

lemma hasRoom_eq_ok (hi : Addressable input) (length count : Nat) :
    ∃ room, hasRoom input.length length count = .ok room ∧
      (room = true → 8 * count ≤ input.length) := by
  unfold hasRoom
  by_cases hc : input.length / 8 < count
  · rw [if_pos hc]
    exact ⟨false, rfl, by simp⟩
  · rw [if_neg hc, checkedHeadSize_of_le hi (show count ≤ input.length by omega)]
    exact ⟨_, rfl, fun _ => by omega⟩

lemma dataLength_eq_ok (hi : Addressable input) {h : Header} (hf : FitsIn input h) :
    h.dataLength = .ok (h.length - headSize h.links.length) := by
  unfold FitsIn at hf
  unfold dataLength
  rw [checkedHeadSize_of_le hi (by omega)]
  rfl

lemma sound_readRest (hi : Addressable input) (first id : BlockId) (offset : Nat) :
    Sound input (readRest first id input.length offset) (FitsIn input) := by
  refine sound_bind (sound_skip 4) fun _ _ => ?_
  refine sound_bind sound_uint64 fun length _ => sound_bind sound_uint64 fun count _ => ?_
  obtain ⟨room, hroom, hcount⟩ := hasRoom_eq_ok hi length.toNat count.toNat
  refine sound_bind (sound_of_eq_ok hroom) fun room' hr => ?_
  subst hr
  split
  · rename_i hr
    refine sound_bind (sound_refuseIf _ _) fun _ _ => ?_
    refine sound_map (sound_uint64s count.toNat) fun links hlinks => ?_
    unfold FitsIn
    rw [hlinks]
    exact hcount hr
  · have hmin := checkedHeadSize_of_le hi (Nat.min_le_right count.toNat input.length)
    exact sound_bind (sound_of_eq_ok hmin) fun _ _ => sound_refuse _

/-- **The head of a block is read without a fault**, and the input has room for its links. -/
theorem sound_readAny (hi : Addressable input) (first : BlockId) (others : List BlockId)
    (offset : Nat) : Sound input (readAny first others offset) (FitsIn input) := by
  refine sound_bind sound_size fun size hsize => ?_
  rw [hsize]
  refine sound_bind (sound_refuseIf _ _) fun _ _ => ?_
  refine sound_bind (sound_seek offset) fun _ _ => sound_bind (sound_take 4) fun mark _ => ?_
  split
  · exact sound_refuse _
  · exact sound_readRest hi first _ offset

lemma sound_read (hi : Addressable input) (id : BlockId) (minLinks minData offset : Nat) :
    Sound input (read id minLinks minData offset) (FitsIn input) := by
  refine sound_bind (sound_readAny hi id [] offset) fun h hf => ?_
  refine sound_bind (sound_refuseIf _ _) fun _ _ => ?_
  refine sound_bind (sound_of_eq_ok (dataLength_eq_ok hi hf)) fun _ _ => ?_
  exact sound_map (sound_refuseIf _ _) fun _ _ => hf

end Block.Header

/-! ### Blocks of fields -/

section Fields

variable (hi : Addressable input) (offset : Nat)

include hi

lemma FileHeader.sound_read : Sound input (FileHeader.read offset) fun _ => True := by
  refine sound_bind (Header.sound_read hi _ _ _ _) fun _ _ => ?_
  refine sound_bind sound_uint64 fun _ _ => sound_bind sound_int16 fun _ _ => ?_
  exact sound_bind sound_int16 fun _ _ => sound_map sound_uint8 fun _ _ => trivial

lemma HistoryEntry.sound_read : Sound input (HistoryEntry.read offset) fun _ => True := by
  refine sound_bind (Header.sound_read hi _ _ _ _) fun _ _ => ?_
  exact sound_map sound_uint64 fun _ _ => trivial

lemma DataGroup.sound_read : Sound input (DataGroup.read offset) fun _ => True := by
  refine sound_bind (Header.sound_read hi _ _ _ _) fun _ _ => ?_
  exact sound_map sound_uint8 fun _ _ => trivial

lemma ChannelGroup.sound_read : Sound input (ChannelGroup.read offset) fun _ => True := by
  refine sound_bind (Header.sound_read hi _ _ _ _) fun _ _ => ?_
  refine sound_bind sound_uint64 fun _ _ => sound_bind sound_uint64 fun _ _ => ?_
  refine sound_bind sound_uint16 fun _ _ => sound_bind (sound_skip 6) fun _ _ => ?_
  refine sound_bind sound_uint32 fun _ _ => sound_bind sound_uint32 fun _ _ => ?_
  exact sound_map (sound_refuseIf _ _) fun _ _ => trivial

lemma Channel.sound_read : Sound input (Channel.read offset) fun _ => True := by
  refine sound_bind (Header.sound_read hi _ _ _ _) fun _ _ => ?_
  refine sound_bind sound_uint8 fun _ _ => sound_bind sound_uint8 fun _ _ => ?_
  refine sound_bind sound_uint8 fun code _ => ?_
  refine sound_bind (sound_error _) fun _ _ => ?_
  refine sound_bind sound_uint8 fun _ _ => sound_bind sound_uint32 fun _ _ => ?_
  refine sound_bind sound_uint32 fun _ _ => sound_bind sound_uint32 fun _ _ => ?_
  refine sound_bind (sound_refuseIf _ _) fun _ _ => sound_bind (sound_refuseIf _ _) fun _ _ => ?_
  refine sound_bind (sound_refuseIf _ _) fun _ _ => ?_
  exact sound_map (sound_refuseIf _ _) fun _ _ => trivial

lemma TextBlock.sound_read : Sound input (TextBlock.read offset) fun _ => True := by
  refine sound_bind (Header.sound_readAny hi _ _ _) fun h hf => ?_
  refine sound_bind (sound_of_eq_ok (Header.dataLength_eq_ok hi hf)) fun n _ => ?_
  refine sound_bind (sound_take n) fun d _ => ?_
  have htext : ofData d = .ok (Utf8.decodeLossy (d.takeWhile (· ≠ 0))) := by
    rw [ofData, Buffer.beforeZero_eq]
    rfl
  exact sound_map (sound_of_eq_ok htext) fun _ _ => trivial

end Fields

/-! ### Records -/

namespace Records

lemma restore_eq_ok (mode : Storage) (parameter : UInt32) {d : List UInt8}
    (hd : d.length < Checked.wordBound) : ∃ records, restore mode parameter d = .ok records := by
  cases mode with
  | plain => exact ⟨d, rfl⟩
  | deflate => exact ⟨d, rfl⟩
  | transposed =>
    obtain ⟨records, h, -⟩ := Storage.untranspose_ok parameter.toNat hd
    exact ⟨records, h⟩

lemma sound_unpack (hi : Addressable input) {h : Header} (hf : Header.FitsIn input h) :
    Sound input (unpack h) fun _ => True := by
  refine sound_bind (sound_of_eq_ok (Header.dataLength_eq_ok hi hf)) fun dataLength _ => ?_
  refine sound_bind (sound_refuseIf _ _) fun _ hroom => ?_
  refine sound_bind (sound_take 2) fun _ _ => sound_bind (sound_refuseIf _ _) fun _ _ => ?_
  refine sound_bind sound_uint8 fun zipType _ => ?_
  refine sound_bind (sound_error _) fun mode _ => ?_
  refine sound_bind (sound_skip 1) fun _ _ => sound_bind sound_uint32 fun parameter _ => ?_
  refine sound_bind sound_uint64 fun unpacked _ => sound_bind sound_uint64 fun packed _ => ?_
  refine sound_bind sound_size fun size _ => ?_
  have hsub : Checked.sub dataLength 24 = .ok (dataLength - 24) := Checked.sub_of_le (by omega)
  refine sound_bind (sound_of_eq_ok hsub) fun room _ => ?_
  refine sound_bind (sound_refuseIf _ _) fun _ _ => ?_
  refine sound_bind (sound_take packed.toNat) fun stream _ => ?_
  refine sound_bind (sound_error _) fun d hd => ?_
  have hlen := (Deflate.Decoder.length_of_decompress hd).2.1
  obtain ⟨records, hrecords⟩ := restore_eq_ok mode parameter (hlen ▸ unpacked.toNat_lt)
  exact (sound_of_eq_ok hrecords).mono fun _ _ => trivial

/-- **Records are read without a fault**, whatever a block declares. -/
theorem sound_read (hi : Addressable input) (offset : Nat) :
    Sound input (read offset) fun _ => True := by
  unfold read
  split
  · exact sound_pure trivial
  · refine sound_bind (Header.sound_readAny hi _ _ _) fun h hf => ?_
    split
    · exact sound_bind (sound_of_eq_ok (Header.dataLength_eq_ok hi hf)) fun n _ =>
        (sound_take n).mono fun _ _ => trivial
    · split
      · exact sound_unpack hi hf
      · exact sound_refuse _

end Records

/-! ### Chains -/

/-- **A chain is read without a fault** if each of its blocks is, and what each step keeps is kept
by the chain. -/
theorem Chain.sound_fold {σ : Type} {I : σ → Prop} {step : σ → Nat → Decode (σ × UInt64)}
    (hs : ∀ state offset, I state → Sound input (step state offset) fun r => I r.1) {state : σ}
    (h : I state) (link : UInt64) : Sound input (fold step state link) I := by
  have hfrom : ∀ visited state link, I state → Sound input (foldFrom step visited state link) I := by
    intro visited state link
    induction visited, state, link using foldFrom.induct with
    | case1 visited state =>
      intro hstate
      rw [foldFrom, if_pos rfl]
      exact sound_pure hstate
    | case2 visited state link hlink hunread ih =>
      intro hstate
      rw [foldFrom, if_neg hlink, dif_pos hunread]
      exact sound_bind (hs state link.toNat hstate) fun r hr => ih r.1 r.2 hr
    | case3 visited state link hlink hread =>
      intro _
      rw [foldFrom, if_neg hlink, dif_neg hread]
      exact sound_refuse _
  exact hfrom [] state link h

end Mdf
