import Mdf.Block.Chain
import Mdf.Block.FileHeader
import Mdf.Block.HistoryEntry
import Mdf.Block.Channel
import Mdf.Block.ChannelGroup
import Mdf.Block.DataGroup
import Mdf.Block.Records
import Mdf.Block.Text
import Mdf.Proofs.Bytes.Extension

/-!
# Blocks in longer inputs

A block that has been read is read alike in every input that starts with the one it was read in.  The
size of the input is asked for in the checks of a link, of the room for links and of the end of a
block, and a longer input passes each of them (`Header.persists_readAny`).  A chain leads through the
same blocks, since a link that leaves the input is an error.
-/

namespace Mdf

open Decode

/-! ### Heads -/

namespace Block.Header

/-- A larger input has room for the same links. -/
lemma hasRoom_mono {size size' length count : Nat} (hle : size ≤ size')
    (h : hasRoom size length count = .ok true) : hasRoom size' length count = .ok true := by
  unfold hasRoom at h ⊢
  by_cases hc : size / 8 < count
  · rw [if_pos hc] at h
    cases h
  · have hdiv : size / 8 ≤ size' / 8 := Nat.div_le_div_right hle
    rw [if_neg hc] at h
    rw [if_neg (by omega)]
    exact h

lemma persists_readRest (first id : BlockId) (offset : Nat) {size size' : Nat}
    (hle : size ≤ size') :
    Persists (readRest first id size offset) (readRest first id size' offset) := by
  refine persists_bind (persists_skip 4) fun _ => ?_
  refine persists_bind persists_uint64 fun length => persists_bind persists_uint64 fun count => ?_
  dsimp only
  refine persists_liftM_bind fun room hroom => ?_
  cases room with
  | false => exact persists_bind_refuse _ _ _
  | true =>
    rw [hasRoom_mono hle (liftM_fault_eq_ok_iff.mp hroom)]
    refine persists_bind (persists_refuseIf_of_imp fun h => by omega) fun _ => ?_
    exact persists_map (persists_uint64s count.toNat)

/-- **The head of a block is read alike in a longer input.** -/
theorem persists_readAny (first : BlockId) (others : List BlockId) (offset : Nat) :
    Persists (readAny first others offset) (readAny first others offset) := by
  refine persists_size_bind fun size size' hle => ?_
  refine persists_bind (persists_refuseIf_of_imp fun h => by omega) fun _ => ?_
  refine persists_bind (persists_seek offset) fun _ => persists_bind (persists_take 4) fun mark => ?_
  split
  · exact persists_refuse _ _
  · exact persists_readRest first _ offset hle

lemma persists_read (id : BlockId) (minLinks minData offset : Nat) :
    Persists (read id minLinks minData offset) (read id minLinks minData offset) := by
  refine persists_bind (persists_readAny id [] offset) fun h => ?_
  refine persists_bind persists_refuseIf fun _ => persists_bind (persists_liftM _) fun _ => ?_
  exact persists_map persists_refuseIf

end Block.Header

open Block

/-! ### Blocks of fields -/

lemma FileHeader.persists_read (offset : Nat) :
    Persists (FileHeader.read offset) (FileHeader.read offset) := by
  refine persists_bind (Header.persists_read _ _ _ _) fun _ => ?_
  refine persists_bind persists_uint64 fun _ => persists_bind persists_int16 fun _ => ?_
  exact persists_bind persists_int16 fun _ => persists_map persists_uint8

lemma HistoryEntry.persists_read (offset : Nat) :
    Persists (HistoryEntry.read offset) (HistoryEntry.read offset) :=
  persists_bind (Header.persists_read _ _ _ _) fun _ => persists_map persists_uint64

lemma DataGroup.persists_read (offset : Nat) :
    Persists (DataGroup.read offset) (DataGroup.read offset) :=
  persists_bind (Header.persists_read _ _ _ _) fun _ => persists_map persists_uint8

lemma ChannelGroup.persists_read (offset : Nat) :
    Persists (ChannelGroup.read offset) (ChannelGroup.read offset) := by
  refine persists_bind (Header.persists_read _ _ _ _) fun _ => ?_
  refine persists_bind persists_uint64 fun _ => persists_bind persists_uint64 fun _ => ?_
  refine persists_bind persists_uint16 fun _ => persists_bind (persists_skip 6) fun _ => ?_
  refine persists_bind persists_uint32 fun _ => persists_bind persists_uint32 fun _ => ?_
  exact persists_map persists_refuseIf

lemma Channel.persists_read (offset : Nat) :
    Persists (Channel.read offset) (Channel.read offset) := by
  refine persists_bind (Header.persists_read _ _ _ _) fun _ => ?_
  refine persists_bind persists_uint8 fun _ => persists_bind persists_uint8 fun _ => ?_
  refine persists_bind persists_uint8 fun _ => persists_bind (persists_liftM _) fun _ => ?_
  refine persists_bind persists_uint8 fun _ => persists_bind persists_uint32 fun _ => ?_
  refine persists_bind persists_uint32 fun _ => persists_bind persists_uint32 fun _ => ?_
  refine persists_bind persists_refuseIf fun _ => ?_
  refine persists_bind persists_refuseIf fun _ => ?_
  exact persists_bind persists_refuseIf fun _ => persists_map persists_refuseIf

lemma TextBlock.persists_read (offset : Nat) :
    Persists (TextBlock.read offset) (TextBlock.read offset) := by
  refine persists_bind (Header.persists_readAny _ _ _) fun _ => ?_
  refine persists_bind (persists_liftM _) fun n => persists_bind (persists_take n) fun _ => ?_
  exact persists_map (persists_liftM _)

/-! ### Records -/

namespace Records

lemma persists_unpack (h : Header) : Persists (unpack h) (unpack h) := by
  refine persists_bind (persists_liftM _) fun _ => persists_bind persists_refuseIf fun _ => ?_
  refine persists_bind (persists_take 2) fun _ => persists_bind persists_refuseIf fun _ => ?_
  refine persists_bind persists_uint8 fun _ => persists_bind (persists_liftM _) fun _ => ?_
  refine persists_bind (persists_skip 1) fun _ => persists_bind persists_uint32 fun _ => ?_
  refine persists_bind persists_uint64 fun _ => persists_bind persists_uint64 fun packed => ?_
  refine persists_size_bind fun _ _ _ => persists_bind (persists_liftM _) fun _ => ?_
  refine persists_bind persists_refuseIf fun _ => ?_
  refine persists_bind (persists_take packed.toNat) fun _ => ?_
  exact persists_bind (persists_liftM _) fun _ => persists_liftM _

/-- Records are read alike in a longer input, whether or not they are compressed. -/
theorem persists_read (offset : Nat) : Persists (read offset) (read offset) := by
  unfold read
  split
  · exact persists_pure []
  · refine persists_bind (Header.persists_readAny _ _ _) fun h => ?_
    split
    · exact persists_bind (persists_liftM _) fun n => persists_take n
    · split
      · exact persists_unpack h
      · exact persists_refuse _ _

end Records

/-! ### Chains -/

/-- **A chain is read alike in a longer input** if each of its blocks is. -/
theorem Chain.persists_fold {σ : Type} {step : σ → Nat → Decode (σ × UInt64)}
    (hs : ∀ state offset, Persists (step state offset) (step state offset)) (state : σ)
    (link : UInt64) : Persists (fold step state link) (fold step state link) := by
  have hfrom : ∀ visited state link,
      Persists (foldFrom step visited state link) (foldFrom step visited state link) := by
    intro visited state link
    induction visited, state, link using foldFrom.induct with
    | case1 visited state =>
      rw [foldFrom, if_pos rfl]
      exact persists_pure state
    | case2 visited state link hlink hunread ih =>
      rw [foldFrom, if_neg hlink, dif_pos hunread]
      exact persists_bind (hs state link.toNat) fun r => ih r.1 r.2
    | case3 visited state link hlink hread =>
      rw [foldFrom, if_neg hlink, dif_neg hread]
      exact persists_refuse _ _
  exact hfrom [] state link

end Mdf
