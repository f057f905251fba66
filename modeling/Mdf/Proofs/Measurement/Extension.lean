import Mdf.Proofs.Block.Extension
import Mdf.Proofs.Session.RoundTrip

/-!
# Files with bytes behind them

Whatever has been read from bytes is read alike when more bytes follow them (`ofBytes_append`): in
any file that is accepted, over any number of data groups, channels and history entries, and wherever
their blocks stand.  The readers of a file ask for its size to find where a block ends too late, and
for nothing else, so each of them keeps what it found.
-/

namespace Mdf

open Decode

/-! ### Groups -/

namespace MeasuredGroup

lemma persists_readChannel (size : Nat) (found : FoundChannels) (offset : Nat) :
    Persists (readChannel size found offset) (readChannel size found offset) := by
  refine persists_bind (Channel.persists_read offset) fun c => ?_
  refine persists_bind (TextBlock.persists_read _) fun ⟨_, name⟩ => ?_
  refine persists_bind (persists_liftM _) fun stop => persists_bind persists_refuseIf fun _ => ?_
  split
  · exact persists_map persists_refuseIf
  · split
    · exact persists_pure _
    · exact persists_map (TextBlock.persists_read _)

lemma persists_readRecords (g : DataGroup) (cg : ChannelGroup) :
    Persists (readRecords g cg) (readRecords g cg) := by
  refine persists_bind (Records.persists_read _) fun records => persists_size_bind fun _ _ _ => ?_
  exact persists_bind persists_refuseIf fun _ => persists_map persists_refuseIf

lemma persists_read (g : DataGroup) : Persists (read g) (read g) := by
  refine persists_bind persists_refuseIf fun _ => ?_
  refine persists_bind (ChannelGroup.persists_read _) fun cg => ?_
  refine persists_bind persists_refuseIf fun _ => persists_bind persists_refuseIf fun _ => ?_
  refine persists_bind persists_refuseIf fun _ => ?_
  refine persists_bind (persists_readRecords g cg) fun records => ?_
  refine persists_bind (Chain.persists_fold (persists_readChannel _) _ _) fun found => ?_
  exact persists_liftM _

end MeasuredGroup

/-! ### The file -/

lemma Identification.persists_decode : Persists decode decode := by
  refine persists_bind (persists_take 8) fun _ => persists_bind persists_refuseIf fun _ => ?_
  refine persists_bind (persists_take 8) fun _ => persists_bind (persists_liftM _) fun _ => ?_
  refine persists_bind (persists_take 8) fun _ => persists_bind (persists_liftM _) fun _ => ?_
  refine persists_bind persists_uint16 fun _ => persists_bind persists_uint16 fun _ => ?_
  refine persists_bind persists_uint16 fun _ => persists_bind persists_uint16 fun _ => ?_
  refine persists_bind (persists_skip 28) fun _ => ?_
  refine persists_bind persists_uint16 fun _ => persists_bind persists_uint16 fun _ => ?_
  exact persists_bind persists_refuseIf fun _ => persists_map persists_refuseIf

namespace Measurement

lemma persists_readComment (link : UInt64) :
    Persists (readComment link) (readComment link) := by
  unfold readComment
  split
  · exact persists_pure _
  · refine persists_bind (TextBlock.persists_read _) fun ⟨id, text⟩ => ?_
    dsimp only
    split
    · exact persists_map (persists_liftM _)
    · exact persists_pure _

lemma persists_readEntry (comments : List Comment) (offset : Nat) :
    Persists (readEntry comments offset) (readEntry comments offset) :=
  persists_bind (HistoryEntry.persists_read offset) fun _ => persists_map (persists_readComment _)

lemma persists_readGroup (groups : Groups) (offset : Nat) :
    Persists (readGroup groups offset) (readGroup groups offset) := by
  refine persists_bind (DataGroup.persists_read offset) fun dg => ?_
  exact persists_bind (MeasuredGroup.persists_read dg) fun g => persists_map (persists_liftM _)

lemma persists_reader (expected : Option Version) :
    Persists (reader expected) (reader expected) := by
  refine persists_bind Identification.persists_decode fun id => ?_
  refine persists_bind (persists_liftM _) fun _ => ?_
  refine persists_bind (FileHeader.persists_read _) fun header => ?_
  refine persists_bind (persists_readComment _) fun comment => ?_
  refine persists_bind (Chain.persists_fold persists_readEntry _ _) fun history => ?_
  exact persists_map (persists_map (Chain.persists_fold persists_readGroup _ _))

/-- **What has been read from bytes is read alike when more bytes follow them.** -/
theorem ofBytes_append {bytes : List UInt8} {expected : Option Version} {m : Measurement}
    (h : ofBytes bytes expected = .ok m) (more : List UInt8) :
    ofBytes (bytes ++ more) expected = .ok m := by
  have hrun : run (reader expected) bytes 0 = (.ok m, (run (reader expected) bytes 0).2) :=
    Prod.ext h rfl
  exact congrArg Prod.fst (persists_reader expected bytes more _ _ _ hrun)

theorem ofBytes_append_floats :
    ∃ bytes m, Session.floats.file Deflate.storing = .ok bytes ∧ ofBytes bytes none = .ok m ∧
      m.channels.map MeasuredChannel.name = ["u8", "f64"] ∧
      ofBytes (bytes ++ [1, 2, 3]) none = .ok m := by
  obtain ⟨bytes, hb, hread⟩ := Session.exists_read_floats
  exact ⟨bytes, _, hb, hread, by decide, ofBytes_append hread [1, 2, 3]⟩

end Measurement

end Mdf
