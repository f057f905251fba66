import Mdf.Block.Channel
import Mdf.Block.ChannelGroup
import Mdf.Block.DataGroup
import Mdf.Block.FileHeader
import Mdf.Block.HistoryEntry
import Mdf.Block.Text
import Mdf.Proofs.Block.Basic
import Mdf.Proofs.Block.Extension
import Mdf.Proofs.Text.Utf8

/-!
# Reading back blocks of fields

What a block of each kind holds is what its reader gives, for the blocks that are written: a channel
without features beyond the handled ones, a group of values of fixed length, and a text up to its
first U+0000.  `ChannelGroup.readBack` and `Channel.readBack` say what becomes of the others.
-/

namespace Mdf

open Decode Block

variable {file : List UInt8} {o : Nat}

/-- The head is read back whatever follows in the file. -/
lemma Block.Header.run_read_append {b : Block} {minLinks minData : Nat} (h : At file o b)
    (hl : minLinks ≤ b.links.length) (hd : minData ≤ b.data.length) (more : List UInt8) (p : Nat) :
    run (read b.id minLinks minData o) (file ++ more) p =
      (.ok b.header, o + headSize b.links.length) :=
  persists_read b.id minLinks minData o file more p _ _ (run_read h hl hd p)

theorem FileHeader.gives_read {h : FileHeader} (hb : At file o h.block) :
    Gives file (FileHeader.read o) (.ok h) := by
  have hd : h.block.data = LittleEndian.uint64 h.startTime ++ (LittleEndian.int16 h.zoneOffset ++
      (LittleEndian.int16 h.daylightOffset ++ [h.timeFlags])) ++
      (Buffer.zeros 3 ++ Buffer.zeros 16) := by
    simp only [block, List.append_assoc]
  have hrun := Header.run_read hb (show 6 ≤ _ by simp [block]) (show 24 ≤ _ by simp [block])
  unfold FileHeader.read
  refine hb.gives_bind hrun hd ?_
  exact reads_bind (reads_uint64 _) (reads_bind (reads_int16 _)
    (reads_bind (reads_int16 _) (reads_map (reads_uint8 _))))

theorem HistoryEntry.gives_read {e : HistoryEntry} (hb : At file o e.block) :
    Gives file (HistoryEntry.read o) (.ok e) := by
  have hrun := Header.run_read hb (show 2 ≤ _ by simp [block]) (show 8 ≤ _ by simp [block])
  unfold HistoryEntry.read
  exact hb.gives_bind hrun rfl (reads_map (reads_uint64 _))

theorem DataGroup.gives_read {g : DataGroup} (hb : At file o g.block) :
    Gives file (DataGroup.read o) (.ok g) := by
  have hrun := Header.run_read hb (show 4 ≤ _ by simp [block]) (show 1 ≤ _ by simp [block])
  unfold DataGroup.read
  exact hb.gives_bind hrun rfl (reads_map (reads_uint8 _))

/-- What reading the block of a group ends with: values of variable length are refused. -/
def ChannelGroup.readBack (g : ChannelGroup) : Except Failure ChannelGroup :=
  if g.isVariableLength then .error (.error (.unsupportedFeature .vlsdGroup)) else .ok g

theorem ChannelGroup.gives_readBack {g : ChannelGroup} (hb : At file o g.block)
    (more : List UInt8) : Gives (file ++ more) (ChannelGroup.read o) g.readBack := by
  have hd : g.block.data = LittleEndian.uint64 g.recordId ++ (LittleEndian.uint64 g.cycleCount ++
      (LittleEndian.uint16 g.flags ++ ((LittleEndian.uint16 pathSeparator ++ Buffer.zeros 4) ++
        (LittleEndian.uint32 g.dataBytes ++ (LittleEndian.uint32 g.invalidationBytes ++ []))))) ++
      [] := by
    simp only [block, List.append_assoc, List.append_nil]
  have hrun := Header.run_read_append hb (show 6 ≤ _ by simp [block]) (show 32 ≤ _ by simp [block])
    more
  unfold ChannelGroup.read
  refine hb.gives_bind_append more hrun hd ?_
  refine concludes_bind (reads_uint64 _) (concludes_bind (reads_uint64 _)
    (concludes_bind (reads_uint16 _) ?_))
  refine concludes_bind (reads_skip (by simp)) (concludes_bind (reads_uint32 _)
    (concludes_bind (reads_uint32 _) ?_))
  exact concludes_refuseIf_bind (reads_pure _).concludes

theorem ChannelGroup.gives_read {g : ChannelGroup} (hb : At file o g.block)
    (hv : g.isVariableLength = false) : Gives file (ChannelGroup.read o) (.ok g) := by
  have hgives := gives_readBack hb []
  rwa [List.append_nil, readBack, hv, if_neg Bool.false_ne_true] at hgives

/-- What reading the block of a channel ends with: values of variable length are refused, and so is a
sample that starts within a byte. -/
def Channel.readBack (c : Channel) : Except Failure Channel :=
  if c.channelType = variableLengthType then .error (.error (.unsupportedFeature .signalData))
  else if c.bitOffset ≠ 0 then .error (.error (.unsupportedFeature .bitOffset))
  else .ok c

theorem Channel.gives_readBack {c : Channel} (hb : At file o c.block) (more : List UInt8) :
    Gives (file ++ more) (Channel.read o) c.readBack := by
  have hd : c.block.data = [c.channelType] ++ ([c.syncType] ++ ([c.encoding.dataType.code] ++
      ([c.bitOffset] ++ (LittleEndian.uint32 c.byteOffset ++
        (LittleEndian.uint32 c.encoding.bitCount ++ (LittleEndian.uint32 c.flags ++ [])))))) ++
      (Buffer.zeros 8 ++ Buffer.zeros 48) := by
    simp only [block, List.append_assoc, List.append_nil, List.cons_append, List.nil_append]
  have hrun := Header.run_read_append hb (show 8 ≤ _ by simp [block]) (show 72 ≤ _ by simp [block])
    more
  -- no block that is written has a link to signal data, so the type alone decides
  have hsignal : (if c.channelType = variableLengthType ∨ c.block.header.link 5 ≠ 0 then
        Except.error (.error (.unsupportedFeature .signalData))
      else if c.bitOffset ≠ 0 then .error (.error (.unsupportedFeature .bitOffset))
      else .ok c) = c.readBack := by
    simp only [readBack, show c.block.header.link 5 = 0 from rfl, ne_eq, not_true, or_false]
  unfold Channel.read
  refine hb.gives_bind_append more hrun hd ?_
  refine concludes_bind (reads_uint8 _) (concludes_bind (reads_uint8 _)
    (concludes_bind (reads_uint8 _) ?_))
  refine concludes_bind_nil (reads_liftM (by rw [DataType.ofCode_code]; rfl)) ?_
  refine concludes_bind (reads_uint8 _) (concludes_bind (reads_uint32 _)
    (concludes_bind (reads_uint32 _) (concludes_bind (reads_uint32 _) ?_)))
  -- the links that stand for features are zero in every block that is written
  refine concludes_bind_nil (reads_refuseIf (by simp [header, Header.link, block])) ?_
  refine concludes_bind_nil (reads_refuseIf (by simp [header, Header.link, block])) ?_
  rw [← hsignal]
  exact concludes_refuseIf_bind (concludes_refuseIf_bind (reads_pure _).concludes)

theorem Channel.gives_read {c : Channel} (hb : At file o c.block)
    (hc : c.channelType ≠ variableLengthType) (ho : c.bitOffset = 0) :
    Gives file (Channel.read o) (.ok c) := by
  have hgives := gives_readBack hb []
  rwa [List.append_nil, readBack, if_neg hc, if_neg (not_not_intro ho)] at hgives

/-! ### Texts -/

lemma Buffer.beforeZero_eq (bytes : List UInt8) :
    beforeZero bytes = .ok (bytes.takeWhile (· ≠ 0)) := by
  have hl : bytes.findIdx (· == 0) ≤ bytes.length := List.findIdx_le_length
  have hp : (fun b : UInt8 => !decide (b ≠ 0)) = (· == 0) := by
    funext b
    by_cases hb : b = 0 <;> simp [hb]
  rw [beforeZero, Checked.slice_of_le (Nat.zero_le _) hl, List.drop_zero,
    List.takeWhile_eq_take_findIdx_not, hp]

/-- The data of a text are its bytes, and zero bytes behind them. -/
lemma TextBlock.exists_data_eq (text : String) :
    ∃ n, data text = Utf8.encode text ++ 0 :: Buffer.zeros n := by
  have hz : ∃ n, Buffer.alignUp ((Utf8.encode text).length + 1) - (Utf8.encode text).length =
      n + 1 := by
    have := Buffer.le_alignUp ((Utf8.encode text).length + 1)
    exact ⟨_, (Nat.sub_add_cancel (by omega)).symm⟩
  obtain ⟨n, hn⟩ := hz
  refine ⟨n, ?_⟩
  simp only [data, hn]
  rfl

theorem TextBlock.ofData_data (text : String) : ofData (data text) = .ok (Utf8.beforeNul text) := by
  obtain ⟨n, hn⟩ := exists_data_eq text
  have hd : data text = text.toList.flatMap String.utf8EncodeChar ++ 0 :: Buffer.zeros n := hn
  have hv : (text.toList.takeWhile (· ≠ '\x00')).flatMap String.utf8EncodeChar =
      Utf8.encode (Utf8.beforeNul text) := by
    rw [Utf8.encode, Utf8.beforeNul, String.toList_ofList]
  rw [ofData, Buffer.beforeZero_eq, hd, Utf8.takeWhile_encode, hv]
  exact congrArg Except.ok (Utf8.decodeLossy_encode _)

/-- The head of a text is read back, whichever of its two ids it has. -/
lemma TextBlock.run_readAny {id : BlockId} {text : String} (hid : id = .tx ∨ id = .md)
    (hb : At file o (TextBlock.block id text)) (p : Nat) :
    run (Header.readAny .tx [.md] o) file p =
      (.ok (TextBlock.block id text).header, o + headSize 0) := by
  have hany : ([BlockId.tx, .md]).find? (fun i => i.bytes == id.bytes) = some id := by
    rcases hid with rfl | rfl <;> decide
  exact Header.run_readAny hb hany p

/-- **A text is read back up to its first U+0000.** -/
theorem TextBlock.gives_read {id : BlockId} {text : String} (hid : id = .tx ∨ id = .md)
    (hb : At file o (TextBlock.block id text)) :
    Gives file (TextBlock.read o) (.ok (id, Utf8.beforeNul text)) := by
  unfold TextBlock.read
  refine hb.gives_bind (run_readAny hid hb) (List.append_nil _).symm ?_
  refine reads_bind_nil (reads_liftM (by rw [hb.dataLength]; rfl)) ?_
  exact reads_bind_last (reads_take _) (reads_map (reads_liftM (by rw [block, ofData_data]; rfl)))

end Mdf
