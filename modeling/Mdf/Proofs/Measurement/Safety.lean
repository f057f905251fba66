import Mdf.Export.Table
import Mdf.Measurement.Reader
import Mdf.Proofs.Block.Safety
import Mdf.Proofs.Identification
import Mdf.Proofs.TimeAxis

/-!
# Reading a file without faults

Every reader is sound, down to the reader of a whole file.  The two facts that the slices of a data
group rest on come from checks made before: each channel found ends within the records
(`Within`), and the records are as many bytes as their number and their size say.  What
is read is rectangular, each channel with a sample for each time, so it can be written as a table
(`ofBytes_isSafe`).
-/

namespace Mdf

open Decode Block

variable {input : List UInt8}

/-! ### Channels -/

/-- The sample of the channel ends within a record of the size. -/
def FoundChannel.Within (size : Nat) (f : FoundChannel) : Prop :=
  f.channel.byteOffset.toNat + f.channel.encoding.byteSize ≤ size

/-- The samples of all channels end within a record of the size. -/
structure FoundChannels.Within (size : Nat) (found : FoundChannels) : Prop where
  master : ∀ f ∈ found.master, f.Within size
  values : ∀ f ∈ found.values, f.Within size

namespace MeasuredGroup

variable {size count : Nat} {records row : List UInt8} {c : Channel} {f : FoundChannel}

lemma sound_readChannel (hi : Addressable input) {found : FoundChannels} (offset : Nat)
    (h : found.Within size) :
    Sound input (readChannel size found offset) fun r => r.1.Within size := by
  refine sound_bind (Channel.sound_read hi offset) fun c _ => ?_
  refine sound_bind (TextBlock.sound_read hi _) fun ⟨_, name⟩ _ => ?_
  refine sound_bind (sound_of_eq_ok (Channel.stop_eq c)) fun stop hstop => ?_
  subst hstop
  refine sound_bind (sound_refuseIf _ _) fun _ hwithin => ?_
  have hnew : ∀ unit, FoundChannel.Within size ⟨name, unit, c⟩ := fun _ => Nat.not_lt.mp hwithin
  have hvalues : ∀ unit, FoundChannels.Within size
      { found with values := found.values ++ [⟨name, unit, c⟩] } := by
    intro unit
    refine ⟨h.master, fun f hf => ?_⟩
    rcases List.mem_append.mp hf with hf | hf
    · exact h.values f hf
    · rw [List.mem_singleton.mp hf]
      exact hnew unit
  split
  · refine sound_bind (sound_refuseIf _ _) fun _ _ => sound_pure ⟨fun f hf => ?_, h.values⟩
    rw [← Option.some.inj hf]
    exact hnew none
  · split
    · exact sound_pure (hvalues none)
    · exact sound_bind (TextBlock.sound_read hi _) fun ⟨_, unit⟩ _ => sound_pure (hvalues unit)

lemma sound_readChannels (hi : Addressable input) (size : Nat) (link : UInt64) :
    Sound input (readChannels size link) fun found => found.Within size :=
  Chain.sound_fold (fun _ offset h => sound_readChannel hi offset h) ⟨by simp, by simp⟩ link

/-! ### Rows -/

lemma length_of_mem_piecesOf {l : List UInt8} (h : count * size ≤ l.length) :
    ∀ r ∈ Checked.piecesOf size count l, r.length = size := by
  induction count generalizing l with
  | zero => simp [Checked.piecesOf]
  | succ n ih =>
    rw [Nat.succ_mul] at h
    refine List.forall_mem_cons.mpr ⟨?_, ih ?_⟩
    · rw [List.length_take]
      omega
    · rw [List.length_drop]
      omega

/-- The rows of records: as many as there are records, each of them as long as a record. -/
lemma pieces_eq_ok (hs : 0 < size) (hr : records.length = count * size) :
    ∃ rows, Checked.pieces size records = .ok rows ∧ rows.length = count ∧
      ∀ r ∈ rows, r.length = size := by
  have hcount : records.length / size = count := by rw [hr, Nat.mul_div_cancel _ hs]
  refine ⟨_, Checked.pieces_of_pos hs records, ?_, ?_⟩
  · rw [Checked.length_piecesOf, hcount]
  · rw [hcount]
    exact length_of_mem_piecesOf (Nat.le_of_eq hr.symm)

/-- Records without bytes may as well be cut into single bytes, of which there are none. -/
lemma length_eq_mul_max (hr : records.length = count * size) (h0 : size = 0 → count = 0) :
    records.length = count * max size 1 := by
  rcases Nat.eq_zero_or_pos size with hs | hs
  · rw [hr, h0 hs, Nat.zero_mul, Nat.zero_mul]
  · rw [hr, Nat.max_eq_left hs]

/-- The time that the bytes of a master channel stand for: a float of 32 bits or, for any other width,
of 64. -/
def timeOfBytes (e : Encoding) (bytes : List UInt8) : Double :=
  if e.bitCount = 32 then Single.widen ⟨BitVec.ofNat _ (LittleEndian.decode bytes)⟩
  else ⟨BitVec.ofNat _ (LittleEndian.decode bytes)⟩

/-- Four bytes that are taken one by one. -/
lemma mapM_item_eq {start : Nat} (h : start + 4 ≤ row.length) :
    (List.range 4).mapM (fun i => Checked.item row.toArray (start + i)) =
      .ok ((row.drop start).take 4) := by
  have hitems : ∀ i ∈ List.range 4, Checked.item row.toArray (start + i) =
      .ok (row[start + i]?.getD 0) := by
    intro i hi
    have hlt : start + i < row.length := by
      have hi := List.mem_range.mp hi
      omega
    rw [Checked.item, List.getElem?_toArray, List.getElem?_eq_getElem hlt, Option.getD_some]
  rw [mapM_eq_ok hitems]
  refine congrArg Except.ok (List.ext_getElem (by simp; omega) fun i hi hi' => ?_)
  have hlt : i < 4 := by simpa using hi
  rw [List.getElem_map, List.getElem_range, List.getElem_take, List.getElem_drop,
    List.getElem?_eq_getElem (by omega), Option.getD_some]

/-- The time in a row is that of the bytes of the channel. -/
lemma timeOfRow_eq (hw : c.byteOffset.toNat + c.encoding.byteSize ≤ row.length)
    (hb : c.encoding.bitCount = 32 ∨ c.encoding.bitCount = 64) :
    timeOfRow c row = .ok (timeOfBytes c.encoding
      ((row.drop c.byteOffset.toNat).take c.encoding.byteSize)) := by
  unfold timeOfRow timeOfBytes
  unfold Encoding.byteSize at hw ⊢
  rcases hb with hb | hb
  · rw [hb, show ((32 : UInt32).toNat + 7) / 8 = 4 from rfl] at hw ⊢
    rw [if_pos rfl, if_pos rfl, mapM_item_eq hw]
    rfl
  · rw [hb, show ((64 : UInt32).toNat + 7) / 8 = 8 from rfl] at hw ⊢
    have ho := c.byteOffset.toNat_lt
    have hadd : Checked.add c.byteOffset.toNat 8 = .ok (c.byteOffset.toNat + 8) :=
      Checked.add_of_lt (by unfold Checked.wordBound; omega)
    have hslice := Checked.slice_of_le (Nat.le_add_right c.byteOffset.toNat 8) hw
    have hlen : ((row.take (c.byteOffset.toNat + 8)).drop c.byteOffset.toNat).length = 8 := by
      rw [List.length_drop, List.length_take]
      omega
    rw [if_neg (by decide), if_neg (by decide), hadd]
    simp only [hslice, Checked.fill_of_length hlen, ok_bind]
    rw [List.drop_take, Nat.add_sub_cancel_left]
    rfl

lemma ends_masterTimes (hr : records.length = count * size) (h0 : size = 0 → count = 0)
    (hw : c.byteOffset.toNat + c.encoding.byteSize ≤ size) :
    Ends Failure.IsError (fun ts => ts.length = count) (masterTimes c size records) := by
  unfold masterTimes
  simp only
  split
  · rename_i he
    split
    · rename_i hs
      obtain ⟨rows, hrows, hcount, hlen⟩ := pieces_eq_ok hs hr
      have htimes : ∀ r ∈ rows, ∃ t, timeOfRow c r = .ok t := fun r hmem =>
        ⟨_, timeOfRow_eq (by rw [hlen r hmem]; exact hw) he.2⟩
      obtain ⟨ts, hts, htslen⟩ := mapM_exists_ok htimes
      refine ends_bind (ends_of_eq_ok hrows) fun rows' hrows' => ?_
      subst hrows'
      refine (ends_of_eq_ok hts).mono fun ts' hts' => ?_
      rw [hts', htslen, hcount]
    · rename_i hs
      exact ends_pure (h0 (by omega)).symm
  · exact .error (Failure.isError_error _)

/-- The samples of a channel within the records are one for each record. -/
lemma ends_samplesOf (hr : records.length = count * size) (h0 : size = 0 → count = 0)
    (hw : f.Within size) :
    Ends Failure.IsError (fun m => m.samples.length = count) (samplesOf size count records f) := by
  obtain ⟨rows, hrows, hcount, hlen⟩ := pieces_eq_ok (by omega) (length_eq_mul_max hr h0)
  refine ends_bind (ends_isError _) fun kind _ => ?_
  refine ends_bind (ends_of_eq_ok hrows) fun rows' hrows' => ?_
  subst hrows'
  have hwords : ∀ r ∈ rows'.take count, Ends Failure.IsError (fun _ => True)
      (wordOfRow kind f.channel r) := by
    intro r hmem
    have hrow := hlen r (List.mem_of_mem_take hmem)
    have hcell : cell f.channel r = .ok ((r.take (f.channel.byteOffset.toNat +
        f.channel.encoding.byteSize)).drop f.channel.byteOffset.toNat) := by
      unfold FoundChannel.Within at hw
      rw [cell, Channel.stop_eq, ok_bind]
      exact Checked.slice_of_le (Nat.le_add_right ..) (by omega)
    refine ends_bind (ends_of_eq_ok hcell) fun bytes _ => ?_
    exact (ends_isError _).mono fun _ _ => trivial
  refine ends_bind (ends_mapM hwords) fun words hw => ends_pure ?_
  rw [Samples.length, hw.1, List.length_take, hcount, Nat.min_self]

/-! ### Groups -/

/-- Each channel has a sample for each time. -/
def Rectangular (g : MeasuredGroup) : Prop := ∀ c ∈ g.channels, c.samples.length = g.time.length

lemma ends_ofRecords {found : FoundChannels} (hr : records.length = count * size)
    (h0 : size = 0 → count = 0) (hw : found.Within size) :
    Ends Failure.IsError Rectangular (ofRecords size count records found) := by
  have htimes : Ends Failure.IsError (fun p => p.2.length = count)
      (timesOf size count records found.master) := by
    unfold timesOf
    split
    · rename_i f hf
      exact ends_bind (ends_masterTimes hr h0 (hw.master f hf)) fun ts hts => ends_pure hts
    · exact ends_pure (TimeAxis.length_sequential count)
  refine ends_bind htimes fun ⟨name, time⟩ ht => ?_
  refine ends_bind (ends_mapM fun f hf => ends_samplesOf hr h0 (hw.values f hf)) fun cs hcs => ?_
  exact ends_pure fun c hc => (hcs.2 c hc).trans ht.symm

lemma sound_readRecords (hi : Addressable input) (g : DataGroup) (cg : ChannelGroup) :
    Sound input (readRecords g cg) fun records =>
      records.length = cg.cycleCount.toNat * cg.dataBytes.toNat := by
  refine sound_bind (Records.sound_read hi _) fun records _ => ?_
  refine sound_bind sound_size fun _ _ => sound_bind (sound_refuseIf _ _) fun _ _ => ?_
  exact sound_bind (sound_refuseIf _ _) fun _ h => sound_pure (not_not.mp h)

/-- Records without bytes are none, once they have been checked. -/
lemma cycleCount_eq_zero {cg : ChannelGroup} (h : ¬(cg.dataBytes = 0 ∧ cg.cycleCount ≠ 0))
    (hd : cg.dataBytes.toNat = 0) : cg.cycleCount.toNat = 0 := by
  have hd' : cg.dataBytes = 0 := UInt32.toNat_inj.mp hd
  by_contra hc
  refine h ⟨hd', fun hc' => hc ?_⟩
  rw [hc']
  rfl

/-- **A data group is read without a fault**, and what it holds is rectangular. -/
theorem sound_read (hi : Addressable input) (g : DataGroup) :
    Sound input (read g) Rectangular := by
  refine sound_bind (sound_refuseIf _ _) fun _ _ => ?_
  refine sound_bind (ChannelGroup.sound_read hi _) fun cg _ => ?_
  refine sound_bind (sound_refuseIf _ _) fun _ _ => sound_bind (sound_refuseIf _ _) fun _ _ => ?_
  refine sound_bind (sound_refuseIf _ _) fun _ hempty => ?_
  refine sound_bind (sound_readRecords hi g cg) fun records hr => ?_
  refine sound_bind (sound_readChannels hi _ _) fun found hfound => ?_
  exact sound_liftM (ends_ofRecords hr (cycleCount_eq_zero hempty) hfound)

end MeasuredGroup

/-! ### The file -/

lemma Identification.sound_decode : Sound input decode fun _ => True := by
  refine sound_bind (sound_take 8) fun mark _ => sound_bind (sound_refuseIf _ _) fun _ _ => ?_
  refine sound_bind (sound_take 8) fun _ _ => sound_bind (sound_error _) fun _ _ => ?_
  refine sound_bind (sound_take 8) fun field _ => ?_
  refine sound_bind (sound_of_eq_ok (programName_eq field)) fun _ _ => ?_
  refine sound_bind sound_uint16 fun _ _ => sound_bind sound_uint16 fun _ _ => ?_
  refine sound_bind sound_uint16 fun _ _ => sound_bind sound_uint16 fun _ _ => ?_
  refine sound_bind (sound_skip 28) fun _ _ => ?_
  refine sound_bind sound_uint16 fun _ _ => sound_bind sound_uint16 fun _ _ => ?_
  refine sound_bind (sound_refuseIf _ _) fun _ _ => ?_
  exact sound_map (sound_refuseIf _ _) fun _ _ => trivial

namespace Measurement

lemma sound_readComment (hi : Addressable input) (link : UInt64) :
    Sound input (readComment link) fun _ => True := by
  unfold readComment
  split
  · exact sound_pure trivial
  · refine sound_bind (TextBlock.sound_read hi _) fun ⟨id, text⟩ _ => ?_
    simp only
    split
    · exact sound_map (sound_error _) fun _ _ => trivial
    · exact sound_pure trivial

lemma sound_readHistory (hi : Addressable input) (link : UInt64) :
    Sound input (readHistory link) fun _ => True := by
  refine Chain.sound_fold (fun comments offset _ => ?_) trivial link
  refine sound_bind (HistoryEntry.sound_read hi offset) fun e _ => ?_
  exact sound_map (sound_readComment hi _) fun _ _ => trivial

lemma mem_of_addChannels {channels cs r : List MeasuredChannel}
    (h : addChannels channels cs = .ok r) : ∀ c ∈ r, c ∈ channels ∨ c ∈ cs := by
  induction cs generalizing channels with
  | nil =>
    cases h
    exact fun c hc => .inl hc
  | cons d cs ih =>
    rw [addChannels] at h
    split at h
    · cases h
    · intro c hc
      rcases ih h c hc with hc | hc
      · rcases List.mem_append.mp hc with hc | hc
        · exact .inl hc
        · exact .inr (List.mem_singleton.mp hc ▸ List.mem_cons_self)
      · exact .inr (List.mem_cons_of_mem d hc)

/-- Groups of the same times are one rectangular group. -/
lemma rectangular_of_addGroup {groups : Groups} {g r : MeasuredGroup}
    (hgroups : ∀ first ∈ groups, first.Rectangular) (hg : g.Rectangular)
    (h : addGroup groups g = .ok r) : r.Rectangular := by
  unfold addGroup at h
  split at h
  · obtain ⟨cs, hcs, h⟩ := bind_eq_ok_iff.mp h
    cases h
    intro c hc
    rcases mem_of_addChannels hcs c hc with hc | hc
    · cases hc
    · exact hg c hc
  · rename_i first
    split at h
    · rename_i htimes
      obtain ⟨cs, hcs, h⟩ := bind_eq_ok_iff.mp h
      cases h
      intro c hc
      rcases mem_of_addChannels hcs c hc with hc | hc
      · exact hgroups first rfl c hc
      · have hlength := (Binary.ieeeEqAll_eq_true_iff.mp htimes).length_eq
        exact (hg c hc).trans hlength
    · cases h

lemma sound_readGroups (hi : Addressable input) (link : UInt64) :
    Sound input (readGroups link) MeasuredGroup.Rectangular := by
  have hfold : Sound input (Chain.fold readGroup none link) fun groups =>
      ∀ g ∈ groups, g.Rectangular := by
    refine Chain.sound_fold (fun groups offset hgroups => ?_) (by simp) link
    refine sound_bind (DataGroup.sound_read hi offset) fun dg _ => ?_
    refine sound_bind (MeasuredGroup.sound_read hi dg) fun g hg => ?_
    refine sound_map (sound_error _) fun r hr g' hg' => ?_
    rw [← Option.some.inj hg']
    exact rectangular_of_addGroup hgroups hg hr
  refine sound_map hfold fun groups hgroups => ?_
  cases groups with
  | none => exact fun c hc => absurd hc List.not_mem_nil
  | some g => exact hgroups g rfl

/-- Each channel has a sample for each time. -/
def Rectangular (m : Measurement) : Prop := ∀ c ∈ m.channels, c.samples.length = m.recordCount

lemma sound_reader (hi : Addressable input) (expected : Option Version) :
    Sound input (reader expected) Rectangular := by
  refine sound_bind Identification.sound_decode fun id _ => ?_
  refine sound_bind (sound_error _) fun _ _ => ?_
  refine sound_bind (FileHeader.sound_read hi _) fun header _ => ?_
  refine sound_bind (sound_readComment hi _) fun _ _ => ?_
  refine sound_bind (sound_readHistory hi _) fun _ _ => ?_
  exact sound_map (sound_readGroups hi _) fun g hg => hg

/-! ### Tables -/

/-- **A rectangular measurement can be written as a table.** -/
theorem csv_eq_ok {m : Measurement} (h : m.Rectangular) : ∃ text, m.csv = .ok text := by
  have hrow : ∀ p ∈ m.time.zipIdx, ∃ row, m.row p.2 p.1 = .ok row := by
    rintro ⟨t, i⟩ hp
    obtain ⟨hi, -⟩ := List.getElem?_eq_some_iff.mp (List.mk_mem_zipIdx_iff_getElem?.mp hp)
    have hcell : ∀ c ∈ m.channels, ∃ text, m.cellText i c = .ok text := by
      intro c hc
      have hlt : i < c.samples.length := by rw [h c hc]; exact hi
      have hget : c.samples.get? i = some ⟨c.samples.kind, c.samples.words[i]⟩ := by
        rw [Samples.get?, List.getElem?_eq_getElem hlt, Option.map_some]
      unfold cellText
      rw [hget]
      exact ⟨_, rfl⟩
    obtain ⟨cells, hcells, -⟩ := mapM_exists_ok hcell
    exact ⟨t.repr :: cells, by rw [row, hcells]; rfl⟩
  obtain ⟨rows, hrows, -⟩ := mapM_exists_ok hrow
  have htable : m.table = .ok ((timeColumn :: m.channels.map MeasuredChannel.name) :: rows) := by
    rw [table]
    exact bind_eq_ok_iff.mpr ⟨rows, hrows, rfl⟩
  exact ⟨_, by rw [csv, htable]; rfl⟩

/-- **Reading never ends in a fault**, whatever the bytes are, and what is read can be written as a
table.  No memory holds as many bytes as the bound leaves out: a block of as many links as there are
bytes would have offsets beyond 64 bits. -/
theorem ofBytes_isSafe (bytes : List UInt8) (expected : Option Version)
    (h : 24 + 8 * bytes.length < Checked.wordBound) :
    (∃ m, ofBytes bytes expected = .ok m ∧ ∃ text, m.csv = .ok text) ∨
      ∃ e, ofBytes bytes expected = .error (.error e) := by
  have hi : Addressable bytes := h
  have hends := sound_reader hi expected 0
  unfold ofBytes
  cases hr : (Decode.run (reader expected) bytes 0).1 with
  | ok m =>
    rw [hr] at hends
    cases hends with
    | ok hm => exact .inl ⟨m, rfl, csv_eq_ok hm⟩
  | error f =>
    rw [hr] at hends
    obtain ⟨e, rfl⟩ := hends.of_error
    exact .inr ⟨e, rfl⟩

/-- A file of which the header announces more links and bytes than 64 bits count. -/
def overlong : List UInt8 :=
  (Identification.new .v410).encode ++ BlockId.hd.bytes ++ Buffer.zeros 4
    ++ LittleEndian.uint64 (-1) ++ LittleEndian.uint64 (-1)

theorem ofBytes_isSafe_overlong :
    24 + 8 * overlong.length < Checked.wordBound ∧
      ((∃ m, ofBytes overlong none = .ok m ∧ ∃ text, m.csv = .ok text) ∨
        ∃ e, ofBytes overlong none = .error (.error e)) := by
  have hlength : 24 + 8 * overlong.length < Checked.wordBound := by decide
  exact ⟨hlength, ofBytes_isSafe overlong none hlength⟩

end Measurement

end Mdf
