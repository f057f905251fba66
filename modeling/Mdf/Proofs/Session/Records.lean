import Mdf.Proofs.Session.RoundTrip

/-!
# The records in the file of a session

`Channel.Fills start cs stop`: each of the channels begins where the one before it ends, the first one
at the byte `start` of a record, and the last one ends at `stop`.  So no byte between the two belongs
to two channels, and none belongs to no channel.

`records_of_file` is the main statement.  The channels that are found in the file of a session, from
its header on, are those of its layout but for their links, and they fill the record; the records are
as many as there are times, and each of them is its time and the samples that belong to it.
-/

namespace Mdf

open Decode Block

/-! ### Channels that fill a record -/

namespace Channel

/-- The byte of a record belongs to the sample of the channel. -/
def Holds (c : Channel) (j : Nat) : Prop :=
  c.byteOffset.toNat ≤ j ∧ j < c.byteOffset.toNat + c.encoding.byteSize

/-- The channels take the bytes of a record from `start` up to `stop`, one after the other. -/
def Fills (start : Nat) : List Channel → Nat → Prop
  | [], stop => start = stop
  | c :: cs, stop => c.byteOffset.toNat = start ∧ Fills (start + c.encoding.byteSize) cs stop

variable {start stop j : Nat} {cs : List Channel}

lemma Fills.le (h : Fills start cs stop) : start ≤ stop := by
  induction cs generalizing start with
  | nil => exact Nat.le_of_eq h
  | cons c cs ih => exact Nat.le_trans (Nat.le_add_right ..) (ih h.2)

/-- **The channels hold the bytes from `start` up to `stop`**, and no others. -/
theorem Fills.exists_holds_iff (h : Fills start cs stop) :
    (∃ c ∈ cs, c.Holds j) ↔ start ≤ j ∧ j < stop := by
  induction cs generalizing start with
  | nil =>
    cases h
    simp only [List.not_mem_nil, false_and, exists_false, false_iff]
    omega
  | cons c cs ih =>
    obtain ⟨hc, hcs⟩ := h
    have hle := hcs.le
    rw [List.exists_mem_cons_iff, ih hcs, Holds, hc]
    omega

/-- **No byte belongs to two of the channels.** -/
theorem Fills.pairwise (h : Fills start cs stop) :
    cs.Pairwise fun c d => ∀ j, ¬(c.Holds j ∧ d.Holds j) := by
  induction cs generalizing start with
  | nil => exact .nil
  | cons c cs ih =>
    obtain ⟨hc, hcs⟩ := h
    refine List.pairwise_cons.mpr ⟨fun d hd j hj => ?_, ih hcs⟩
    have hlater := (hcs.exists_holds_iff.mp ⟨d, hd, hj.2⟩).1
    have hearlier := hj.1.2
    omega

/-- The bytes of the samples of channels. -/
def sizes (cs : List Channel) : List Nat := cs.map fun c => c.encoding.byteSize

lemma Fills.stop_eq (h : Fills start cs stop) : stop = start + (sizes cs).sum := by
  induction cs generalizing start with
  | nil => exact h.symm
  | cons c cs ih => rw [ih h.2, sizes, sizes, List.map_cons, List.sum_cons, Nat.add_assoc]

/-- Each channel begins behind the bytes of those before it. -/
lemma Fills.byteOffsets (h : Fills start cs stop) :
    cs.map (fun c => c.byteOffset.toNat) =
      (List.range cs.length).map fun i => start + ((sizes cs).take i).sum := by
  induction cs generalizing start with
  | nil => rfl
  | cons c cs ih =>
    obtain ⟨hc, hcs⟩ := h
    rw [List.map_cons, hc, ih hcs, List.length_cons, List.range_succ_eq_map, List.map_cons,
      List.map_map]
    refine congrArg (start :: ·) (List.map_congr_left fun i _ => ?_)
    simp only [sizes, Function.comp_apply, List.map_cons, List.take_succ_cons, List.sum_cons,
      Nat.add_assoc]

/-- The channel without its links. -/
def unlinked (c : Channel) : Channel := { c with next := 0, name := 0, unit := 0 }

lemma fills_map_unlinked : Fills start (cs.map unlinked) stop ↔ Fills start cs stop := by
  induction cs generalizing start with
  | nil => exact Iff.rfl
  | cons c cs ih => exact and_congr_right fun _ => ih

end Channel

/-! ### The layout -/

namespace Layout

variable {start : Nat} {es : List Encoding} {layout : Layout}

/-- **The channels of a layout fill the record** from where the layout starts. -/
theorem fills_of_pack (hs : start < sizeBound) (h : pack start es = .ok layout) :
    Channel.Fills start layout.channels layout.recordSize := by
  induction es generalizing start layout with
  | nil =>
    cases h
    exact rfl
  | cons e es ih =>
    obtain ⟨hlt, rest, hr, rfl⟩ := pack_cons_eq_ok h
    exact ⟨UInt32.toNat_ofNat_of_lt' hs, ih hlt hr⟩

lemma encodings_of_pack (h : pack start es = .ok layout) :
    layout.channels.map Channel.encoding = es := by
  induction es generalizing start layout with
  | nil =>
    cases h
    rfl
  | cons e es ih =>
    obtain ⟨-, rest, hr, rfl⟩ := pack_cons_eq_ok h
    exact congrArg (e :: ·) (ih hr)

/-- The channels of a layout have no links yet. -/
lemma map_unlinked (hs : start < sizeBound) (h : pack start es = .ok layout) :
    layout.channels.map Channel.unlinked = layout.channels := by
  refine (List.map_congr_left fun c hc => ?_).trans (List.map_id _)
  rw [(eq_value hs h c hc).1]
  rfl

end Layout

namespace Session

/-! ### Channels of a file -/

/-- The channels that are found in a file from a link on, each where the one before it leads. -/
inductive ChannelsAt (file : List UInt8) : UInt64 → List Channel → Prop
  | nil : ChannelsAt file 0 []
  | cons {link : UInt64} {c : Channel} {cs : List Channel} (hlink : link ≠ 0)
      (hread : Gives file (Channel.read link.toNat) (.ok c)) (hrest : ChannelsAt file c.next cs) :
      ChannelsAt file link (c :: cs)

variable {file : List UInt8} {link : UInt64} {cs : List Channel}

/-- Channels that stand in a chain are found, but for the links that they had not yet. -/
lemma exists_channelsAt (h : ChainAt file link cs)
    (hc : ∀ c ∈ cs, c.channelType ≠ Channel.variableLengthType ∧ c.bitOffset = 0) :
    ∃ ds, ChannelsAt file link ds ∧ ds.map Channel.unlinked = cs.map Channel.unlinked := by
  induction cs generalizing link with
  | nil =>
    cases h
    exact ⟨[], .nil, rfl⟩
  | cons c cs ih =>
    obtain ⟨next, hat, -, hrest⟩ := h
    obtain ⟨⟨htype, hbit⟩, hcs⟩ := List.forall_mem_cons.mp hc
    obtain ⟨ds, hds, hmap⟩ := ih hrest hcs
    refine ⟨{ c with next := next } :: ds, .cons hat.link_ne (Channel.gives_read hat htype hbit) hds, ?_⟩
    rw [List.map_cons, hmap]
    rfl

lemma map_unlinked_of_named {ps : List (Channel × NamedChannel)}
    (h : List.Forall₂ (Named file) ps cs) :
    cs.map Channel.unlinked = ps.map fun p => p.1.unlinked := by
  induction h with
  | nil => rfl
  | @cons p c ps cs hc _ ih =>
    rw [List.map_cons, List.map_cons, ih, hc.1]
    rfl

variable {s : Session} {deflate : Deflate.Compressor} {layout : Layout} {time : TimeAxis}
  {block : Block} {k : Links} {channels : List Channel}

/-- **The channels of a written file are those of the layout**, but for their links. -/
lemma Written.exists_channelsAt (hw : s.Written layout time block k channels file)
    (hl : s.layout = .ok layout) : ∃ master ds, ChannelsAt file k.master (master :: ds) ∧
      master.unlinked = Layout.master ∧ ds.map Channel.unlinked = layout.channels := by
  have hpack : Layout.pack 8 (encodings s.channels) = .ok layout := hl
  have hnamed := map_unlinked_of_named hw.names
  have hlength : layout.channels.length ≤ s.channels.length := by
    rw [Layout.length_channels hpack, encodings, List.length_map]
  have hfst : (layout.channels.zip s.channels).map (fun p => p.1.unlinked) = layout.channels := by
    have hzip := congrArg (List.map Channel.unlinked) (List.map_fst_zip hlength)
    rwa [List.map_map, Layout.map_unlinked (by decide) hpack] at hzip
  rw [hfst] at hnamed
  have htypes : ∀ c ∈ master k :: channels,
      c.channelType ≠ Channel.variableLengthType ∧ c.bitOffset = 0 := by
    refine List.forall_mem_cons.mpr ⟨⟨?_, rfl⟩, fun c hc => ?_⟩
    · exact show Channel.masterType ≠ Channel.variableLengthType by decide
    · have hmem : c.unlinked ∈ layout.channels := hnamed ▸ List.mem_map_of_mem hc
      have hvalue := (Layout.eq_value (by decide) hpack _ hmem).1
      have htype : c.channelType = Channel.fixedLengthType := congrArg Channel.channelType hvalue
      exact ⟨by rw [htype]; decide, congrArg Channel.bitOffset hvalue⟩
  obtain ⟨ds, hds, hmap⟩ := Session.exists_channelsAt hw.chain htypes
  rw [List.map_cons, hnamed] at hmap
  cases ds with
  | nil => cases hmap
  | cons m ds =>
    obtain ⟨hm, hds'⟩ := List.cons_eq_cons.mp hmap
    exact ⟨m, ds, hds, hm, hds'⟩

/-! ### Records of a file -/

/-- The bytes of the row at an index, among rows of one length. -/
lemma take_drop_flatten {size i : Nat} {rows : List (List UInt8)} {r : List UInt8}
    (h : ∀ r ∈ rows, r.length = size) (hi : rows[i]? = some r) :
    (rows.flatten.drop (i * size)).take size = r := by
  induction rows generalizing i with
  | nil => cases hi
  | cons r' rows ih =>
    obtain ⟨hr, hrows⟩ := List.forall_mem_cons.mp h
    rw [List.flatten_cons]
    cases i with
    | zero =>
      obtain rfl : r' = r := Option.some.inj hi
      rw [Nat.zero_mul, List.drop_zero, ← hr, List.take_left]
    | succ i =>
      rw [Nat.succ_mul, Nat.add_comm, List.drop_append, hr, Nat.add_sub_cancel_left,
        List.drop_eq_nil_of_le (by omega), List.nil_append]
      exact ih hrows hi

/-- What is found in a file from its header on: one data group with one channel group, the channels
of the group, and a block that holds the records. -/
structure Stored (deflate : Deflate.Compressor) (mode : Storage) (file : List UInt8)
    (header : FileHeader) (dataGroup : DataGroup) (group : ChannelGroup) (channels : List Channel)
    (records : List UInt8) : Prop where
  foundHeader : Gives file (FileHeader.read FileHeader.offset) (.ok header)
  foundDataGroup : Gives file (DataGroup.read header.firstDataGroup.toNat) (.ok dataGroup)
  onlyDataGroup : dataGroup.next = 0
  foundGroup : Gives file (ChannelGroup.read dataGroup.firstChannelGroup.toNat) (.ok group)
  onlyGroup : group.next = 0
  foundChannels : ChannelsAt file group.firstChannel channels
  kept : ∃ b, Records.block deflate mode group.dataBytes records = .ok b ∧
    At file dataGroup.data.toNat b
  /-- The records are read from their block, where the compressor can be undone. -/
  readable : deflate.Inverts → Gives file (Records.read dataGroup.data.toNat) (.ok records)

/-- The records of added channels on an axis, as a group describes them. -/
structure Packed (added : List NamedChannel) (time : TimeAxis) (group : ChannelGroup)
    (master : Channel) (channels : List Channel) (records : List UInt8) : Prop where
  masterFirst : master.isMaster = true ∧ master.byteOffset = 0 ∧ master.encoding = Channel.timeEncoding
  encodings : channels.map Channel.encoding = added.map fun c => c.kind.encoding
  byteOffsets : channels.map (fun c => c.byteOffset.toNat) =
    (List.range added.length).map fun i => 8 + ((added.map fun c => c.kind.bytes).take i).sum
  dataBytes : group.dataBytes.toNat = 8 + (added.map fun c => c.kind.bytes).sum
  /-- No byte of a record belongs to two channels. -/
  disjoint : (master :: channels).Pairwise fun c d => ∀ j, ¬(c.Holds j ∧ d.Holds j)
  /-- Each byte of a record belongs to a channel, and no channel reaches out of it. -/
  covered : ∀ j, (∃ c ∈ master :: channels, c.Holds j) ↔ j < group.dataBytes.toNat
  cycleCount : group.cycleCount.toNat = time.length
  /-- Each channel has a sample for each record. -/
  samples : ∀ c ∈ added, c.samples.length = time.length
  /-- A record is its time and the samples at its index, in the order of the channels. -/
  record : ∀ i t, time.values[i]? = some t →
    (records.drop (i * group.dataBytes.toNat)).take group.dataBytes.toNat =
      LittleEndian.encode 8 t.bits.toNat ++ added.flatMap fun c => c.samples.bytesAt i
  length : records.length = group.cycleCount.toNat * group.dataBytes.toNat

/-- The channels of a layout, behind a master channel, fill the record. -/
lemma fills_master_cons (hp : Layout.pack 8 (encodings s.channels) = .ok layout) {master : Channel}
    (hm : master.unlinked = Layout.master) (hds : channels.map Channel.unlinked = layout.channels) :
    Channel.Fills 0 (master :: channels) layout.recordSize := by
  have hfills := Layout.fills_of_pack (by decide) hp
  rw [← hds, Channel.fills_map_unlinked] at hfills
  refine Channel.fills_map_unlinked.mp ?_
  rw [List.map_cons, hm]
  exact ⟨rfl, Channel.fills_map_unlinked.mpr hfills⟩

variable {records : List UInt8} {master : Channel}

lemma Written.stored (hw : s.Written layout time block k channels file)
    (hb : Records.block deflate s.storage (UInt32.ofNat layout.recordSize) records = .ok block)
    (hn : records.length < Buffer.limit) (hc : ChannelsAt file k.master cs) :
    Stored deflate s.storage file (s.header k) ⟨0, k.group, k.data, 0, 0⟩
      (Session.group layout time k) cs records where
  foundHeader := FileHeader.gives_read hw.header
  foundDataGroup := DataGroup.gives_read hw.dataGroup
  onlyDataGroup := rfl
  foundGroup := ChannelGroup.gives_read hw.group rfl
  onlyGroup := rfl
  foundChannels := hc
  kept := ⟨block, hb, hw.data⟩
  readable hi := Records.gives_read hi hb hn hw.data

/-- The row at an index is its time and the samples that belong to it. -/
lemma getElem?_rows {i : Nat} {t : Double} (hi : time.values[i]? = some t) :
    (MeasuredGroup.rows s time)[i]? =
      some (LittleEndian.encode 8 t.bits.toNat ++ cells i s.channels) := by
  have hlt : i < time.length := (List.getElem?_eq_some_iff.mp hi).1
  rw [MeasuredGroup.rows, List.getElem?_map, List.getElem?_range hlt, Option.map_some, row,
    List.getD_eq_getElem?_getD, hi, Option.getD_some]

/-- **The rows of a session are packed** as the channels of its layout say. -/
theorem packed_rows (h : s.Consistent) (ht : s.time = some time) (hl : s.layout = .ok layout)
    (hn : time.length * layout.recordSize < Buffer.limit) (hm : master.unlinked = Layout.master)
    (hds : channels.map Channel.unlinked = layout.channels) :
    Packed s.channels time (group layout time k) master channels
      (MeasuredGroup.rows s time).flatten := by
  have hpack : Layout.pack 8 (encodings s.channels) = .ok layout := hl
  have hsize := Layout.start_le_recordSize hpack
  obtain ⟨hcount, hbytes⟩ : (group layout time k).cycleCount.toNat = time.length ∧
      (group layout time k).dataBytes.toNat = layout.recordSize :=
    MeasuredGroup.toNat_group (Layout.recordSize_lt (by decide) hpack) (by omega) hn
  have hfills := fills_master_cons hpack hm hds
  have hmaster : master.byteOffset = 0 ∧ master.encoding = Channel.timeEncoding :=
    ⟨congrArg Channel.byteOffset hm, congrArg Channel.encoding hm⟩
  have htype : master.isMaster = true := congrArg Channel.isMaster hm
  have hrest : Channel.Fills 8 channels layout.recordSize := by
    have htail := hfills.2
    rwa [hmaster.2, Channel.byteSize_timeEncoding] at htail
  have hencodings : channels.map Channel.encoding = encodings s.channels := by
    rw [← Layout.encodings_of_pack hpack, ← hds, List.map_map]
    rfl
  have hsizes : Channel.sizes channels = s.channels.map fun c => c.kind.bytes := by
    have hmap := congrArg (List.map Encoding.byteSize) hencodings
    simpa only [Channel.sizes, encodings, List.map_map, Function.comp_def,
      Kind.byteSize_encoding] using hmap
  have hlength : channels.length = s.channels.length := by
    simpa only [encodings, List.length_map] using congrArg List.length hencodings
  refine ⟨⟨htype, hmaster⟩, hencodings, ?_, ?_, hfills.pairwise, fun j => ?_, hcount,
    h.length_samples ht, fun i t hi => ?_, ?_⟩
  · rw [hrest.byteOffsets, hsizes, hlength]
  · rw [hbytes, hrest.stop_eq, hsizes]
  · rw [hfills.exists_holds_iff, hbytes]
    exact and_iff_right (Nat.zero_le j)
  · rw [hbytes]
    exact take_drop_flatten (MeasuredGroup.length_of_mem_rows h ht hl) (getElem?_rows hi)
  · rw [MeasuredGroup.length_flatten_rows h ht hl, hcount, hbytes]

/-- **The records of a file are packed without gaps**: the file of a session leads to its channels,
which fill the record one after the other, and to as many records as there are times. -/
theorem records_of_file {version : Version} {ops : List Operation}
    (hs : s = ((new version).run ops).2) (hb : s.file deflate = .ok file) :
    ∃ time header dataGroup group master channels records, s.time = some time ∧
      Stored deflate s.storage file header dataGroup group (master :: channels) records ∧
      Packed ((new version).addedBy ops) time group master channels records := by
  have h : s.Consistent := Reachable.consistent ⟨version, ops, hs⟩
  have hchannels : s.channels = (new version).addedBy ops := by
    rw [hs, channels_run]
    rfl
  obtain ⟨time, layout, block, k, channels, ht, hl, hn, hblock, hw⟩ := written_of_file h hb
  obtain ⟨master, ds, hat, hm, hds⟩ := hw.exists_channelsAt hl
  have hlength := MeasuredGroup.length_flatten_rows h ht hl
  have hstored := hw.stored hblock (hlength ▸ hn) hat
  have hpacked := packed_rows (k := k) h ht hl hn hm hds
  exact ⟨time, _, _, _, master, ds, _, ht, hstored, hchannels ▸ hpacked⟩

/-- The compressed records of a file with a byte and a float behind each time. -/
theorem records_of_file_floats :
    ∃ bytes group master channels records, floats.file Deflate.storing = .ok bytes ∧
      Packed floats.channels ⟨[⟨0⟩, ⟨0x3FF0000000000000⟩]⟩ group master channels records ∧
      channels.map (fun c => c.byteOffset.toNat) = [8, 9] ∧ group.dataBytes.toNat = 17 ∧
      records.length = 34 := by
  have hs : floats = ((new .v410).run floatOperations).2 := rfl
  obtain ⟨bytes, hb⟩ := exists_file_floats
  obtain ⟨time, _, _, group, master, channels, records, ht, -, hpacked⟩ := records_of_file hs hb
  cases ht.symm.trans (show floats.time = some ⟨[⟨0⟩, ⟨0x3FF0000000000000⟩]⟩ from rfl)
  refine ⟨bytes, group, master, channels, records, hb, hpacked, hpacked.byteOffsets, ?_, ?_⟩
  · exact hpacked.dataBytes
  · rw [hpacked.length, hpacked.cycleCount, hpacked.dataBytes]
    decide

end Session

end Mdf
