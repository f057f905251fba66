import Mdf.Proofs.Block.Storing
import Mdf.Proofs.Session.RoundTrip

/-!
# How serializing a session ends

`file_outcome` is the main statement: what every sequence of operations keeps leaves three reasons
for a session not to be serialized, which are the lack of an axis, a revision without compressed
records, and a record that is too wide.  Otherwise its records are its rows and its file is written,
provided that memory holds both (`InMemory`).  No other failure is left, and so none of the checks
that guard the packing of records and the setting of links is ever missed.

`blockSizes` lists the sizes of the blocks in the order in which they are written.  Where the file
ends follows from them, and so does that every link is set before the end (`appends_session`).
-/

namespace Mdf

open Block Encode

namespace Session

variable {s : Session} {deflate : Deflate.Compressor} {time : TimeAxis} {layout : Layout} {n : Nat}

/-! ### The layout -/

/-- The size of a record: the time, and a sample of each channel. -/
def recordSize (s : Session) : Nat :=
  Layout.master.encoding.byteSize + (s.channels.map fun c => c.kind.bytes).sum

/-- Channels have a layout exactly if the size of a record fits its field. -/
lemma pack_encodings (cs : List NamedChannel) {start : Nat} (hs : start < Layout.sizeBound) :
    (start + (cs.map fun c => c.kind.bytes).sum < Layout.sizeBound ∧
      ∃ layout, Layout.pack start (encodings cs) = .ok layout ∧
        layout.recordSize = start + (cs.map fun c => c.kind.bytes).sum) ∨
    (Layout.sizeBound ≤ start + (cs.map fun c => c.kind.bytes).sum ∧
      Layout.pack start (encodings cs) = .error (.unsupportedFeature .recordSize)) := by
  induction cs generalizing start with
  | nil => exact .inl ⟨hs, ⟨[], start⟩, rfl, rfl⟩
  | cons c cs ih =>
    rw [List.map_cons, List.sum_cons, ← Nat.add_assoc]
    have hpack : Layout.pack start (encodings (c :: cs)) =
        if start + c.kind.bytes < Layout.sizeBound then do
          let rest ← Layout.pack (start + c.kind.bytes) (encodings cs)
          return ⟨Channel.value c.kind.encoding (UInt32.ofNat start) :: rest.channels,
            rest.recordSize⟩
        else .error (.unsupportedFeature .recordSize) := by
      simp only [encodings, List.map_cons, Layout.pack, Kind.validate_encoding, ok_bind,
        Kind.byteSize_encoding]
    rw [hpack]
    by_cases hlt : start + c.kind.bytes < Layout.sizeBound
    · rw [if_pos hlt]
      rcases ih hlt with ⟨hsum, rest, hrest, hsize⟩ | ⟨hsum, hrest⟩
      · refine .inl ⟨hsum, ⟨Channel.value c.kind.encoding (UInt32.ofNat start) :: rest.channels,
          rest.recordSize⟩, ?_, hsize⟩
        rw [hrest]
        rfl
      · exact .inr ⟨hsum, by rw [hrest]; rfl⟩
    · rw [if_neg hlt]
      exact .inr ⟨by omega, rfl⟩

/-! ### The records -/

/-- Records that memory does not hold are not packed. -/
lemma records_exhausted (hlimit : Buffer.limit ≤ time.length * layout.recordSize) :
    ∃ f, s.records layout time = .error f ∧ f.Exhausted := by
  unfold records Checked.mul Checked.word
  split
  · refine ⟨_, ?_, _, hlimit, .inl rfl⟩
    have hlength : Buffer.limit ≤ (Buffer.zeros (time.length * layout.recordSize)).length := by
      rwa [Buffer.length_zeros]
    simp only [liftM_ok_fault, ok_bind, Buffer.allocate_eq_error hlength, liftM_error_fault,
      error_bind, Buffer.length_zeros]
  · exact ⟨_, rfl, _, hlimit, .inr rfl⟩

/-! ### The blocks -/

/-- The sizes of the comments and the history. -/
def commentSizes (s : Session) : List Nat :=
  [(TextBlock.block .md (Comment.headerDocument s.comment)).size,
    (TextBlock.block .md historyComment).size, 56]

/-- The sizes of the texts and of the channels, the master channel being one more. -/
def channelSizes (s : Session) : List Nat :=
  (TextBlock.block .tx masterName).size :: (TextBlock.block .tx masterUnit).size ::
    ((s.channels.map fun c => (TextBlock.block .tx c.name).size) ++
      160 :: List.replicate s.channelCount 160)

/-- The sizes of the groups and of the records between them. -/
def groupSizes (records : Block) : List Nat := [104, records.size, 64]

/-- The sizes of what a file consists of: the identification, and the blocks. -/
def blockSizes (s : Session) (records : Block) : List Nat :=
  FileHeader.offset :: 104 :: (s.commentSizes ++ (s.channelSizes ++ groupSizes records))

/-- The size of the file with a block of records. -/
def fileSize (s : Session) (records : Block) : Nat := extent 0 (s.blockSizes records)

lemma appends_writeNames (ps : List (Channel × NamedChannel)) :
    Appends n (ps.map fun p => (TextBlock.block .tx p.2.name).size)
      (fun cs => cs.length = ps.length) (writeNames ps) := by
  induction ps generalizing n with
  | nil => exact appends_pure rfl
  | cons p ps ih =>
    refine appends_bind_cons (appends_write (BlockId.length_bytes (by simp [TextBlock.block])))
      fun name _ => appends_bind_last ih fun cs hcs => appends_pure ?_
    rw [List.length_cons, List.length_cons, hcs]

/-- A channel that has been written has its link to the next one before the end. -/
lemma linkPosition_channel {o : UInt64} (ho : o.toNat = Buffer.alignUp n) :
    linkPosition o.toNat 0 + 8 ≤ extent n [160] := by
  rw [ho, extent_singleton, linkPosition, headSize, fixedSize]
  omega

lemma appends_writeChain {previous : UInt64} (cs : List Channel)
    (hp : linkPosition previous.toNat 0 + 8 ≤ n) :
    Appends n (List.replicate cs.length 160) (fun _ => True) (writeChain previous cs) := by
  induction cs generalizing n previous with
  | nil => exact appends_pure trivial
  | cons c cs ih =>
    have hwrite := Channel.size_block c ▸ appends_write (n := n) (length_id_channel c)
    exact appends_bind hwrite fun o ho =>
      appends_bind_nil (appends_patchLink (Nat.le_trans hp (le_extent n [160])) o) fun _ _ =>
        ih (linkPosition_channel ho)

/-- The header stands before all other blocks, so its links are set before the end. -/
lemma appends_patchLink_header {header : UInt64} {i : Nat} (hh : header.toNat = FileHeader.offset)
    (hi : i < 6) (hn : 168 ≤ n) (target : UInt64) :
    Appends n [] (fun _ => True) (patchLink header i target) := by
  refine appends_patchLink ?_ target
  rw [hh, linkPosition, headSize, fixedSize, FileHeader.offset]
  omega

lemma appends_writeComments {header : UInt64} (hh : header.toNat = FileHeader.offset)
    (hn : 168 ≤ n) : Appends n s.commentSizes (fun _ => True) (s.writeComments header) := by
  have hmd : BlockId.md.bytes.length = 4 := rfl
  have hhistory : ∀ e : HistoryEntry, e.block.id.bytes.length = 4 :=
    fun _ => BlockId.length_bytes (by simp [HistoryEntry.block])
  have hlater : ∀ {n k}, 168 ≤ n → 168 ≤ extent n [k] :=
    fun hn => Nat.le_trans hn (le_extent ..)
  exact appends_bind_cons (appends_write hmd) fun comment _ =>
    appends_bind_nil (appends_patchLink_header hh (by omega) (hlater hn) comment) fun _ _ =>
      appends_bind_cons (appends_write hmd) fun entryComment _ =>
        appends_bind_last (HistoryEntry.size_block _ ▸ appends_write (hhistory _)) fun history _ =>
          appends_patchLink_header hh (by omega) (hlater (hlater (hlater hn))) history

lemma appends_writeChannels (hl : s.layout = .ok layout) :
    Appends n s.channelSizes (fun _ => True) (s.writeChannels layout) := by
  have htx : BlockId.tx.bytes.length = 4 := rfl
  have hlength : layout.channels.length = s.channels.length :=
    (Layout.length_channels hl).trans (List.length_map _)
  have hnames : (layout.channels.zip s.channels).map
      (fun p => (TextBlock.block .tx p.2.name).size) =
        s.channels.map fun c => (TextBlock.block .tx c.name).size := by
    have hsnd : (layout.channels.zip s.channels).map Prod.snd = s.channels :=
      List.map_snd_zip (by omega)
    conv_rhs => rw [← hsnd, List.map_map]
    rfl
  have hcount : (layout.channels.zip s.channels).length = s.channelCount := by
    rw [List.length_zip, hlength, Nat.min_self, channelCount]
  exact appends_bind_cons (appends_write htx) fun name _ =>
    appends_bind_cons (appends_write htx) fun unit _ =>
      appends_bind (hnames ▸ appends_writeNames _) fun channels hchannels =>
        appends_bind_cons (Channel.size_block _ ▸ appends_write (length_id_channel _))
          fun master hmaster => appends_bind_last
            (hcount ▸ hchannels ▸ appends_writeChain channels (linkPosition_channel hmaster))
            fun _ _ => appends_pure trivial

lemma appends_writeGroups {master : UInt64} {records : List UInt8} {block : Block}
    (hr : s.records layout time = .ok records)
    (hb : Records.block deflate s.storage (UInt32.ofNat layout.recordSize) records = .ok block) :
    Appends n (groupSizes block) (fun _ => True) (s.writeGroups deflate layout time master) := by
  have hgroup : ∀ g : ChannelGroup, g.block.id.bytes.length = 4 :=
    fun _ => BlockId.length_bytes (by simp [ChannelGroup.block])
  have hdata : ∀ g : DataGroup, g.block.id.bytes.length = 4 :=
    fun _ => BlockId.length_bytes (by simp [DataGroup.block])
  refine appends_bind_nil (appends_liftM hr) fun r hrecords => ?_
  subst hrecords
  refine appends_bind_cons (ChannelGroup.size_block _ ▸ appends_write (hgroup _)) fun group _ => ?_
  exact appends_bind_cons (Records.appends_write hb) fun data _ =>
    (DataGroup.size_block _ ▸ appends_write (hdata _)).mono fun _ _ => trivial

/-! ### The file -/

/-- What comes before the groups is written, unless memory does not hold it. -/
lemma appends_front {α : Type} {R : α → Prop} {ks : List Nat} (hl : s.layout = .ok layout)
    {next : UInt64 → UInt64 → Encode α}
    (hn : ∀ header master, header.toNat = FileHeader.offset → ∀ n, 168 ≤ n →
      Appends n ks R (next header master)) :
    Appends 0 (FileHeader.offset :: 104 :: (s.commentSizes ++ (s.channelSizes ++ ks))) R (do
      Encode.bytes (Identification.new s.version).encode
      let header ← Block.write (FileHeader.new s.startTime).block
      s.writeComments header
      let master ← s.writeChannels layout
      next header master) := by
  have hid := appends_bytes (n := 0) rfl (Identification.new s.version).encode
  rw [length_identification] at hid
  refine appends_bind_cons hid fun _ _ => appends_bind_cons (FileHeader.size_block _ ▸
    appends_write (length_id_header s.startTime)) fun header hheader => ?_
  have hstart : extent (extent 0 [FileHeader.offset]) [104] = 168 := rfl
  have hh : header.toNat = FileHeader.offset := hheader
  rw [hstart]
  refine appends_bind (appends_writeComments hh (Nat.le_refl _)) fun _ _ =>
    appends_bind (appends_writeChannels hl) fun master _ => hn header master hh _ ?_
  exact Nat.le_trans (le_extent ..) (le_extent ..)

/-- **A session is written block by block.** -/
theorem appends_session {records : List UInt8} {block : Block} (hl : s.layout = .ok layout)
    (hr : s.records layout time = .ok records)
    (hb : Records.block deflate s.storage (UInt32.ofNat layout.recordSize) records = .ok block) :
    Appends 0 (s.blockSizes block) (fun _ => True) (s.write deflate layout time) :=
  appends_front hl fun _ _ hh n hn => appends_bind_last (appends_writeGroups hr hb) fun o _ =>
    appends_patchLink_header hh (by omega) (Nat.le_trans hn (le_extent ..)) o

/-- The writer of a session ends for want of memory if memory does not hold the records. -/
lemma run_write_of_exhausted (hl : s.layout = .ok layout)
    (hr : ∃ f, s.records layout time = .error f ∧ f.Exhausted) :
    ∃ f, (s.write deflate layout time).run [] = .error f ∧ f.Exhausted := by
  have hwrite : Appends 0 (FileHeader.offset :: 104 :: (s.commentSizes ++ (s.channelSizes ++
      [Buffer.limit]))) (fun _ => False) (s.write deflate layout time) :=
    appends_front hl fun _ _ _ _ _ =>
      appends_bind_never (appends_bind_never (appends_liftM_error hr))
  obtain ⟨-, hfail⟩ := hwrite [] rfl (by decide)
  have hmem : Buffer.limit ∈ FileHeader.offset :: 104 :: (s.commentSizes ++ (s.channelSizes ++
      [Buffer.limit])) := by simp
  exact hfail (le_extent_of_mem 0 hmem)

lemma file_of_no_axis (ht : s.time = none) : s.file deflate = .error (.error .emptyFixture) := by
  unfold file
  rw [ht]
  rfl

lemma file_of_layout_error {e : Error} (ht : s.time = some time)
    (hs : ¬(s.storage ≠ .plain ∧ ¬s.version.supportsCompression)) (hl : s.layout = .error e) :
    s.file deflate = .error (.error e) := by
  unfold file
  simp only [ht, if_neg hs, hl, liftM_error_error, error_bind]

/-- The file of a session with an axis and a layout is what its writer gives. -/
lemma file_of_layout (ht : s.time = some time)
    (hs : ¬(s.storage ≠ .plain ∧ ¬s.version.supportsCompression)) (hl : s.layout = .ok layout) :
    s.file deflate = (s.write deflate layout time).run [] >>= fun p => pure p.2 := by
  unfold file
  simp only [ht, if_neg hs, hl, liftM_ok_error, ok_bind]

/-- Memory holds the records of a session, and the file with them. -/
def InMemory (deflate : Deflate.Compressor) (s : Session) (time : TimeAxis) : Prop :=
  time.length * s.recordSize < Buffer.limit ∧
    ∀ b, Records.block deflate s.storage (UInt32.ofNat s.recordSize)
      (MeasuredGroup.rows s time).flatten = .ok b → s.fileSize b < Buffer.limit

/-- **The file of a session is written exactly if memory holds it**, and otherwise the lack of
memory is what the writer ends for. -/
theorem file_of_layout_cases (h : s.Consistent) (hd : deflate.Total) (ht : s.time = some time)
    (hs : ¬(s.storage ≠ .plain ∧ ¬s.version.supportsCompression)) (hl : s.layout = .ok layout)
    (hsize : layout.recordSize = s.recordSize) :
    (s.InMemory deflate time → ∃ bytes, s.file deflate = .ok bytes) ∧
      (¬s.InMemory deflate time → ∃ f, s.file deflate = .error f ∧ f.Exhausted) := by
  rw [file_of_layout ht hs hl]
  by_cases hlimit : time.length * layout.recordSize < Buffer.limit
  · have hr : s.records layout time = .ok (MeasuredGroup.rows s time).flatten :=
      records_eq_ok h ht hl hlimit
    have hword : (MeasuredGroup.rows s time).flatten.length < Checked.wordBound := by
      rw [MeasuredGroup.length_flatten_rows h ht hl]
      exact Nat.lt_trans hlimit (by decide)
    obtain ⟨b, hb⟩ := Records.block_ok hd s.storage (UInt32.ofNat layout.recordSize) hword
    obtain ⟨hok, hfail⟩ := appends_session hl hr hb [] rfl (by decide)
    rw [hsize] at hb hlimit
    constructor
    · rintro ⟨-, hfile⟩
      obtain ⟨_, bytes, hrun, -⟩ := hok (hfile b hb)
      exact ⟨bytes, by rw [hrun]; rfl⟩
    · intro hmemory
      have hfile : Buffer.limit ≤ s.fileSize b := by
        by_contra hfile
        refine hmemory ⟨hlimit, fun b' hb' => ?_⟩
        cases hb.symm.trans hb'
        exact Nat.not_le.mp hfile
      obtain ⟨f, hrun, he⟩ := hfail hfile
      exact ⟨f, by rw [hrun]; rfl, he⟩
  · have hr : ∃ f, s.records layout time = .error f ∧ f.Exhausted :=
      records_exhausted (Nat.not_lt.mp hlimit)
    obtain ⟨f, hrun, he⟩ : ∃ f, (s.write deflate layout time).run [] = .error f ∧ f.Exhausted :=
      run_write_of_exhausted hl hr
    rw [hsize] at hlimit
    exact ⟨fun hmemory => absurd hmemory.1 hlimit, fun _ => ⟨f, by rw [hrun]; rfl, he⟩⟩

/-- A session whose records are not too wide is written if memory holds its file. -/
lemma exists_file (h : s.Consistent) (hd : deflate.Total) (ht : s.time = some time)
    (hs : ¬(s.storage ≠ .plain ∧ ¬s.version.supportsCompression))
    (hlt : s.recordSize < Layout.sizeBound) (hmemory : s.InMemory deflate time) :
    ∃ bytes, s.file deflate = .ok bytes := by
  rcases pack_encodings s.channels (show 8 < Layout.sizeBound by decide) with
    ⟨-, layout, hl, hsize⟩ | ⟨hle, -⟩
  · exact (file_of_layout_cases h hd ht hs hl hsize).1 hmemory
  · exact absurd hlt (Nat.not_lt.mpr hle)

/-- **How serializing a session ends**, whatever was done to it, also in vain.  Its names are those
of its channels, each of them once and none that of the master channel, and each channel is as long
as the axis.  So there is no file only for the lack of an axis, for a revision without compressed
records, or for a record that is too wide; else the records are packed and the file is written, as
long as memory holds them. -/
theorem file_outcome (hr : s.Reachable) (hd : deflate.Total) :
    (s.channels.map NamedChannel.name).Nodup ∧ (∀ c ∈ s.channels, c.name ≠ "time") ∧
    (∀ name, name ∈ s.names ↔ ∃ c ∈ s.channels, c.name = name) ∧
    (∀ c ∈ s.channels, ∃ time, s.time = some time ∧ c.samples.length = time.length) ∧
    (s.time = none → s.file deflate = .error (.error .emptyFixture)) ∧
    ∀ time, s.time = some time →
      if s.storage ≠ .plain ∧ ¬s.version.supportsCompression then
        s.file deflate = .error (.error (.unsupportedFeature (.compressedRecords s.version.text)))
      else if s.recordSize < Layout.sizeBound then
        ∃ layout, s.layout = .ok layout ∧ layout.recordSize = s.recordSize ∧
          (time.length * s.recordSize < Buffer.limit →
            s.records layout time = .ok (MeasuredGroup.rows s time).flatten) ∧
          (s.InMemory deflate time → ∃ bytes, s.file deflate = .ok bytes) ∧
          (¬s.InMemory deflate time → ∃ f, s.file deflate = .error f ∧ f.Exhausted)
      else s.file deflate = .error (.error (.unsupportedFeature .recordSize)) := by
  have h := hr.consistent
  have hmem : ∀ name, name ∈ s.names ↔ ∃ c ∈ s.channels, c.name = name := by
    intro name
    rw [h.names, List.mem_map]
  have hmaster : ∀ c ∈ s.channels, c.name ≠ "time" := fun c hc hname =>
    h.reserved ((hmem masterName).mpr ⟨c, hc, hname⟩)
  refine ⟨h.nodup_channels, hmaster, hmem, h.lengths, file_of_no_axis, fun time ht => ?_⟩
  by_cases hs : s.storage ≠ .plain ∧ ¬s.version.supportsCompression
  · rw [if_pos hs]
    unfold file
    simp only [ht, if_pos hs]
    rfl
  rw [if_neg hs]
  rcases pack_encodings s.channels (show 8 < Layout.sizeBound by decide) with
    ⟨hlt, layout, hl, hsize⟩ | ⟨hle, hl⟩
  · rw [if_pos (show s.recordSize < _ from hlt)]
    obtain ⟨hok, hfail⟩ := file_of_layout_cases h hd ht hs hl hsize
    exact ⟨layout, hl, hsize, fun hlimit => records_eq_ok h ht hl (hsize ▸ hlimit), hok, hfail⟩
  · rw [if_neg (show ¬s.recordSize < _ from Nat.not_lt.mpr hle)]
    exact file_of_layout_error ht hs hl

/-- The axis of the two channels. -/
def floatTime : TimeAxis := ⟨[⟨0⟩, ⟨0x3FF0000000000000⟩]⟩

lemma inMemory_floats : floats.InMemory Deflate.storing floatTime := by
  refine ⟨by decide, fun b hb => ?_⟩
  have hfits : ((Records.block Deflate.storing floats.storage (UInt32.ofNat floats.recordSize)
      (MeasuredGroup.rows floats floatTime).flatten).toOption.all
        fun b => decide (floats.fileSize b < Buffer.limit)) = true := by decide +kernel
  rw [hb, Except.toOption, Option.all_some] at hfits
  exact of_decide_eq_true hfits

theorem file_outcome_floats :
    floats.Reachable ∧ Deflate.storing.Total ∧ (floats.channels.map NamedChannel.name).Nodup ∧
      ∃ layout bytes, floats.layout = .ok layout ∧ layout.recordSize = 17 ∧
        floats.records layout floatTime = .ok (MeasuredGroup.rows floats floatTime).flatten ∧
        floats.file Deflate.storing = .ok bytes := by
  have hr : floats.Reachable := ⟨.v410, floatOperations, rfl⟩
  obtain ⟨hnodup, -, -, -, -, hfile⟩ := file_outcome hr Deflate.total_storing
  have hoff : ¬(floats.storage ≠ .plain ∧ ¬floats.version.supportsCompression) := by decide
  have hlt : floats.recordSize < Layout.sizeBound := by decide
  have hcase := hfile floatTime rfl
  rw [if_neg hoff, if_pos hlt] at hcase
  obtain ⟨layout, hl, hsize, hrecords, hok, -⟩ := hcase
  obtain ⟨bytes, hb⟩ := hok inMemory_floats
  exact ⟨hr, Deflate.total_storing, hnodup, layout, bytes, hl, hsize, hrecords (by decide), hb⟩

end Session

end Mdf
