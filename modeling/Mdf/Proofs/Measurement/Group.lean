import Mdf.Measurement.Group
import Mdf.Proofs.Block.Chain
import Mdf.Proofs.Block.Fields
import Mdf.Proofs.Session.Layout
import Mdf.Proofs.Session.Write

/-!
# Reading back a data group

From the blocks of a session the reader finds the chain of channels (`gives_readChannels`), and from
its records it finds the times and the samples (`ofRecords_rows`), so a data group is read back as a
whole (`gives_read`).  Names come back up to their first U+0000.
-/

namespace Mdf

open Decode Block

namespace MeasuredGroup

variable {file : List UInt8} {o dataBytes : Nat} {c : Channel} {name : String}

/-! ### One channel -/

lemma gives_readChannel_value (found : FoundChannels) (hb : At file o c.block)
    (hname : At file c.name.toNat (TextBlock.block .tx name))
    (hstop : c.byteOffset.toNat + c.encoding.byteSize ≤ dataBytes)
    (ht : c.channelType = Channel.fixedLengthType) (ho : c.bitOffset = 0) (hu : c.unit = 0) :
    Gives file (readChannel dataBytes found o)
      (.ok ({ found with values := found.values ++ [⟨Utf8.beforeNul name, none, c⟩] }, c.next)) := by
  have hm : ¬c.isMaster = true := by
    simp [Channel.isMaster, ht, Channel.fixedLengthType, Channel.masterType,
      Channel.virtualMasterType]
  refine gives_bind (Channel.gives_read hb (by rw [ht]; decide) ho) ?_
  refine gives_bind (TextBlock.gives_read (.inl rfl) hname) ?_
  refine gives_bind (gives_liftM (by rw [Channel.stop_eq]; rfl)) ?_
  refine gives_bind (gives_refuseIf (by omega)) ?_
  rw [if_neg hm, if_pos hu]
  exact gives_pure _

lemma gives_readChannel_master {found : FoundChannels} (hb : At file o c.block)
    (hname : At file c.name.toNat (TextBlock.block .tx name))
    (hstop : c.byteOffset.toNat + c.encoding.byteSize ≤ dataBytes)
    (ht : c.channelType = Channel.masterType) (ho : c.bitOffset = 0) (hf : found.master = none) :
    Gives file (readChannel dataBytes found o)
      (.ok ({ found with master := some ⟨Utf8.beforeNul name, none, c⟩ }, c.next)) := by
  have hm : c.isMaster = true := by simp [Channel.isMaster, ht]
  refine gives_bind (Channel.gives_read hb (by rw [ht]; decide) ho) ?_
  refine gives_bind (TextBlock.gives_read (.inl rfl) hname) ?_
  refine gives_bind (gives_liftM (by rw [Channel.stop_eq]; rfl)) ?_
  refine gives_bind (gives_refuseIf (by omega)) ?_
  rw [if_pos hm]
  exact gives_bind (gives_refuseIf (by simp [hf])) (gives_pure _)

/-! ### The chain of channels -/

/-- What is found of a channel of a session. -/
structure Found (p : Channel × NamedChannel) (f : FoundChannel) : Prop where
  name : f.name = Utf8.beforeNul p.2.name
  unit : f.unit = none
  encoding : f.channel.encoding = p.1.encoding
  byteOffset : f.channel.byteOffset = p.1.byteOffset

/-- A channel of values within records of a size. -/
def Fits (size : Nat) (c : Channel) : Prop :=
  c = Channel.value c.encoding c.byteOffset ∧ c.byteOffset.toNat + c.encoding.byteSize ≤ size

lemma gives_foldFrom_values {ps : List (Channel × NamedChannel)} {cs : List Channel}
    {link : UInt64} {visited : List Nat} (hps : ∀ p ∈ ps, Fits dataBytes p.1)
    (hnames : List.Forall₂ (Session.Named file) ps cs) (hchain : Session.ChainAt file link cs)
    (hv : cs ≠ [] → ∀ v ∈ visited, v < link.toNat) :
    ∃ fs, List.Forall₂ Found ps fs ∧ ∀ found : FoundChannels, Gives file
      (Chain.foldFrom (readChannel dataBytes) visited found link)
      (.ok { found with values := found.values ++ fs }) := by
  induction hnames generalizing link visited with
  | nil =>
    rw [show link = 0 from hchain]
    exact ⟨[], .nil, fun found => by simpa using Chain.gives_foldFrom_zero⟩
  | @cons p c ps cs hc hcs ih =>
    obtain ⟨next, hb, hlt, hrest⟩ := hchain
    obtain ⟨⟨hp, hfits⟩, hps⟩ := List.forall_mem_cons.mp hps
    obtain ⟨hce, hname⟩ := hc
    have hplain : c.encoding = p.1.encoding ∧ c.byteOffset = p.1.byteOffset ∧
        c.channelType = Channel.fixedLengthType ∧ c.bitOffset = 0 ∧ c.unit = 0 := by
      rw [hce, hp]
      exact ⟨rfl, rfl, rfl, rfl, rfl⟩
    obtain ⟨he, hoff, htype, hbit, hunit⟩ := hplain
    have hv' : cs ≠ [] → ∀ v ∈ link.toNat :: visited, v < next.toNat := by
      intro hne v hmem
      have hl := UInt64.lt_iff_toNat_lt.mp (hlt hne)
      rcases List.mem_cons.mp hmem with rfl | hmem
      · exact hl
      · exact Nat.lt_trans (hv (by simp) v hmem) hl
    obtain ⟨fs, hfound, hfs⟩ := ih hps hrest hv'
    refine ⟨⟨Utf8.beforeNul p.2.name, none, { c with next := next }⟩ :: fs,
      .cons ⟨rfl, rfl, he, hoff⟩ hfound, fun found => ?_⟩
    have hstep := gives_readChannel_value found hb hname
      (by simpa only [he, hoff] using hfits) htype hbit hunit
    refine Chain.gives_foldFrom hb.link_ne
      (fun hmem => Nat.lt_irrefl _ (hv (by simp) _ hmem)) hstep ?_
    have hrest := hfs { found with
      values := found.values ++ [⟨Utf8.beforeNul p.2.name, none, { c with next := next }⟩] }
    rwa [List.append_assoc, List.singleton_append] at hrest

/-- **The channels of a session are found**, the master channel apart from the others. -/
theorem gives_readChannels {s : Session} {layout : Layout} {time : TimeAxis} {records : Block}
    {k : Session.Links} {channels : List Channel}
    (hw : s.Written layout time records k channels file) (hsize : 8 ≤ layout.recordSize)
    (hfits : ∀ c ∈ layout.channels, Fits layout.recordSize c) :
    ∃ master fs, Gives file (readChannels layout.recordSize k.master)
        (.ok ⟨some ⟨Session.masterName, none, master⟩, fs⟩) ∧
      master.encoding = Channel.timeEncoding ∧ master.byteOffset = 0 ∧
      List.Forall₂ Found (layout.channels.zip s.channels) fs := by
  obtain ⟨next, hb, hlt, hrest⟩ := hw.chain
  have hname : Utf8.beforeNul Session.masterName = Session.masterName := by decide
  have hstop : (Session.master k).byteOffset.toNat + (Session.master k).encoding.byteSize ≤
      layout.recordSize := by
    rwa [show (Session.master k).byteOffset.toNat = 0 from rfl, Nat.zero_add,
      show (Session.master k).encoding = Channel.timeEncoding from rfl,
      Channel.byteSize_timeEncoding]
  have hmaster : Gives file (readChannel layout.recordSize ⟨none, []⟩ k.master.toNat)
      (.ok (⟨some ⟨Session.masterName, none, { Session.master k with next := next }⟩, []⟩, next)) :=
    hname ▸ gives_readChannel_master hb hw.name hstop rfl rfl rfl
  have hv : channels ≠ [] → ∀ v ∈ [k.master.toNat], v < next.toNat := by
    intro hne v hmem
    rw [List.mem_singleton.mp hmem]
    exact UInt64.lt_iff_toNat_lt.mp (hlt hne)
  obtain ⟨fs, hfound, hfs⟩ := gives_foldFrom_values
    (fun p hp => hfits p.1 (List.of_mem_zip hp).1) hw.names hrest hv
  refine ⟨{ Session.master k with next := next }, fs, ?_, rfl, rfl, hfound⟩
  exact Chain.gives_foldFrom hb.link_ne List.not_mem_nil hmaster
    (hfs ⟨some ⟨Session.masterName, none, { Session.master k with next := next }⟩, []⟩)

/-! ### Times and samples -/

lemma piecesOf_flatten {size : Nat} {rows : List (List UInt8)} (h : ∀ r ∈ rows, r.length = size) :
    Checked.piecesOf size rows.length rows.flatten = rows := by
  induction rows with
  | nil => rfl
  | cons r rows ih =>
    obtain ⟨hr, hrows⟩ := List.forall_mem_cons.mp h
    rw [List.flatten_cons, List.length_cons, Checked.piecesOf, List.take_left' hr,
      List.drop_left' hr, ih hrows]

lemma length_flatten {size : Nat} {rows : List (List UInt8)} (h : ∀ r ∈ rows, r.length = size) :
    rows.flatten.length = rows.length * size := by
  induction rows with
  | nil => simp
  | cons r rows ih =>
    obtain ⟨hr, hrows⟩ := List.forall_mem_cons.mp h
    rw [List.flatten_cons, List.length_append, hr, ih hrows, List.length_cons, Nat.succ_mul,
      Nat.add_comm]

lemma pieces_flatten {size : Nat} {rows : List (List UInt8)} (hs : 0 < size)
    (h : ∀ r ∈ rows, r.length = size) : Checked.pieces size rows.flatten = .ok rows := by
  rw [Checked.pieces_of_pos hs, length_flatten h, Nat.mul_div_cancel _ hs, piecesOf_flatten h]

lemma map_getD_range {α : Type} (l : List α) (d : α) :
    (List.range l.length).map (fun i => l.getD i d) = l := by
  refine List.ext_getElem (by simp) fun i _ hi => ?_
  simp [hi]

section Rows

variable {s : Session} {layout : Layout} {time : TimeAxis} {p : Channel × NamedChannel}
  {f : FoundChannel} {i : Nat}

lemma timeOfRow_row (hc : c.encoding = Channel.timeEncoding) (ho : c.byteOffset = 0) :
    timeOfRow c (s.row time i) = .ok (time.values.getD i ⟨0⟩) := by
  have hb : ¬c.encoding.bitCount = 32 := by rw [hc]; decide
  have hstart : c.byteOffset.toNat = 0 := by rw [ho]; rfl
  rw [Session.row]
  generalize time.values.getD i ⟨0⟩ = t
  have hl := LittleEndian.length_encode 8 t.bits.toNat
  have hd : LittleEndian.decode (LittleEndian.encode 8 t.bits.toNat) = t.bits.toNat :=
    LittleEndian.decode_encode_of_lt t.bits.isLt
  have hslice := Session.slice_middle [] (LittleEndian.encode 8 t.bits.toNat)
    (Session.cells i s.channels)
  rw [List.nil_append, List.length_nil, hl] at hslice
  simp only [timeOfRow, if_neg hb, hstart, show Checked.add 0 8 = .ok 8 from rfl, ok_bind, hslice,
    Checked.fill_of_length hl, hd, BitVec.ofNat_toNat, BitVec.setWidth_eq]
  rfl

/-- The rows of a session. -/
def rows (s : Session) (time : TimeAxis) : List (List UInt8) :=
  (List.range time.length).map (s.row time)

lemma length_of_mem_rows (h : s.Consistent) (ht : s.time = some time) (hl : s.layout = .ok layout) :
    ∀ r ∈ rows s time, r.length = layout.recordSize := by
  intro r hr
  obtain ⟨i, hi, rfl⟩ := List.mem_map.mp hr
  exact Session.length_row h ht hl (List.mem_range.mp hi)

lemma length_flatten_rows (h : s.Consistent) (ht : s.time = some time) (hl : s.layout = .ok layout) :
    (rows s time).flatten.length = time.length * layout.recordSize := by
  rw [length_flatten (length_of_mem_rows h ht hl), rows, List.length_map, List.length_range]

lemma pieces_rows (h : s.Consistent) (ht : s.time = some time) (hl : s.layout = .ok layout)
    (hs : 0 < layout.recordSize) :
    Checked.pieces layout.recordSize (rows s time).flatten = .ok (rows s time) :=
  pieces_flatten hs (length_of_mem_rows h ht hl)

/-- The times are read back, bit for bit. -/
lemma masterTimes_rows (h : s.Consistent) (ht : s.time = some time) (hl : s.layout = .ok layout)
    (hs : 0 < layout.recordSize) (hc : c.encoding = Channel.timeEncoding) (ho : c.byteOffset = 0) :
    masterTimes c layout.recordSize (rows s time).flatten = .ok time.values := by
  have he : c.encoding.dataType = .floatLe ∧
      (c.encoding.bitCount = 32 ∨ c.encoding.bitCount = 64) := by
    rw [hc]
    decide
  have hrows : (rows s time).mapM (timeOfRow c) = .ok time.values := by
    have hm : (List.range time.length).mapM (timeOfRow c ∘ s.row time) =
        .ok ((List.range time.length).map fun i => time.values.getD i ⟨0⟩) :=
      mapM_eq_ok fun i _ => timeOfRow_row hc ho
    rw [rows, List.mapM_map, hm]
    exact congrArg Except.ok (map_getD_range time.values ⟨0⟩)
  simp only [masterTimes, if_pos he, if_pos hs, pieces_rows h ht hl hs, liftM_ok_fault, ok_bind,
    hrows]

lemma wordOfRow_row (h : s.Consistent) (ht : s.time = some time) (hl : s.layout = .ok layout)
    (hmem : p ∈ layout.channels.zip s.channels) (hf : Found p f) (hi : i < time.length) :
    wordOfRow p.2.samples.kind f.channel (s.row time i) = .ok (p.2.samples.words.getD i 0) := by
  obtain ⟨pre, post, hrow, hpre⟩ := Session.row_split h ht hl hi hmem
  have hlen : i < p.2.samples.length := by
    rw [h.length_samples ht p.2 (List.of_mem_zip hmem).2]
    exact hi
  have hbytes := Samples.length_bytesAt hlen
  have hstop : f.channel.stop = .ok (pre.length + (p.2.samples.bytesAt i).length) := by
    rw [Channel.stop_eq, hf.encoding, hf.byteOffset, Session.encoding_eq hl hmem,
      Kind.byteSize_encoding, hpre, hbytes]
    rfl
  have hword : p.2.samples.words.getD i 0 = p.2.samples.words[i] := by
    rw [List.getD, List.getElem?_eq_getElem (show i < p.2.samples.words.length from hlen)]
    rfl
  simp only [wordOfRow, cell, hstop, ok_bind, hf.byteOffset, ← hpre, hrow, Session.slice_middle,
    liftM_ok_fault, Samples.word_bytesAt hlen, hword, liftM_ok_error]

/-- **The samples of a channel are read back**, bit for bit. -/
lemma samplesOf_rows (h : s.Consistent) (ht : s.time = some time) (hl : s.layout = .ok layout)
    (hs : 0 < layout.recordSize) (hmem : p ∈ layout.channels.zip s.channels) (hf : Found p f) :
    samplesOf layout.recordSize time.length (rows s time).flatten f =
      .ok ⟨Utf8.beforeNul p.2.name, none, p.2.kind.encoding, p.2.samples⟩ := by
  have he : f.channel.encoding = p.2.samples.kind.encoding :=
    hf.encoding.trans (Session.encoding_eq hl hmem)
  have hlen : (rows s time).length = time.length := by simp [rows]
  have hwords : (rows s time).mapM (wordOfRow p.2.samples.kind f.channel) =
      .ok p.2.samples.words := by
    have hm : (List.range time.length).mapM
        (wordOfRow p.2.samples.kind f.channel ∘ s.row time) =
          .ok ((List.range time.length).map fun i => p.2.samples.words.getD i 0) :=
      mapM_eq_ok fun i hi => wordOfRow_row h ht hl hmem hf (List.mem_range.mp hi)
    rw [rows, List.mapM_map, hm, ← h.length_samples ht p.2 (List.of_mem_zip hmem).2]
    exact congrArg Except.ok (map_getD_range p.2.samples.words 0)
  have hmax : max layout.recordSize 1 = layout.recordSize := by omega
  simp only [samplesOf, he, Kind.ofEncoding_encoding, liftM_ok_error, liftM_ok_fault, ok_bind, hmax,
    pieces_rows h ht hl hs, List.take_of_length_le (Nat.le_of_eq hlen), hwords, hf.name, hf.unit]
  rfl

/-- A channel of a session as it comes back from its file. -/
def readBack (c : NamedChannel) : MeasuredChannel :=
  ⟨Utf8.beforeNul c.name, none, c.kind.encoding, c.samples⟩

lemma mapM_samplesOf_rows (h : s.Consistent) (ht : s.time = some time) (hl : s.layout = .ok layout)
    (hs : 0 < layout.recordSize) {ps : List (Channel × NamedChannel)} {fs : List FoundChannel}
    (hps : ∀ p ∈ ps, p ∈ layout.channels.zip s.channels) (hf : List.Forall₂ Found ps fs) :
    fs.mapM (samplesOf layout.recordSize time.length (rows s time).flatten) =
      .ok (ps.map fun p => readBack p.2) := by
  induction hf with
  | nil => rfl
  | cons hf _ ih =>
    obtain ⟨hp, hps⟩ := List.forall_mem_cons.mp hps
    rw [List.mapM_cons, samplesOf_rows h ht hl hs hp hf, ok_bind, ih hps, ok_bind]
    rfl

/-- **The records of a session give back its times and its channels.** -/
theorem ofRecords_rows (h : s.Consistent) (ht : s.time = some time) (hl : s.layout = .ok layout)
    (hs : 0 < layout.recordSize) {master : Channel} (hc : master.encoding = Channel.timeEncoding)
    (ho : master.byteOffset = 0) {fs : List FoundChannel}
    (hf : List.Forall₂ Found (layout.channels.zip s.channels) fs) :
    ofRecords layout.recordSize time.length (rows s time).flatten
        ⟨some ⟨Session.masterName, none, master⟩, fs⟩ =
      .ok ⟨Session.masterName, time.values, s.channels.map readBack⟩ := by
  have hlen : s.channels.length ≤ layout.channels.length := by
    rw [Layout.length_channels (show Layout.pack 8 (Session.encodings s.channels) = _ from hl),
      Session.encodings, List.length_map]
  have hzip : (layout.channels.zip s.channels).map (fun p => readBack p.2) =
      s.channels.map readBack := by
    have hsnd := congrArg (List.map readBack) (List.map_snd_zip hlen)
    rwa [List.map_map] at hsnd
  simp only [ofRecords, timesOf, masterTimes_rows h ht hl hs hc ho, ok_bind,
    mapM_samplesOf_rows h ht hl hs (fun _ hp => hp) hf, hzip]
  rfl

end Rows

/-! ### The group -/

variable {s : Session} {layout : Layout} {time : TimeAxis} {block : Block} {k : Session.Links}
  {channels : List Channel} {deflate : Deflate.Compressor}

/-- The numbers of a channel group are those of the session. -/
lemma toNat_group (hs : layout.recordSize < Layout.sizeBound) (hpos : 0 < layout.recordSize)
    (hn : time.length * layout.recordSize < Buffer.limit) :
    (Session.group layout time k).cycleCount.toNat = time.length ∧
      (Session.group layout time k).dataBytes.toNat = layout.recordSize := by
  have hle : time.length ≤ time.length * layout.recordSize := Nat.le_mul_of_pos_right _ hpos
  unfold Buffer.limit at hn
  exact ⟨UInt64.toNat_ofNat_of_lt' (by unfold UInt64.size; omega), UInt32.toNat_ofNat_of_lt' hs⟩

lemma gives_readRecords (hw : s.Written layout time block k channels file) (hi : deflate.Inverts)
    {records : List UInt8} (hlen : records.length = time.length * layout.recordSize)
    (hb : Records.block deflate s.storage (UInt32.ofNat layout.recordSize) records = .ok block)
    (hn : records.length < Buffer.limit) (hs : layout.recordSize < Layout.sizeBound)
    (hpos : 0 < layout.recordSize) :
    Gives file (readRecords ⟨0, k.group, k.data, 0, 0⟩ (Session.group layout time k))
      (.ok records) := by
  have hnumbers : (Session.group layout time k).cycleCount.toNat = time.length ∧
      (Session.group layout time k).dataBytes.toNat = layout.recordSize :=
    toNat_group hs hpos (hlen ▸ hn)
  obtain ⟨hc, hd⟩ := hnumbers
  have hlimit : Buffer.limit < Checked.wordBound := by decide
  have hexpected : (Session.group layout time k).cycleCount.toNat *
      (Session.group layout time k).dataBytes.toNat = records.length := by rw [hc, hd, hlen]
  refine gives_bind (Records.gives_read hi hb hn hw.data) (gives_bind gives_size ?_)
  refine gives_bind (gives_refuseIf (by rw [hexpected]; omega)) ?_
  exact gives_bind (gives_refuseIf (by rw [hexpected]; simp)) (gives_pure records)

/-- **The data group of a session is read back.** -/
theorem gives_read (h : s.Consistent) (ht : s.time = some time) (hl : s.layout = .ok layout)
    (hi : deflate.Inverts) (hw : s.Written layout time block k channels file)
    (hb : Records.block deflate s.storage (UInt32.ofNat layout.recordSize)
      (rows s time).flatten = .ok block)
    (hn : time.length * layout.recordSize < Buffer.limit) :
    Gives file (read ⟨0, k.group, k.data, 0, 0⟩)
      (.ok ⟨Session.masterName, time.values, s.channels.map readBack⟩) := by
  have hpack : Layout.pack 8 (Session.encodings s.channels) = .ok layout := hl
  have hsize := Layout.start_le_recordSize hpack
  have hbound := Layout.recordSize_lt (by decide) hpack
  have hlen := length_flatten_rows h ht hl
  have hnumbers : (Session.group layout time k).cycleCount.toNat = time.length ∧
      (Session.group layout time k).dataBytes.toNat = layout.recordSize :=
    toNat_group hbound (by omega) hn
  obtain ⟨hc, hd⟩ := hnumbers
  have hbytes : (Session.group layout time k).dataBytes ≠ 0 := by
    intro h0
    rw [h0] at hd
    have : (0 : UInt32).toNat = 0 := rfl
    omega
  obtain ⟨master, fs, hchannels, henc, hoff, hfound⟩ :=
    gives_readChannels hw hsize (Layout.eq_value (by decide) hpack)
  refine gives_bind (gives_refuseIf fun hne => hne rfl) ?_
  refine gives_bind (ChannelGroup.gives_read hw.group rfl) ?_
  refine gives_bind (gives_refuseIf fun hne => hne rfl) ?_
  refine gives_bind (gives_refuseIf fun hne => hne rfl) ?_
  refine gives_bind (gives_refuseIf fun hz => hbytes hz.1) ?_
  refine gives_bind (gives_readRecords hw hi hlen hb (hlen ▸ hn) hbound (by omega)) ?_
  rw [hc, hd]
  refine gives_bind hchannels (gives_liftM ?_)
  exact ofRecords_rows h ht hl (by omega) henc hoff hfound

end MeasuredGroup

end Mdf
