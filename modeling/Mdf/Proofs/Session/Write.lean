import Mathlib.Data.List.Forall2
import Mdf.Proofs.Block.Records
import Mdf.Proofs.Block.Tiling
import Mdf.Proofs.Identification
import Mdf.Session.File

/-!
# What a session writes

`Session.parts` lists the blocks of a written file, each where it stands, and `Session.Written` says
what each of them is at the offset that the links to it hold.  `laid_of_write` is the main statement:
whenever the writer of a session succeeds, its file is the identification and these blocks, and
nothing else.  Blocks are only ever written behind the others, so the state of the writer is the
identification, the header, and a sequence of blocks; the header is the only one of which links are
set later on, apart from the last channel of the chain that is being written.  `written_of_write`
follows, as each block of a sequence stands at its offset.
-/

namespace Mdf

open Block

variable {n : Nat} {u : List UInt8} {l r : List Block} {b : Block} {o : UInt64} {i : Nat}
  {target : UInt64} {x : Unit} {buffer : List UInt8}

/-! ### One block -/

namespace Block

/-- A block behind whole words follows without a gap. -/
lemma append_of_mod (h : u.length % 8 = 0) (b : Block) : append u b = u ++ b.bytes := by
  rw [append, Buffer.aligned, Buffer.alignUp_of_mod h, Nat.sub_self, Buffer.zeros,
    List.replicate_zero, List.append_nil]

lemma run_write_sequence (hu : u.length = n)
    (h : (write b).run (u ++ sequence n l) = .ok (o, buffer)) :
    buffer = u ++ sequence n (l ++ [b]) ∧ buffer.length < Buffer.limit ∧ o.toNat = after n l := by
  subst hu
  obtain ⟨rfl, hl, ho⟩ := run_write_eq_ok h
  rw [List.length_append] at ho
  exact ⟨append_sequence u l b, hl, ho⟩

lemma run_patchLink_sequence (hu : u.length = n) (hid : b.id.bytes.length = 4)
    (hi : i < b.links.length) (ho : o.toNat = after n l)
    (h : (patchLink o i target).run (u ++ sequence n (l ++ b :: r)) = .ok (x, buffer)) :
    buffer = u ++ sequence n (l ++ b.setLink i target :: r) := by
  subst hu
  have hp := Encode.run_patch_eq_ok h
  rw [ho, patch_sequence hid hi] at hp
  cases hp
  rfl

/-- Setting a link of the block before the others leaves these as they are. -/
lemma run_patchLink_front {v w : List UInt8} (hid : b.id.bytes.length = 4)
    (hi : i < b.links.length) (ho : o.toNat = v.length)
    (h : (patchLink o i target).run (v ++ b.bytes ++ w) = .ok (x, buffer)) :
    buffer = v ++ (b.setLink i target).bytes ++ w := by
  have hp := Encode.run_patch_eq_ok h
  rw [ho, patch_setLink hid hi] at hp
  cases hp
  rfl

lemma after_setLink (n : Nat) (l : List Block) (b : Block) (i : Nat) (target : UInt64) :
    after n (l ++ [b.setLink i target]) = after n (l ++ [b]) := by
  simp only [after, sequence_append_cons, List.length_append, length_bytes_setLink, sequence]

end Block

/-! ### The names of the channels -/

namespace Session

/-- The blocks of the names. -/
def nameBlocks (ps : List (Channel × NamedChannel)) : List Block :=
  ps.map fun p => TextBlock.block .tx p.2.name

/-- The blocks of the names, where the channels link to them. -/
def nameTiles (ps : List (Channel × NamedChannel)) (channels : List Channel) : List Tile :=
  List.zipWith (fun p c => ⟨c.name.toNat, TextBlock.block .tx p.2.name⟩) ps channels

/-- A channel says what it is to say, but for the link to its name. -/
def Renamed (p : Channel × NamedChannel) (c : Channel) : Prop := c = { p.1 with name := c.name }

lemma run_writeNames (hu : u.length = n) {ps : List (Channel × NamedChannel)}
    {channels : List Channel}
    (h : (writeNames ps).run (u ++ sequence n l) = .ok (channels, buffer)) :
    buffer = u ++ sequence n (l ++ nameBlocks ps) ∧
      placed n (l ++ nameBlocks ps) = placed n l ++ nameTiles ps channels ∧
      List.Forall₂ Renamed ps channels := by
  induction ps generalizing l channels with
  | nil =>
    obtain ⟨rfl, rfl⟩ := Encode.run_pure_eq_ok h
    have hl : l ++ nameBlocks [] = l := List.append_nil l
    exact ⟨by rw [hl], by rw [hl, nameTiles, List.zipWith_nil_left, List.append_nil], .nil⟩
  | cons p ps ih =>
    obtain ⟨name, _, hw, h⟩ := Encode.run_bind_eq_ok_iff.mp h
    obtain ⟨rfl, -, hname⟩ := run_write_sequence hu hw
    obtain ⟨rest, _, hrest, h⟩ := Encode.run_bind_eq_ok_iff.mp h
    obtain ⟨rfl, rfl⟩ := Encode.run_pure_eq_ok h
    obtain ⟨rfl, hplaced, hnamed⟩ := ih hrest
    have hl : l ++ nameBlocks (p :: ps) = l ++ [TextBlock.block .tx p.2.name] ++ nameBlocks ps := by
      rw [List.append_assoc]
      rfl
    refine ⟨by rw [hl], ?_, .cons rfl hnamed⟩
    rw [hl, hplaced, placed_append_singleton, ← hname, List.append_assoc]
    rfl

lemma next_eq_zero_of_renamed {ps : List (Channel × NamedChannel)} {channels : List Channel}
    (h : List.Forall₂ Renamed ps channels) (hp : ∀ p ∈ ps, p.1.next = 0) :
    ∀ c ∈ channels, c.next = 0 := by
  induction h with
  | nil => simp
  | cons hc _ ih =>
    obtain ⟨hfirst, hrest⟩ := List.forall_mem_cons.mp hp
    exact List.forall_mem_cons.mpr ⟨by rw [hc]; exact hfirst, ih hrest⟩

/-! ### The chain of channels -/

/-- The block of a channel, but for the link to the next one. -/
def Chained (c : Channel) (t : Tile) : Prop :=
  ∃ next, t.block = Channel.block { c with next := next }

lemma length_id_channel (c : Channel) : c.block.id.bytes.length = 4 :=
  BlockId.length_bytes (by simp [Channel.block])

lemma run_writeChain (hu : u.length = n) {c : Channel} {cs : List Channel}
    (hc : ∀ d ∈ c :: cs, d.next = 0) (ho : o.toNat = after n l)
    (h : (writeChain o cs).run (u ++ sequence n (l ++ [c.block])) = .ok (x, buffer)) :
    ∃ bs chain, buffer = u ++ sequence n (l ++ bs) ∧ placed n (l ++ bs) = placed n l ++ chain ∧
      Leads o.toNat chain ∧ List.Forall₂ Chained (c :: cs) chain := by
  induction cs generalizing c l o with
  | nil =>
    obtain ⟨-, rfl⟩ := Encode.run_pure_eq_ok h
    have hnext : c.block.links.headD 0 = 0 := hc c List.mem_cons_self
    refine ⟨[c.block], [⟨o.toNat, c.block⟩], rfl, ?_, ⟨rfl, ?_⟩, .cons ⟨c.next, rfl⟩ .nil⟩
    · rw [placed_append_singleton, ho]
    · exact congrArg UInt64.toNat hnext
  | cons d cs ih =>
    obtain ⟨next, _, hw, h⟩ := Encode.run_bind_eq_ok_iff.mp h
    obtain ⟨rfl, -, hnext⟩ := run_write_sequence hu hw
    obtain ⟨_, _, hp, h⟩ := Encode.run_bind_eq_ok_iff.mp h
    -- the block that is linked to the next one is now the last but one
    rw [List.append_assoc, List.singleton_append] at hp
    obtain rfl := run_patchLink_sequence hu (length_id_channel c) (by simp [Channel.block]) ho hp
    rw [← after_setLink n l c.block 0 next] at hnext
    rw [List.append_cons] at h
    obtain ⟨bs, chain, rfl, hplaced, hleads, hchain⟩ :=
      ih (fun e he => hc e (List.mem_cons_of_mem c he)) hnext h
    have hl : l ++ c.block.setLink 0 next :: bs = l ++ [c.block.setLink 0 next] ++ bs := by
      rw [List.append_assoc, List.singleton_append]
    refine ⟨c.block.setLink 0 next :: bs, ⟨o.toNat, c.block.setLink 0 next⟩ :: chain, by rw [hl],
      ?_, ⟨rfl, hleads⟩, .cons ⟨next, rfl⟩ hchain⟩
    rw [hl, hplaced, placed_append_singleton, ho, List.append_assoc, List.singleton_append]

/-! ### The whole file -/

/-- What the blocks of a written file link to. -/
structure Links where
  /-- The comment of the file. -/
  comment : UInt64
  /-- The history entry. -/
  history : UInt64
  /-- The comment of the history entry. -/
  entryComment : UInt64
  /-- The data group. -/
  dataGroup : UInt64
  /-- The channel group. -/
  group : UInt64
  /-- The records. -/
  data : UInt64
  /-- The master channel. -/
  master : UInt64
  /-- The name of the master channel. -/
  name : UInt64
  /-- The unit of the master channel. -/
  unit : UInt64

/-- The file header of a written file. -/
def header (s : Session) (k : Links) : FileHeader :=
  { FileHeader.new s.startTime with
    firstDataGroup := k.dataGroup, firstHistory := k.history, comment := k.comment }

/-- The channel group of a written file. -/
def group (layout : Layout) (time : TimeAxis) (k : Links) : ChannelGroup :=
  ⟨0, k.master, 0, 0, 0, UInt64.ofNat time.length, 0, UInt32.ofNat layout.recordSize, 0⟩

/-- The master channel of a written file. -/
def master (k : Links) : Channel := { Layout.master with name := k.name, unit := k.unit }

/-- The blocks of a file, where they stand. -/
structure Parts where
  header : Tile
  comment : Tile
  entryComment : Tile
  history : Tile
  /-- The name of the master channel. -/
  name : Tile
  /-- The unit of the master channel. -/
  unit : Tile
  /-- The names of the other channels. -/
  names : List Tile
  master : Tile
  /-- The other channels. -/
  channels : List Tile
  group : Tile
  data : Tile
  dataGroup : Tile

/-- The blocks in the order in which they stand. -/
def Parts.all (p : Parts) : List Tile :=
  [p.header, p.comment, p.entryComment, p.history, p.name, p.unit] ++ p.names ++
    (p.master :: p.channels) ++ [p.group, p.data, p.dataGroup]

lemma Parts.forall_mem_all {p : Parts} {q : Tile → Prop} : (∀ t ∈ p.all, q t) ↔
    q p.header ∧ q p.comment ∧ q p.entryComment ∧ q p.history ∧ q p.name ∧ q p.unit ∧
      (∀ t ∈ p.names, q t) ∧ (∀ t ∈ p.master :: p.channels, q t) ∧ q p.group ∧ q p.data ∧
        q p.dataGroup := by
  simp only [all, List.forall_mem_append, List.forall_mem_cons, List.not_mem_nil, false_implies,
    implies_true, and_true, and_assoc]

/-- The blocks of a written file, part by part. -/
def parts (s : Session) (layout : Layout) (time : TimeAxis) (records : Block) (k : Links)
    (channels : List Channel) (m : Tile) (cs : List Tile) : Parts where
  header := ⟨FileHeader.offset, (s.header k).block⟩
  comment := ⟨k.comment.toNat, TextBlock.block .md (Comment.headerDocument s.comment)⟩
  entryComment := ⟨k.entryComment.toNat, TextBlock.block .md historyComment⟩
  history := ⟨k.history.toNat, HistoryEntry.block ⟨0, k.entryComment, s.startTime⟩⟩
  name := ⟨k.name.toNat, TextBlock.block .tx masterName⟩
  unit := ⟨k.unit.toNat, TextBlock.block .tx masterUnit⟩
  names := nameTiles (layout.channels.zip s.channels) channels
  master := m
  channels := cs
  group := ⟨k.group.toNat, (group layout time k).block⟩
  data := ⟨k.data.toNat, records⟩
  dataGroup := ⟨k.dataGroup.toNat, DataGroup.block ⟨0, k.group, k.data, 0, 0⟩⟩

/-- The file is the identification of the session and its blocks, each where the links to it lead. -/
structure Laid (s : Session) (layout : Layout) (time : TimeAxis) (records : Block)
    (k : Links) (channels : List Channel) (m : Tile) (cs : List Tile) (file : List UInt8) :
    Prop where
  /-- Memory holds the file. -/
  fits : file.length < Buffer.limit
  /-- The blocks are all that follows the identification. -/
  file : file = (Identification.new s.version).encode ++ sequence FileHeader.offset
    ((parts s layout time records k channels m cs).all.map Tile.block)
  placed : placed FileHeader.offset
    ((parts s layout time records k channels m cs).all.map Tile.block) =
      (parts s layout time records k channels m cs).all
  /-- The channels are those of the layout, with links to their names. -/
  named : List.Forall₂ Renamed (layout.channels.zip s.channels) channels
  /-- The master channel and the others are a chain. -/
  leads : Leads k.master.toNat (m :: cs)
  chained : List.Forall₂ Chained (master k :: channels) (m :: cs)

/-- The comments and the history are the first blocks behind the header. -/
lemma run_writeComments {s : Session} {v : List UInt8} {h : Block} {header : UInt64}
    (hv : (v ++ h.bytes).length = n) (hid : h.id.bytes.length = 4)
    (hlinks : h.links.length = 6) (ho : header.toNat = v.length)
    (hrun : (s.writeComments header).run (v ++ h.bytes) = .ok (x, buffer)) :
    ∃ comment entryComment history bs,
      buffer = v ++ ((h.setLink 5 comment).setLink 1 history).bytes ++ sequence n bs ∧
      placed n bs = [⟨comment.toNat, TextBlock.block .md (Comment.headerDocument s.comment)⟩,
        ⟨entryComment.toNat, TextBlock.block .md historyComment⟩,
        ⟨history.toNat, HistoryEntry.block ⟨0, entryComment, s.startTime⟩⟩] := by
  have hstart : v ++ h.bytes = v ++ h.bytes ++ sequence n [] := by rw [Block.sequence, List.append_nil]
  rw [hstart] at hrun
  obtain ⟨comment, _, h1, hrun⟩ := Encode.run_bind_eq_ok_iff.mp hrun
  obtain ⟨rfl, -, hcomment⟩ := run_write_sequence hv h1
  obtain ⟨_, _, h2, hrun⟩ := Encode.run_bind_eq_ok_iff.mp hrun
  obtain rfl := run_patchLink_front hid (by omega) ho h2
  have hv : (v ++ (h.setLink 5 comment).bytes).length = n := by simpa using hv
  obtain ⟨entryComment, _, h3, hrun⟩ := Encode.run_bind_eq_ok_iff.mp hrun
  obtain ⟨rfl, -, hentry⟩ := run_write_sequence hv h3
  obtain ⟨history, _, h4, hrun⟩ := Encode.run_bind_eq_ok_iff.mp hrun
  obtain ⟨rfl, -, hhistory⟩ := run_write_sequence hv h4
  have hl : 1 < (h.setLink 5 comment).links.length := by simp [setLink, hlinks]
  have hid' : (h.setLink 5 comment).id.bytes.length = 4 := hid
  obtain rfl := run_patchLink_front hid' hl ho hrun
  refine ⟨comment, entryComment, history, _, rfl, ?_⟩
  rw [placed_append_singleton, placed_append_singleton, placed_append_singleton, ← hcomment,
    ← hentry, ← hhistory]
  rfl

/-- The channels are a chain of blocks, with the texts that they link to before them. -/
lemma run_writeChannels {s : Session} {layout : Layout} {master : UInt64} (hu : u.length = n)
    (hc : ∀ c ∈ layout.channels, c.next = 0)
    (hrun : (s.writeChannels layout).run (u ++ sequence n l) = .ok (master, buffer)) :
    ∃ name unit channels chain bs, buffer = u ++ sequence n (l ++ bs) ∧
      placed n (l ++ bs) = placed n l ++ ([⟨name.toNat, TextBlock.block .tx masterName⟩,
        ⟨unit.toNat, TextBlock.block .tx masterUnit⟩] ++
          nameTiles (layout.channels.zip s.channels) channels ++ chain) ∧
      List.Forall₂ Renamed (layout.channels.zip s.channels) channels ∧
      Leads master.toNat chain ∧
      List.Forall₂ Chained ({ Layout.master with name := name, unit := unit } :: channels)
        chain := by
  obtain ⟨name, _, h1, hrun⟩ := Encode.run_bind_eq_ok_iff.mp hrun
  obtain ⟨rfl, -, hname⟩ := run_write_sequence hu h1
  obtain ⟨unit, _, h2, hrun⟩ := Encode.run_bind_eq_ok_iff.mp hrun
  obtain ⟨rfl, -, hunit⟩ := run_write_sequence hu h2
  obtain ⟨channels, _, h3, hrun⟩ := Encode.run_bind_eq_ok_iff.mp hrun
  obtain ⟨rfl, hnames, hnamed⟩ := run_writeNames hu h3
  obtain ⟨_, _, h4, hrun⟩ := Encode.run_bind_eq_ok_iff.mp hrun
  obtain ⟨rfl, -, hmaster⟩ := run_write_sequence hu h4
  obtain ⟨_, _, h5, hrun⟩ := Encode.run_bind_eq_ok_iff.mp hrun
  obtain ⟨rfl, rfl⟩ := Encode.run_pure_eq_ok hrun
  have hnext : ∀ c ∈ channels, c.next = 0 :=
    next_eq_zero_of_renamed hnamed fun p hp => hc p.1 (List.of_mem_zip hp).1
  obtain ⟨bs, chain, rfl, hplaced, hleads, hchained⟩ :=
    run_writeChain hu (List.forall_mem_cons.mpr ⟨rfl, hnext⟩) hmaster h5
  have hl : l ++ ([TextBlock.block .tx masterName] ++ [TextBlock.block .tx masterUnit] ++
      nameBlocks (layout.channels.zip s.channels) ++ bs) = l ++ [TextBlock.block .tx masterName] ++
        [TextBlock.block .tx masterUnit] ++ nameBlocks (layout.channels.zip s.channels) ++ bs := by
    simp only [List.append_assoc]
  refine ⟨name, unit, channels, chain, _, by rw [← hl], ?_, hnamed, hleads, hchained⟩
  rw [hl, hplaced, hnames, placed_append_singleton, placed_append_singleton, ← hname, ← hunit]
  simp only [List.append_assoc, List.cons_append, List.nil_append]

/-- The groups and the records between them are the last blocks. -/
lemma run_writeGroups {deflate : Deflate.Compressor} {s : Session} {layout : Layout}
    {time : TimeAxis} {master dataGroup : UInt64} (hu : u.length = n)
    (hrun : (s.writeGroups deflate layout time master).run (u ++ sequence n l) =
      .ok (dataGroup, buffer)) :
    ∃ records block group data bs, s.records layout time = .ok records ∧
      Records.block deflate s.storage (UInt32.ofNat layout.recordSize) records = .ok block ∧
      buffer = u ++ sequence n (l ++ bs) ∧ buffer.length < Buffer.limit ∧
      placed n (l ++ bs) = placed n l ++ [⟨group.toNat, ChannelGroup.block ⟨0, master, 0, 0, 0,
          UInt64.ofNat time.length, 0, UInt32.ofNat layout.recordSize, 0⟩⟩,
        ⟨data.toNat, block⟩, ⟨dataGroup.toNat, DataGroup.block ⟨0, group, data, 0, 0⟩⟩] := by
  obtain ⟨records, _, h1, hrun⟩ := Encode.run_bind_eq_ok_iff.mp hrun
  obtain ⟨hrecords, rfl⟩ := Encode.run_liftM_eq_ok h1
  obtain ⟨group, _, h2, hrun⟩ := Encode.run_bind_eq_ok_iff.mp hrun
  obtain ⟨rfl, -, hgroup⟩ := run_write_sequence hu h2
  obtain ⟨data, _, h3, hrun⟩ := Encode.run_bind_eq_ok_iff.mp hrun
  obtain ⟨block, _, h4, h3⟩ := Encode.run_bind_eq_ok_iff.mp h3
  obtain ⟨hblock, rfl⟩ := Encode.run_liftM_eq_ok h4
  obtain ⟨rfl, -, hdata⟩ := run_write_sequence hu h3
  obtain ⟨rfl, hfits, hdataGroup⟩ := run_write_sequence hu hrun
  refine ⟨records, block, group, data, _, hrecords, hblock,
    by rw [List.append_assoc, List.append_assoc], hfits, ?_⟩
  rw [← List.append_assoc, ← List.append_assoc, placed_append_singleton, placed_append_singleton,
    placed_append_singleton, ← hgroup, ← hdata, ← hdataGroup]
  simp only [List.append_assoc, List.cons_append, List.nil_append]

/-! ### The front -/

lemma length_identification (version : Version) :
    (Identification.new version).encode.length = FileHeader.offset :=
  Identification.length_encode (.new version)

lemma length_id_header (startTime : UInt64) :
    (FileHeader.new startTime).block.id.bytes.length = 4 :=
  BlockId.length_bytes (by simp [FileHeader.block])

/-- The header fills its place before the other blocks, whatever links it has. -/
lemma length_start {v : List UInt8} (hv : v.length = FileHeader.offset) {b : Block}
    (hb : b.bytes.length = 104) : (v ++ b.bytes).length = 168 := by
  rw [List.length_append, hv, hb, FileHeader.offset]

lemma length_bytes_header (startTime : UInt64) :
    (FileHeader.new startTime).block.bytes.length = 104 := by
  rw [length_bytes (length_id_header startTime), FileHeader.size_block]

/-- The blocks behind the header follow it in one sequence. -/
lemma placed_header {h : Block} (hh : h.bytes.length = 104) (bs : List Block) :
    placed FileHeader.offset (h :: bs) = ⟨FileHeader.offset, h⟩ :: placed 168 bs := by
  rw [placed, hh]
  rfl

lemma sequence_header {h : Block} (hh : h.bytes.length = 104) (bs : List Block) :
    sequence FileHeader.offset (h :: bs) = h.bytes ++ sequence 168 bs := by
  rw [Block.sequence, hh]
  rfl

/-- **The file of a session is laid out as its blocks.** -/
theorem laid_of_write {deflate : Deflate.Compressor} {s : Session} {layout : Layout}
    {time : TimeAxis} {file : List UInt8} (hc : ∀ c ∈ layout.channels, c.next = 0)
    (h : (s.write deflate layout time).run [] = .ok ((), file)) :
    ∃ records block k channels m cs, s.records layout time = .ok records ∧
      Records.block deflate s.storage (UInt32.ofNat layout.recordSize) records = .ok block ∧
      s.Laid layout time block k channels m cs file := by
  have hhd := length_id_header s.startTime
  have hheader := length_bytes_header s.startTime
  have hid := length_identification s.version
  obtain ⟨_, _, h0, h⟩ := Encode.run_bind_eq_ok_iff.mp h
  obtain ⟨rfl, -⟩ := Encode.run_bytes_eq_ok h0
  obtain ⟨offset, _, h1, h⟩ := Encode.run_bind_eq_ok_iff.mp h
  obtain ⟨rfl, -, ho⟩ := run_write_eq_ok h1
  rw [List.nil_append] at ho h
  generalize hv : (Identification.new s.version).encode = v at h ho hid
  have hmod : v.length % 8 = 0 := by rw [hid]; rfl
  have ho' : offset.toNat = v.length := by rw [ho, Buffer.alignUp_of_mod hmod]
  rw [append_of_mod hmod] at h
  obtain ⟨_, _, h2, h⟩ := Encode.run_bind_eq_ok_iff.mp h
  obtain ⟨comment, entryComment, history, bs, rfl, hcomments⟩ :=
    run_writeComments (length_start hid hheader) hhd rfl ho' h2
  obtain ⟨master, _, h3, h⟩ := Encode.run_bind_eq_ok_iff.mp h
  have hu := length_start hid (b := ((FileHeader.new s.startTime).block.setLink 5 comment).setLink 1
    history) (by rw [length_bytes_setLink, length_bytes_setLink, hheader])
  obtain ⟨name, unit, channels, chain, ts, rfl, hchannels, hnamed, hleads, hchained⟩ :=
    run_writeChannels hu hc h3
  obtain ⟨m, cs, -, -, rfl⟩ := List.forall₂_cons_left_iff.mp hchained
  obtain ⟨dataGroup, _, h4, h⟩ := Encode.run_bind_eq_ok_iff.mp h
  obtain ⟨records, block, group, data, gs, hrecords, hblock, rfl, hfits, hgroups⟩ :=
    run_writeGroups hu h4
  have hhd' : (((FileHeader.new s.startTime).block.setLink 5 comment).setLink 1
    history).id.bytes.length = 4 := hhd
  obtain rfl := run_patchLink_front hhd' (by simp [setLink, FileHeader.block]) ho' h
  have hh : ((((FileHeader.new s.startTime).block.setLink 5 comment).setLink 1 history).setLink 0
      dataGroup).bytes.length = 104 := by
    rw [length_bytes_setLink, length_bytes_setLink, length_bytes_setLink, hheader]
  let k : Links :=
    ⟨comment, history, entryComment, dataGroup, group, data, master, name, unit⟩
  have hparts : placed FileHeader.offset (((((FileHeader.new s.startTime).block.setLink 5
      comment).setLink 1 history).setLink 0 dataGroup) :: (bs ++ ts ++ gs)) =
        (parts s layout time block k channels m cs).all := by
    rw [placed_header hh, hgroups, hchannels, hcomments]
    simp only [Parts.all, parts, List.cons_append, List.nil_append, List.append_assoc]
    rfl
  have hblocks := congrArg (List.map Tile.block) hparts
  rw [map_block_placed] at hblocks
  refine ⟨records, block, k, channels, m, cs, hrecords, hblock, ⟨?_, ?_, ?_, hnamed, hleads,
    hchained⟩⟩
  · simpa only [List.length_append, length_bytes_setLink] using hfits
  · rw [← hblocks, sequence_header hh, hv, List.append_assoc]
  · rw [← hblocks, hparts]

/-! ### The blocks of the file -/

/-- A channel links to its name, and says otherwise what it is to say. -/
def Named (file : List UInt8) (p : Channel × NamedChannel) (c : Channel) : Prop :=
  c = { p.1 with name := c.name } ∧ At file c.name.toNat (TextBlock.block .tx p.2.name)

/-- Channels stand in a chain that a link leads to, each behind the one before it. -/
def ChainAt (file : List UInt8) (link : UInt64) : List Channel → Prop
  | [] => link = 0
  | c :: cs =>
    ∃ next, At file link.toNat (Channel.block { c with next := next }) ∧
      (cs ≠ [] → link < next) ∧ ChainAt file next cs

/-- The file has the blocks of the session, each where the links to it lead. -/
structure Written (s : Session) (layout : Layout) (time : TimeAxis) (records : Block)
    (k : Links) (channels : List Channel) (file : List UInt8) : Prop where
  /-- The file starts with its identification. -/
  identification : ∃ rest, file = (Identification.new s.version).encode ++ rest
  header : At file FileHeader.offset (s.header k).block
  comment : At file k.comment.toNat (TextBlock.block .md (Comment.headerDocument s.comment))
  history : At file k.history.toNat (HistoryEntry.block ⟨0, k.entryComment, s.startTime⟩)
  entryComment : At file k.entryComment.toNat (TextBlock.block .md historyComment)
  dataGroup : At file k.dataGroup.toNat (DataGroup.block ⟨0, k.group, k.data, 0, 0⟩)
  group : At file k.group.toNat (group layout time k).block
  data : At file k.data.toNat records
  name : At file k.name.toNat (TextBlock.block .tx masterName)
  unit : At file k.unit.toNat (TextBlock.block .tx masterUnit)
  names : List.Forall₂ (Named file) (layout.channels.zip s.channels) channels
  chain : ChainAt file k.master (master k :: channels)

lemma named_of_renamed {file : List UInt8} {ps : List (Channel × NamedChannel)}
    {channels : List Channel} (h : List.Forall₂ Renamed ps channels)
    (hat : ∀ t ∈ nameTiles ps channels, At file t.offset t.block) :
    List.Forall₂ (Named file) ps channels := by
  induction h with
  | nil => exact .nil
  | cons hc _ ih =>
    have hname := hat _ List.mem_cons_self
    exact .cons ⟨hc, hname⟩ (ih fun t ht => hat t (List.mem_cons_of_mem _ ht))

lemma chainAt_of_leads {file : List UInt8} {link : UInt64} {cs : List Channel} {chain : List Tile}
    (hl : Leads link.toNat chain) (hc : List.Forall₂ Chained cs chain)
    (hat : ∀ t ∈ chain, At file t.offset t.block)
    (hlt : chain.Pairwise fun t t' => t.offset < t'.offset) : ChainAt file link cs := by
  induction hc generalizing link with
  | nil => exact UInt64.toNat_inj.mp hl
  | @cons c t cs chain hct hcs ih =>
    obtain ⟨next, hnext⟩ := hct
    obtain ⟨ho, hl⟩ := hl
    obtain ⟨hfirst, hlt⟩ := List.pairwise_cons.mp hlt
    have hlink : t.links.headD 0 = next.toNat := by
      rw [Tile.links, hnext]
      rfl
    rw [hlink] at hl
    refine ⟨next, ?_, fun hne => ?_, ih hl (fun t ht => hat t (List.mem_cons_of_mem _ ht)) hlt⟩
    · rw [ho, ← hnext]
      exact hat t List.mem_cons_self
    · -- the link leads to the next block, which stands behind this one
      cases hcs with
      | nil => exact absurd rfl hne
      | cons _ _ =>
        rw [UInt64.lt_iff_toNat_lt, ho, hl.1]
        exact hfirst _ List.mem_cons_self

section Laid

variable {s : Session} {layout : Layout} {time : TimeAxis} {records : Block} {k : Links}
  {channels : List Channel} {m : Tile} {cs : List Tile} {file : List UInt8}

lemma map_id_nameTiles {ps : List (Channel × NamedChannel)} (h : List.Forall₂ Renamed ps channels) :
    (nameTiles ps channels).map Tile.id = List.replicate ps.length .tx := by
  induction h with
  | nil => rfl
  | cons _ _ ih => exact congrArg (BlockId.tx :: ·) ih

lemma map_id_chained (h : List.Forall₂ Chained channels cs) :
    cs.map Tile.id = List.replicate channels.length .cn := by
  induction h with
  | nil => rfl
  | @cons c t _ _ hc _ ih =>
    obtain ⟨next, hnext⟩ := hc
    rw [List.map_cons, ih, Tile.id, hnext]
    rfl

/-- The ids of the blocks of a file with `n` channels besides the master channel. -/
def ids (n : Nat) (records : BlockId) : List BlockId :=
  [.hd, .md, .md, .fh] ++ List.replicate (n + 2) .tx ++ List.replicate (n + 1) .cn ++
    [.cg, records, .dg]

lemma mem_ids {n : Nat} {records i : BlockId} (h : i ∈ ids n records) :
    i = records ∨ i ∈ [.hd, .fh, .dg, .cg, .cn, .tx, .md, .dt, .dz] := by
  simp only [ids, List.mem_append, List.mem_cons, List.mem_replicate, List.not_mem_nil, or_false] at h
  rcases h with (((rfl | rfl | rfl | rfl) | ⟨-, rfl⟩) | ⟨-, rfl⟩) | rfl | rfl | rfl <;> simp

lemma Laid.map_id (h : s.Laid layout time records k channels m cs file) :
    (parts s layout time records k channels m cs).all.map Tile.id =
      ids (layout.channels.zip s.channels).length records.id := by
  have hl : (layout.channels.zip s.channels).length = channels.length := h.named.length_eq
  have hchain := map_id_chained h.chained
  have hnames := map_id_nameTiles h.named
  rw [Parts.all, List.map_append, List.map_append, List.map_append, ids]
  change _ ++ (nameTiles _ channels).map Tile.id ++ (m :: cs).map Tile.id ++ _ = _
  rw [hchain, hnames, List.length_cons, hl]
  rfl

/-- The id of each block has four characters. -/
lemma Laid.length_id (h : s.Laid layout time records k channels m cs file)
    (hrecords : records.id.bytes.length = 4) :
    ∀ b ∈ (parts s layout time records k channels m cs).all.map Tile.block, b.id.bytes.length = 4 := by
  intro b hb
  obtain ⟨t, ht, rfl⟩ := List.mem_map.mp hb
  have hid : t.id ∈ ids (layout.channels.zip s.channels).length records.id := by
    rw [← h.map_id]
    exact List.mem_map_of_mem ht
  rcases mem_ids hid with ho | hmem
  · rw [← ho] at hrecords
    exact hrecords
  · exact BlockId.length_bytes hmem

lemma Laid.at (h : s.Laid layout time records k channels m cs file)
    (hrecords : records.id.bytes.length = 4) {t : Tile}
    (ht : t ∈ (parts s layout time records k channels m cs).all) : At file t.offset t.block := by
  have hholds : Holds FileHeader.offset
      ((parts s layout time records k channels m cs).all.map Tile.block) file :=
    ⟨h.fits, _, [], length_identification s.version, by rw [List.append_nil]; exact h.file⟩
  rw [← h.placed] at ht
  exact hholds.at_placed (by decide) (h.length_id hrecords) ht

end Laid

/-- **The file of a session has its blocks.** -/
theorem written_of_write {deflate : Deflate.Compressor} {s : Session} {layout : Layout}
    {time : TimeAxis} {file : List UInt8} (hc : ∀ c ∈ layout.channels, c.next = 0)
    (h : (s.write deflate layout time).run [] = .ok ((), file)) :
    ∃ records block k channels, s.records layout time = .ok records ∧
      Records.block deflate s.storage (UInt32.ofNat layout.recordSize) records = .ok block ∧
      s.Written layout time block k channels file := by
  obtain ⟨records, block, k, channels, m, cs, hrecords, hblock, hlaid⟩ := laid_of_write hc h
  have hat : ∀ t ∈ (parts s layout time block k channels m cs).all, At file t.offset t.block :=
    fun t ht => hlaid.at (Records.length_id_block hblock) ht
  obtain ⟨hheader, hcomment, hentry, hhistory, hname, hunit, hnames, hchain, hgroup, hdata,
    hdataGroup⟩ := Parts.forall_mem_all.mp hat
  have hlt := pairwise_placed FileHeader.offset
    ((parts s layout time block k channels m cs).all.map Tile.block)
  rw [hlaid.placed] at hlt
  have hltchain : (m :: cs).Pairwise fun t t' => t.offset < t'.offset :=
    hlt.sublist ((List.sublist_append_right ..).trans (List.sublist_append_left ..))
  exact ⟨records, block, k, channels, hrecords, hblock, ⟨⟨_, hlaid.file⟩, hheader, hcomment,
    hhistory, hentry, hdataGroup, hgroup, hdata, hname, hunit, named_of_renamed hlaid.named hnames,
    chainAt_of_leads hlaid.leads hlaid.chained hchain hltchain⟩⟩

end Session

end Mdf
