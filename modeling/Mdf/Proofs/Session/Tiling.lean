import Mdf.Proofs.Block.Tiling
import Mdf.Proofs.Session.RoundTrip

/-!
# The blocks of the file of a session

`tiles_of_file` is the main statement: the file of a session consists of the header, two comments
and the history, the texts, the channels, and the groups with the records between them, in this
order and without gaps.  `Parts` names these blocks, and `Parts.Linked` says where their links lead.
From it follows that every link leads to a block of the kind that belongs there, or to none
(`Parts.Linked.resolves`).
-/

namespace Mdf

open Block

namespace Block

/-- Which block a link may lead to: the id of the block that has it, its index, and the id of the
block that it leads to. -/
def slots : List (BlockId × Nat × BlockId) :=
  [(.hd, 0, .dg), (.hd, 1, .fh), (.hd, 5, .md), (.fh, 1, .md), (.dg, 1, .cg), (.dg, 2, .dt),
    (.dg, 2, .dz), (.cg, 1, .cn), (.cn, 0, .cn), (.cn, 2, .tx), (.cn, 6, .tx)]

namespace Tile

/-- A block of this id with these links. -/
def Is (t : Tile) (id : BlockId) (links : List Nat) : Prop := t.id = id ∧ t.links = links

/-- Each link of the block leads to none, or to one of these blocks that may be there. -/
def Resolves (ts : List Tile) (t : Tile) : Prop :=
  ∀ i o, t.links[i]? = some o → o = 0 ∨ ∃ t' ∈ ts, t'.offset = o ∧ (t.id, i, t'.id) ∈ slots

variable {ts : List Tile} {t : Tile} {id : BlockId} {links : List Nat}

lemma Is.resolves (h : t.Is id links) (hl : ∀ q ∈ links.zipIdx,
    q.1 = 0 ∨ ∃ t' ∈ ts, t'.offset = q.1 ∧ (id, q.2, t'.id) ∈ slots) : t.Resolves ts := by
  obtain ⟨rfl, rfl⟩ := h
  intro i o ho
  exact hl (o, i) (List.mem_zipIdx_iff_getElem?.mpr ho)

lemma Is.resolves_nil (h : t.Is id []) : t.Resolves ts := h.resolves (by simp)

end Tile

end Block

/-- Along a chain the first link of each block leads to none, or to another block of the chain. -/
lemma Block.Leads.of_mem {link : Nat} {ts : List Tile} (h : Leads link ts) {t : Tile} (ht : t ∈ ts) :
    t.links.headD 0 = 0 ∨ ∃ t' ∈ ts, t'.offset = t.links.headD 0 := by
  induction ts generalizing link with
  | nil => simp at ht
  | cons c ts ih =>
    obtain ⟨-, hrest⟩ := h
    rcases List.mem_cons.mp ht with rfl | ht
    · cases ts with
      | nil => exact .inl hrest
      | cons d ts => exact .inr ⟨d, by simp, hrest.1.symm⟩
    · rcases ih hrest ht with hnone | ⟨t', ht', ho⟩
      · exact .inl hnone
      · exact .inr ⟨t', List.mem_cons_of_mem _ ht', ho⟩

namespace Session

namespace Parts

/-- The links of the blocks, where the data are of the given id. -/
structure Linked (p : Parts) (id : BlockId) : Prop where
  header : p.header.Is .hd [p.dataGroup.offset, p.history.offset, 0, 0, 0, p.comment.offset]
  comment : p.comment.Is .md []
  entryComment : p.entryComment.Is .md []
  history : p.history.Is .fh [0, p.entryComment.offset]
  name : p.name.Is .tx []
  unit : p.unit.Is .tx []
  names : ∀ t ∈ p.names, t.Is .tx []
  master : ∃ next, p.master.Is .cn [next, 0, p.name.offset, 0, 0, 0, p.unit.offset, 0]
  /-- Each channel has a name of its own. -/
  channels : List.Forall₂ (fun c name => ∃ next, c.Is .cn [next, 0, name.offset, 0, 0, 0, 0, 0])
    p.channels p.names
  /-- The master channel leads to the first of the other channels, and so on up to the last. -/
  chain : Leads p.master.offset (p.master :: p.channels)
  group : p.group.Is .cg [0, p.master.offset, 0, 0, 0, 0]
  data : p.data.Is id []
  dataGroup : p.dataGroup.Is .dg [0, p.group.offset, p.data.offset, 0]

variable {p : Parts} {id : BlockId}

/-- What the channels link to, the master channel with its unit and the others without. -/
lemma Linked.is_channel (h : p.Linked id) {c : Tile} (hc : c ∈ p.master :: p.channels) :
    ∃ next unit, ∃ name ∈ p.all, name.id = .tx ∧ (unit = 0 ∨ unit = p.unit.offset) ∧
      c.Is .cn [next, 0, name.offset, 0, 0, 0, unit, 0] := by
  rcases List.mem_cons.mp hc with rfl | hc
  · obtain ⟨next, hmaster⟩ := h.master
    exact ⟨next, _, p.name, by simp [all], h.name.1, .inr rfl, hmaster⟩
  · obtain ⟨name, hname, next, his⟩ := exists_of_mem_forall₂ h.channels hc
    exact ⟨next, 0, name, by simp [all, hname], (h.names name hname).1, .inl rfl, his⟩

lemma Linked.resolves_channel (h : p.Linked id) {c : Tile} (hc : c ∈ p.master :: p.channels) :
    c.Resolves p.all := by
  obtain ⟨next, unit, name, hname, htx, hunit, his⟩ := h.is_channel hc
  have hnext : next = 0 ∨ ∃ t ∈ p.all, t.offset = next ∧ (BlockId.cn, 0, t.id) ∈ slots := by
    have hleads := h.chain.of_mem hc
    rw [his.2] at hleads
    rcases hleads with hnone | ⟨t, ht, ho⟩
    · exact .inl hnone
    · obtain ⟨_, _, _, -, -, -, hcn⟩ := h.is_channel ht
      refine .inr ⟨t, ?_, ho, by simp [hcn.1, slots]⟩
      rcases List.mem_cons.mp ht with rfl | ht <;> simp [all, *]
  have hunit : unit = 0 ∨ ∃ t ∈ p.all, t.offset = unit ∧ (BlockId.cn, 6, t.id) ∈ slots := by
    rcases hunit with rfl | rfl
    · exact .inl rfl
    · exact .inr ⟨p.unit, by simp [all], rfl, by simp [h.unit.1, slots]⟩
  refine his.resolves ?_
  simp only [List.zipIdx_cons, List.zipIdx_nil, List.forall_mem_cons, true_or, true_and]
  exact ⟨hnext, .inr ⟨name, hname, rfl, by simp [htx, slots]⟩, hunit, by simp⟩

/-- **Every link leads to a block of the kind that belongs there, or to none.** -/
theorem Linked.resolves (h : p.Linked id) (hid : id = .dt ∨ id = .dz) :
    ∀ t ∈ p.all, t.Resolves p.all := by
  obtain ⟨next, hmaster⟩ := h.master
  have hdata : (BlockId.dg, 2, p.data.id) ∈ slots := by
    rw [h.data.1]
    rcases hid with rfl | rfl <;> simp [slots]
  refine forall_mem_all.mpr ⟨?_, h.comment.resolves_nil, h.entryComment.resolves_nil, ?_,
    h.name.resolves_nil, h.unit.resolves_nil, fun t ht => (h.names t ht).resolves_nil,
    fun c hc => h.resolves_channel hc, ?_, h.data.resolves_nil, ?_⟩
  · refine h.header.resolves ?_
    simp only [List.zipIdx_cons, List.zipIdx_nil, List.forall_mem_cons, true_or, true_and]
    exact ⟨.inr ⟨p.dataGroup, by simp [all], rfl, by simp [h.dataGroup.1, slots]⟩,
      .inr ⟨p.history, by simp [all], rfl, by simp [h.history.1, slots]⟩,
      .inr ⟨p.comment, by simp [all], rfl, by simp [h.comment.1, slots]⟩, by simp⟩
  · refine h.history.resolves ?_
    simp only [List.zipIdx_cons, List.zipIdx_nil, List.forall_mem_cons, true_or, true_and]
    exact ⟨.inr ⟨p.entryComment, by simp [all], rfl, by simp [h.entryComment.1, slots]⟩, by simp⟩
  · refine h.group.resolves ?_
    simp only [List.zipIdx_cons, List.zipIdx_nil, List.forall_mem_cons, true_or, true_and]
    exact ⟨.inr ⟨p.master, by simp [all], rfl, by simp [hmaster.1, slots]⟩, by simp⟩
  · refine h.dataGroup.resolves ?_
    simp only [List.zipIdx_cons, List.zipIdx_nil, List.forall_mem_cons, true_or, true_and]
    exact ⟨.inr ⟨p.group, by simp [all], rfl, by simp [h.group.1, slots]⟩,
      .inr ⟨p.data, by simp [all], rfl, hdata⟩, by simp⟩

end Parts

/-! ### The parts of a written file -/

section Laid

variable {s : Session} {layout : Layout} {time : TimeAxis} {records : Block} {k : Links}
  {channels : List Channel} {m : Tile} {cs : List Tile} {file : List UInt8}

lemma is_name {ps : List (Channel × NamedChannel)} (h : List.Forall₂ Renamed ps channels) :
    ∀ t ∈ nameTiles ps channels, t.Is .tx [] := by
  induction h with
  | nil => simp [nameTiles]
  | cons _ _ ih => exact List.forall_mem_cons.mpr ⟨⟨rfl, rfl⟩, ih⟩

/-- Each channel links to the name that was written for it. -/
lemma is_channels {ps : List (Channel × NamedChannel)} (hp : ∀ p ∈ ps, p.1.unit = 0 ∧ p.1.comment = 0)
    (h : List.Forall₂ Renamed ps channels) (hc : List.Forall₂ Chained channels cs) :
    List.Forall₂ (fun c name : Tile => ∃ next, c.Is .cn [next, 0, name.offset, 0, 0, 0, 0, 0]) cs
      (nameTiles ps channels) := by
  induction h generalizing cs with
  | nil =>
    cases hc
    exact .nil
  | @cons p c ps channels hpc _ ih =>
    cases hc with
    | @cons _ t _ ts hct hrest =>
      obtain ⟨next, hnext⟩ := hct
      obtain ⟨⟨hunit, hcomment⟩, hps⟩ := List.forall_mem_cons.mp hp
      refine .cons ⟨next.toNat, ?_, ?_⟩ (ih hps hrest)
      · rw [Tile.id, hnext]
        rfl
      · rw [Tile.links, hnext, hpc]
        simp only [Channel.block, hunit, hcomment]
        rfl

lemma Laid.linked (hc : ∀ c ∈ layout.channels, c.unit = 0 ∧ c.comment = 0)
    (h : s.Laid layout time records k channels m cs file) (hrecords : records.links = []) :
    (parts s layout time records k channels m cs).Linked records.id := by
  obtain ⟨hm, -⟩ := h.leads
  obtain ⟨⟨next, hnext⟩, hchained⟩ := List.forall₂_cons.mp h.chained
  refine ⟨⟨rfl, rfl⟩, ⟨rfl, rfl⟩, ⟨rfl, rfl⟩, ⟨rfl, rfl⟩, ⟨rfl, rfl⟩, ⟨rfl, rfl⟩,
    is_name h.named, ⟨next.toNat, ?_, ?_⟩,
    is_channels (fun p hp => hc p.1 (List.of_mem_zip hp).1) h.named hchained, ?_, ⟨rfl, ?_⟩,
    ⟨rfl, ?_⟩, ⟨rfl, rfl⟩⟩
  · change m.block.id = .cn
    rw [hnext]
    rfl
  · change m.block.links.map UInt64.toNat = _
    rw [hnext]
    rfl
  · change Leads m.offset (m :: cs)
    rw [← hm]
    exact h.leads
  · change [0, k.master.toNat, 0, 0, 0, 0] = [0, m.offset, 0, 0, 0, 0]
    rw [hm]
  · change records.links.map UInt64.toNat = []
    rw [hrecords, List.map_nil]

/-- The data group is the last block: it ends with the file, and begins at a multiple of eight. -/
lemma Laid.end_dataGroup (h : s.Laid layout time records k channels m cs file) :
    k.dataGroup.toNat + 64 = file.length ∧ k.dataGroup.toNat % 8 = 0 := by
  have hdg : (DataGroup.block ⟨0, k.group, k.data, 0, 0⟩).bytes.length = 64 := by
    rw [length_bytes (BlockId.length_bytes (by simp [DataGroup.block])), DataGroup.size_block]
  have hlast : (parts s layout time records k channels m cs).all.getLast? =
      some ⟨k.dataGroup.toNat, DataGroup.block ⟨0, k.group, k.data, 0, 0⟩⟩ := by
    rw [Parts.all, List.getLast?_append]
    rfl
  obtain ⟨front, hall⟩ := List.getLast?_eq_some_iff.mp hlast
  have hplaced := h.placed
  have hfile := h.file
  rw [hall, List.map_append, List.map_singleton] at hplaced hfile
  rw [placed_append_singleton] at hplaced
  have hafter : after FileHeader.offset (front.map Tile.block) = k.dataGroup.toNat :=
    congrArg Tile.offset (List.singleton_inj.mp (List.append_inj' hplaced rfl).2)
  have hmod : after FileHeader.offset (front.map Tile.block) % 8 = 0 := Buffer.alignUp_mod _
  have hend := end_sequence_append_singleton FileHeader.offset (front.map Tile.block)
    (DataGroup.block ⟨0, k.group, k.data, 0, 0⟩)
  have hlength := congrArg List.length hfile
  rw [List.length_append, length_identification, hend, hdg, hafter] at hlength
  exact ⟨hlength.symm, hafter ▸ hmod⟩

/-- The last block of a file ends at a multiple of eight. -/
lemma Laid.length_mod (h : s.Laid layout time records k channels m cs file) :
    file.length % 8 = 0 := by
  obtain ⟨hend, hmod⟩ := h.end_dataGroup
  omega

end Laid

/-- The names of the channels of a layout are those of the session. -/
lemma map_block_nameTiles {ps : List (Channel × NamedChannel)} {channels : List Channel}
    (h : List.Forall₂ Renamed ps channels) :
    (nameTiles ps channels).map Tile.block = nameBlocks ps := by
  induction h with
  | nil => rfl
  | cons _ _ ih => exact congrArg (_ :: ·) ih

/-- **The file of a session is a sequence of blocks without gaps, linked with each other.**  With `n`
channels they are the header, its comment, the comment of the history and the history, `n + 2` texts,
`n + 1` channels, and the channel group, the records and the data group. -/
theorem tiles_of_file {deflate : Deflate.Compressor} {version : Version} {ops : List Operation}
    {s : Session} {bytes : List UInt8} (hs : s = ((new version).run ops).2)
    (hb : s.file deflate = .ok bytes) :
    ∃ p : Parts, Tiles bytes FileHeader.offset p.all ∧
      p.all.map Tile.id = ids s.channelCount (Records.id s.storage) ∧
      (∀ t ∈ p.all, t.Resolves p.all) ∧ p.Linked (Records.id s.storage) ∧
      p.name.block = TextBlock.block .tx "time" ∧ p.unit.block = TextBlock.block .tx "s" ∧
      p.names.map Tile.block =
        ((new version).addedBy ops).map fun c => TextBlock.block .tx c.name := by
  obtain ⟨time, layout, ht, hl, hwrite⟩ := file_eq_ok hb
  have hpack : Layout.pack 8 (encodings s.channels) = .ok layout := hl
  have hvalue : ∀ c ∈ layout.channels, c.next = 0 ∧ c.unit = 0 ∧ c.comment = 0 := by
    intro c hc
    rw [(Layout.eq_value (by decide) hpack c hc).1]
    exact ⟨rfl, rfl, rfl⟩
  obtain ⟨records, block, k, channels, m, cs, -, hblock, hlaid⟩ :=
    laid_of_write (fun c hc => (hvalue c hc).1) hwrite
  obtain ⟨hid, hlinks⟩ := Records.block_form hblock
  have hlinked := hlaid.linked (fun c hc => (hvalue c hc).2) hlinks
  rw [hid] at hlinked
  have hlength : layout.channels.length = s.channels.length := by
    rw [Layout.length_channels hpack, encodings, List.length_map]
  have hzip : (layout.channels.zip s.channels).length = s.channelCount := by
    rw [List.length_zip, hlength, Nat.min_self]
    rfl
  have hchannels : s.channels = (new version).addedBy ops := by
    rw [hs, channels_run]
    rfl
  refine ⟨parts s layout time block k channels m cs, ?_, ?_, hlinked.resolves ?_, hlinked, rfl, rfl,
    ?_⟩
  · have htiles := (tiles_placed (hlaid.length_id (Records.length_id_block hblock)) (by decide)
      (length_identification s.version) hlaid.file hlaid.fits hlaid.length_mod).2
    rwa [hlaid.placed] at htiles
  · rw [hlaid.map_id, hzip, hid]
  · unfold Records.id
    split
    · exact .inl rfl
    · exact .inr rfl
  · have hnames : nameBlocks (layout.channels.zip s.channels) =
        ((layout.channels.zip s.channels).map Prod.snd).map fun c => TextBlock.block .tx c.name := by
      rw [List.map_map]
      rfl
    change (nameTiles _ channels).map Tile.block = _
    rw [map_block_nameTiles hlaid.named, hnames, List.map_snd_zip (Nat.le_of_eq hlength.symm),
      hchannels]

theorem tiles_of_file_floats :
    ∃ bytes, floats.file Deflate.storing = .ok bytes ∧
      ∃ p : Parts, Tiles bytes 64 p.all ∧
        p.all.map Tile.id = [.hd, .md, .md, .fh, .tx, .tx, .tx, .tx, .cn, .cn, .cn, .cg, .dz, .dg] ∧
        p.names.map Tile.block = [TextBlock.block .tx "u8", TextBlock.block .tx "f64"] := by
  have hs : floats = ((new .v410).run floatOperations).2 := rfl
  obtain ⟨bytes, hb⟩ := exists_file_floats
  obtain ⟨p, htiles, hids, -, -, -, -, hnames⟩ := tiles_of_file hs hb
  exact ⟨bytes, hb, p, htiles, hids, hnames⟩

end Session

end Mdf
