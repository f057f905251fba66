import Mathlib.Data.List.Flatten
import Mathlib.Tactic.Common
import Mdf.Proofs.Result
import Mdf.Proofs.Sample
import Mdf.Proofs.Session.Operations
import Mdf.Session.Layout

/-!
# The records of a session

`Session.row s time i` is the record at an index: the time, and a sample of each channel, without
gaps.  The records that a session packs are these rows, one after the other
(`records_eq_ok`), and each sample stands in its row where the layout says (`row_split`).
-/

namespace Mdf

/-! ### The layout -/

namespace Layout

variable {start : Nat} {e : Encoding} {es : List Encoding} {layout : Layout}

lemma pack_cons_eq_ok (h : pack start (e :: es) = .ok layout) :
    start + e.byteSize < sizeBound ∧ ∃ rest, pack (start + e.byteSize) es = .ok rest ∧
      layout = ⟨Channel.value e (UInt32.ofNat start) :: rest.channels, rest.recordSize⟩ := by
  obtain ⟨e', he, hp⟩ := bind_eq_ok_iff.mp h
  have hee : e' = e := by
    unfold Encoding.validate at he
    split at he
    · cases he
      rfl
    · cases he
  subst hee
  split at hp
  · rename_i hs
    obtain ⟨rest, hr, hl⟩ := bind_eq_ok_iff.mp hp
    cases hl
    exact ⟨hs, rest, hr, rfl⟩
  · cases hp

lemma start_le_recordSize (h : pack start es = .ok layout) : start ≤ layout.recordSize := by
  induction es generalizing start layout with
  | nil =>
    cases h
    exact Nat.le_refl _
  | cons e es ih =>
    obtain ⟨-, rest, hr, rfl⟩ := pack_cons_eq_ok h
    have hle := ih hr
    exact Nat.le_trans (Nat.le_add_right ..) hle

lemma recordSize_lt (hs : start < sizeBound) (h : pack start es = .ok layout) :
    layout.recordSize < sizeBound := by
  induction es generalizing start layout with
  | nil =>
    cases h
    exact hs
  | cons e es ih =>
    obtain ⟨hs, rest, hr, rfl⟩ := pack_cons_eq_ok h
    have hlt := ih hs hr
    exact hlt

lemma length_channels (h : pack start es = .ok layout) : layout.channels.length = es.length := by
  induction es generalizing start layout with
  | nil =>
    cases h
    rfl
  | cons e es ih =>
    obtain ⟨-, rest, hr, rfl⟩ := pack_cons_eq_ok h
    rw [List.length_cons, ih hr, List.length_cons]

/-- A channel of a layout is a plain channel of values, within the record. -/
lemma eq_value (hs : start < sizeBound) (h : pack start es = .ok layout) :
    ∀ c ∈ layout.channels, c = Channel.value c.encoding c.byteOffset ∧
      c.byteOffset.toNat + c.encoding.byteSize ≤ layout.recordSize := by
  induction es generalizing start layout with
  | nil =>
    cases h
    simp
  | cons e es ih =>
    obtain ⟨hlt, rest, hr, rfl⟩ := pack_cons_eq_ok h
    have hle := start_le_recordSize hr
    refine List.forall_mem_cons.mpr ⟨⟨rfl, ?_⟩, ih hlt hr⟩
    have ho : (UInt32.ofNat start).toNat = start := UInt32.toNat_ofNat_of_lt' hs
    simpa only [Channel.value, ho] using hle

end Layout

namespace Session

variable {i start : Nat} {cs : List NamedChannel} {layout : Layout}

/-- The samples of channels at an index. -/
def cells (i : Nat) (cs : List NamedChannel) : List UInt8 := cs.flatMap fun c => c.samples.bytesAt i

/-- The encodings of channels. -/
def encodings (cs : List NamedChannel) : List Encoding := cs.map fun c => c.kind.encoding

/-! ### Packing one record -/

lemma slice_middle {α : Type} (u v w : List α) :
    Checked.slice (u ++ v ++ w) u.length (u.length + v.length) = .ok v := by
  rw [Checked.slice_of_le (Nat.le_add_right ..) (by simp), ← List.length_append,
    List.take_left, List.drop_left]

lemma overwrite_middle (u w : List UInt8) {v v' : List UInt8} (h : v'.length = v.length) :
    Buffer.overwrite (u ++ v ++ w) u.length (u.length + v.length) v' = .ok (u ++ v' ++ w) := by
  have hd : (u ++ v ++ w).drop (u.length + v.length) = w := by
    rw [← List.length_append, List.drop_left]
  rw [Buffer.overwrite, slice_middle, ok_bind, Checked.fill_of_length h, ok_bind, hd,
    List.append_assoc u, List.take_left]
  rfl

lemma packSample_eq_ok {c : Channel} {nc : NamedChannel} {done blank : List UInt8}
    (hi : i < nc.samples.length) (ho : c.byteOffset.toNat = done.length)
    (he : c.encoding = nc.kind.encoding) (hb : nc.kind.bytes ≤ blank.length) :
    packSample i (done ++ blank) (c, nc) =
      .ok (done ++ nc.samples.bytesAt i ++ blank.drop nc.kind.bytes) := by
  have hk : (blank.take nc.kind.bytes).length = nc.kind.bytes := by
    rw [List.length_take, Nat.min_eq_left hb]
  have hstop : c.stop = .ok (done.length + (blank.take nc.kind.bytes).length) := by
    rw [Channel.stop_eq, he, Kind.byteSize_encoding, ho, hk]
  have hsample : nc.samples.encode i (blank.take nc.kind.bytes).length =
      .ok (nc.samples.bytesAt i) := by
    rw [hk]
    exact Samples.encode_of_lt hi
  have hlen : (nc.samples.bytesAt i).length = (blank.take nc.kind.bytes).length := by
    rw [hk]
    exact Samples.length_bytesAt hi
  have hsplit : done ++ blank = done ++ blank.take nc.kind.bytes ++ blank.drop nc.kind.bytes := by
    rw [List.append_assoc, List.take_append_drop]
  simp only [packSample, hstop, ho, hsplit, slice_middle, hsample, overwrite_middle _ _ hlen,
    liftM_ok_fault, ok_bind]

/-- Samples packed behind what is done fill the rest of the record. -/
lemma foldlM_packSample {done blank : List UInt8} (hs : start < Layout.sizeBound)
    (hp : Layout.pack start (encodings cs) = .ok layout) (hd : done.length = start)
    (hb : start + blank.length = layout.recordSize) (hi : ∀ c ∈ cs, i < c.samples.length) :
    (layout.channels.zip cs).foldlM (packSample i) (done ++ blank) = .ok (done ++ cells i cs) := by
  induction cs generalizing start layout done blank with
  | nil =>
    cases hp
    have hblank : blank = [] := List.length_eq_zero_iff.mp (by simpa using hb)
    rw [hblank]
    rfl
  | cons c cs ih =>
    obtain ⟨hlt, rest, hr, rfl⟩ := Layout.pack_cons_eq_ok hp
    obtain ⟨hc, hcs⟩ := List.forall_mem_cons.mp hi
    have hle := Layout.start_le_recordSize hr
    simp only [Kind.byteSize_encoding] at hle hb hr hlt
    have ho : (UInt32.ofNat start).toNat = done.length := by
      rw [hd]
      exact UInt32.toNat_ofNat_of_lt' hs
    have hpack : packSample i (done ++ blank)
        (Channel.value c.kind.encoding (UInt32.ofNat start), c) =
          .ok (done ++ c.samples.bytesAt i ++ blank.drop c.kind.bytes) :=
      packSample_eq_ok hc ho rfl (by omega)
    have hlen : (done ++ c.samples.bytesAt i).length = start + c.kind.bytes := by
      rw [List.length_append, hd, Samples.length_bytesAt hc]
      rfl
    rw [List.zip_cons_cons, List.foldlM_cons, hpack, ok_bind,
      ih hlt hr hlen (by rw [List.length_drop]; omega) hcs]
    simp only [cells, List.flatMap_cons, List.append_assoc]

/-! ### The records -/

/-- The record at an index. -/
def row (s : Session) (time : TimeAxis) (i : Nat) : List UInt8 :=
  LittleEndian.encode 8 (time.values.getD i ⟨0⟩).bits.toNat ++ cells i s.channels

variable {s : Session} {time : TimeAxis}

lemma Consistent.length_samples (h : s.Consistent) (ht : s.time = some time) :
    ∀ c ∈ s.channels, c.samples.length = time.length := by
  intro c hc
  obtain ⟨t, ht', hl⟩ := h.lengths c hc
  cases ht.symm.trans ht'
  exact hl

lemma packRecord_eq_ok (h : s.Consistent) (ht : s.time = some time) (hl : s.layout = .ok layout)
    (hi : i < time.length) {blank : List UInt8} (hb : blank.length = layout.recordSize) :
    s.packRecord layout time.values.toArray blank i = .ok (s.row time i) := by
  have hpack : Layout.pack 8 (encodings s.channels) = .ok layout := hl
  have hsize := Layout.start_le_recordSize hpack
  have hlen := h.length_samples ht
  have hv : i < time.values.length := hi
  have htime : Checked.item time.values.toArray i = .ok (time.values.getD i ⟨0⟩) := by
    rw [Checked.item_of_lt (by simpa using hv)]
    simp [List.getD, List.getElem?_eq_getElem hv]
  have hk : (blank.take 8).length = 8 := by
    rw [List.length_take]
    omega
  have htime8 : Buffer.overwrite blank 0 8
      (LittleEndian.encode 8 (time.values.getD i ⟨0⟩).bits.toNat) =
        .ok (LittleEndian.encode 8 (time.values.getD i ⟨0⟩).bits.toNat ++ blank.drop 8) := by
    have ho := overwrite_middle [] (blank.drop 8) (v := blank.take 8)
      (show (LittleEndian.encode 8 (time.values.getD i ⟨0⟩).bits.toNat).length = _ by
        rw [LittleEndian.length_encode, hk])
    rwa [List.nil_append, List.take_append_drop, hk, List.nil_append] at ho
  have hfold := foldlM_packSample (i := i) (show 8 < Layout.sizeBound by decide) hpack
    (LittleEndian.length_encode 8 (time.values.getD i ⟨0⟩).bits.toNat)
    (show 8 + (blank.drop 8).length = _ by rw [List.length_drop]; omega)
    (fun c hc => by rw [hlen c hc]; exact hi)
  have hstart : Layout.master.byteOffset.toNat = 0 := rfl
  have hstop : Checked.add 0 8 = .ok 8 := rfl
  simp only [packRecord, htime, hstart, hstop, htime8, liftM_ok_fault, ok_bind, hfold, row]

lemma piecesOf_zeros (size count : Nat) :
    Checked.piecesOf size count (Buffer.zeros (count * size)) =
      List.replicate count (Buffer.zeros size) := by
  induction count with
  | zero => rfl
  | succ n ih =>
    have ht : (Buffer.zeros ((n + 1) * size)).take size = Buffer.zeros size := by
      simp [Buffer.zeros, Nat.succ_mul]
    have hd : (Buffer.zeros ((n + 1) * size)).drop size = Buffer.zeros (n * size) := by
      simp [Buffer.zeros, Nat.succ_mul]
    rw [Checked.piecesOf, ht, hd, ih, List.replicate_succ]

/-- **The records of a session are its rows**, one after the other, if memory holds them. -/
theorem records_eq_ok (h : s.Consistent) (ht : s.time = some time) (hl : s.layout = .ok layout)
    (hlimit : time.length * layout.recordSize < Buffer.limit) :
    s.records layout time = .ok ((List.range time.length).map (s.row time)).flatten := by
  have hpack : Layout.pack 8 (encodings s.channels) = .ok layout := hl
  have hpos := Layout.start_le_recordSize hpack
  have hsize : Checked.mul time.length layout.recordSize = .ok (time.length * layout.recordSize) :=
    Checked.mul_of_lt (Nat.lt_trans hlimit (by decide))
  have hbuffer : Buffer.allocate (Buffer.zeros (time.length * layout.recordSize)) =
      .ok (Buffer.zeros (time.length * layout.recordSize)) :=
    Buffer.allocate_eq_ok_iff.mpr ⟨rfl, by rwa [Buffer.length_zeros]⟩
  have hblanks : Checked.pieces layout.recordSize (Buffer.zeros (time.length * layout.recordSize)) =
      .ok (List.replicate time.length (Buffer.zeros layout.recordSize)) := by
    rw [Checked.pieces_of_pos (by omega), Buffer.length_zeros, Nat.mul_div_cancel _ (by omega),
      piecesOf_zeros]
  have hrows : ∀ p ∈ (List.replicate time.length (Buffer.zeros layout.recordSize)).zipIdx,
      s.packRecord layout time.values.toArray p.1 p.2 = .ok (s.row time p.2) := by
    rintro ⟨blank, i⟩ hp
    obtain ⟨hi, hblank⟩ := List.getElem?_eq_some_iff.mp (List.mk_mem_zipIdx_iff_getElem?.mp hp)
    rw [List.length_replicate] at hi
    rw [List.getElem_replicate] at hblank
    exact packRecord_eq_ok h ht hl hi (by rw [← hblank, Buffer.length_zeros])
  have hindices : (List.replicate time.length (Buffer.zeros layout.recordSize)).zipIdx.map
      (fun p => s.row time p.2) = (List.range time.length).map (s.row time) := by
    have hsnd := List.zipIdx_map_snd 0
      (List.replicate time.length (Buffer.zeros layout.recordSize))
    rw [List.length_replicate, ← List.range_eq_range'] at hsnd
    rw [← hsnd, List.map_map]
    rfl
  simp only [records, hsize, hbuffer, hblanks, liftM_ok_fault, ok_bind, mapM_eq_ok hrows, hindices]
  rfl

/-- Records that have been packed are the rows, and memory holds them. -/
theorem records_eq_flatten (h : s.Consistent) (ht : s.time = some time) (hl : s.layout = .ok layout)
    {records : List UInt8} (hr : s.records layout time = .ok records) :
    records = ((List.range time.length).map (s.row time)).flatten ∧
      time.length * layout.recordSize < Buffer.limit := by
  have hlimit : time.length * layout.recordSize < Buffer.limit := by
    obtain ⟨size, hsize, hr⟩ := bind_eq_ok_iff.mp hr
    rw [liftM_fault_eq_ok_iff, Checked.mul, Checked.word] at hsize
    split at hsize
    swap
    · cases hsize
    cases hsize
    obtain ⟨buffer, hbuffer, -⟩ := bind_eq_ok_iff.mp hr
    rw [liftM_fault_eq_ok_iff, Buffer.allocate_eq_ok_iff, Buffer.length_zeros] at hbuffer
    exact hbuffer.2
  exact ⟨Except.ok.inj (hr.symm.trans (records_eq_ok h ht hl hlimit)), hlimit⟩

/-! ### Where samples stand -/

lemma length_cells (hp : Layout.pack start (encodings cs) = .ok layout)
    (hi : ∀ c ∈ cs, i < c.samples.length) : start + (cells i cs).length = layout.recordSize := by
  induction cs generalizing start layout with
  | nil =>
    cases hp
    rfl
  | cons c cs ih =>
    obtain ⟨-, rest, hr, rfl⟩ := Layout.pack_cons_eq_ok hp
    obtain ⟨hc, hcs⟩ := List.forall_mem_cons.mp hi
    have hrest := ih hr hcs
    have hlen : (cells i (c :: cs)).length = c.kind.bytes + (cells i cs).length := by
      rw [cells, List.flatMap_cons, List.length_append, Samples.length_bytesAt hc]
      rfl
    rw [Kind.byteSize_encoding] at hrest
    rw [hlen, ← hrest, Nat.add_assoc]

lemma encoding_eq (hp : Layout.pack start (encodings cs) = .ok layout)
    {p : Channel × NamedChannel} (hmem : p ∈ layout.channels.zip cs) :
    p.1.encoding = p.2.kind.encoding := by
  induction cs generalizing start layout with
  | nil => simp at hmem
  | cons c cs ih =>
    obtain ⟨-, rest, hr, rfl⟩ := Layout.pack_cons_eq_ok hp
    rcases List.mem_cons.mp hmem with rfl | hmem
    · rfl
    · exact ih hr hmem

/-- What stands before the sample of a channel, and behind it. -/
lemma cells_split {done : List UInt8} (hs : start < Layout.sizeBound)
    (hp : Layout.pack start (encodings cs) = .ok layout) (hd : done.length = start)
    (hi : ∀ c ∈ cs, i < c.samples.length) {p : Channel × NamedChannel}
    (hmem : p ∈ layout.channels.zip cs) :
    ∃ pre post, done ++ cells i cs = pre ++ p.2.samples.bytesAt i ++ post ∧
      pre.length = p.1.byteOffset.toNat := by
  induction cs generalizing start layout done with
  | nil => simp at hmem
  | cons c cs ih =>
    obtain ⟨hlt, rest, hr, rfl⟩ := Layout.pack_cons_eq_ok hp
    obtain ⟨hc, hcs⟩ := List.forall_mem_cons.mp hi
    rw [Kind.byteSize_encoding] at hr hlt
    rcases List.mem_cons.mp hmem with rfl | hmem
    · refine ⟨done, cells i cs, by simp only [cells, List.flatMap_cons, List.append_assoc], ?_⟩
      rw [hd]
      exact (UInt32.toNat_ofNat_of_lt' hs).symm
    · have hlen : (done ++ c.samples.bytesAt i).length = start + c.kind.bytes := by
        rw [List.length_append, hd, Samples.length_bytesAt hc]
        rfl
      obtain ⟨pre, post, he, h⟩ := ih hlt hr hlen hcs hmem
      refine ⟨pre, post, ?_, h⟩
      rw [← he]
      simp only [cells, List.flatMap_cons, List.append_assoc]

lemma length_row (h : s.Consistent) (ht : s.time = some time) (hl : s.layout = .ok layout)
    (hi : i < time.length) : (s.row time i).length = layout.recordSize := by
  have hlen := h.length_samples ht
  have hcells := length_cells (i := i) (show Layout.pack 8 (encodings s.channels) = _ from hl)
    (fun c hc => by rw [hlen c hc]; exact hi)
  rw [row, List.length_append, LittleEndian.length_encode, hcells]

/-- **Each sample stands in its row where the layout says.** -/
theorem row_split (h : s.Consistent) (ht : s.time = some time) (hl : s.layout = .ok layout)
    (hi : i < time.length) {p : Channel × NamedChannel}
    (hmem : p ∈ layout.channels.zip s.channels) :
    ∃ pre post, s.row time i = pre ++ p.2.samples.bytesAt i ++ post ∧
      pre.length = p.1.byteOffset.toNat := by
  have hlen := h.length_samples ht
  exact cells_split (show 8 < Layout.sizeBound by decide) hl (LittleEndian.length_encode _ _)
    (fun c hc => by rw [hlen c hc]; exact hi) hmem

end Session

end Mdf
