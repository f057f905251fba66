import Mdf.Proofs.Deflate.Zlib
import Mdf.Proofs.Measurement.Reader

/-!
# Reading back the file of a session

`ofBytes_file` says what comes back from the file of any session, as far as it comes back: the
comment and the names are cut at their first U+0000, and so a comment with one breaks off, and two
names may become one.  So some files cannot be read (`opens_iff`).  Without U+0000 everything comes
back as it was (`ofBytes_file_of_nulFree`), and only then under the names that were given
(`reopens_iff`).
-/

namespace Mdf

open Decode Block

namespace Session

variable {s : Session} {deflate : Deflate.Compressor} {bytes : List UInt8} {time : TimeAxis}

/-! ### What comes back -/

/-- The fields of the history comment of a new file. -/
def historyFields : List (String × String) :=
  [(Comment.textField, historyText), ("tool_id", Identification.ownProgram),
    ("tool_vendor", toolVendor), ("tool_version", toolVersion)]

/-- The history comment of a new file, as it comes back. -/
def history : Comment := Comment.ofFields "FHcomment" historyFields

lemma parse_historyComment : Comment.parse (Utf8.beforeNul historyComment) = .ok history := by
  have hfree : Utf8.NulFree historyComment := Comment.nulFree_document (by decide) (by decide)
  rw [Utf8.beforeNul_eq_self hfree]
  exact Comment.parse_document (by decide) (by decide)

/-- The measurement that comes back from the file of a session. -/
def reopened (s : Session) (time : TimeAxis) : Except Error Measurement := do
  let comment ← Comment.parse (Utf8.beforeNul (Comment.headerDocument s.comment))
  let channels ← Measurement.addChannels [] (s.channels.map MeasuredGroup.readBack)
  return ⟨Identification.new s.version, s.startTime, some comment, [history], masterName,
    time.values, channels⟩

lemma file_eq_ok (h : s.file deflate = .ok bytes) :
    ∃ time layout, s.time = some time ∧ s.layout = .ok layout ∧
      (s.write deflate layout time).run [] = .ok ((), bytes) := by
  unfold file at h
  cases ht : s.time with
  | none =>
    rw [ht] at h
    cases h
  | some time =>
    rw [ht] at h
    simp only at h
    split at h
    · cases h
    obtain ⟨layout, hl, h⟩ := bind_eq_ok_iff.mp h
    obtain ⟨⟨_, _⟩, hw, h⟩ := bind_eq_ok_iff.mp h
    cases h
    exact ⟨time, layout, rfl, liftM_error_eq_ok_iff.mp hl, hw⟩

/-- A file that has been written has the blocks of its session, and its records are the rows. -/
lemma written_of_file (h : s.Consistent) (hb : s.file deflate = .ok bytes) :
    ∃ time layout block k channels, s.time = some time ∧ s.layout = .ok layout ∧
      time.length * layout.recordSize < Buffer.limit ∧
      Records.block deflate s.storage (UInt32.ofNat layout.recordSize)
        (MeasuredGroup.rows s time).flatten = .ok block ∧
      s.Written layout time block k channels bytes := by
  obtain ⟨time, layout, ht, hl, hwrite⟩ := file_eq_ok hb
  have hpack : Layout.pack 8 (encodings s.channels) = .ok layout := hl
  have hnext : ∀ c ∈ layout.channels, c.next = 0 := by
    intro c hc
    rw [(Layout.eq_value (by decide) hpack c hc).1]
    rfl
  obtain ⟨records, block, k, channels, hr, hblock, hw⟩ := written_of_write hnext hwrite
  obtain ⟨rfl, hsize⟩ := records_eq_flatten h ht hl hr
  exact ⟨time, layout, block, k, channels, ht, hl, hsize, hblock, hw⟩

/-- The identification of a written file is read back. -/
lemma Written.run_decode {layout : Layout} {block : Block} {k : Links} {channels : List Channel}
    (hw : s.Written layout time block k channels bytes) :
    Decode.run Identification.decode bytes 0 =
      (.ok (Identification.new s.version), (Identification.new s.version).encode.length) := by
  obtain ⟨rest, hfile⟩ := hw.identification
  have hread := Identification.reads_decode s.version [] rest
  rwa [List.nil_append, ← hfile, List.length_nil, Nat.zero_add] at hread

/-- **What comes back from the file of a session**, whatever its comment and its names are. -/
theorem ofBytes_file (h : s.Consistent) (hi : deflate.Inverts) (hb : s.file deflate = .ok bytes)
    (expected : Option Version) (he : ∀ v ∈ expected, v = s.version) :
    ∃ time, s.time = some time ∧
      Measurement.ofBytes bytes expected = (liftM (s.reopened time) : Except Failure Measurement) := by
  obtain ⟨time, layout, block, k, channels, ht, hl, hsize, hblock, hw⟩ := written_of_file h hb
  have hgroup := MeasuredGroup.gives_read h ht hl hi hw hblock hsize
  refine ⟨time, ht, ?_⟩
  have hcheck := Measurement.checkIdentification_new he
  have hcomment := Measurement.gives_readComment hw.comment
  have hhistory := Measurement.gives_readHistory rfl hw.history hw.entryComment parse_historyComment
  have hgroups := Measurement.gives_readGroups rfl hw.dataGroup hgroup
  unfold Measurement.ofBytes Measurement.reader
  rw [run_bind_of_ok hw.run_decode]
  refine gives_bind (gives_liftM (r := .ok ()) (by rw [hcheck]; rfl)) ?_ _
  refine gives_bind (FileHeader.gives_read hw.header) ?_
  unfold reopened
  -- a comment that cannot be read ends the reading before the groups are reached
  cases hc : Comment.parse (Utf8.beforeNul (Comment.headerDocument s.comment)) with
  | error e =>
    rw [hc] at hcomment
    exact gives_bind_error hcomment
  | ok c =>
    rw [hc] at hcomment
    refine gives_bind hcomment (gives_bind hhistory ?_)
    cases ha : Measurement.addChannels [] (s.channels.map MeasuredGroup.readBack) with
    | error e =>
      simp only [ha] at hgroups
      exact gives_bind_error hgroups
    | ok channels =>
      simp only [ha] at hgroups
      exact gives_bind hgroups (gives_pure _)

/-! ### Which files can be read -/

/-- The names under which channels come back. -/
lemma map_name_readBack (cs : List NamedChannel) :
    (cs.map MeasuredGroup.readBack).map MeasuredChannel.name =
      cs.map fun c => Utf8.beforeNul c.name := by
  rw [List.map_map]
  rfl

lemma reopened_eq_ok_iff {m : Measurement} :
    s.reopened time = .ok m ↔
      Utf8.NulFree s.comment ∧ (s.channels.map fun c => Utf8.beforeNul c.name).Nodup ∧
        m = ⟨Identification.new s.version, s.startTime, some (Comment.ofHeader s.comment),
          [history], masterName, time.values, s.channels.map MeasuredGroup.readBack⟩ := by
  constructor
  · intro h
    obtain ⟨comment, hc, h⟩ := bind_eq_ok_iff.mp h
    obtain ⟨channels, ha, h⟩ := bind_eq_ok_iff.mp h
    have hfree : Utf8.NulFree s.comment := by
      by_contra hn
      rw [Comment.parse_headerDocument_error hn] at hc
      cases hc
    rw [Comment.parse_headerDocument hfree] at hc
    cases hc
    obtain ⟨rfl, hnodup⟩ := Measurement.addChannels_nil_eq_ok_iff.mp ha
    rw [map_name_readBack] at hnodup
    cases h
    exact ⟨hfree, hnodup, rfl⟩
  · rintro ⟨hfree, hnodup, rfl⟩
    rw [← map_name_readBack] at hnodup
    have ha := Measurement.addChannels_nil_eq_ok_iff.mpr ⟨rfl, hnodup⟩
    rw [reopened, Comment.parse_headerDocument hfree, ok_bind, ha]
    rfl

/-- **The file of a session can be read exactly if** its comment is without U+0000 and its names
differ before their first one. -/
theorem opens_iff (h : s.Consistent) (hi : deflate.Inverts) (hb : s.file deflate = .ok bytes) :
    (∃ m, Measurement.ofBytes bytes none = .ok m) ↔
      Utf8.NulFree s.comment ∧ (s.channels.map fun c => Utf8.beforeNul c.name).Nodup := by
  obtain ⟨time, -, hread⟩ := ofBytes_file h hi hb none (by simp)
  rw [hread]
  constructor
  · rintro ⟨m, hm⟩
    obtain ⟨hc, hnodup, -⟩ := reopened_eq_ok_iff.mp (liftM_error_eq_ok_iff.mp hm)
    exact ⟨hc, hnodup⟩
  · rintro ⟨hc, hnodup⟩
    exact ⟨_, liftM_error_eq_ok_iff.mpr (reopened_eq_ok_iff.mpr ⟨hc, hnodup, rfl⟩)⟩

/-! ### Without U+0000 -/

lemma Consistent.nodup_channels (h : s.Consistent) :
    (s.channels.map NamedChannel.name).Nodup := h.names ▸ h.nodup

/-- Names without U+0000 come back as they were. -/
lemma map_beforeNul (hn : ∀ c ∈ s.channels, Utf8.NulFree c.name) :
    (s.channels.map fun c => Utf8.beforeNul c.name) = s.channels.map NamedChannel.name :=
  List.map_congr_left fun c hc => Utf8.beforeNul_eq_self (hn c hc)

lemma map_readBack (hn : ∀ c ∈ s.channels, Utf8.NulFree c.name) :
    s.channels.map MeasuredGroup.readBack =
      s.channels.map fun c => ⟨c.name, none, c.kind.encoding, c.samples⟩ := by
  refine List.map_congr_left fun c hc => ?_
  rw [MeasuredGroup.readBack, Utf8.beforeNul_eq_self (hn c hc)]

lemma reopened_of_nulFree (h : s.Consistent) (hc : Utf8.NulFree s.comment)
    (hn : ∀ c ∈ s.channels, Utf8.NulFree c.name) :
    s.reopened time = .ok ⟨Identification.new s.version, s.startTime,
      some (Comment.ofHeader s.comment), [history], masterName, time.values,
      s.channels.map fun c => ⟨c.name, none, c.kind.encoding, c.samples⟩⟩ := by
  rw [reopened_eq_ok_iff, map_beforeNul hn, map_readBack hn]
  exact ⟨hc, h.nodup_channels, rfl⟩

/-- **The file of a session gives back what the session holds**, in every storage mode: its revision
and its start, its times and its channels, all of them bit for bit. -/
theorem ofBytes_file_of_nulFree (hi : deflate.Inverts) {version : Version} {ops : List Operation}
    (hs : s = ((new version).run ops).2) (hc : Utf8.NulFree s.comment)
    (hn : ∀ c ∈ s.channels, Utf8.NulFree c.name) (hb : s.file deflate = .ok bytes) :
    ∃ time m, s.time = some time ∧
      Measurement.ofBytes bytes none = .ok m ∧
      Measurement.ofBytes bytes (some version) = .ok m ∧
      m.id.version = version ∧ m.startTime = s.startTime ∧ m.masterName = "time" ∧
      m.time = time.values ∧
      m.channels = ((new version).addedBy ops).map fun c =>
        ⟨c.name, none, c.kind.encoding, c.samples⟩ := by
  have h : s.Consistent := Reachable.consistent ⟨version, ops, hs⟩
  have hv : s.version = version := hs ▸ version_run version ops
  have hchannels : s.channels = (new version).addedBy ops := by
    rw [hs, channels_run]
    rfl
  obtain ⟨time, ht, hnone⟩ := ofBytes_file h hi hb none (by simp)
  obtain ⟨time', ht', hsome⟩ := ofBytes_file h hi hb (some version) (by simp [hv])
  cases ht.symm.trans ht'
  rw [reopened_of_nulFree h hc hn] at hnone hsome
  exact ⟨time, _, ht, hnone, hsome, hv, rfl, rfl, rfl, by rw [hchannels]⟩

/-- Compressed records of two channels, with a negative zero and a NaN among the samples. -/
def floatOperations : List Operation :=
  let time : TimeAxis := ⟨[⟨0⟩, ⟨0x3FF0000000000000⟩]⟩
  [.setStorage .transposed, .setStartTime 5, .setComment "a < b",
    .appendChannel time ⟨"u8", ⟨.uint8, [1, 255]⟩⟩,
    .appendChannel time ⟨"f64", ⟨.float64, [0x8000000000000000, 0x7FF8000000000001]⟩⟩]

/-- The session after these operations. -/
def floats : Session := ((new .v410).run floatOperations).2

lemma exists_file_floats : ∃ bytes, floats.file Deflate.storing = .ok bytes :=
  exists_eq_ok_of_isOk (by decide +kernel)

/-- What comes back from the file of this session. -/
lemma exists_read_floats :
    ∃ bytes, floats.file Deflate.storing = .ok bytes ∧
      Measurement.ofBytes bytes none = .ok ⟨Identification.new .v410, 5,
        some (Comment.ofHeader "a < b"), [history], masterName, [⟨0⟩, ⟨0x3FF0000000000000⟩],
        floats.channels.map MeasuredGroup.readBack⟩ := by
  obtain ⟨bytes, hb⟩ := exists_file_floats
  have hr : floats.Reachable := ⟨.v410, floatOperations, rfl⟩
  obtain ⟨time, ht, hread⟩ := ofBytes_file hr.consistent Deflate.inverts_storing hb none (by simp)
  cases ht.symm.trans (show floats.time = some ⟨[⟨0⟩, ⟨0x3FF0000000000000⟩]⟩ from rfl)
  rw [reopened_eq_ok_iff.mpr ⟨by decide, by decide, rfl⟩] at hread
  exact ⟨bytes, hb, hread⟩

theorem ofBytes_file_floats :
    ∃ bytes m, floats.file Deflate.storing = .ok bytes ∧
      Measurement.ofBytes bytes none = .ok m ∧ m.startTime = 5 ∧
      m.channels = [⟨"u8", none, Kind.uint8.encoding, ⟨.uint8, [1, 255]⟩⟩,
        ⟨"f64", none, Kind.float64.encoding,
          ⟨.float64, [0x8000000000000000, 0x7FF8000000000001]⟩⟩] := by
  have hs : floats = ((new .v410).run floatOperations).2 := rfl
  obtain ⟨bytes, hb⟩ := exists_file_floats
  obtain ⟨time, m, -, hm, -, -, hstart, -, -, hchannels⟩ :=
    ofBytes_file_of_nulFree Deflate.inverts_storing hs (by decide) (by decide) hb
  exact ⟨bytes, m, hb, hm, hstart, hchannels⟩

/-! ### Names -/

/-- A name with U+0000 is the name of no channel that comes back. -/
lemma nulFree_of_channel? {m : Measurement} {name : String} {d : MeasuredChannel}
    (hm : m.channels = s.channels.map MeasuredGroup.readBack) (hd : m.channel? name = some d) :
    Utf8.NulFree name := by
  have hname : d.name = name := by simpa using List.find?_some hd
  have hmem := List.mem_of_find?_eq_some hd
  rw [hm] at hmem
  obtain ⟨c, -, rfl⟩ := List.mem_map.mp hmem
  rw [← hname]
  exact Utf8.nulFree_beforeNul c.name

lemma channel?_of_mem {m : Measurement} {c : NamedChannel} (h : s.Consistent)
    (hm : m.channels = s.channels.map fun c => ⟨c.name, none, c.kind.encoding, c.samples⟩)
    (hc : c ∈ s.channels) :
    m.channel? c.name = some ⟨c.name, none, c.kind.encoding, c.samples⟩ := by
  rw [Measurement.channel?, hm, List.find?_map]
  have hfind : (s.channels.find? fun d => d.name == c.name) = some c := by
    cases hf : s.channels.find? fun d => d.name == c.name with
    | none => exact absurd (List.find?_eq_none.mp hf c hc) (by simp)
    | some d =>
      have hname : d.name = c.name := by simpa using List.find?_some hf
      rw [List.inj_on_of_nodup_map h.nodup_channels (List.mem_of_find?_eq_some hf) hc hname]
  exact congrArg (Option.map _) hfind

/-- **A session can be reopened under the names that were given exactly if its comment and its names
are without U+0000.** -/
theorem reopens_iff (hr : s.Reachable) (hi : deflate.Inverts) (hb : s.file deflate = .ok bytes) :
    (∃ m, Measurement.ofBytes bytes (some s.version) = .ok m ∧
      ∀ c ∈ s.channels, ∃ d, m.channel? c.name = some d ∧ d.samples = c.samples) ↔
    Utf8.NulFree s.comment ∧ ∀ c ∈ s.channels, Utf8.NulFree c.name := by
  obtain ⟨time, -, hread⟩ := ofBytes_file hr.consistent hi hb (some s.version) (by simp)
  rw [hread]
  constructor
  · rintro ⟨m, hm, hfound⟩
    obtain ⟨hc, -, rfl⟩ := reopened_eq_ok_iff.mp (liftM_error_eq_ok_iff.mp hm)
    refine ⟨hc, fun c hmem => ?_⟩
    obtain ⟨d, hd, -⟩ := hfound c hmem
    exact nulFree_of_channel? rfl hd
  · rintro ⟨hc, hn⟩
    rw [reopened_of_nulFree hr.consistent hc hn]
    exact ⟨_, rfl, fun c hmem => ⟨_, channel?_of_mem hr.consistent rfl hmem, rfl⟩⟩

theorem reopens_floats :
    ∃ bytes m, floats.file Deflate.storing = .ok bytes ∧
      Measurement.ofBytes bytes (some .v410) = .ok m ∧
      ∀ c ∈ floats.channels, ∃ d, m.channel? c.name = some d ∧ d.samples = c.samples := by
  obtain ⟨bytes, hb⟩ := exists_file_floats
  have hiff := reopens_iff ⟨.v410, floatOperations, rfl⟩ Deflate.inverts_storing hb
  obtain ⟨m, hm, hfound⟩ := hiff.mpr ⟨by decide, by decide⟩
  exact ⟨bytes, m, hb, hm, hfound⟩

/-- Two channels whose names differ behind a U+0000. -/
def twins : Session :=
  ((new .v410).run [.appendChannel ⟨[⟨0⟩]⟩ ⟨"a\x00b", ⟨.uint8, [1]⟩⟩,
    .appendChannel ⟨[⟨0⟩]⟩ ⟨"a\x00c", ⟨.uint8, [2]⟩⟩]).2

/-- Both channels are accepted and written, and their file is refused. -/
theorem not_reopens_twins :
    twins.Reachable ∧ twins.channelCount = 2 ∧
      ∃ bytes, twins.file Deflate.storing = .ok bytes ∧
        Measurement.ofBytes bytes (some .v410) = .error (.error (.duplicateChannel "a")) := by
  have hr : twins.Reachable := ⟨.v410, _, rfl⟩
  obtain ⟨bytes, hb⟩ : ∃ bytes, twins.file Deflate.storing = .ok bytes :=
    exists_eq_ok_of_isOk (by decide +kernel)
  obtain ⟨time, -, hread⟩ := ofBytes_file hr.consistent Deflate.inverts_storing hb
    (some .v410) (by decide)
  refine ⟨hr, rfl, bytes, hb, hread.trans ?_⟩
  rw [reopened, Comment.parse_headerDocument (by decide)]
  rfl

end Session

end Mdf
