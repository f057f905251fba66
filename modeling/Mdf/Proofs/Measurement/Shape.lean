import Mdf.Proofs.Measurement.Safety
import Mdf.Proofs.Measurement.Walks
import Mdf.Proofs.Session.RoundTrip

/-!
# The shape of what is read

Whatever the bytes are, a measurement that is read from them is a table, over any number of data
groups: each channel has a sample for each time, the samples are of the kind that the encoding says,
and no two channels have one name (`table_of_ofBytes`).

The records of a group are cut into rows once for the times and once for each channel.  That these
cuts agree rests on two checks made before: that the records are as many bytes as their number and
size say, and that records without bytes are none.
-/

namespace Mdf

open Decode

/-- The samples are of the kind that the encoding stands for. -/
def MeasuredChannel.Typed (c : MeasuredChannel) : Prop :=
  Kind.ofEncoding c.encoding = .ok c.samples.kind

namespace MeasuredGroup

variable {size count : Nat} {records : List UInt8}

/-! ### Rows -/

lemma length_of_pieces {rows : List (List UInt8)} (hs : 0 < size)
    (hr : records.length = count * size)
    (h : (liftM (Checked.pieces size records) : Except Failure (List (List UInt8))) = .ok rows) :
    rows.length = count := by
  obtain ⟨rows', hrows, hlen, -⟩ := pieces_eq_ok hs hr
  rw [liftM_fault_eq_ok_iff, hrows] at h
  cases h
  exact hlen

lemma length_of_masterTimes {c : Channel} {times : List Double}
    (hr : records.length = count * size) (h0 : size = 0 → count = 0)
    (h : masterTimes c size records = .ok times) : times.length = count := by
  unfold masterTimes at h
  simp only at h
  by_cases he : c.encoding.dataType = .floatLe ∧
      (c.encoding.bitCount = 32 ∨ c.encoding.bitCount = 64)
  · rw [if_pos he] at h
    by_cases hs : 0 < size
    · rw [if_pos hs] at h
      obtain ⟨rows, hrows, h⟩ := bind_eq_ok_iff.mp h
      rw [← length_of_pieces hs hr hrows]
      exact (forall₂_of_mapM_eq_ok (liftM_fault_eq_ok_iff.mp h)).length_eq.symm
    · rw [if_neg hs] at h
      cases h
      exact (h0 (by omega)).symm
  · rw [if_neg he] at h
    cases h

lemma length_of_timesOf {master : Option FoundChannel} {name : String} {times : List Double}
    (hr : records.length = count * size) (h0 : size = 0 → count = 0)
    (h : timesOf size count records master = .ok (name, times)) : times.length = count := by
  cases master with
  | none =>
    cases h
    exact TimeAxis.length_sequential count
  | some f =>
    obtain ⟨ts, hts, h⟩ := bind_eq_ok_iff.mp h
    cases h
    exact length_of_masterTimes hr h0 hts

lemma of_samplesOf {f : FoundChannel} {c : MeasuredChannel}
    (hr : records.length = count * size) (h0 : size = 0 → count = 0)
    (h : samplesOf size count records f = .ok c) : c.samples.length = count ∧ c.Typed := by
  obtain ⟨kind, hkind, h⟩ := bind_eq_ok_iff.mp h
  obtain ⟨rows, hrows, h⟩ := bind_eq_ok_iff.mp h
  obtain ⟨words, hwords, h⟩ := bind_eq_ok_iff.mp h
  cases h
  refine ⟨?_, liftM_error_eq_ok_iff.mp hkind⟩
  have hlen := length_of_pieces (by omega) (length_eq_mul_max hr h0) hrows
  rw [Samples.length, ← (forall₂_of_mapM_eq_ok hwords).length_eq, List.length_take, hlen,
    Nat.min_self]

/-! ### Groups -/

/-- Each channel has a sample for each time, of the kind of its encoding. -/
def Tabular (g : MeasuredGroup) : Prop := g.Rectangular ∧ ∀ c ∈ g.channels, c.Typed

lemma tabular_of_ofRecords {found : FoundChannels} {g : MeasuredGroup}
    (hr : records.length = count * size) (h0 : size = 0 → count = 0)
    (h : ofRecords size count records found = .ok g) : g.Tabular := by
  obtain ⟨⟨name, times⟩, ht, h⟩ := bind_eq_ok_iff.mp h
  obtain ⟨cs, hcs, h⟩ := bind_eq_ok_iff.mp h
  cases h
  have htimes := length_of_timesOf hr h0 ht
  have hall : ∀ c ∈ cs, c.samples.length = count ∧ c.Typed := by
    intro c hc
    obtain ⟨i, hi, rfl⟩ := List.getElem_of_mem hc
    have hf := forall₂_of_mapM_eq_ok hcs
    exact of_samplesOf hr h0 ((List.forall₂_iff_get.mp hf).2 i (hf.length_eq ▸ hi) hi)
  constructor
  · intro c hc
    exact (hall c hc).1.trans htimes.symm
  · intro c hc
    exact (hall c hc).2

lemma length_of_readRecords {bytes : List UInt8} {g : DataGroup} {cg : ChannelGroup} {p q : Nat}
    (h : run (readRecords g cg) bytes p = (.ok records, q)) :
    records.length = cg.cycleCount.toNat * cg.dataBytes.toNat := by
  obtain ⟨rs, q₁, -, h⟩ := run_bind_eq_ok_iff.mp h
  obtain ⟨n, q₂, -, h⟩ := run_bind_eq_ok_iff.mp h
  obtain ⟨_, q₃, -, h⟩ := run_bind_eq_ok_iff.mp h
  obtain ⟨_, q₄, hlen, h⟩ := run_bind_eq_ok_iff.mp h
  cases h
  exact not_ne_iff.mp (of_run_refuseIf hlen).1

/-- The records in front of the channels are as many bytes as the group says, and those without bytes
are none. -/
lemma of_run_readFront {bytes : List UInt8} {dg : DataGroup} {cg : ChannelGroup} {p q : Nat}
    (h : run (readFront dg) bytes p = (.ok (cg, records), q)) :
    records.length = cg.cycleCount.toNat * cg.dataBytes.toNat ∧
      (cg.dataBytes.toNat = 0 → cg.cycleCount.toNat = 0) := by
  obtain ⟨_, q₁, -, h⟩ := run_bind_eq_ok_iff.mp h
  obtain ⟨cg', q₂, -, h⟩ := run_bind_eq_ok_iff.mp h
  obtain ⟨_, q₃, -, h⟩ := run_bind_eq_ok_iff.mp h
  obtain ⟨_, q₄, -, h⟩ := run_bind_eq_ok_iff.mp h
  obtain ⟨hempty, h⟩ := run_refuseIf_bind_eq_ok_iff.mp h
  obtain ⟨records', q₆, hrecords, h⟩ := run_bind_eq_ok_iff.mp h
  cases h
  exact ⟨length_of_readRecords hrecords, cycleCount_eq_zero hempty⟩

/-- **A data group that is read is a table.** -/
theorem tabular_of_read {bytes : List UInt8} {dg : DataGroup} {g : MeasuredGroup} {p q : Nat}
    (h : run (read dg) bytes p = (.ok g, q)) : g.Tabular := by
  obtain ⟨cg, records, found, r, hfront, -, hg⟩ := exists_of_run_read h
  obtain ⟨hlength, hempty⟩ := of_run_readFront hfront
  exact tabular_of_ofRecords hlength hempty hg

end MeasuredGroup

namespace Measurement

/-! ### Several groups -/

/-- The groups read so far are a table in which no name is repeated. -/
def Joined (groups : Groups) : Prop :=
  ∀ g ∈ groups, g.Tabular ∧ (g.channels.map MeasuredChannel.name).Nodup

lemma joined_of_addGroup {groups : Groups} {g r : MeasuredGroup} (hgroups : Joined groups)
    (hg : g.Tabular) (h : addGroup groups g = .ok r) : Joined (some r) := by
  rintro r' ⟨⟩
  have hrect := rectangular_of_addGroup (fun first hf => (hgroups first hf).1.1) hg.1 h
  cases groups with
  | none =>
    obtain ⟨rfl, hnodup⟩ := addGroup_none_eq_ok_iff.mp h
    exact ⟨hg, hnodup⟩
  | some first =>
    obtain ⟨⟨-, htyped⟩, hnodup⟩ := hgroups first rfl
    obtain ⟨-, hnames, rfl⟩ := (addGroup_some_eq_ok_iff hnodup).mp h
    exact ⟨⟨hrect, List.forall_mem_append.mpr ⟨htyped, hg.2⟩⟩, hnames⟩

lemma joined_of_readGroup {bytes : List UInt8} {groups : Groups} {offset p q : Nat}
    {r : Groups × UInt64} (hgroups : Joined groups)
    (h : run (readGroup groups offset) bytes p = (.ok r, q)) : Joined r.1 := by
  obtain ⟨dg, q₁, -, h⟩ := run_bind_eq_ok_iff.mp h
  obtain ⟨g, q₂, hg, h⟩ := run_bind_eq_ok_iff.mp h
  obtain ⟨joined, q₃, hadd, h⟩ := run_bind_eq_ok_iff.mp h
  cases h
  exact joined_of_addGroup hgroups (MeasuredGroup.tabular_of_read hg)
    (liftM_error_eq_ok_iff.mp (of_run_liftM hadd).1)

lemma joined_of_readGroups {bytes : List UInt8} {link : UInt64} {g : MeasuredGroup} {p q : Nat}
    (h : run (readGroups link) bytes p = (.ok g, q)) : Joined (some g) := by
  obtain ⟨groups, q₁, hfold, h⟩ := run_bind_eq_ok_iff.mp h
  cases h
  have hjoined : Joined groups :=
    Chain.of_run_fold (fun _ _ _ _ _ hs hr => joined_of_readGroup hs hr) (by simp [Joined]) hfold
  cases groups with
  | none =>
    rintro g ⟨⟩
    exact ⟨⟨by simp [MeasuredGroup.Rectangular], by simp⟩, List.nodup_nil⟩
  | some g => exact hjoined

/-! ### Tables -/

lemma length_row {m : Measurement} {i : Nat} {t : Double} {cells : List String}
    (h : m.row i t = .ok cells) : cells.length = m.channels.length + 1 := by
  obtain ⟨texts, htexts, h⟩ := bind_eq_ok_iff.mp h
  cases h
  rw [List.length_cons, ← (forall₂_of_mapM_eq_ok htexts).length_eq]

/-- The table of a measurement has a line for each record below the names, and a column for each
channel beside the times. -/
lemma table_shape {m : Measurement} {lines : List (List String)} (h : m.table = .ok lines) :
    lines.length = m.recordCount + 1 ∧ ∀ line ∈ lines, line.length = m.channels.length + 1 := by
  obtain ⟨rows, hrows, h⟩ := bind_eq_ok_iff.mp h
  cases h
  have hf := forall₂_of_mapM_eq_ok hrows
  constructor
  · rw [List.length_cons, ← hf.length_eq, List.length_zipIdx, recordCount]
  · intro line hline
    rcases List.mem_cons.mp hline with rfl | hline
    · rw [List.length_cons, List.length_map]
    · obtain ⟨i, hi, rfl⟩ := List.getElem_of_mem hline
      exact length_row ((List.forall₂_iff_get.mp hf).2 i (hf.length_eq ▸ hi) hi)

/-- **What is read is a table**: no two channels have one name, each one has a sample of its kind for
each time, and the export ends with a line for each record. -/
theorem table_of_ofBytes {bytes : List UInt8} {expected : Option Version} {m : Measurement}
    (h : ofBytes bytes expected = .ok m) :
    (m.channels.map MeasuredChannel.name).Nodup ∧
      (∀ c ∈ m.channels, c.samples.length = m.recordCount ∧
        Kind.ofEncoding c.encoding = .ok c.samples.kind) ∧
      m.recordCount = m.time.length ∧
      ∃ lines, m.table = .ok lines ∧ m.csv = .ok (Csv.table lines) ∧
        lines.length = m.recordCount + 1 ∧
        ∀ line ∈ lines, line.length = m.channels.length + 1 := by
  have hrun : run (reader expected) bytes 0 = (.ok m, (run (reader expected) bytes 0).2) :=
    Prod.ext h rfl
  obtain ⟨id, q₁, -, hrun⟩ := run_bind_eq_ok_iff.mp hrun
  obtain ⟨_, q₂, -, hrun⟩ := run_bind_eq_ok_iff.mp hrun
  obtain ⟨header, q₃, -, hrun⟩ := run_bind_eq_ok_iff.mp hrun
  obtain ⟨comment, q₄, -, hrun⟩ := run_bind_eq_ok_iff.mp hrun
  obtain ⟨history, q₅, -, hrun⟩ := run_bind_eq_ok_iff.mp hrun
  obtain ⟨g, q₆, hgroups, hrun⟩ := run_bind_eq_ok_iff.mp hrun
  cases hrun
  obtain ⟨⟨hrect, htyped⟩, hnodup⟩ := joined_of_readGroups hgroups g rfl
  refine ⟨hnodup, fun c hc => ⟨hrect c hc, htyped c hc⟩, rfl, ?_⟩
  obtain ⟨text, hcsv⟩ := csv_eq_ok (m := ⟨id, header.startTime, comment, history, g.masterName,
    g.time, g.channels⟩) hrect
  obtain ⟨lines, hlines, hcsv'⟩ := bind_eq_ok_iff.mp hcsv
  exact ⟨lines, hlines, by rw [hcsv, ← hcsv']; rfl, table_shape hlines⟩

theorem table_of_ofBytes_floats :
    ∃ bytes m lines, Session.floats.file Deflate.storing = .ok bytes ∧
      ofBytes bytes none = .ok m ∧ m.channels.map MeasuredChannel.name = ["u8", "f64"] ∧
      m.csv = .ok (Csv.table lines) ∧ lines.length = 3 ∧ ∀ line ∈ lines, line.length = 3 := by
  obtain ⟨bytes, hb⟩ := Session.exists_file_floats
  have hr : Session.floats.Reachable := ⟨.v410, Session.floatOperations, rfl⟩
  obtain ⟨time, ht, hread⟩ :=
    Session.ofBytes_file hr.consistent Deflate.inverts_storing hb none (by simp)
  cases ht.symm.trans (show Session.floats.time = some ⟨[⟨0⟩, ⟨0x3FF0000000000000⟩]⟩ from rfl)
  rw [Session.reopened_eq_ok_iff.mpr ⟨by decide, by decide, rfl⟩] at hread
  obtain ⟨-, -, -, lines, -, hcsv, hlines, hline⟩ := table_of_ofBytes hread
  exact ⟨bytes, _, lines, hb, hread, by decide, hcsv, hlines, hline⟩

end Measurement

end Mdf
