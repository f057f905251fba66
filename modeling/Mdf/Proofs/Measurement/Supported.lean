import Mdf.Proofs.Block.View
import Mdf.Proofs.Session.RoundTrip
import Mdf.Proofs.Measurement.Safety

/-!
# What an accepted file is made of

A file that is read has nothing of the format beyond the subset that is handled, wherever its chains
lead: `Measurement.Supported` says so of the bytes alone, and `supported_of_ofBytes` that every file
that is accepted is of this form.

The features are refused in many places, some of a block before its links are followed and some only
when samples are taken.  Each reader is inverted on its own, and the chains are walked with what has
been found so far: the channels of a group are split into its master channel and the others
(`Collected`), and the encodings of both are checked once the whole chain has been read.
-/

namespace Mdf

open Decode Block

/-! ### Files that are supported -/

/-- The encodings of samples that are handled: data type and width of integers without and with a
sign, and of floats, all of them with the least byte first. -/
def Channel.valueEncodings : List (Nat × Nat) :=
  [(0, 8), (0, 16), (0, 32), (0, 64), (2, 8), (2, 16), (2, 32), (2, 64), (4, 32), (4, 64)]

/-- The encodings of times that are handled. -/
def Channel.timeEncodings : List (Nat × Nat) := [(4, 32), (4, 64)]

/-- The channel at an offset is one that is handled, in records of a size. -/
structure Channel.Supported (file : List UInt8) (size o : Nat) : Prop where
  id : idAt file o = BlockId.cn.bytes
  composition : linkAt file o 1 = 0
  conversion : linkAt file o 4 = 0
  signalData : linkAt file o 5 = 0
  /-- It does not hold values of variable length. -/
  fixedLength : fieldAt file o 0 1 ≠ 1
  bitOffset : fieldAt file o 3 1 = 0
  /-- It ends within the record. -/
  within : fieldAt file o 4 4 + (fieldAt file o 8 4 + 7) / 8 ≤ size
  times : isMasterAt file o = true → encodingAt file o ∈ timeEncodings
  values : isMasterAt file o = false → encodingAt file o ∈ valueEncodings

/-- The channel group at an offset is one that is handled, and the only one of its data group. -/
structure ChannelGroup.Supported (file : List UInt8) (o : Nat) : Prop where
  id : idAt file o = BlockId.cg.bytes
  next : linkAt file o 0 = 0
  /-- It does not hold values of variable length. -/
  fixedLength : fieldAt file o 16 2 % 2 = 0
  invalidationBytes : fieldAt file o 28 4 = 0
  /-- All channels of its chain are handled, and at most one of them is a master channel. -/
  channels : ∃ os, Chain.Follows file (linkAt file o 1) os ∧
    (∀ c ∈ os, Channel.Supported file (fieldAt file o 24 4) c) ∧
    (os.filter (Channel.isMasterAt file)).length ≤ 1

/-- The data group at an offset is one that is handled. -/
structure DataGroup.Supported (file : List UInt8) (o : Nat) : Prop where
  id : idAt file o = BlockId.dg.bytes
  recordIdSize : fieldAt file o 0 1 = 0
  group : ChannelGroup.Supported file (linkAt file o 1)
  /-- The records are as many bytes as their number and their size say. -/
  records : ∃ records, Records.StoredAt file (linkAt file o 2) records ∧
    records.length = fieldAt file (linkAt file o 1) 8 8 * fieldAt file (linkAt file o 1) 24 4

/-- The identification is that of a finished file of a revision, in its default forms. -/
structure Identification.Supported (file : List UInt8) (v : Version) : Prop where
  finished : file.take 8 = finishedMark
  text : Version.ofField ((file.drop 8).take 8) = .ok v
  byteOrder : numberAt file 24 2 = 0
  floatFormat : numberAt file 26 2 = 0
  number : numberAt file 28 2 = v.number.toNat

/-- The bytes are a file of a revision with nothing beyond the subset that is handled. -/
structure Measurement.Supported (file : List UInt8) (v : Version) : Prop where
  identification : Identification.Supported file v
  /-- All data groups of the chain are handled. -/
  groups : ∃ os, Chain.Follows file (linkAt file FileHeader.offset 0) os ∧
    ∀ o ∈ os, DataGroup.Supported file o

variable {file records : List UInt8} {o p q size count : Nat}

/-! ### Encodings -/

lemma Kind.mem_valueEncodings {e : Encoding} {kind : Kind} (h : ofEncoding e = .ok kind) :
    (e.dataType.code.toNat, e.bitCount.toNat) ∈ Channel.valueEncodings := by
  have hall : ∀ k ∈ all, (k.encoding.dataType.code.toNat, k.encoding.bitCount.toNat) ∈
      Channel.valueEncodings := by decide
  unfold ofEncoding at h
  split at h
  · rename_i k hfind
    rw [← eq_of_beq (List.find?_some (p := fun k : Kind => k.encoding == e) hfind)]
    exact hall k (mem_all k)
  · cases h

lemma MeasuredGroup.mem_timeEncodings {c : Channel} {times : List Double}
    (h : masterTimes c size records = .ok times) :
    (c.encoding.dataType.code.toNat, c.encoding.bitCount.toNat) ∈ Channel.timeEncodings := by
  unfold masterTimes at h
  by_cases he : c.encoding.dataType = .floatLe ∧
      (c.encoding.bitCount = 32 ∨ c.encoding.bitCount = 64)
  · obtain ⟨htype, hbits⟩ := he
    rcases hbits with hbits | hbits
    · rw [htype, hbits]
      decide
    · rw [htype, hbits]
      decide
  · rw [if_neg he] at h
    cases h

/-! ### Channels -/

/-- The channel stands at an offset, and its sample ends within a record of the size. -/
structure FoundChannel.StandsAt (file : List UInt8) (size o : Nat) (f : FoundChannel) : Prop where
  found : f.channel.FoundAt file o
  within : f.Within size

namespace MeasuredGroup

/-- The channels found are those at these offsets, with the master channel apart. -/
structure Collected (file : List UInt8) (size : Nat) (os : List Nat) (found : FoundChannels) :
    Prop where
  master : List.Forall₂ (FoundChannel.StandsAt file size) (os.filter (Channel.isMasterAt file))
    found.master.toList
  values : List.Forall₂ (FoundChannel.StandsAt file size)
    (os.filter fun o => !Channel.isMasterAt file o) found.values

variable {found next : FoundChannels} {os : List Nat}

lemma collected_nil : Collected file size [] ⟨none, []⟩ := ⟨.nil, .nil⟩

/-- A step finds the channel at its offset, which is the only master channel so far or one of the
others, and leads along its first link. -/
lemma of_run_readChannel {link : UInt64}
    (hr : run (readChannel size found o) file p = (.ok (next, link), q)) :
    ∃ f : FoundChannel, f.StandsAt file size o ∧ link = f.channel.next ∧
      ((f.channel.isMaster = true ∧ found.master = none ∧
          next = { found with master := some f }) ∨
        (f.channel.isMaster = false ∧ next = { found with values := found.values ++ [f] })) := by
  obtain ⟨c, q₁, hc, hr⟩ := run_bind_eq_ok_iff.mp hr
  have hfound := Channel.foundAt_of_run_read hc
  obtain ⟨⟨_, name⟩, q₂, -, hr⟩ := run_bind_eq_ok_iff.mp hr
  obtain ⟨stop, hstop, hr⟩ := run_liftM_bind_eq_ok_iff.mp hr
  rw [Channel.stop_eq] at hstop
  cases hstop
  obtain ⟨hwithin, hr⟩ := run_refuseIf_bind_eq_ok_iff.mp hr
  have hwithin := Nat.not_lt.mp hwithin
  split at hr
  · rename_i hm
    obtain ⟨hnone, hr⟩ := run_refuseIf_bind_eq_ok_iff.mp hr
    cases hr
    exact ⟨⟨name, none, c⟩, ⟨hfound, hwithin⟩, rfl,
      .inl ⟨hm, Option.not_isSome_iff_eq_none.mp hnone, rfl⟩⟩
  · rename_i hm
    rw [Bool.not_eq_true] at hm
    split at hr
    · cases hr
      exact ⟨⟨name, none, c⟩, ⟨hfound, hwithin⟩, rfl, .inr ⟨hm, rfl⟩⟩
    · obtain ⟨⟨_, unit⟩, q₃, -, hr⟩ := run_bind_eq_ok_iff.mp hr
      cases hr
      exact ⟨⟨name, some unit, c⟩, ⟨hfound, hwithin⟩, rfl, .inr ⟨hm, rfl⟩⟩

/-- One step adds the channel at its offset. -/
lemma Collected.append_singleton {link : UInt64} (h : Collected file size os found)
    (hr : run (readChannel size found o) file p = (.ok (next, link), q)) :
    Collected file size (os ++ [o]) next := by
  obtain ⟨f, hf, -, hcases⟩ := of_run_readChannel hr
  rw [hf.found.isMaster] at hcases
  have hmaster := h.master
  have hvalues := h.values
  rcases hcases with ⟨hm, hnone, rfl⟩ | ⟨hm, rfl⟩
  · rw [hnone] at hmaster
    refine ⟨?_, ?_⟩
    · rw [List.filter_append, List.filter_cons_of_pos hm]
      exact List.rel_append hmaster (.cons hf .nil)
    · rw [List.filter_append, List.filter_cons_of_neg (by simp [hm]), List.filter_nil,
        List.append_nil]
      exact hvalues
  · refine ⟨?_, ?_⟩
    · rw [List.filter_append, List.filter_cons_of_neg (by simp [hm]), List.filter_nil,
        List.append_nil]
      exact hmaster
    · rw [List.filter_append, List.filter_cons_of_pos (by simp [hm])]
      exact List.rel_append hvalues (.cons hf .nil)

/-- A walk adds the channels at its offsets. -/
lemma Collected.append {a b : Chain.Stand FoundChannels} {os' : List Nat}
    (h : Collected file size os a.state) (hw : Chain.Walk file (readChannel size) os' a b) :
    Collected file size (os ++ os') b.state := by
  induction hw generalizing os with
  | nil a =>
    rw [List.append_nil]
    exact h
  | cons _ hstep _ ih =>
    rw [List.append_cons]
    exact ih (h.append_singleton hstep)

/-- The channels of a chain that has been read are those that its links lead through. -/
lemma collected_of_run_readChannels {link : UInt64}
    (hr : run (readChannels size link) file p = (.ok found, q)) :
    ∃ os, Chain.Follows file link.toNat os ∧ Collected file size os found := by
  obtain ⟨os, hw⟩ := Chain.exists_walk_of_run_fold hr
  have hnil : Collected file size [] (⟨⟨none, []⟩, link, p⟩ : Chain.Stand FoundChannels).state :=
    collected_nil
  refine ⟨os, hw.follows rfl ?_, hnil.append hw⟩
  rintro state o p ⟨next, link⟩ q hstep
  obtain ⟨f, hf, hlink, -⟩ := of_run_readChannel hstep
  rw [hlink]
  exact hf.found.next

lemma supported_of_standsAt {f : FoundChannel} (h : f.StandsAt file size o)
    (htimes : f.channel.isMaster = true →
      (f.channel.encoding.dataType.code.toNat, f.channel.encoding.bitCount.toNat) ∈
        Channel.timeEncodings)
    (hvalues : f.channel.isMaster = false →
      (f.channel.encoding.dataType.code.toNat, f.channel.encoding.bitCount.toNat) ∈
        Channel.valueEncodings) : Channel.Supported file size o := by
  obtain ⟨hf, hwithin⟩ := h
  rw [hf.encoding, hf.isMaster] at htimes hvalues
  have hbits : f.channel.encoding.bitCount.toNat = fieldAt file o 8 4 :=
    (Prod.mk.inj hf.encoding).2
  rw [FoundChannel.Within, Encoding.byteSize, hf.byteOffset, hbits] at hwithin
  exact ⟨hf.id, hf.composition, hf.conversion, hf.signalData, hf.fixedLength, hf.bitOffset,
    hwithin, htimes, hvalues⟩

/-- Once times and samples have been taken, every channel of the chain is one that is handled. -/
lemma Collected.supported {g : MeasuredGroup} (h : Collected file size os found)
    (hg : ofRecords size count records found = .ok g) :
    ∀ o ∈ os, Channel.Supported file size o := by
  obtain ⟨⟨name, times⟩, htimes, hg⟩ := bind_eq_ok_iff.mp hg
  obtain ⟨cs, hcs, -⟩ := bind_eq_ok_iff.mp hg
  intro o ho
  by_cases hm : Channel.isMasterAt file o = true
  · have hmem : o ∈ os.filter (Channel.isMasterAt file) := List.mem_filter.mpr ⟨ho, hm⟩
    obtain ⟨f, hf, hstands⟩ := exists_of_mem_forall₂ h.master hmem
    rw [Option.mem_toList.mp hf] at htimes
    obtain ⟨ts, hts, -⟩ := bind_eq_ok_iff.mp htimes
    refine supported_of_standsAt hstands (fun _ => mem_timeEncodings hts) fun hvalue => ?_
    rw [hstands.found.isMaster, hm] at hvalue
    cases hvalue
  · have hmem : o ∈ os.filter fun o => !Channel.isMasterAt file o :=
      List.mem_filter.mpr ⟨ho, by simpa using hm⟩
    obtain ⟨f, hf, hstands⟩ := exists_of_mem_forall₂ h.values hmem
    obtain ⟨c, -, hc⟩ := exists_of_mem_forall₂ (forall₂_of_mapM_eq_ok hcs) hf
    obtain ⟨kind, hkind, -⟩ := bind_eq_ok_iff.mp hc
    refine supported_of_standsAt hstands (fun hmaster => ?_) fun _ =>
      Kind.mem_valueEncodings (liftM_error_eq_ok_iff.mp hkind)
    rw [hstands.found.isMaster] at hmaster
    exact absurd hmaster hm

lemma Collected.length_masters_le (h : Collected file size os found) :
    (os.filter (Channel.isMasterAt file)).length ≤ 1 := by
  rw [h.master.length_eq]
  exact Option.length_toList_le

/-! ### Groups -/

lemma of_run_readRecords {g : DataGroup} {cg : ChannelGroup}
    (hr : run (readRecords g cg) file p = (.ok records, q)) :
    Records.StoredAt file g.data.toNat records ∧
      records.length = cg.cycleCount.toNat * cg.dataBytes.toNat := by
  obtain ⟨rs, q₁, hrecords, hr⟩ := run_bind_eq_ok_iff.mp hr
  obtain ⟨-, hr⟩ := run_refuseIf_bind_eq_ok_iff.mp (of_size_bind hr)
  obtain ⟨hlength, hr⟩ := run_refuseIf_bind_eq_ok_iff.mp hr
  cases hr
  exact ⟨Records.storedAt_of_run_read hrecords, not_not.mp hlength⟩

/-- **A data group that was read is one that is handled.** -/
theorem supported_of_run_read {dg : DataGroup} {g : MeasuredGroup} (hdg : dg.FoundAt file o)
    (hr : run (read dg) file p = (.ok g, q)) : DataGroup.Supported file o := by
  obtain ⟨hids, hr⟩ := run_refuseIf_bind_eq_ok_iff.mp hr
  obtain ⟨cg, q₁, hcg, hr⟩ := run_bind_eq_ok_iff.mp hr
  have hfound := ChannelGroup.foundAt_of_run_read hcg
  rw [hdg.firstChannelGroup] at hfound
  obtain ⟨hnext, hr⟩ := run_refuseIf_bind_eq_ok_iff.mp hr
  obtain ⟨hinvalid, hr⟩ := run_refuseIf_bind_eq_ok_iff.mp hr
  obtain ⟨-, hr⟩ := run_refuseIf_bind_eq_ok_iff.mp hr
  obtain ⟨records, q₂, hrecords, hr⟩ := run_bind_eq_ok_iff.mp hr
  obtain ⟨found, q₃, hchannels, hr⟩ := run_bind_eq_ok_iff.mp hr
  obtain ⟨hstored, hlength⟩ := of_run_readRecords hrecords
  obtain ⟨os, hfollows, hcollected⟩ := collected_of_run_readChannels hchannels
  have hsupported := hcollected.supported (of_run_liftM hr).1
  rw [hdg.data] at hstored
  rw [hfound.cycleCount, hfound.dataBytes] at hlength
  rw [hfound.firstChannel] at hfollows
  rw [hfound.dataBytes] at hsupported
  refine ⟨hdg.id, ?_, ⟨hfound.id, ?_, hfound.fixedLength, ?_,
    ⟨os, hfollows, hsupported, hcollected.length_masters_le⟩⟩, ⟨records, hstored, hlength⟩⟩
  · rw [← hdg.recordIdSize, not_not.mp hids]
    rfl
  · rw [← hfound.next, not_not.mp hnext]
    rfl
  · rw [← hfound.invalidationBytes, not_not.mp hinvalid]
    rfl

end MeasuredGroup

/-! ### The file -/

lemma Identification.of_run_decode {id : Identification}
    (hr : run decode file 0 = (.ok id, q)) (hid : id.unfinished = none) :
    Identification.Supported file id.version := by
  obtain ⟨hfinished, htext, -, horder, hformat, hnumber⟩ := foundAt_of_run_decode hr
  exact ⟨hfinished hid, htext, horder, hformat, hnumber⟩

namespace Measurement

lemma unfinished_of_checkIdentification {id : Identification} {expected : Option Version}
    (h : checkIdentification id expected = .ok ()) : id.unfinished = none := by
  unfold checkIdentification at h
  split at h
  · cases h
  · split at h
    · cases h
    · rename_i hnone
      exact Option.not_isSome_iff_eq_none.mp hnone

lemma of_run_readGroup {groups : Groups} {r : Groups × UInt64}
    (hr : run (readGroup groups o) file p = (.ok r, q)) :
    DataGroup.Supported file o ∧ r.2.toNat = linkAt file o 0 := by
  obtain ⟨dg, q₁, hdg, hr⟩ := run_bind_eq_ok_iff.mp hr
  have hfound := DataGroup.foundAt_of_run_read hdg
  obtain ⟨g, q₂, hg, hr⟩ := run_bind_eq_ok_iff.mp hr
  obtain ⟨groups', -, hr⟩ := run_liftM_bind_eq_ok_iff.mp hr
  cases hr
  exact ⟨MeasuredGroup.supported_of_run_read hfound hg, hfound.next⟩

/-- **Whatever is accepted has nothing beyond the subset that is handled**: not in the
identification, in no data group of the chain and in no channel of any group. -/
theorem supported_of_ofBytes {bytes : List UInt8} {expected : Option Version} {m : Measurement}
    (h : ofBytes bytes expected = .ok m) : Supported bytes m.id.version := by
  obtain ⟨header, g, _, _, _, _, _, hid, hcheck, hheader, -, -, hgroups, -⟩ :=
    exists_parts_of_ofBytes h
  obtain ⟨groups, hfold, -⟩ := of_run_map hgroups
  obtain ⟨os, hw⟩ := Chain.exists_walk_of_run_fold hfold
  have hfollows := hw.follows rfl fun _ _ _ _ _ hstep => (of_run_readGroup hstep).2
  rw [FileHeader.firstDataGroup_of_run_read hheader] at hfollows
  refine ⟨Identification.of_run_decode hid (unfinished_of_checkIdentification hcheck), os,
    hfollows, ?_⟩
  intro o ho
  obtain ⟨state, p, r, q, hstep⟩ := hw.exists_run o ho
  exact (of_run_readGroup hstep).1

theorem supported_of_ofBytes_floats :
    ∃ bytes m, Session.floats.file Deflate.storing = .ok bytes ∧ ofBytes bytes none = .ok m ∧
      m.channels.map MeasuredChannel.name = ["u8", "f64"] ∧ Supported bytes m.id.version := by
  obtain ⟨bytes, hb, hread⟩ := Session.exists_read_floats
  exact ⟨bytes, _, hb, hread, by decide, supported_of_ofBytes hread⟩

end Measurement

end Mdf
