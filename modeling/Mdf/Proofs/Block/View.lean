import Mdf.Block.Channel
import Mdf.Block.ChannelGroup
import Mdf.Block.DataGroup
import Mdf.Block.FileHeader
import Mdf.Block.Records
import Mdf.Proofs.Block.Tiling
import Mdf.Proofs.Block.Walk
import Mdf.Proofs.Bytes.Numbers

/-!
# Blocks as the bytes have them

What the bytes say of the block at an offset, whether or not it is ever read: its id (`idAt`), its
links (`linkAt`) and the numbers among its data (`fieldAt`).  A reader that has given a block has
found all of it at the offset, with the head as it stands there and the whole block within the file
(`Header.of_run_readAny`), and without what the format has beyond the blocks that are handled.
-/

namespace Mdf

open Decode

lemma Checked.eq_of_word {n r : Nat} (h : word n = .ok r) : r = n := by
  unfold word at h
  split at h
  · cases h
    rfl
  · cases h

namespace Block

/-! ### The view -/

/-- The id of the block at an offset. -/
def idAt (file : List UInt8) (o : Nat) : List UInt8 := (file.drop o).take 4

/-- The number of links of the block at an offset. -/
def countAt (file : List UInt8) (o : Nat) : Nat := numberAt file (o + 16) 8

/-- The link at an index of the block at an offset; a block without it links to nothing there. -/
def linkAt (file : List UInt8) (o i : Nat) : Nat :=
  if i < countAt file o then numberAt file (linkPosition o i) 8 else 0

/-- Where the data of the block at an offset begin. -/
def dataStart (file : List UInt8) (o : Nat) : Nat := o + headSize (countAt file o)

/-- The number in the `n` bytes from byte `i` of the data of the block at an offset on. -/
def fieldAt (file : List UInt8) (o i n : Nat) : Nat := numberAt file (dataStart file o + i) n

/-- The data of the block at an offset. -/
def dataAt (file : List UInt8) (o : Nat) : List UInt8 :=
  (file.drop (dataStart file o)).take (lengthAt file o - headSize (countAt file o))

variable {file : List UInt8} {o p q : Nat}

/-! ### Heads -/

lemma eq_of_checkedHeadSize {n r : Nat} (h : checkedHeadSize n = .ok r) : r = headSize n := by
  obtain ⟨links, hlinks, h⟩ := bind_eq_ok_iff.mp h
  rw [Checked.eq_of_word h, Checked.eq_of_word hlinks, headSize]

namespace Header

/-- The head stands at an offset of a file, and the whole block within the file. -/
structure FoundAt (file : List UInt8) (o : Nat) (h : Header) : Prop where
  /-- Offset zero stands for no block. -/
  pos : 0 < o
  id : idAt file o = h.id.bytes
  length : lengthAt file o = h.length
  count : countAt file o = h.links.length
  link : ∀ i, (h.link i).toNat = linkAt file o i
  /-- The block has room for its links. -/
  room : headSize h.links.length ≤ h.length
  le : o + h.length ≤ file.length

variable {h : Header}

lemma eq_of_dataLength {n : Nat} (hn : h.dataLength = .ok n) :
    n = h.length - headSize h.links.length := by
  obtain ⟨size, hsize, hn⟩ := bind_eq_ok_iff.mp hn
  cases hn
  rw [eq_of_checkedHeadSize hsize]

lemma le_of_hasRoom {size length count : Nat} (h : hasRoom size length count = .ok true) :
    headSize count ≤ length := by
  unfold hasRoom at h
  split at h
  · cases h
  · obtain ⟨r, hr, h⟩ := bind_eq_ok_iff.mp h
    rw [← eq_of_checkedHeadSize hr]
    exact of_decide_eq_true (Except.ok.inj h)

/-- Behind the id come the length, the number of links and the links. -/
lemma foundAt_of_run_readRest {first id : BlockId} (hpos : 0 < o) (hid : idAt file o = id.bytes)
    (hr : run (readRest first id file.length o) file (o + 4) = (.ok h, q)) :
    h.FoundAt file o ∧ h.id = id ∧ q = o + headSize h.links.length := by
  have hr := of_skip_bind hr
  obtain ⟨length, hlength, hr⟩ := of_uint64_bind hr
  obtain ⟨count, hcount, hr⟩ := of_uint64_bind hr
  obtain ⟨room, hroom, hr⟩ := run_liftM_bind_eq_ok_iff.mp hr
  cases room with
  | false =>
    obtain ⟨_, -, hrefuse⟩ := run_liftM_bind_eq_ok_iff.mp hr
    cases hrefuse
  | true =>
    obtain ⟨hend, hr⟩ := run_refuseIf_bind_eq_ok_iff.mp hr
    obtain ⟨links, hlinks, rfl⟩ := of_run_map hr
    obtain ⟨hlen, hall, rfl⟩ := of_run_uint64s hlinks
    have hc : countAt file o = links.length := by rw [hlen, hcount, countAt]
    refine ⟨⟨hpos, hid, hlength.symm, hc, fun i => ?_, ?_, Nat.not_lt.mp hend⟩, rfl, ?_⟩
    · unfold linkAt
      by_cases hi : i < countAt file o
      · rw [if_pos hi, link, hall i (by omega), linkPosition, headSize, fixedSize]
        congr 1
        omega
      · have hle : links.length ≤ i := by omega
        rw [if_neg hi, link, List.getD_eq_getElem?_getD, List.getElem?_eq_none hle]
        rfl
    · rw [hlen]
      exact le_of_hasRoom (liftM_fault_eq_ok_iff.mp hroom)
    · rw [hlen, headSize, fixedSize]
      omega

/-- **A head that was read stands at the offset**, with an id that was expected, and the whole block
lies within the file. -/
theorem of_run_readAny {first : BlockId} {others : List BlockId}
    (hr : run (readAny first others o) file p = (.ok h, q)) :
    h.FoundAt file o ∧ h.id ∈ first :: others ∧ q = o + headSize h.links.length := by
  have hr := of_size_bind hr
  obtain ⟨hin, hr⟩ := run_refuseIf_bind_eq_ok_iff.mp hr
  have hr := of_take_bind (of_seek_bind hr)
  split at hr
  · cases hr
  · rename_i id hfind
    have hid : (id.bytes == (file.drop o).take 4) = true :=
      List.find?_some (p := fun i : BlockId => i.bytes == (file.drop o).take 4) hfind
    obtain ⟨hfound, rfl, hq⟩ := foundAt_of_run_readRest (by omega) (eq_of_beq hid).symm hr
    exact ⟨hfound, List.mem_of_find?_eq_some hfind, hq⟩

lemma of_run_read {id : BlockId} {minLinks minData : Nat}
    (hr : run (read id minLinks minData o) file p = (.ok h, q)) :
    h.FoundAt file o ∧ idAt file o = id.bytes ∧ q = dataStart file o := by
  obtain ⟨h', q₁, hany, hr⟩ := run_bind_eq_ok_iff.mp hr
  obtain ⟨hfound, hid, rfl⟩ := of_run_readAny hany
  obtain ⟨-, hr⟩ := run_refuseIf_bind_eq_ok_iff.mp hr
  obtain ⟨n, -, hr⟩ := run_liftM_bind_eq_ok_iff.mp hr
  obtain ⟨-, hr⟩ := run_refuseIf_bind_eq_ok_iff.mp hr
  cases hr
  rw [← List.mem_singleton.mp hid, dataStart, hfound.count]
  exact ⟨hfound, hfound.id, rfl⟩

end Header

end Block

open Block

variable {file : List UInt8} {o p q : Nat}

/-! ### Blocks of fields -/

lemma FileHeader.firstDataGroup_of_run_read {h : FileHeader}
    (hr : run (FileHeader.read o) file p = (.ok h, q)) :
    h.firstDataGroup.toNat = linkAt file o 0 := by
  obtain ⟨head, q₁, hhead, hr⟩ := run_bind_eq_ok_iff.mp hr
  obtain ⟨hfound, -, rfl⟩ := Header.of_run_read hhead
  obtain ⟨_, -, hr⟩ := of_uint64_bind hr
  obtain ⟨_, q₂, -, hr⟩ := run_bind_eq_ok_iff.mp hr
  obtain ⟨_, q₃, -, hr⟩ := run_bind_eq_ok_iff.mp hr
  obtain ⟨_, -, rfl⟩ := of_run_map hr
  exact hfound.link 0

/-- The data group stands at an offset of a file. -/
structure DataGroup.FoundAt (file : List UInt8) (o : Nat) (g : DataGroup) : Prop where
  id : idAt file o = BlockId.dg.bytes
  next : g.next.toNat = linkAt file o 0
  firstChannelGroup : g.firstChannelGroup.toNat = linkAt file o 1
  data : g.data.toNat = linkAt file o 2
  recordIdSize : g.recordIdSize.toNat = fieldAt file o 0 1

lemma DataGroup.foundAt_of_run_read {g : DataGroup}
    (hr : run (DataGroup.read o) file p = (.ok g, q)) : g.FoundAt file o := by
  obtain ⟨head, q₁, hhead, hr⟩ := run_bind_eq_ok_iff.mp hr
  obtain ⟨hfound, hid, rfl⟩ := Header.of_run_read hhead
  obtain ⟨recordIdSize, hsize, hr⟩ := of_uint8_bind hr
  cases hr
  exact ⟨hid, hfound.link 0, hfound.link 1, hfound.link 2, hsize⟩

/-- The channel group stands at an offset of a file. -/
structure ChannelGroup.FoundAt (file : List UInt8) (o : Nat) (g : ChannelGroup) : Prop where
  id : idAt file o = BlockId.cg.bytes
  next : g.next.toNat = linkAt file o 0
  firstChannel : g.firstChannel.toNat = linkAt file o 1
  cycleCount : g.cycleCount.toNat = fieldAt file o 8 8
  /-- The lowest flag, which stands for values of variable length, is not set. -/
  fixedLength : fieldAt file o 16 2 % 2 = 0
  dataBytes : g.dataBytes.toNat = fieldAt file o 24 4
  invalidationBytes : g.invalidationBytes.toNat = fieldAt file o 28 4

lemma ChannelGroup.foundAt_of_run_read {g : ChannelGroup}
    (hr : run (ChannelGroup.read o) file p = (.ok g, q)) : g.FoundAt file o := by
  obtain ⟨head, q₁, hhead, hr⟩ := run_bind_eq_ok_iff.mp hr
  obtain ⟨hfound, hid, rfl⟩ := Header.of_run_read hhead
  obtain ⟨recordId, -, hr⟩ := of_uint64_bind hr
  obtain ⟨cycleCount, hcount, hr⟩ := of_uint64_bind hr
  obtain ⟨flags, hflags, hr⟩ := of_uint16_bind hr
  have hr := of_skip_bind hr
  obtain ⟨dataBytes, hbytes, hr⟩ := of_uint32_bind hr
  obtain ⟨invalidationBytes, hinvalid, hr⟩ := of_uint32_bind hr
  obtain ⟨hfixed, hr⟩ := run_refuseIf_bind_eq_ok_iff.mp hr
  cases hr
  have hmod : flags.toNat % 2 = 0 := by
    simp only [isVariableLength, decide_eq_true_eq] at hfixed
    omega
  rw [hflags] at hmod
  exact ⟨hid, hfound.link 0, hfound.link 1, hcount, hmod, hbytes, hinvalid⟩

lemma DataType.code_of_ofCode {code : UInt8} {t : DataType} (h : ofCode code = .ok t) :
    t.code = code := by
  have hcodes : all.map (fun t => t.code.toNat) = List.range 17 := by decide
  unfold ofCode at h
  split at h
  · rename_i t' hget
    cases h
    have hmap : (all.map fun t => t.code.toNat)[code.toNat]? = some t.code.toNat := by
      rw [List.getElem?_map, hget, Option.map_some]
    rw [hcodes] at hmap
    obtain ⟨hlt, hcode⟩ := List.getElem?_eq_some_iff.mp hmap
    rw [List.getElem_range] at hcode
    exact UInt8.toNat_inj.mp hcode.symm
  · cases h

/-- The data type and the width, in bits, of the channel at an offset. -/
def Channel.encodingAt (file : List UInt8) (o : Nat) : Nat × Nat :=
  (fieldAt file o 2 1, fieldAt file o 8 4)

/-- Whether the channel at an offset is a master channel, stored or not. -/
def Channel.isMasterAt (file : List UInt8) (o : Nat) : Bool :=
  fieldAt file o 0 1 = 2 || fieldAt file o 0 1 = 3

/-- The channel stands at an offset of a file, without what the format has beyond it. -/
structure Channel.FoundAt (file : List UInt8) (o : Nat) (c : Channel) : Prop where
  id : idAt file o = BlockId.cn.bytes
  next : c.next.toNat = linkAt file o 0
  channelType : c.channelType.toNat = fieldAt file o 0 1
  encoding : (c.encoding.dataType.code.toNat, c.encoding.bitCount.toNat) = encodingAt file o
  byteOffset : c.byteOffset.toNat = fieldAt file o 4 4
  composition : linkAt file o 1 = 0
  conversion : linkAt file o 4 = 0
  signalData : linkAt file o 5 = 0
  fixedLength : fieldAt file o 0 1 ≠ 1
  bitOffset : fieldAt file o 3 1 = 0

lemma Channel.foundAt_of_run_read {c : Channel}
    (hr : run (Channel.read o) file p = (.ok c, q)) : c.FoundAt file o := by
  obtain ⟨head, q₁, hhead, hr⟩ := run_bind_eq_ok_iff.mp hr
  obtain ⟨hfound, hid, rfl⟩ := Header.of_run_read hhead
  obtain ⟨channelType, htype, hr⟩ := of_uint8_bind hr
  obtain ⟨syncType, -, hr⟩ := of_uint8_bind hr
  obtain ⟨code, hcode, hr⟩ := of_uint8_bind hr
  obtain ⟨dataType, hdata, hr⟩ := run_liftM_bind_eq_ok_iff.mp hr
  obtain ⟨bitOffset, hbit, hr⟩ := of_uint8_bind hr
  obtain ⟨byteOffset, hbyte, hr⟩ := of_uint32_bind hr
  obtain ⟨bitCount, hcount, hr⟩ := of_uint32_bind hr
  obtain ⟨flags, -, hr⟩ := of_uint32_bind hr
  obtain ⟨hcomposition, hr⟩ := run_refuseIf_bind_eq_ok_iff.mp hr
  obtain ⟨hconversion, hr⟩ := run_refuseIf_bind_eq_ok_iff.mp hr
  obtain ⟨hsignal, hr⟩ := run_refuseIf_bind_eq_ok_iff.mp hr
  obtain ⟨hoffset, hr⟩ := run_refuseIf_bind_eq_ok_iff.mp hr
  cases hr
  have hnone : ∀ i, ¬head.link i ≠ 0 → linkAt file o i = 0 := by
    intro i hi
    rw [← hfound.link i, not_not.mp hi]
    rfl
  have hencoding : (dataType.code.toNat, bitCount.toNat) = encodingAt file o := by
    rw [DataType.code_of_ofCode (liftM_error_eq_ok_iff.mp hdata), hcode, hcount]
    rfl
  refine ⟨hid, hfound.link 0, htype, hencoding, hbyte, hnone 1 hcomposition,
    hnone 4 hconversion, hnone 5 fun h => hsignal (.inr h), fun h => hsignal (.inl ?_), ?_⟩
  · exact UInt8.toNat_inj.mp (htype.trans h)
  · exact hbit.symm.trans (congrArg UInt8.toNat (not_not.mp hoffset))

lemma Channel.FoundAt.isMaster {c : Channel} (h : c.FoundAt file o) :
    c.isMaster = isMasterAt file o := by
  have htype : ∀ t : UInt8, (c.channelType = t) = (fieldAt file o 0 1 = t.toNat) := by
    intro t
    rw [← h.channelType, UInt8.toNat_inj]
  simp only [Channel.isMaster, isMasterAt, htype]
  rfl

/-! ### Records -/

namespace Records

/-- The records that a link leads to.  A compressed block says in its data what it holds, how the
bytes were rearranged, how many there were, and how many there are compressed. -/
inductive StoredAt (file : List UInt8) : Nat → List UInt8 → Prop
  /-- Without a link there are none. -/
  | none : StoredAt file 0 []
  /-- They stand in a block as they are. -/
  | plain {o : Nat} (hid : idAt file o = BlockId.dt.bytes) : StoredAt file o (dataAt file o)
  /-- They stand in a block that wraps a block of records, compressed. -/
  | deflate {o : Nat} {records : List UInt8} (hid : idAt file o = BlockId.dz.bytes)
      (hwrapped : (file.drop (dataStart file o)).take 2 = wrappedId)
      (hzip : fieldAt file o 2 1 = 0)
      (hrecords : Deflate.decompress ((file.drop (dataStart file o + 24)).take
        (fieldAt file o 16 8)) (UInt64.ofNat (fieldAt file o 8 8)) = .ok records) :
      StoredAt file o records
  /-- They stand in such a block, transposed and then compressed. -/
  | transposed {o : Nat} {d records : List UInt8} (hid : idAt file o = BlockId.dz.bytes)
      (hwrapped : (file.drop (dataStart file o)).take 2 = wrappedId)
      (hzip : fieldAt file o 2 1 = 1)
      (hd : Deflate.decompress ((file.drop (dataStart file o + 24)).take
        (fieldAt file o 16 8)) (UInt64.ofNat (fieldAt file o 8 8)) = .ok d)
      (hrecords : Storage.untranspose (fieldAt file o 4 4) d = .ok records) :
      StoredAt file o records

lemma zipType?_of_ofZipType {code : UInt8} {mode : Storage}
    (h : Storage.ofZipType code = .ok mode) : mode.zipType? = some code := by
  unfold Storage.ofZipType at h
  split at h
  · rename_i mode' hfind
    cases h
    exact eq_of_beq (List.find?_some (p := fun m : Storage => m.zipType? == some code) hfind)
  · cases h

lemma storedAt_of_run_unpack {h : Header} {records : List UInt8}
    (hid : idAt file o = BlockId.dz.bytes)
    (hr : run (unpack h) file (dataStart file o) = (.ok records, q)) :
    StoredAt file o records := by
  obtain ⟨dataLength, -, hr⟩ := run_liftM_bind_eq_ok_iff.mp hr
  obtain ⟨-, hr⟩ := run_refuseIf_bind_eq_ok_iff.mp hr
  have hr := of_take_bind hr
  obtain ⟨hwrapped, hr⟩ := run_refuseIf_bind_eq_ok_iff.mp hr
  obtain ⟨code, hcode, hr⟩ := of_uint8_bind hr
  obtain ⟨mode, hmode, hr⟩ := run_liftM_bind_eq_ok_iff.mp hr
  have hr := of_skip_bind hr
  obtain ⟨parameter, hparameter, hr⟩ := of_uint32_bind hr
  obtain ⟨unpacked, hunpacked, hr⟩ := of_uint64_bind hr
  obtain ⟨packed, hpacked, hr⟩ := of_uint64_bind hr
  obtain ⟨room, -, hr⟩ := run_liftM_bind_eq_ok_iff.mp (of_size_bind hr)
  obtain ⟨-, hr⟩ := run_refuseIf_bind_eq_ok_iff.mp hr
  obtain ⟨d, hd, hr⟩ := run_liftM_bind_eq_ok_iff.mp (of_take_bind hr)
  have hrecords := (of_run_liftM hr).1
  rw [liftM_fault_eq_ok_iff] at hrecords
  rw [liftM_error_eq_ok_iff, hpacked, ← UInt64.ofNat_toNat (x := unpacked), hunpacked] at hd
  have hzip := zipType?_of_ofZipType (liftM_error_eq_ok_iff.mp hmode)
  cases mode with
  | plain => cases hzip
  | deflate =>
    cases hzip
    cases hrecords
    exact .deflate hid (not_not.mp hwrapped) hcode.symm hd
  | transposed =>
    cases hzip
    have huntransposed : Storage.untranspose parameter.toNat d = .ok records := hrecords
    rw [hparameter] at huntransposed
    exact .transposed hid (not_not.mp hwrapped) hcode.symm hd huntransposed

/-- **Records that were read are those that the link leads to.** -/
theorem storedAt_of_run_read {records : List UInt8}
    (hr : run (Records.read o) file p = (.ok records, q)) : StoredAt file o records := by
  unfold Records.read at hr
  split at hr
  · rename_i ho
    cases hr
    rw [ho]
    exact .none
  · obtain ⟨h, q₁, hany, hr⟩ := run_bind_eq_ok_iff.mp hr
    obtain ⟨hfound, -, rfl⟩ := Header.of_run_readAny hany
    have hstart : o + headSize h.links.length = dataStart file o := by
      rw [dataStart, hfound.count]
    split at hr
    · rename_i hid
      obtain ⟨n, hn, hr⟩ := run_liftM_bind_eq_ok_iff.mp hr
      obtain ⟨rfl, -⟩ := of_run_take hr
      have hdata : (file.drop (o + headSize h.links.length)).take n = dataAt file o := by
        rw [Header.eq_of_dataLength (liftM_fault_eq_ok_iff.mp hn), hstart, dataAt, hfound.length,
          hfound.count]
      rw [hdata]
      exact .plain (hfound.id.trans (by rw [hid]))
    · split at hr
      · rename_i hid
        rw [hstart] at hr
        exact storedAt_of_run_unpack (hfound.id.trans (by rw [hid])) hr
      · cases hr

end Records

/-! ### Chains -/

namespace Chain

/-- From a link on, the first link of each block leads to the next of these offsets, and that of the
last one to none. -/
inductive Follows (file : List UInt8) : Nat → List Nat → Prop
  | nil : Follows file 0 []
  | cons {o : Nat} {os : List Nat} (hpos : o ≠ 0) (h : Follows file (linkAt file o 0) os) :
      Follows file o (o :: os)

/-- A walk up to the end has followed the first links, if each step leads along them. -/
lemma Walk.follows {σ : Type} {step : σ → Nat → Decode (σ × UInt64)} {a b : Stand σ} {os : List Nat}
    (h : Walk file step os a b) (hend : b.link = 0)
    (hs : ∀ state o p r q, run (step state o) file p = (.ok r, q) → r.2.toNat = linkAt file o 0) :
    Follows file a.link.toNat os := by
  induction h with
  | nil a =>
    rw [hend]
    exact .nil
  | cons hlink hstep _ ih =>
    refine .cons (toNat_ne_zero hlink) ?_
    rw [← hs _ _ _ _ _ hstep]
    exact ih hend

lemma Walk.exists_run {σ : Type} {step : σ → Nat → Decode (σ × UInt64)} {a b : Stand σ}
    {os : List Nat} (h : Walk file step os a b) :
    ∀ o ∈ os, ∃ state p r q, run (step state o) file p = (.ok r, q) := by
  induction h with
  | nil => simp
  | cons _ hstep _ ih => exact List.forall_mem_cons.mpr ⟨⟨_, _, _, _, hstep⟩, ih⟩

end Chain

end Mdf
