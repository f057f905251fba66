import Mdf.Measurement.Reader
import Mdf.Proofs.Block.Sequence
import Mdf.Proofs.Block.Walk

/-!
# The walks of a reader

Reading a file walks along the chain of the history, along the chain of the data groups, and in each
data group along the chain of its channels.  `Walks` says where such a walk begins.  Whatever the
bytes are, each walk has at most as many iterations as the file has bytes, and once its links lead
back to a block of the walk, the file is refused with this link (`tame_of_walks`).
-/

namespace Mdf

open Decode

variable {bytes : List UInt8} {p q : Nat}

/-! ### Steps stay within the file -/

lemma DataGroup.lt_of_run_read {o : Nat} {dg : DataGroup}
    (h : run (DataGroup.read o) bytes p = (.ok dg, q)) : o < bytes.length := by
  obtain ⟨head, q₁, hhead, -⟩ := run_bind_eq_ok_iff.mp h
  exact Block.Header.lt_of_run_read hhead

lemma Measurement.guarded_readEntry : Chain.Guarded bytes readEntry := by
  intro state o p r q h
  obtain ⟨e, q₁, he, -⟩ := run_bind_eq_ok_iff.mp h
  obtain ⟨head, q₂, hhead, -⟩ := run_bind_eq_ok_iff.mp he
  exact Block.Header.lt_of_run_read hhead

lemma Measurement.guarded_readGroup : Chain.Guarded bytes readGroup := by
  intro state o p r q h
  obtain ⟨dg, q₁, hdg, -⟩ := run_bind_eq_ok_iff.mp h
  exact DataGroup.lt_of_run_read hdg

lemma MeasuredGroup.guarded_readChannel (size : Nat) : Chain.Guarded bytes (readChannel size) := by
  intro state o p r q h
  obtain ⟨c, q₁, hc, -⟩ := run_bind_eq_ok_iff.mp h
  obtain ⟨head, q₂, hhead, -⟩ := run_bind_eq_ok_iff.mp hc
  exact Block.Header.lt_of_run_read hhead

/-! ### What is read before a walk -/

/-- What is read of a data group before its channels. -/
def MeasuredGroup.readFront (g : DataGroup) : Decode (ChannelGroup × List UInt8) := do
  refuseIf (g.recordIdSize ≠ 0) (.unsupportedFeature .recordIds)
  let cg ← ChannelGroup.read g.firstChannelGroup.toNat
  refuseIf (cg.next ≠ 0) (.unsupportedFeature .severalChannelGroups)
  refuseIf (cg.invalidationBytes ≠ 0) (.unsupportedFeature .invalidationBytes)
  refuseIf (cg.dataBytes = 0 ∧ cg.cycleCount ≠ 0) (.unsupportedFeature .emptyRecords)
  let records ← readRecords g cg
  return (cg, records)

lemma MeasuredGroup.run_read {dg : DataGroup} {cg : ChannelGroup} {records : List UInt8}
    (h : run (readFront dg) bytes p = (.ok (cg, records), q)) :
    run (read dg) bytes p = run (do
      let found ← readChannels cg.dataBytes.toNat cg.firstChannel
      (ofRecords cg.dataBytes.toNat cg.cycleCount.toNat records found :
        Except Failure MeasuredGroup)) bytes q := by
  obtain ⟨_, q₁, h1, h⟩ := run_bind_eq_ok_iff.mp h
  obtain ⟨cg', q₂, h2, h⟩ := run_bind_eq_ok_iff.mp h
  obtain ⟨_, q₃, h3, h⟩ := run_bind_eq_ok_iff.mp h
  obtain ⟨_, q₄, h4, h⟩ := run_bind_eq_ok_iff.mp h
  obtain ⟨_, q₅, h5, h⟩ := run_bind_eq_ok_iff.mp h
  obtain ⟨records', q₆, h6, h⟩ := run_bind_eq_ok_iff.mp h
  cases h
  unfold read
  rw [run_bind_of_ok h1, run_bind_of_ok h2, run_bind_of_ok h3, run_bind_of_ok h4,
    run_bind_of_ok h5, run_bind_of_ok h6]

/-- A data group that has been read has been read in three steps: its front, its channels, and what
these hold. -/
lemma MeasuredGroup.exists_of_run_read {dg : DataGroup} {g : MeasuredGroup}
    (h : run (read dg) bytes p = (.ok g, q)) : ∃ cg records found r,
      run (readFront dg) bytes p = (.ok (cg, records), r) ∧
      run (readChannels cg.dataBytes.toNat cg.firstChannel) bytes r = (.ok found, q) ∧
      ofRecords cg.dataBytes.toNat cg.cycleCount.toNat records found = .ok g := by
  obtain ⟨_, q₁, h1, h⟩ := run_bind_eq_ok_iff.mp h
  obtain ⟨cg, q₂, h2, h⟩ := run_bind_eq_ok_iff.mp h
  obtain ⟨_, q₃, h3, h⟩ := run_bind_eq_ok_iff.mp h
  obtain ⟨_, q₄, h4, h⟩ := run_bind_eq_ok_iff.mp h
  obtain ⟨_, q₅, h5, h⟩ := run_bind_eq_ok_iff.mp h
  obtain ⟨records, q₆, h6, h⟩ := run_bind_eq_ok_iff.mp h
  obtain ⟨found, q₇, h7, h⟩ := run_bind_eq_ok_iff.mp h
  obtain ⟨hg, rfl⟩ := of_run_liftM h
  refine ⟨cg, records, found, q₆, ?_, h7, hg⟩
  unfold readFront
  rw [run_bind_of_ok h1, run_bind_of_ok h2, run_bind_of_ok h3, run_bind_of_ok h4,
    run_bind_of_ok h5, run_bind_of_ok h6, run_pure]

namespace Measurement

variable {expected : Option Version}

/-- What is read of a file before its history. -/
def readFront (expected : Option Version) :
    Decode (Identification × FileHeader × Option Comment) := do
  let id ← Identification.decode
  let () ← (checkIdentification id expected : Except Failure Unit)
  let header ← FileHeader.read FileHeader.offset
  let comment ← readComment header.comment
  return (id, header, comment)

lemma run_reader {id : Identification} {header : FileHeader} {comment : Option Comment}
    (h : run (readFront expected) bytes 0 = (.ok (id, header, comment), p)) :
    run (reader expected) bytes 0 = run (do
      let history ← readHistory header.firstHistory
      let g ← readGroups header.firstDataGroup
      return ⟨id, header.startTime, comment, history, g.masterName, g.time, g.channels⟩) bytes
        p := by
  obtain ⟨id', q₁, h1, h⟩ := run_bind_eq_ok_iff.mp h
  obtain ⟨_, q₂, h2, h⟩ := run_bind_eq_ok_iff.mp h
  obtain ⟨header', q₃, h3, h⟩ := run_bind_eq_ok_iff.mp h
  obtain ⟨comment', q₄, h4, h⟩ := run_bind_eq_ok_iff.mp h
  cases h
  unfold reader
  rw [run_bind_of_ok h1, run_bind_of_ok h2, run_bind_of_ok h3, run_bind_of_ok h4]

/-- Before any walk the first bytes of the file have been read. -/
lemma length_pos_of_run_readFront {r : Identification × FileHeader × Option Comment}
    (h : run (readFront expected) bytes 0 = (.ok r, p)) : 0 < bytes.length := by
  obtain ⟨id, q₁, hid, -⟩ := run_bind_eq_ok_iff.mp h
  obtain ⟨mark, q₂, hmark, -⟩ := run_bind_eq_ok_iff.mp hid
  rw [run_take] at hmark
  split at hmark
  · omega
  · cases hmark

/-! ### Walks -/

/-- Reading the bytes comes to a chain, which it walks along with this step, from this stand. -/
inductive Walks (bytes : List UInt8) (expected : Option Version) :
    {σ : Type} → (σ → Nat → Decode (σ × UInt64)) → Chain.Stand σ → Prop
  /-- The history, behind the header and its comment. -/
  | history {id : Identification} {header : FileHeader} {comment : Option Comment} {p : Nat}
      (hfront : run (readFront expected) bytes 0 = (.ok (id, header, comment), p)) :
      Walks bytes expected readEntry ⟨[], header.firstHistory, p⟩
  /-- The data groups, behind the history. -/
  | groups {id : Identification} {header : FileHeader} {comment : Option Comment}
      {history : List Comment} {p q : Nat}
      (hfront : run (readFront expected) bytes 0 = (.ok (id, header, comment), p))
      (hhistory : run (readHistory header.firstHistory) bytes p = (.ok history, q)) :
      Walks bytes expected readGroup ⟨none, header.firstDataGroup, q⟩
  /-- The channels of a data group, behind the data groups before it and its own records. -/
  | channels {id : Identification} {header : FileHeader} {comment : Option Comment}
      {history : List Comment} {os : List Nat} {b : Chain.Stand Groups} {dg : DataGroup}
      {cg : ChannelGroup} {records : List UInt8} {p q r t : Nat}
      (hfront : run (readFront expected) bytes 0 = (.ok (id, header, comment), p))
      (hhistory : run (readHistory header.firstHistory) bytes p = (.ok history, q))
      (hwalk : Chain.Walk bytes readGroup os ⟨none, header.firstDataGroup, q⟩ b)
      (hnew : (os ++ [b.link.toNat]).Nodup) (hlink : b.link ≠ 0)
      (hgroup : run (DataGroup.read b.link.toNat) bytes b.position = (.ok dg, r))
      (hrecords : run (MeasuredGroup.readFront dg) bytes r = (.ok (cg, records), t)) :
      Walks bytes expected (MeasuredGroup.readChannel cg.dataBytes.toNat)
        ⟨⟨none, []⟩, cg.firstChannel, t⟩

lemma ofBytes_eq_error_of_history {id : Identification} {header : FileHeader}
    {comment : Option Comment} {f : Failure}
    (hfront : run (readFront expected) bytes 0 = (.ok (id, header, comment), p))
    (hf : run (readHistory header.firstHistory) bytes p = (.error f, q)) :
    ofBytes bytes expected = .error f := by
  rw [ofBytes, run_reader hfront, run_bind, hf]

lemma ofBytes_eq_error_of_groups {id : Identification} {header : FileHeader}
    {comment : Option Comment} {history : List Comment} {f : Failure} {r : Nat}
    (hfront : run (readFront expected) bytes 0 = (.ok (id, header, comment), p))
    (hhistory : run (readHistory header.firstHistory) bytes p = (.ok history, q))
    (hf : run (Chain.fold readGroup none header.firstDataGroup) bytes q = (.error f, r)) :
    ofBytes bytes expected = .error f := by
  have hgroups : run (readGroups header.firstDataGroup) bytes q = (.error f, r) := by
    rw [readGroups, run_bind, hf]
  rw [ofBytes, run_reader hfront, run_bind_of_ok hhistory, run_bind, hgroups]

/-- A walk has no more iterations than the file has bytes, and if its links lead back, the result is
the refusal of the first link that does so. -/
structure Tame {σ : Type} (bytes : List UInt8) (step : σ → Nat → Decode (σ × UInt64))
    (a : Chain.Stand σ) (result : Except Failure Measurement) : Prop where
  /-- The record is that of the loop. -/
  recorded : (Chain.trace bytes step [] a).2 = run (Chain.fold step a.state a.link) bytes a.position
  /-- There are no more iterations than bytes. -/
  bounded : (Chain.trace bytes step [] a).1.length ≤ bytes.length
  /-- A link that leads back is refused. -/
  refused : ∀ os b, Chain.Walk bytes step os a b → os.Nodup → b.link.toNat ∈ os →
    result = .error (.error (.invalidLink b.link.toNat))

lemma tame_of_guarded {σ : Type} {step : σ → Nat → Decode (σ × UInt64)} {a : Chain.Stand σ}
    {result : Except Failure Measurement} (hbytes : 0 < bytes.length)
    (hg : Chain.Guarded bytes step)
    (h : ∀ f q, run (Chain.fold step a.state a.link) bytes a.position = (.error f, q) →
      result = .error f) : Tame bytes step a result := by
  refine ⟨Chain.trace_snd [] a, Chain.length_trace_le hg hbytes a, ?_⟩
  intro os b hwalk hd hback
  exact h _ _ (hwalk.run_fold_of_mem hd hback)

/-- **Every walk ends.**  Reading any bytes makes at most as many iterations along each chain as there
are bytes, and a chain that leads back to one of its blocks is refused with the link that does so. -/
theorem tame_of_walks {σ : Type} {step : σ → Nat → Decode (σ × UInt64)} {a : Chain.Stand σ}
    (h : Walks bytes expected step a) : Tame bytes step a (ofBytes bytes expected) := by
  cases h with
  | history hfront =>
    refine tame_of_guarded (length_pos_of_run_readFront hfront) guarded_readEntry ?_
    intro f q hf
    exact ofBytes_eq_error_of_history hfront hf
  | groups hfront hhistory =>
    refine tame_of_guarded (length_pos_of_run_readFront hfront) guarded_readGroup ?_
    intro f q hf
    exact ofBytes_eq_error_of_groups hfront hhistory hf
  | @channels id header comment history os b dg cg records p q r t hfront hhistory hwalk hnew hlink
      hgroup hrecords =>
    refine tame_of_guarded (length_pos_of_run_readFront hfront)
      (MeasuredGroup.guarded_readChannel _) ?_
    intro f u hf
    have hchannels : run (MeasuredGroup.readChannels cg.dataBytes.toNat cg.firstChannel) bytes t =
        (.error f, u) := hf
    have hstep : run (readGroup b.state b.link.toNat) bytes b.position = (.error f, u) := by
      rw [readGroup, run_bind_of_ok hgroup, run_bind, MeasuredGroup.run_read hrecords, run_bind,
        hchannels]
    exact ofBytes_eq_error_of_groups hfront hhistory
      (hwalk.run_fold_of_error hnew hlink hstep)

/-- A file of which the history comes to a loop: the third entry leads back to the second one. -/
def entangled : List UInt8 :=
  (Identification.new .v410).encode ++ Block.sequence FileHeader.offset
    [FileHeader.block ⟨0, 168, 0, 5, 0, 0, 0⟩, HistoryEntry.block ⟨224, 0, 1⟩,
      HistoryEntry.block ⟨280, 0, 2⟩, HistoryEntry.block ⟨224, 0, 3⟩]

theorem tame_of_walks_entangled :
    Walks entangled none readEntry ⟨[], 168, 149⟩ ∧
      Chain.Walk entangled readEntry [168, 224, 280] ⟨[], 168, 149⟩ ⟨[], 224, 328⟩ ∧
      (Chain.trace entangled readEntry [] ⟨[], 168, 149⟩).1.length ≤ entangled.length ∧
      ofBytes entangled none = .error (.error (.invalidLink 224)) := by
  have hfront : run (readFront none) entangled 0 =
      (.ok (Identification.new .v410, ⟨0, 168, 0, 5, 0, 0, 0⟩, none), 149) := by decide +kernel
  have hfirst : run (readEntry [] (168 : UInt64).toNat) entangled 149 = (.ok ([], 224), 216) := by
    decide +kernel
  have hsecond : run (readEntry [] (224 : UInt64).toNat) entangled 216 = (.ok ([], 280), 272) := by
    decide +kernel
  have hthird : run (readEntry [] (280 : UInt64).toNat) entangled 272 = (.ok ([], 224), 328) := by
    decide +kernel
  have hwalks : Walks entangled none readEntry ⟨[], 168, 149⟩ := .history hfront
  have hwalk : Chain.Walk entangled readEntry
      [(168 : UInt64).toNat, (224 : UInt64).toNat, (280 : UInt64).toNat] ⟨[], 168, 149⟩
      ⟨[], 224, 328⟩ := by
    refine Chain.Walk.cons (a := ⟨[], 168, 149⟩) (by decide) hfirst ?_
    refine Chain.Walk.cons (a := ⟨[], 224, 216⟩) (by decide) hsecond ?_
    exact Chain.Walk.cons (a := ⟨[], 280, 272⟩) (by decide) hthird (.nil _)
  have htame := tame_of_walks hwalks
  exact ⟨hwalks, hwalk, htame.bounded, htame.refused _ _ hwalk (by decide) (by decide)⟩

end Measurement

end Mdf
