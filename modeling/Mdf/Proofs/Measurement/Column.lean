import Mdf.Proofs.Measurement.Axes
import Mdf.Proofs.Measurement.Joining
import Mdf.Proofs.Measurement.Shape
import Mdf.Proofs.Measurement.Supported

/-!
# Groups with one column of times

Two data groups follow one another, and the master column of the second one consists of the bytes
of the first one, record by record (`Twins`).  Then both hold the same times.  These are compared as
numbers, so the second group is refused for differing times all the same once one of them is a NaN,
and for no other bytes (`ofBytes_eq_differingAxes_iff`).
-/

namespace Mdf

open Decode Block

variable {file : List UInt8} {p q : Nat} {dg dg' : DataGroup}

/-! ### The column of a channel -/

namespace MeasuredGroup

/-- The bytes of a channel in records of a size, record by record. -/
def column (c : Channel) (size count : Nat) (records : List UInt8) : List (List UInt8) :=
  (List.range count).map fun i =>
    (records.drop (i * size + c.byteOffset.toNat)).take c.encoding.byteSize

lemma piecesOf_eq (size count : Nat) (l : List UInt8) : Checked.piecesOf size count l =
    (List.range count).map fun i => (l.drop (i * size)).take size := by
  induction count generalizing l with
  | zero => rfl
  | succ count ih =>
    rw [Checked.piecesOf, ih, List.range_succ_eq_map, List.map_cons, List.map_map, Nat.zero_mul,
      List.drop_zero]
    simp only [Function.comp_def, List.drop_drop, Nat.succ_mul, Nat.add_comm]

/-- **The times of a master channel are those of its column.** -/
lemma eq_of_masterTimes_eq_ok {c : Channel} {size count : Nat} {records : List UInt8}
    {times : List Double} (hr : records.length = count * size) (h0 : size = 0 → count = 0)
    (hw : c.byteOffset.toNat + c.encoding.byteSize ≤ size)
    (h : masterTimes c size records = .ok times) :
    times = (column c size count records).map (timeOfBytes c.encoding) := by
  unfold masterTimes at h
  simp only at h
  by_cases he : c.encoding.dataType = .floatLe ∧
      (c.encoding.bitCount = 32 ∨ c.encoding.bitCount = 64)
  · rw [if_pos he] at h
    by_cases hs : 0 < size
    · have hcount : records.length / size = count := by rw [hr, Nat.mul_div_cancel _ hs]
      have hrows : ∀ row ∈ Checked.piecesOf size count records, timeOfRow c row =
          .ok (timeOfBytes c.encoding ((row.drop c.byteOffset.toNat).take c.encoding.byteSize)) := by
        intro row hrow
        have hlen := length_of_mem_piecesOf (Nat.le_of_eq hr.symm) row hrow
        exact timeOfRow_eq (by rw [hlen]; exact hw) he.2
      rw [if_pos hs, Checked.pieces_of_pos hs, hcount, liftM_ok_fault, ok_bind,
        mapM_eq_ok hrows, liftM_ok_fault] at h
      rw [← Except.ok.inj h, piecesOf_eq, column, List.map_map, List.map_map]
      refine List.map_congr_left fun i hi => congrArg (timeOfBytes c.encoding) ?_
      -- the bytes of the channel lie within the row
      rw [List.drop_take, List.take_take, List.drop_drop, Nat.min_eq_left (by omega)]
    · rw [if_neg hs] at h
      rw [← Except.ok.inj h, h0 (by omega)]
      rfl
  · rw [if_neg he] at h
    cases h

/-- Whether the bytes of a master channel are a NaN: in 32 bits or, for any other width, in 64. -/
def isNaNBytes (e : Encoding) (bytes : List UInt8) : Bool :=
  if e.bitCount = 32 then (⟨BitVec.ofNat _ (LittleEndian.decode bytes)⟩ : Single).isNaN
  else (⟨BitVec.ofNat _ (LittleEndian.decode bytes)⟩ : Double).isNaN

/-- A time is a NaN exactly if its bytes are one. -/
lemma isNaN_timeOfBytes (e : Encoding) (bytes : List UInt8) :
    (timeOfBytes e bytes).isNaN = isNaNBytes e bytes := by
  unfold timeOfBytes isNaNBytes
  split
  · exact Single.isNaN_widen _
  · rfl

end MeasuredGroup

/-! ### The parts of a group -/

/-- What is found of a data group before times and samples are taken from its records. -/
structure GroupParts where
  group : ChannelGroup
  records : List UInt8
  found : FoundChannels
deriving DecidableEq, Repr

namespace GroupParts

/-- The size of a record. -/
def size (a : GroupParts) : Nat := a.group.dataBytes.toNat

/-- The number of the records. -/
def count (a : GroupParts) : Nat := a.group.cycleCount.toNat

/-- The bytes of a channel in the records. -/
def column (a : GroupParts) (f : FoundChannel) : List (List UInt8) :=
  MeasuredGroup.column f.channel a.size a.count a.records

/-- The times that the column of the master channel stands for; without one, the indices. -/
def times (a : GroupParts) : List Double :=
  match a.found.master with
  | some f => (a.column f).map (MeasuredGroup.timeOfBytes f.channel.encoding)
  | none => (TimeAxis.sequential a.count).values

/-- The column of the master channel holds a NaN. -/
def HoldsNaN (a : GroupParts) : Prop := ∃ f ∈ a.found.master, ∃ bytes ∈ a.column f,
  MeasuredGroup.isNaNBytes f.channel.encoding bytes = true

/-- One of the times is a NaN exactly if the column holds one: indices are none. -/
lemma exists_isNaN_times_iff (a : GroupParts) : (∃ t ∈ a.times, t.isNaN = true) ↔ a.HoldsNaN := by
  unfold times HoldsNaN
  cases a.found.master with
  | none =>
    have hbuilt : (TimeAxis.sequential a.count).Built :=
      .sequential a.group.cycleCount.toNat_lt
    refine iff_of_false ?_ fun ⟨f, hf, _⟩ => nomatch hf
    rintro ⟨t, ht, hnan⟩
    rw [hbuilt.not_isNaN t ht] at hnan
    cases hnan
  | some f =>
    simp only [List.mem_map, exists_exists_and_eq_and, MeasuredGroup.isNaN_timeOfBytes,
      Option.mem_some_iff, exists_eq_left']

/-- Two groups have as many records, and their master columns are the same bytes in one encoding. -/
structure SameColumn (a b : GroupParts) : Prop where
  cycleCount : a.group.cycleCount = b.group.cycleCount
  master : Option.Rel (fun f g => f.channel.encoding = g.channel.encoding ∧
    a.column f = b.column g) a.found.master b.found.master

lemma SameColumn.times_eq {a b : GroupParts} (h : a.SameColumn b) : a.times = b.times := by
  obtain ⟨hcount, hmaster⟩ := h
  unfold times
  generalize a.found.master = f at hmaster ⊢
  generalize b.found.master = g at hmaster ⊢
  cases hmaster with
  | some hfg =>
    obtain ⟨hencoding, hcolumn⟩ := hfg
    simp only [hencoding, hcolumn]
  | none => simp only [count, hcount]

end GroupParts

namespace MeasuredGroup

/-- Reads the parts of a data group. -/
def readParts (g : DataGroup) : Decode GroupParts := do
  let (cg, records) ← readFront g
  let found ← readChannels cg.dataBytes.toNat cg.firstChannel
  return ⟨cg, records, found⟩

/-- A data group that is read has parts, and its times are those of its master column. -/
lemma exists_parts_of_run_read {g : MeasuredGroup} (h : run (read dg) file p = (.ok g, q)) :
    ∃ a, run (readParts dg) file p = (.ok a, q) ∧ g.time = a.times := by
  obtain ⟨cg, records, found, r, hfront, hchannels, hg⟩ := exists_of_run_read h
  refine ⟨⟨cg, records, found⟩, ?_, ?_⟩
  · unfold readParts
    rw [run_bind_of_ok hfront, run_bind_of_ok hchannels, run_pure]
  obtain ⟨⟨name, times⟩, htimes, hg⟩ := bind_eq_ok_iff.mp hg
  obtain ⟨cs, -, hg⟩ := bind_eq_ok_iff.mp hg
  cases hg
  unfold timesOf at htimes
  unfold GroupParts.times
  cases hmaster : found.master with
  | none =>
    rw [hmaster] at htimes
    cases htimes
    rfl
  | some f =>
    rw [hmaster] at htimes
    obtain ⟨ts, hts, htimes⟩ := bind_eq_ok_iff.mp htimes
    cases htimes
    obtain ⟨hlength, hempty⟩ := of_run_readFront hfront
    obtain ⟨os, -, hcollected⟩ := collected_of_run_readChannels hchannels
    have hstands := hcollected.master
    rw [hmaster] at hstands
    obtain ⟨o, -, hf⟩ := exists_of_mem_forall₂ hstands.flip List.mem_cons_self
    exact eq_of_masterTimes_eq_ok hlength hempty hf.within hts

/-- The parts of a data group are found as its front and its channels are. -/
lemma gives_readParts {a : GroupParts} (hfront : Gives file (readFront dg) (.ok (a.group, a.records)))
    (hchannels : Gives file (readChannels a.size a.group.firstChannel) (.ok a.found)) :
    Gives file (readParts dg) (.ok a) :=
  gives_bind hfront (gives_bind hchannels (gives_pure a))

/-- The parts of a data group are read alike from every position. -/
lemma settles_readParts (g : DataGroup) : Settles file (readParts g) :=
  settles_bind (settles_refuseIf_bind (settles_bind (ChannelGroup.settles_read _) _)) _

end MeasuredGroup

namespace Measurement

/-! ### Twins -/

/-- From a link on, two data groups follow one another, and the master column of the second one is
that of the first one, whose parts are given. -/
structure Twins (file : List UInt8) (link : UInt64) (dg dg' : DataGroup) (a : GroupParts) :
    Prop where
  link_ne : link ≠ 0
  block : Gives file (DataGroup.read link.toNat) (.ok dg)
  parts : Gives file (MeasuredGroup.readParts dg) (.ok a)
  next_ne : dg.next ≠ 0
  next_new : dg.next ≠ link
  block' : Gives file (DataGroup.read dg.next.toNat) (.ok dg')
  last : dg'.next = 0
  column : ∀ b, Gives file (MeasuredGroup.readParts dg') (.ok b) → a.SameColumn b

variable {link : UInt64} {a : GroupParts} {first second : MeasuredGroup}

/-- The times of the first one are those of its parts. -/
lemma Twins.first_time (h : Twins file link dg dg' a)
    (hfirst : Gives file (MeasuredGroup.read dg) (.ok first)) : first.time = a.times := by
  obtain ⟨a', hparts, htime⟩ := MeasuredGroup.exists_parts_of_run_read (hfirst.run_eq 0)
  have hgives := (MeasuredGroup.settles_readParts dg).gives hparts
  obtain rfl := Except.ok.inj ((hgives 0).symm.trans (h.parts 0))
  exact htime

/-- Twins that can be read have the same times. -/
lemma Twins.time_eq (h : Twins file link dg dg' a)
    (hfirst : Gives file (MeasuredGroup.read dg) (.ok first))
    (hsecond : Gives file (MeasuredGroup.read dg') (.ok second)) : second.time = first.time := by
  obtain ⟨b, hparts, htime⟩ := MeasuredGroup.exists_parts_of_run_read (hsecond.run_eq 0)
  have hsame := h.column b ((MeasuredGroup.settles_readParts dg').gives hparts)
  rw [h.first_time hfirst, htime, hsame.times_eq]

/-- Twins that can be read are two groups of the file. -/
lemma Twins.groupsAt (h : Twins file link dg dg' a)
    (hfirst : Gives file (MeasuredGroup.read dg) (.ok first))
    (hsecond : Gives file (MeasuredGroup.read dg') (.ok second)) :
    GroupsAt file link [link.toNat, dg.next.toNat] [first, second] := by
  have hlast : GroupsAt file dg'.next [] [] := h.last ▸ .nil
  exact .cons_of_gives h.link_ne h.block hfirst (.cons_of_gives h.next_ne h.block' hsecond hlast)

lemma Twins.toNat_next_ne (h : Twins file link dg dg' a) : dg.next.toNat ≠ link.toNat :=
  fun he => h.next_new (UInt64.toNat_inj.mp he)

/-- If the second one of twins cannot be read, this is how the loop over the groups ends. -/
lemma Twins.gives_fold_of_error {f : Failure} (h : Twins file link dg dg' a)
    (hfirst : Gives file (MeasuredGroup.read dg) (.ok first))
    (hnames : (first.channels.map MeasuredChannel.name).Nodup)
    (hsecond : Gives file (MeasuredGroup.read dg') (.error f)) :
    Gives file (Chain.fold readGroup none link) (.error f) := by
  have hadd : (liftM (addGroup none first) : Except Failure MeasuredGroup) = .ok first := by
    rw [addGroup_none_eq_ok_iff.mpr ⟨rfl, hnames⟩, liftM_ok_error]
  have hstep : Gives file (readGroup none link.toNat) (.ok (some first, dg.next)) :=
    gives_bind h.block (gives_bind hfirst (gives_bind (gives_liftM hadd) (gives_pure _)))
  have hfails : Gives file (readGroup (some first) dg.next.toNat) (.error f) :=
    gives_bind h.block' (gives_bind_error hsecond)
  have hunread : dg.next.toNat ∉ [link.toNat] := fun hmem =>
    h.toNat_next_ne (List.mem_singleton.mp hmem)
  exact Chain.gives_foldFrom h.link_ne List.not_mem_nil hstep
    (Chain.gives_foldFrom_error h.next_ne hunread hfails)

/-- A first group is taken as it is, so that two groups are refused as the second one is. -/
lemma addGroups_pair_eq_error_iff {e : Error}
    (hnames : (first.channels.map MeasuredChannel.name).Nodup) :
    addGroups none [first, second] = .error e ↔ addGroup (some first) second = .error e := by
  have hfirst : addGroup none first = .ok first := addGroup_none_eq_ok_iff.mpr ⟨rfl, hnames⟩
  rw [addGroups, hfirst, ok_bind, addGroups]
  cases addGroup (some first) second with
  | ok joined =>
    rw [ok_bind, addGroups]
    simp only [reduceCtorEq]
  | error e' => rw [error_bind, Except.error.injEq, Except.error.injEq]

variable {bytes : List UInt8} {expected : Option Version} {id : Identification}
  {header : FileHeader} {comment : Option Comment} {history : List Comment}

/-- A file is refused for differing times exactly if its groups are. -/
lemma ofBytes_eq_differingAxes_iff_addGroups {os : List Nat} {gs : List MeasuredGroup}
    (hfront : run (readFront expected) bytes 0 = (.ok (id, header, comment), p))
    (hhistory : run (readHistory header.firstHistory) bytes p = (.ok history, q))
    (hgroups : GroupsAt bytes header.firstDataGroup os gs) (hd : os.Nodup) :
    ofBytes bytes expected = .error .differingAxes ↔
      addGroups none gs = .error (.unsupportedFeature .differingGroupAxes) := by
  rw [ofBytes_eq_addGroups hfront hhistory hgroups hd]
  cases addGroups none gs with
  | ok groups => exact iff_of_false nofun nofun
  | error e => simp [Failure.differingAxes]

/-- **A data group with the column of times of the group before it is refused for differing times
exactly if it can be read and the column holds a NaN.** -/
theorem ofBytes_eq_differingAxes_iff
    (hfront : run (readFront expected) bytes 0 = (.ok (id, header, comment), p))
    (hhistory : run (readHistory header.firstHistory) bytes p = (.ok history, q))
    (h : Twins bytes header.firstDataGroup dg dg' a)
    (hfirst : Gives bytes (MeasuredGroup.read dg) (.ok first))
    (hnames : (first.channels.map MeasuredChannel.name).Nodup) :
    ofBytes bytes expected = .error .differingAxes ↔
      (∃ second, Gives bytes (MeasuredGroup.read dg') (.ok second)) ∧ a.HoldsNaN := by
  have hsettles : Settles bytes (MeasuredGroup.read dg') := MeasuredGroup.settles_read dg'
  cases hsettles with
  | ok second q' hok =>
    have hsecond : Gives bytes (MeasuredGroup.read dg') (.ok second) :=
      fun p => congrArg Prod.fst (hok p)
    have hexists : ∃ second, Gives bytes (MeasuredGroup.read dg') (.ok second) := ⟨second, hsecond⟩
    rw [ofBytes_eq_differingAxes_iff_addGroups hfront hhistory (h.groupsAt hfirst hsecond)
        (by simpa using h.toNat_next_ne.symm),
      addGroups_pair_eq_error_iff hnames, addGroup_eq_differingAxes_iff,
      h.time_eq hfirst hsecond, ne_eq, Binary.ieeeEqAll_self_iff, and_iff_right hexists,
      ← a.exists_isNaN_times_iff, h.first_time hfirst]
    simp only [not_forall, exists_prop, Bool.not_eq_false]
  | error f hf =>
    -- the times are never compared, and nothing else is refused for them
    have hspares := MeasuredGroup.spares_read dg' bytes 0
    rw [hf 0] at hspares
    rw [ofBytes_eq_error_of_groups hfront hhistory
      ((h.gives_fold_of_error hfirst hnames hf).run_eq q)]
    refine iff_of_false (fun he => hspares.of_error (Except.error.inj he)) ?_
    rintro ⟨⟨second, hsecond⟩, -⟩
    exact nomatch (hf 0).symm.trans (hsecond 0)

/-! ### Twins with a NaN -/

/-- The blocks of a file with two data groups, of which the time is one NaN. -/
def twinTiles : List Tile :=
  (pairedTiles.set 9 ⟨952, ⟨.dt, [], [0, 0, 0, 0, 0, 0, 0xF8, 0x7F, 1]⟩⟩).set 10
    ⟨992, ⟨.dt, [], [0, 0, 0, 0, 0, 0, 0xF8, 0x7F, 2]⟩⟩

/-- The file of these blocks. -/
def twinned : List UInt8 :=
  (Identification.new .v410).encode ++ sequence FileHeader.offset (twinTiles.map Tile.block)

/-- The group of the NaN and a channel with one byte. -/
def twin (name : String) (byte : BitVec 8) : MeasuredGroup :=
  pairedGroup name ⟨0x7FF8000000000000⟩ byte

/-- What is found of such a group. -/
def twinParts (c name : UInt64) (text : String) (byte : UInt8) : GroupParts :=
  ⟨byteGroup c, [0, 0, 0, 0, 0, 0, 0xF8, 0x7F, byte],
    ⟨some ⟨Utf8.beforeNul "t", none, timeChannel 168⟩,
      [⟨Utf8.beforeNul text, none, byteChannel name 264⟩]⟩⟩

lemma at_twinned {i o : Nat} {b : Block} (h : twinTiles[i]? = some ⟨o, b⟩) : At twinned o b :=
  at_of_placed_eq (by decide +kernel) (by decide +kernel) (by decide) h

lemma gives_readChannels_twin {c name : UInt64} {text : String}
    (hc : At twinned c.toNat (byteChannel name 264).block)
    (hname : At twinned name.toNat (TextBlock.block .tx text))
    (hne : (264 : UInt64).toNat ∉ [c.toNat]) (byte : UInt8) :
    Gives twinned (MeasuredGroup.readChannels 9 c) (.ok (twinParts c name text byte).found) := by
  have hmaster : At twinned (264 : UInt64).toNat (timeChannel 168).block := at_twinned (i := 4) rfl
  have hmasterName : At twinned (168 : UInt64).toNat (TextBlock.block .tx "t") :=
    at_twinned (i := 1) rfl
  exact gives_readChannels_byteGroup hc hname hmaster hmasterName hne

/-- The groups of the file are twins, and each of them can be read. -/
lemma twins_twinned : Twins twinned 1032 ⟨1096, 744, 952, 0, 0⟩ ⟨0, 848, 992, 0, 0⟩
      (twinParts 424 200 "a" 1) ∧
    Gives twinned (MeasuredGroup.read ⟨1096, 744, 952, 0, 0⟩) (.ok (twin "a" 1)) ∧
    Gives twinned (MeasuredGroup.read ⟨0, 848, 992, 0, 0⟩) (.ok (twin "b" 2)) := by
  have hfront : Gives twinned (MeasuredGroup.readFront ⟨1096, 744, 952, 0, 0⟩)
      (.ok ((twinParts 424 200 "a" 1).group, (twinParts 424 200 "a" 1).records)) :=
    gives_readFront_byteGroup (at_twinned (i := 7) rfl) (at_twinned (i := 9) rfl) rfl
  have hchannels := gives_readChannels_twin (c := 424) (at_twinned (i := 5) rfl)
    (at_twinned (i := 2) rfl) (by decide) 1
  have hfront' : Gives twinned (MeasuredGroup.readFront ⟨0, 848, 992, 0, 0⟩)
      (.ok ((twinParts 584 232 "b" 2).group, (twinParts 584 232 "b" 2).records)) :=
    gives_readFront_byteGroup (at_twinned (i := 8) rfl) (at_twinned (i := 10) rfl) rfl
  have hchannels' := gives_readChannels_twin (c := 584) (at_twinned (i := 6) rfl)
    (at_twinned (i := 3) rfl) (by decide) 2
  refine ⟨⟨by decide, DataGroup.gives_read (at_twinned (i := 11) rfl),
    MeasuredGroup.gives_readParts hfront hchannels, by decide, by decide,
    DataGroup.gives_read (at_twinned (i := 12) rfl), rfl, fun b hb => ?_⟩,
    gives_read_byteGroup hfront hchannels (by decide +kernel),
    gives_read_byteGroup hfront' hchannels' (by decide +kernel)⟩
  have hparts' := MeasuredGroup.gives_readParts hfront' hchannels'
  obtain rfl := Except.ok.inj ((hparts' 0).symm.trans (hb 0))
  exact ⟨rfl, .some ⟨rfl, by decide⟩⟩

lemma run_readFront_twinned : run (readFront none) twinned 0 =
    (.ok (Identification.new .v410, ⟨1032, 0, 0, 5, 0, 0, 0⟩, none), 149) := by decide +kernel

lemma run_readHistory_twinned : run (readHistory 0) twinned 149 = (.ok [], 149) := by
  decide +kernel

theorem ofBytes_eq_differingAxes_iff_twinned :
    Twins twinned 1032 ⟨1096, 744, 952, 0, 0⟩ ⟨0, 848, 992, 0, 0⟩ (twinParts 424 200 "a" 1) ∧
      (twinParts 424 200 "a" 1).HoldsNaN ∧ ofBytes twinned none = .error .differingAxes := by
  obtain ⟨htwins, hfirst, hsecond⟩ := twins_twinned
  have hnan : (twinParts 424 200 "a" 1).HoldsNaN :=
    ⟨_, rfl, [0, 0, 0, 0, 0, 0, 0xF8, 0x7F], by decide, by decide⟩
  exact ⟨htwins, hnan, (ofBytes_eq_differingAxes_iff run_readFront_twinned run_readHistory_twinned
    htwins hfirst (by decide)).mpr ⟨⟨_, hsecond⟩, hnan⟩⟩

/-- **A group is refused for differing times although its column of times is that of the group before
it.** -/
theorem exists_twins_refused :
    ∃ file link dg dg' a first second, Twins file link dg dg' a ∧
      Gives file (MeasuredGroup.read dg) (.ok first) ∧
      Gives file (MeasuredGroup.read dg') (.ok second) ∧
      ((first.channels ++ second.channels).map MeasuredChannel.name).Nodup ∧
      ofBytes file none = .error (.error (.unsupportedFeature .differingGroupAxes)) := by
  obtain ⟨htwins, hfirst, hsecond⟩ := twins_twinned
  refine ⟨twinned, 1032, _, _, _, _, _, htwins, hfirst, hsecond, by decide, ?_⟩
  rw [ofBytes_eq_addGroups run_readFront_twinned run_readHistory_twinned
    (htwins.groupsAt hfirst hsecond) (by decide)]
  rfl

end Measurement

end Mdf
