import Mdf.Proofs.Block.Position
import Mdf.Proofs.Block.Tiling
import Mdf.Proofs.Deflate.Zlib
import Mdf.Proofs.Measurement.Reader
import Mdf.Proofs.Measurement.Walks
import Mdf.Proofs.TimeAxis

/-!
# Joining data groups

`GroupsAt`: from a link on, data groups follow one another in a file.  What each of them holds does
not depend on those before it, since a data group is read alike from every position
(`MeasuredGroup.settles_read`).  So the loop over the chain adds the groups of the file one after the
other (`gives_foldFrom_readGroup`), and it succeeds exactly if they agree (`addGroups_eq_ok_iff`): if
they have the same times, and no two channels one name.  `ofBytes_of_groupsAt` says so of the whole
file: it holds the times of the first group, and the channels of all groups in order.
-/

namespace Mdf

open Decode Block

variable {file : List UInt8}

/-! ### Groups in a file -/

/-- **A data group is read alike from every position**: its channel group stands at an offset. -/
theorem MeasuredGroup.settles_read (g : DataGroup) : Settles file (MeasuredGroup.read g) :=
  settles_refuseIf_bind (settles_bind (ChannelGroup.settles_read _) _)

namespace Measurement

/-- From a link on, the data groups of a file follow one another: their blocks stand at these
offsets, these groups are found there, and the last block leads to no other one. -/
inductive GroupsAt (file : List UInt8) : UInt64 → List Nat → List MeasuredGroup → Prop
  | nil : GroupsAt file 0 [] []
  | cons {link : UInt64} {dg : DataGroup} {g : MeasuredGroup} {os : List Nat}
      {gs : List MeasuredGroup} {p p' q q' : Nat} (hlink : link ≠ 0)
      (hblock : run (DataGroup.read link.toNat) file p = (.ok dg, p'))
      (hgroup : run (MeasuredGroup.read dg) file q = (.ok g, q'))
      (hrest : GroupsAt file dg.next os gs) : GroupsAt file link (link.toNat :: os) (g :: gs)

/-! ### Adding one group after the other -/

/-- The data groups read so far, and more of them. -/
def addGroups (groups : Groups) : List MeasuredGroup → Except Error Groups
  | [] => .ok groups
  | g :: gs => do
    let joined ← addGroup groups g
    addGroups (some joined) gs

/-- The groups can be joined to the first one: they have the same times, as numbers, and no two
channels one name. -/
structure Agree (first : MeasuredGroup) (rest : List MeasuredGroup) : Prop where
  times : ∀ g ∈ rest, List.Forall₂ (fun x y => Binary.ieeeEq x y = true) g.time first.time
  names : (((first :: rest).flatMap MeasuredGroup.channels).map MeasuredChannel.name).Nodup

/-- The first group with the channels of all groups. -/
def join (first : MeasuredGroup) (rest : List MeasuredGroup) : MeasuredGroup :=
  { first with channels := (first :: rest).flatMap MeasuredGroup.channels }

variable {first g r : MeasuredGroup} {rest : List MeasuredGroup} {groups : Groups}

lemma agree_nil : Agree first [] ↔ (first.channels.map MeasuredChannel.name).Nodup := by
  constructor
  · intro h
    simpa only [List.flatMap_cons, List.flatMap_nil, List.append_nil] using h.names
  · intro h
    refine ⟨fun g hg => absurd hg List.not_mem_nil, ?_⟩
    simpa only [List.flatMap_cons, List.flatMap_nil, List.append_nil] using h

/-- A group that agrees with the first one is joined to it, and then the others with both. -/
lemma agree_cons : Agree first (g :: rest) ↔ (Binary.ieeeEqAll g.time first.time = true ∧
    ((first.channels ++ g.channels).map MeasuredChannel.name).Nodup) ∧
      Agree { first with channels := first.channels ++ g.channels } rest := by
  have hall : (first :: g :: rest).flatMap MeasuredGroup.channels =
      first.channels ++ g.channels ++ rest.flatMap MeasuredGroup.channels := by
    simp only [List.flatMap_cons, List.append_assoc]
  constructor
  · rintro ⟨htimes, hnames⟩
    obtain ⟨htime, htimes⟩ := List.forall_mem_cons.mp htimes
    rw [hall] at hnames
    have hnew : ((first.channels ++ g.channels).map MeasuredChannel.name).Nodup :=
      hnames.sublist ((List.sublist_append_left ..).map MeasuredChannel.name)
    exact ⟨⟨Binary.ieeeEqAll_eq_true_iff.mpr htime, hnew⟩, htimes, hnames⟩
  · rintro ⟨⟨htime, -⟩, htimes, hnames⟩
    exact ⟨List.forall_mem_cons.mpr ⟨Binary.ieeeEqAll_eq_true_iff.mp htime, htimes⟩,
      hall ▸ hnames⟩

/-- More groups are added to the first one exactly if they agree with it. -/
theorem addGroups_some_eq_ok_iff (h : (first.channels.map MeasuredChannel.name).Nodup) :
    addGroups (some first) rest = .ok groups ↔
      Agree first rest ∧ groups = some (join first rest) := by
  induction rest generalizing first with
  | nil =>
    rw [addGroups, agree_nil, join, List.flatMap_cons, List.flatMap_nil, List.append_nil]
    exact ⟨fun he => ⟨h, (Except.ok.inj he).symm⟩, fun he => congrArg Except.ok he.2.symm⟩
  | cons g rest ih =>
    have hjoin : join first (g :: rest) =
        join { first with channels := first.channels ++ g.channels } rest := by
      simp only [join, List.flatMap_cons, List.append_assoc]
    rw [agree_cons, hjoin, addGroups, bind_eq_ok_iff]
    constructor
    · rintro ⟨joined, hadd, hrest⟩
      obtain ⟨htime, hnew, rfl⟩ := (addGroup_some_eq_ok_iff h).mp hadd
      obtain ⟨hagree, hgroups⟩ := (ih hnew).mp hrest
      exact ⟨⟨⟨htime, hnew⟩, hagree⟩, hgroups⟩
    · rintro ⟨⟨⟨htime, hnew⟩, hagree⟩, hgroups⟩
      exact ⟨_, (addGroup_some_eq_ok_iff h).mpr ⟨htime, hnew, rfl⟩,
        (ih hnew).mpr ⟨hagree, hgroups⟩⟩

/-- **Groups are added one after the other exactly if they agree.** -/
theorem addGroups_eq_ok_iff :
    addGroups none (first :: rest) = .ok groups ↔
      Agree first rest ∧ groups = some (join first rest) := by
  rw [addGroups, bind_eq_ok_iff]
  constructor
  · rintro ⟨joined, hadd, hrest⟩
    obtain ⟨rfl, hnodup⟩ := addGroup_none_eq_ok_iff.mp hadd
    exact (addGroups_some_eq_ok_iff hnodup).mp hrest
  · rintro ⟨hagree, hgroups⟩
    have hnodup : (first.channels.map MeasuredChannel.name).Nodup := by
      have hnames := hagree.names
      rw [List.flatMap_cons, List.map_append] at hnames
      exact hnames.sublist (List.sublist_append_left ..)
    exact ⟨first, addGroup_none_eq_ok_iff.mpr ⟨rfl, hnodup⟩,
      (addGroups_some_eq_ok_iff hnodup).mpr ⟨hagree, hgroups⟩⟩

/-! ### The chain -/

variable {link : UInt64} {os visited : List Nat} {gs : List MeasuredGroup}

/-- **The loop over the data groups adds those of the file**, as long as no block comes twice. -/
theorem gives_foldFrom_readGroup (h : GroupsAt file link os gs) (hd : os.Nodup)
    (hv : ∀ o ∈ os, o ∉ visited) (groups : Groups) :
    Gives file (Chain.foldFrom readGroup visited groups link)
      (liftM (addGroups groups gs)) := by
  induction h generalizing visited groups with
  | nil => exact Chain.gives_foldFrom_zero
  | @cons link dg g os gs p p' q q' hlink hblock hgroup _ ih =>
    obtain ⟨hnew, hd⟩ := List.nodup_cons.mp hd
    have hunread : link.toNat ∉ visited := hv _ List.mem_cons_self
    have hdg : Gives file (DataGroup.read link.toNat) (.ok dg) :=
      (DataGroup.settles_read _).gives hblock
    have hg : Gives file (MeasuredGroup.read dg) (.ok g) :=
      (MeasuredGroup.settles_read dg).gives hgroup
    have hv' : ∀ o ∈ os, o ∉ link.toNat :: visited := Chain.not_mem_visited hnew hv
    rw [addGroups]
    cases hadd : addGroup groups g with
    | ok joined =>
      have hstep : Gives file (readGroup groups link.toNat) (.ok (some joined, dg.next)) :=
        gives_bind hdg (gives_bind hg (gives_bind (gives_liftM (by rw [hadd]; rfl)) (gives_pure _)))
      exact Chain.gives_foldFrom hlink hunread hstep (ih hd hv' (some joined))
    | error e =>
      have hstep : Gives file (readGroup groups link.toNat) (.error (.error e)) :=
        gives_bind hdg (gives_bind hg (gives_bind_error (gives_liftM (by rw [hadd]; rfl))))
      exact Chain.gives_foldFrom_error hlink hunread hstep

variable {bytes : List UInt8} {expected : Option Version} {id : Identification}
  {header : FileHeader} {comment : Option Comment} {history : List Comment} {p q : Nat}

/-- A file is read as its groups are added. -/
lemma ofBytes_eq_addGroups
    (hfront : run (readFront expected) bytes 0 = (.ok (id, header, comment), p))
    (hhistory : run (readHistory header.firstHistory) bytes p = (.ok history, q))
    (hgroups : GroupsAt bytes header.firstDataGroup os gs) (hd : os.Nodup) :
    ofBytes bytes expected = do
      let groups ← (addGroups none gs : Except Failure Groups)
      let g := groups.getD ⟨"", [], []⟩
      return ⟨id, header.startTime, comment, history, g.masterName, g.time, g.channels⟩ := by
  have hfold : Gives bytes (Chain.fold readGroup none header.firstDataGroup)
      (liftM (addGroups none gs)) :=
    gives_foldFrom_readGroup hgroups hd (by simp) none
  rw [ofBytes, run_reader hfront, run_bind_of_ok hhistory]
  cases hadd : addGroups none gs with
  | error e =>
    rw [hadd] at hfold
    have hread : Gives bytes (readGroups header.firstDataGroup) (.error (.error e)) :=
      gives_bind_error hfold
    exact gives_bind_error hread q
  | ok groups =>
    rw [hadd] at hfold
    have hread : Gives bytes (readGroups header.firstDataGroup)
        (.ok (groups.getD ⟨"", [], []⟩)) := gives_bind hfold (gives_pure _)
    refine gives_bind hread ?_ q
    exact gives_pure _

/-- **A file of several data groups is accepted exactly if the groups agree**, and then it holds the
times of the first one, and the channels of all of them in order. -/
theorem ofBytes_of_groupsAt
    (hfront : run (readFront expected) bytes 0 = (.ok (id, header, comment), p))
    (hhistory : run (readHistory header.firstHistory) bytes p = (.ok history, q))
    (hgroups : GroupsAt bytes header.firstDataGroup os (first :: rest)) (hd : os.Nodup) :
    ((∃ m, ofBytes bytes expected = .ok m) ↔ Agree first rest) ∧
      ∀ m, ofBytes bytes expected = .ok m → m = ⟨id, header.startTime, comment, history,
        first.masterName, first.time, (first :: rest).flatMap MeasuredGroup.channels⟩ := by
  have hiff : ∀ m, ofBytes bytes expected = .ok m ↔ Agree first rest ∧ m = ⟨id, header.startTime,
      comment, history, first.masterName, first.time,
      (first :: rest).flatMap MeasuredGroup.channels⟩ := by
    intro m
    rw [ofBytes_eq_addGroups hfront hhistory hgroups hd, bind_eq_ok_iff]
    constructor
    · rintro ⟨groups, hadd, hm⟩
      obtain ⟨hagree, rfl⟩ := addGroups_eq_ok_iff.mp (liftM_error_eq_ok_iff.mp hadd)
      exact ⟨hagree, (Except.ok.inj hm).symm⟩
    · rintro ⟨hagree, rfl⟩
      exact ⟨_, liftM_error_eq_ok_iff.mpr (addGroups_eq_ok_iff.mpr ⟨hagree, rfl⟩), rfl⟩
  constructor
  · exact ⟨fun ⟨m, hm⟩ => ((hiff m).mp hm).1, fun h => ⟨_, (hiff _).mpr ⟨h, rfl⟩⟩⟩
  · exact fun m hm => ((hiff m).mp hm).2

/-! ### Two data groups -/

/-- A channel of bytes behind the times. -/
def byteChannel (name next : UInt64) : Channel :=
  { Channel.value Kind.uint8.encoding 8 with name := name, next := next }

/-- A master channel, which is the last one of its chain. -/
def timeChannel (name : UInt64) : Channel := { Channel.masterTime 0 with name := name }

/-- The group of one record with a time and a byte. -/
def byteGroup (firstChannel : UInt64) : ChannelGroup := ⟨0, firstChannel, 0, 0, 0, 1, 0, 9, 0⟩

/-- A record of a time and a byte is read where its block stands. -/
lemma gives_readFront_byteGroup {link cg data c : UInt64} {records : List UInt8}
    (hcg : At file cg.toNat (byteGroup c).block) (hdata : At file data.toNat ⟨.dt, [], records⟩)
    (hlen : records.length = 9) :
    Gives file (MeasuredGroup.readFront ⟨link, cg, data, 0, 0⟩) (.ok (byteGroup c, records)) := by
  have hblock : Records.block Deflate.storing .plain 9 records = .ok ⟨.dt, [], records⟩ := rfl
  have hlimit : records.length < Buffer.limit := by
    rw [hlen]
    decide
  have hrecords : Gives file (MeasuredGroup.readRecords ⟨link, cg, data, 0, 0⟩ (byteGroup c))
      (.ok records) := by
    refine gives_bind (Records.gives_read Deflate.inverts_storing hblock hlimit hdata) ?_
    refine gives_bind gives_size (gives_bind (gives_refuseIf ?_) ?_)
    · exact show ¬Checked.wordBound ≤ 9 by decide
    · exact gives_bind (gives_refuseIf (not_not_intro hlen)) (gives_pure records)
  refine gives_bind (gives_refuseIf fun h => h rfl) (gives_bind (ChannelGroup.gives_read hcg rfl) ?_)
  refine gives_bind (gives_refuseIf fun h => h rfl) (gives_bind (gives_refuseIf fun h => h rfl) ?_)
  refine gives_bind (gives_refuseIf fun h => nomatch h.1) ?_
  exact gives_bind hrecords (gives_pure _)

/-- The channels of a byte and of the time are read where their blocks stand. -/
lemma gives_readChannels_byteGroup {c name master masterName : UInt64} {text masterText : String}
    (hc : At file c.toNat (byteChannel name master).block)
    (hname : At file name.toNat (TextBlock.block .tx text))
    (hmaster : At file master.toNat (timeChannel masterName).block)
    (hmasterName : At file masterName.toNat (TextBlock.block .tx masterText))
    (hne : master.toNat ∉ [c.toNat]) :
    Gives file (MeasuredGroup.readChannels 9 c)
      (.ok ⟨some ⟨Utf8.beforeNul masterText, none, timeChannel masterName⟩,
        [⟨Utf8.beforeNul text, none, byteChannel name master⟩]⟩) := by
  refine Chain.gives_foldFrom hc.link_ne List.not_mem_nil
    (MeasuredGroup.gives_readChannel_value _ hc hname ?_ rfl rfl rfl)
    (Chain.gives_foldFrom hmaster.link_ne hne
      (MeasuredGroup.gives_readChannel_master hmaster hmasterName ?_ rfl rfl rfl)
      Chain.gives_foldFrom_zero)
  · show (8 : UInt32).toNat + Kind.uint8.encoding.byteSize ≤ 9
    decide
  · show (0 : UInt32).toNat + Channel.timeEncoding.byteSize ≤ 9
    decide

/-- A data group is read as its records and its channels are. -/
lemma gives_read_byteGroup {dg : DataGroup} {c : UInt64} {records : List UInt8}
    {found : FoundChannels}
    (hfront : Gives file (MeasuredGroup.readFront dg) (.ok (byteGroup c, records)))
    (hchannels : Gives file (MeasuredGroup.readChannels 9 c) (.ok found))
    (hg : MeasuredGroup.ofRecords 9 1 records found = .ok g) :
    Gives file (MeasuredGroup.read dg) (.ok g) := by
  intro p
  rw [MeasuredGroup.run_read (hfront.run_eq p)]
  exact gives_bind hchannels (gives_liftM hg) _

/-- The blocks of a file with two data groups and one master channel.  The time of the first group is
zero, and that of the second one is negative zero. -/
def pairedTiles : List Tile :=
  [⟨64, FileHeader.block ⟨1032, 0, 0, 5, 0, 0, 0⟩⟩, ⟨168, TextBlock.block .tx "t"⟩,
    ⟨200, TextBlock.block .tx "a"⟩, ⟨232, TextBlock.block .tx "b"⟩, ⟨264, (timeChannel 168).block⟩,
    ⟨424, (byteChannel 200 264).block⟩, ⟨584, (byteChannel 232 264).block⟩,
    ⟨744, (byteGroup 424).block⟩, ⟨848, (byteGroup 584).block⟩,
    ⟨952, ⟨.dt, [], [0, 0, 0, 0, 0, 0, 0, 0, 1]⟩⟩, ⟨992, ⟨.dt, [], [0, 0, 0, 0, 0, 0, 0, 0x80, 2]⟩⟩,
    ⟨1032, DataGroup.block ⟨1096, 744, 952, 0, 0⟩⟩, ⟨1096, DataGroup.block ⟨0, 848, 992, 0, 0⟩⟩]

/-- The file of these blocks. -/
def paired : List UInt8 :=
  (Identification.new .v410).encode ++ sequence FileHeader.offset (pairedTiles.map Tile.block)

/-- Blocks that are given with the offsets at which they come to stand stand there. -/
lemma at_of_placed_eq {tiles : List Tile} {i o : Nat} {b : Block}
    (hplaced : placed FileHeader.offset (tiles.map Tile.block) = tiles)
    (hfits : ((Identification.new .v410).encode ++
      sequence FileHeader.offset (tiles.map Tile.block)).length < Buffer.limit)
    (hid : ∀ b ∈ tiles.map Tile.block, b.id.bytes.length = 4) (h : tiles[i]? = some ⟨o, b⟩) :
    At ((Identification.new .v410).encode ++
      sequence FileHeader.offset (tiles.map Tile.block)) o b := by
  have hholds : Holds FileHeader.offset (tiles.map Tile.block) ((Identification.new .v410).encode ++
      sequence FileHeader.offset (tiles.map Tile.block)) :=
    ⟨hfits, (Identification.new .v410).encode, [], rfl, by rw [List.append_nil]⟩
  exact hholds.at_placed (by decide) hid (hplaced ▸ List.mem_of_getElem? h)

lemma at_paired {i o : Nat} {b : Block} (h : pairedTiles[i]? = some ⟨o, b⟩) : At paired o b :=
  at_of_placed_eq (by decide +kernel) (by decide +kernel) (by decide) h

lemma GroupsAt.cons_of_gives {link : UInt64} {dg : DataGroup} (hlink : link ≠ 0)
    (hblock : Gives file (DataGroup.read link.toNat) (.ok dg))
    (hgroup : Gives file (MeasuredGroup.read dg) (.ok g)) (hrest : GroupsAt file dg.next os gs) :
    GroupsAt file link (link.toNat :: os) (g :: gs) :=
  .cons hlink (hblock.run_eq 0) (hgroup.run_eq 0) hrest

/-- The group of one time and a channel with one byte. -/
def pairedGroup (name : String) (time : Double) (byte : BitVec 8) : MeasuredGroup :=
  ⟨"t", [time], [⟨name, none, Kind.uint8.encoding, ⟨.uint8, [byte]⟩⟩]⟩

theorem ofBytes_of_groupsAt_paired :
    GroupsAt paired 1032 [1032, 1096]
        [pairedGroup "a" ⟨0⟩ 1, pairedGroup "b" ⟨0x8000000000000000⟩ 2] ∧
      ∃ m, ofBytes paired none = .ok m ∧ m.masterName = "t" ∧ m.time = [⟨0⟩] ∧
        m.channels.map MeasuredChannel.name = ["a", "b"] := by
  have hfront : run (readFront none) paired 0 =
      (.ok (Identification.new .v410, ⟨1032, 0, 0, 5, 0, 0, 0⟩, none), 149) := by decide +kernel
  have hhistory : run (readHistory 0) paired 149 = (.ok [], 149) := by decide +kernel
  have hfirst : Gives paired (MeasuredGroup.read ⟨1096, 744, 952, 0, 0⟩)
      (.ok (pairedGroup "a" ⟨0⟩ 1)) :=
    gives_read_byteGroup
      (gives_readFront_byteGroup (c := 424) (at_paired (i := 7) rfl) (at_paired (i := 9) rfl) rfl)
      (gives_readChannels_byteGroup (at_paired (i := 5) rfl) (at_paired (i := 2) rfl)
        (at_paired (i := 4) rfl) (at_paired (i := 1) rfl) (by decide)) (by decide +kernel)
  have hsecond : Gives paired (MeasuredGroup.read ⟨0, 848, 992, 0, 0⟩)
      (.ok (pairedGroup "b" ⟨0x8000000000000000⟩ 2)) :=
    gives_read_byteGroup
      (gives_readFront_byteGroup (c := 584) (at_paired (i := 8) rfl) (at_paired (i := 10) rfl) rfl)
      (gives_readChannels_byteGroup (at_paired (i := 6) rfl) (at_paired (i := 3) rfl)
        (at_paired (i := 4) rfl) (at_paired (i := 1) rfl) (by decide)) (by decide +kernel)
  have hgroups : GroupsAt paired 1032 [1032, 1096]
      [pairedGroup "a" ⟨0⟩ 1, pairedGroup "b" ⟨0x8000000000000000⟩ 2] :=
    .cons_of_gives (by decide) (DataGroup.gives_read (at_paired (i := 11) rfl)) hfirst
      (.cons_of_gives (by decide) (DataGroup.gives_read (at_paired (i := 12) rfl)) hsecond .nil)
  obtain ⟨hiff, heq⟩ := ofBytes_of_groupsAt hfront hhistory hgroups (by decide)
  -- negative zero equals zero, and the file keeps the time of the first group
  have htimes : List.Forall₂ (fun x y => Binary.ieeeEq x y = true)
      [(⟨0x8000000000000000⟩ : Double)] [⟨0⟩] := .cons (by decide) .nil
  obtain ⟨m, hm⟩ := hiff.mpr ⟨List.forall_mem_singleton.mpr htimes, by decide⟩
  obtain rfl := heq m hm
  exact ⟨hgroups, _, hm, rfl, rfl, rfl⟩

end Measurement

end Mdf
