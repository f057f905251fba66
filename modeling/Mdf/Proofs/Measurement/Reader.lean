import Mdf.Measurement.Reader
import Mdf.Proofs.Block.Chain
import Mdf.Proofs.Identification
import Mdf.Proofs.Markup.Comment
import Mdf.Proofs.Measurement.Group

/-!
# Reading back a file

The parts of a file that stand around its data groups: the comment, the history and the chain of the
groups.  Channels of several groups are joined if no name is repeated
(`addChannels_eq_ok_iff`).
-/

namespace Mdf

open Decode Block

namespace Measurement

variable {file : List UInt8} {link : UInt64} {text : String}

/-- A new file is accepted as a file of its own revision, and as one of any. -/
lemma checkIdentification_new {v : Version} {expected : Option Version}
    (h : ∀ w ∈ expected, w = v) : checkIdentification (Identification.new v) expected = .ok () := by
  cases expected with
  | none => rfl
  | some w =>
    obtain rfl : w = v := h w rfl
    have hw : (some w).filter (· ≠ (Identification.new w).version) = none :=
      Option.filter_some_neg (by simp [Identification.new])
    rw [checkIdentification, hw]
    rfl

/-! ### Comments -/

lemma gives_readComment (hb : At file link.toNat (TextBlock.block .md text)) :
    Gives file (readComment link) (do
      let c ← (Comment.parse (Utf8.beforeNul text) : Except Failure Comment)
      return some c) := by
  unfold readComment
  rw [if_neg hb.link_ne]
  refine gives_bind (TextBlock.gives_read (.inr rfl) hb) ?_
  simp only [if_true]
  cases Comment.parse (Utf8.beforeNul text) with
  | ok c => exact gives_bind (gives_liftM rfl) (gives_pure _)
  | error e => exact gives_bind_error (gives_liftM rfl)

lemma gives_readHistory {e : HistoryEntry} {c : Comment} (hnext : e.next = 0)
    (hb : At file link.toNat e.block)
    (ht : At file e.comment.toNat (TextBlock.block .md text))
    (hc : Comment.parse (Utf8.beforeNul text) = .ok c) :
    Gives file (readHistory link) (.ok [c]) := by
  have hentry : Gives file (readEntry [] link.toNat) (.ok ([c], 0)) := by
    have hcomment := gives_readComment ht
    rw [hc] at hcomment
    exact gives_bind (HistoryEntry.gives_read hb) (gives_bind hcomment (hnext ▸ gives_pure _))
  exact Chain.gives_fold_single hb.link_ne hentry

/-! ### Joining channels -/

/-- Channels are joined if no name is repeated, and then they are joined in order. -/
theorem addChannels_eq_ok_iff {channels cs r : List MeasuredChannel}
    (h : (channels.map MeasuredChannel.name).Nodup) :
    addChannels channels cs = .ok r ↔
      r = channels ++ cs ∧ ((channels ++ cs).map MeasuredChannel.name).Nodup := by
  induction cs generalizing channels with
  | nil =>
    rw [addChannels, List.append_nil]
    exact ⟨fun he => ⟨(Except.ok.inj he).symm, h⟩, fun he => congrArg Except.ok he.1.symm⟩
  | cons c cs ih =>
    have hany : (channels.any fun d => d.name == c.name) = true ↔
        c.name ∈ channels.map MeasuredChannel.name := by
      simp [List.any_eq_true]
    have happend : channels ++ c :: cs = channels ++ [c] ++ cs := by simp
    rw [addChannels]
    split
    · rename_i hc
      refine iff_of_false (by simp) fun hr => ?_
      have hnodup := hr.2
      rw [List.map_append, List.nodup_append] at hnodup
      exact hnodup.2.2 _ (hany.mp hc) _ (by simp) rfl
    · rename_i hc
      have hnew : ((channels ++ [c]).map MeasuredChannel.name).Nodup := by
        rw [List.map_append, List.nodup_append]
        refine ⟨h, by simp, ?_⟩
        rintro a ha b hb rfl
        rw [List.map_singleton, List.mem_singleton] at hb
        exact hc (hany.mpr (hb ▸ ha))
      rw [ih hnew, happend]

lemma addChannels_nil_eq_ok_iff {cs r : List MeasuredChannel} :
    addChannels [] cs = .ok r ↔ r = cs ∧ (cs.map MeasuredChannel.name).Nodup := by
  rw [addChannels_eq_ok_iff (by simp), List.nil_append]

/-! ### Data groups -/

variable {first g r : MeasuredGroup}

/-- A first group is taken as it is, if no name is repeated in it. -/
lemma addGroup_none_eq_ok_iff :
    addGroup none g = .ok r ↔ r = g ∧ (g.channels.map MeasuredChannel.name).Nodup := by
  rw [addGroup, bind_eq_ok_iff]
  constructor
  · rintro ⟨cs, hcs, hr⟩
    obtain ⟨rfl, hnodup⟩ := addChannels_nil_eq_ok_iff.mp hcs
    exact ⟨(Except.ok.inj hr).symm, hnodup⟩
  · rintro ⟨rfl, hnodup⟩
    exact ⟨r.channels, addChannels_nil_eq_ok_iff.mpr ⟨rfl, hnodup⟩, rfl⟩

/-- A later group must have the times of the first one, and its channels join those before. -/
lemma addGroup_some_eq_ok_iff (h : (first.channels.map MeasuredChannel.name).Nodup) :
    addGroup (some first) g = .ok r ↔ Binary.ieeeEqAll g.time first.time = true ∧
      ((first.channels ++ g.channels).map MeasuredChannel.name).Nodup ∧
      r = { first with channels := first.channels ++ g.channels } := by
  rw [addGroup]
  by_cases ht : Binary.ieeeEqAll g.time first.time = true
  · rw [if_pos ht, bind_eq_ok_iff]
    constructor
    · rintro ⟨cs, hcs, hr⟩
      obtain ⟨rfl, hnodup⟩ := (addChannels_eq_ok_iff h).mp hcs
      exact ⟨ht, hnodup, (Except.ok.inj hr).symm⟩
    · rintro ⟨-, hnodup, rfl⟩
      exact ⟨_, (addChannels_eq_ok_iff h).mpr ⟨rfl, hnodup⟩, rfl⟩
  · rw [if_neg ht]
    exact iff_of_false (fun he => nomatch he) fun hr => ht hr.1

lemma gives_readGroups {dg : DataGroup} (hnext : dg.next = 0)
    (hb : At file link.toNat dg.block) (hg : Gives file (MeasuredGroup.read dg) (.ok g)) :
    Gives file (readGroups link) (do
      let channels ← (addChannels [] g.channels : Except Failure (List MeasuredChannel))
      return { g with channels := channels }) := by
  unfold readGroups
  cases hc : addChannels [] g.channels with
  | ok channels =>
    have hgroup : Gives file (readGroup none link.toNat)
        (.ok (some { g with channels := channels }, 0)) := by
      have hadd : addGroup none g = .ok { g with channels := channels } := by
        rw [addGroup, hc]
        rfl
      refine gives_bind (DataGroup.gives_read hb) (gives_bind hg ?_)
      rw [hadd, hnext]
      exact gives_bind (gives_liftM rfl) (gives_pure _)
    exact gives_bind (Chain.gives_fold_single hb.link_ne hgroup) (gives_pure _)
  | error e =>
    have hgroup : Gives file (readGroup none link.toNat) (.error (.error e)) := by
      have hadd : addGroup none g = .error e := by
        rw [addGroup, hc]
        rfl
      refine gives_bind (DataGroup.gives_read hb) (gives_bind hg ?_)
      rw [hadd]
      exact gives_bind_error (gives_liftM rfl)
    exact gives_bind_error (Chain.gives_fold_error hb.link_ne hgroup)

/-! ### The file -/

/-- A file that is read is read part by part: its identification, which passes the check, its header,
and what the header leads to. -/
lemma exists_parts_of_ofBytes {expected : Option Version} {m : Measurement}
    (h : ofBytes file expected = .ok m) : ∃ header g p q r s t,
      run Identification.decode file 0 = (.ok m.id, p) ∧
      checkIdentification m.id expected = .ok () ∧
      run (FileHeader.read FileHeader.offset) file p = (.ok header, q) ∧
      run (readComment header.comment) file q = (.ok m.comment, r) ∧
      run (readHistory header.firstHistory) file r = (.ok m.history, s) ∧
      run (readGroups header.firstDataGroup) file s = (.ok g, t) ∧
      m = ⟨m.id, header.startTime, m.comment, m.history, g.masterName, g.time, g.channels⟩ := by
  have hr : run (reader expected) file 0 = (.ok m, (run (reader expected) file 0).2) :=
    Prod.ext h rfl
  obtain ⟨id, p, hid, hr⟩ := run_bind_eq_ok_iff.mp hr
  obtain ⟨⟨⟩, hcheck, hr⟩ := run_liftM_bind_eq_ok_iff.mp hr
  obtain ⟨header, q, hheader, hr⟩ := run_bind_eq_ok_iff.mp hr
  obtain ⟨comment, r, hcomment, hr⟩ := run_bind_eq_ok_iff.mp hr
  obtain ⟨history, s, hhistory, hr⟩ := run_bind_eq_ok_iff.mp hr
  obtain ⟨g, t, hgroups, hr⟩ := run_bind_eq_ok_iff.mp hr
  cases hr
  exact ⟨header, g, p, q, r, s, _, hid, liftM_error_eq_ok_iff.mp hcheck, hheader, hcomment,
    hhistory, hgroups, rfl⟩

end Measurement

end Mdf
