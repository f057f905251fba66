import Mdf.Proofs.Result
import Mdf.Proofs.Session.Operations
import Mdf.Session.File

/-!
# Refused channels

A channel that is refused is not added, but the axis that came with it is kept if there was none
before.  So a refusal leaves the session as it was exactly if some channel had been offered before
(`refusal_iff`), and from then on the file of the session is never the error for one without
channels, for that error depends on the axis alone (`file_eq_emptyFixture_iff`).
-/

namespace Mdf

/-! ### Writing -/

namespace Encode

variable {α β : Type} {P : Failure → Prop}

/-- Whatever has been written, a failure of the writer has the property. -/
def FailsIn (P : Failure → Prop) (m : Encode α) : Prop :=
  ∀ buffer, Ends P (fun _ => True) (m.run buffer)

lemma failsIn_pure (a : α) : FailsIn P (pure a : Encode α) := fun _ => .ok trivial

lemma failsIn_bind {m : Encode α} {next : α → Encode β} (h : FailsIn P m)
    (hn : ∀ a, FailsIn P (next a)) : FailsIn P (m >>= next) := by
  intro buffer
  rw [StateT.run_bind]
  exact ends_bind (h buffer) fun p _ => hn p.1 p.2

lemma failsIn_liftM {Q : α → Prop} {x : Except Failure α} (h : Ends P Q x) :
    FailsIn P (liftM x : Encode α) := by
  intro buffer
  cases h with
  | ok => exact .ok trivial
  | error h => exact .error h

/-- A step that replaces the buffer can fail by a fault only. -/
lemma failsIn_replace (hP : ∀ f, P (.fault f)) (f : List UInt8 → Except Fault (List UInt8)) :
    FailsIn P (do let next ← f (← get); set next : Encode Unit) := by
  refine failsIn_bind (fun _ => .ok trivial) fun buffer => failsIn_bind ?_ fun _ _ => .ok trivial
  intro _
  cases f buffer with
  | ok next => exact .ok trivial
  | error f => exact .error (hP f)

end Encode

open Encode

lemma Block.failsIn_write {P : Failure → Prop} (hP : ∀ f, P (.fault f)) (b : Block) :
    FailsIn P b.write :=
  failsIn_bind (failsIn_replace hP fun buffer => Buffer.allocate (Buffer.aligned buffer)) fun _ =>
    failsIn_bind (failsIn_bind (fun _ => .ok trivial) fun _ => failsIn_pure _) fun _ =>
      failsIn_bind (failsIn_replace hP fun buffer => Buffer.allocate (buffer ++ b.bytes)) fun _ =>
        failsIn_pure _

lemma Block.failsIn_patchLink {P : Failure → Prop} (hP : ∀ f, P (.fault f)) (offset : UInt64)
    (index : Nat) (target : UInt64) : FailsIn P (patchLink offset index target) :=
  failsIn_replace hP fun buffer => Buffer.patch buffer (linkPosition offset.toNat index) target

/-- A failure other than that of a session without channels. -/
def IsOther (f : Failure) : Prop := f ≠ .error .emptyFixture

lemma isOther_fault (f : Fault) : IsOther (.fault f) := by
  intro h
  cases h

lemma Layout.pack_error {start : Nat} {es : List Encoding} {e : Error}
    (h : pack start es = .error e) : IsOther (.error e) := by
  induction es generalizing start with
  | nil => cases h
  | cons d es ih =>
    unfold pack at h
    unfold Encoding.validate at h
    by_cases hd : d.supported
    · rw [if_pos hd, ok_bind] at h
      split at h
      · cases hr : pack (start + d.byteSize) es with
        | ok rest =>
          rw [hr] at h
          cases h
        | error e' =>
          rw [hr] at h
          cases h
          exact ih hr
      · cases h
        intro hf
        cases hf
    · rw [if_neg hd] at h
      cases h
      intro hf
      cases hf

lemma Deflate.Compressor.ends_container (deflate : Deflate.Compressor) (d : List UInt8) :
    Ends IsOther (fun _ => True) (liftM (deflate.container d) : Except Failure (List UInt8)) := by
  refine ends_error (fun e he => ?_) fun _ _ => trivial
  unfold container at he
  split at he
  · cases he
  · cases he
    intro hf
    cases hf

lemma Records.ends_block (deflate : Deflate.Compressor) (mode : Storage) (size : UInt32)
    (records : List UInt8) : Ends IsOther (fun _ => True) (block deflate mode size records) := by
  unfold block
  split
  · exact ends_pure trivial
  · refine ends_bind (ends_fault isOther_fault _) fun arranged _ => ?_
    exact ends_bind (deflate.ends_container arranged) fun _ _ => ends_pure trivial

lemma Records.failsIn_write (deflate : Deflate.Compressor) (mode : Storage) (size : UInt32)
    (records : List UInt8) : FailsIn IsOther (write deflate mode size records) :=
  failsIn_bind (failsIn_liftM (ends_block deflate mode size records)) fun _ =>
    Block.failsIn_write isOther_fault _

lemma Samples.ends_encode (s : Samples) (i width : Nat) :
    Ends IsOther (fun _ => True) (s.encode i width) := by
  unfold encode
  split
  · exact ends_fault isOther_fault _
  · refine .error fun hf => ?_
    cases hf

namespace Session

lemma ends_packSample (i : Nat) (record : List UInt8) (c : Channel × NamedChannel) :
    Ends IsOther (fun _ => True) (packSample i record c) := by
  refine ends_bind (ends_fault isOther_fault _) fun stop _ => ?_
  refine ends_bind (ends_fault isOther_fault _) fun field _ => ?_
  exact ends_bind (c.2.samples.ends_encode i _) fun sample _ => ends_fault isOther_fault _

lemma ends_records (s : Session) (layout : Layout) (time : TimeAxis) :
    Ends IsOther (fun _ => True) (s.records layout time) := by
  refine ends_bind (ends_fault isOther_fault _) fun size _ => ?_
  refine ends_bind (ends_fault isOther_fault _) fun buffer _ => ?_
  refine ends_bind (ends_fault isOther_fault _) fun blanks _ => ?_
  refine ends_bind (ends_mapM (R := fun _ => True) fun p _ => ?_) fun _ _ => ends_pure trivial
  refine ends_bind (ends_fault isOther_fault _) fun t _ => ?_
  refine ends_bind (ends_fault isOther_fault _) fun stop _ => ?_
  refine ends_bind (ends_fault isOther_fault _) fun record _ => ?_
  exact ends_foldlM trivial fun record c _ _ => ends_packSample p.2 record c

lemma failsIn_writeNames (ps : List (Channel × NamedChannel)) : FailsIn IsOther (writeNames ps) := by
  induction ps with
  | nil => exact failsIn_pure _
  | cons p ps ih =>
    exact failsIn_bind (Block.failsIn_write isOther_fault _) fun _ =>
      failsIn_bind ih fun _ => failsIn_pure _

lemma failsIn_writeChain (previous : UInt64) (cs : List Channel) :
    FailsIn IsOther (writeChain previous cs) := by
  induction cs generalizing previous with
  | nil => exact failsIn_pure _
  | cons c cs ih =>
    exact failsIn_bind (Block.failsIn_write isOther_fault _) fun _ =>
      failsIn_bind (Block.failsIn_patchLink isOther_fault _ _ _) fun _ => ih _

lemma failsIn_writeComments (s : Session) (header : UInt64) :
    FailsIn IsOther (s.writeComments header) :=
  failsIn_bind (Block.failsIn_write isOther_fault _) fun _ =>
    failsIn_bind (Block.failsIn_patchLink isOther_fault _ _ _) fun _ =>
      failsIn_bind (Block.failsIn_write isOther_fault _) fun _ =>
        failsIn_bind (Block.failsIn_write isOther_fault _) fun _ =>
          Block.failsIn_patchLink isOther_fault _ _ _

lemma failsIn_writeChannels (s : Session) (layout : Layout) :
    FailsIn IsOther (s.writeChannels layout) :=
  failsIn_bind (Block.failsIn_write isOther_fault _) fun _ =>
    failsIn_bind (Block.failsIn_write isOther_fault _) fun _ =>
      failsIn_bind (failsIn_writeNames _) fun _ =>
        failsIn_bind (Block.failsIn_write isOther_fault _) fun _ =>
          failsIn_bind (failsIn_writeChain _ _) fun _ => failsIn_pure _

lemma failsIn_writeGroups (deflate : Deflate.Compressor) (s : Session) (layout : Layout)
    (time : TimeAxis) (master : UInt64) :
    FailsIn IsOther (s.writeGroups deflate layout time master) :=
  failsIn_bind (failsIn_liftM (s.ends_records layout time)) fun _ =>
    failsIn_bind (Block.failsIn_write isOther_fault _) fun _ =>
      failsIn_bind (Records.failsIn_write deflate _ _ _) fun _ =>
        Block.failsIn_write isOther_fault _

lemma failsIn_write (deflate : Deflate.Compressor) (s : Session) (layout : Layout)
    (time : TimeAxis) : FailsIn IsOther (s.write deflate layout time) :=
  failsIn_bind (failsIn_replace isOther_fault fun buffer => Buffer.allocate (buffer ++ _)) fun _ =>
    failsIn_bind (Block.failsIn_write isOther_fault _) fun header =>
      failsIn_bind (s.failsIn_writeComments header) fun _ =>
        failsIn_bind (s.failsIn_writeChannels layout) fun master =>
          failsIn_bind (s.failsIn_writeGroups deflate layout time master) fun _ =>
            Block.failsIn_patchLink isOther_fault _ _ _

lemma ends_file (deflate : Deflate.Compressor) {s : Session} {time : TimeAxis}
    (ht : s.time = some time) : Ends IsOther (fun _ => True) (s.file deflate) := by
  unfold file
  rw [ht]
  simp only
  split
  · refine .error fun hf => ?_
    cases hf
  · have hlayout : Ends IsOther (fun _ => True) (liftM s.layout : Except Failure Layout) :=
      ends_error (fun e he => Layout.pack_error he) fun _ _ => trivial
    refine ends_bind hlayout fun layout _ => ?_
    exact ends_bind (s.failsIn_write deflate layout time []) fun _ _ => ends_pure trivial

/-- **A session has no file for want of channels exactly if it has no axis.** -/
theorem file_eq_emptyFixture_iff (deflate : Deflate.Compressor) (s : Session) :
    s.file deflate = .error (.error .emptyFixture) ↔ s.time = none := by
  constructor
  · intro h
    by_contra ht
    obtain ⟨time, ht⟩ := Option.ne_none_iff_exists'.mp ht
    have hends := ends_file deflate ht
    rw [h] at hends
    exact hends.of_error rfl
  · intro h
    unfold file
    rw [h]
    rfl

/-! ### The axis -/

/-- Whether an operation offers a channel, which may be added or refused. -/
def Operation.OffersChannel : Operation → Prop
  | .appendChannel _ _ | .append _ => True
  | _ => False

variable {s s' : Session} {time : TimeAxis} {c : NamedChannel} {e : Error}

lemma time_appendChannel (s : Session) (time : TimeAxis) (c : NamedChannel) :
    (s.appendChannel time c).2.time = some (s.time.getD time) := by
  rcases s.appendChannel_cases time c with ⟨e, he⟩ | ⟨he, -⟩
  · rw [he]
    rfl
  · rw [he]
    rfl

lemma time_appendAll_ne_none {cs : List NamedChannel} (h : s.time ≠ none ∨ cs ≠ []) :
    (s.appendAll time cs).2.time ≠ none := by
  induction cs generalizing s with
  | nil => exact h.resolve_right fun hne => hne rfl
  | cons c cs ih =>
    have htime := time_appendChannel s time c
    unfold appendAll
    split
    · rename_i next hnext
      rw [hnext] at htime
      exact ih (.inl (by rw [htime]; simp))
    · rename_i next hnext
      rw [hnext] at htime
      rw [htime]
      simp

lemma time_apply_eq_none_iff {op : Operation} :
    (s.apply op).2.time = none ↔ s.time = none ∧ ¬op.OffersChannel := by
  cases op with
  | setStorage mode => exact ⟨fun h => ⟨h, id⟩, And.left⟩
  | setStartTime time => exact ⟨fun h => ⟨h, id⟩, And.left⟩
  | setComment text => exact ⟨fun h => ⟨h, id⟩, And.left⟩
  | appendChannel time c =>
    refine iff_of_false ?_ fun h => h.2 trivial
    rw [apply, time_appendChannel]
    simp
  | append set =>
    exact iff_of_false (time_appendAll_ne_none (.inr set.channels_ne_nil)) fun h => h.2 trivial

/-- **A session has an axis once a channel has been offered**, be it added or not. -/
theorem time_run_eq_none_iff {ops : List Operation} :
    (s.run ops).2.time = none ↔ s.time = none ∧ ∀ op ∈ ops, ¬op.OffersChannel := by
  induction ops generalizing s with
  | nil => exact ⟨fun h => ⟨h, by simp⟩, And.left⟩
  | cons op ops ih =>
    rw [List.forall_mem_cons, ← and_assoc, ← time_apply_eq_none_iff]
    exact ih

/-! ### Refusals -/

lemma eq_fixAxis_of_refused (h : s.appendChannel time c = (.error e, s')) :
    s' = s.fixAxis time := by
  rcases s.appendChannel_cases time c with ⟨e', he⟩ | ⟨he, -⟩
  · exact (Prod.mk.inj (h.symm.trans he)).2
  · cases h.symm.trans he

/-- **What a refusal leaves behind.**  The channels and the names are as before.  The whole session
is as before, and so is all that follows, exactly if a channel had been offered before.  A session
that has refused a channel is never said to be without one. -/
theorem refusal_iff {version : Version} {ops : List Operation}
    (hs : s = ((new version).run ops).2) (h : s.appendChannel time c = (.error e, s')) :
    s'.channels = s.channels ∧ s'.names = s.names ∧ s'.time = some (s.time.getD time) ∧
      (s' = s ↔ ∃ op ∈ ops, op.OffersChannel) ∧
      ((∀ later, (s'.run later).1 = (s.run later).1 ∧
          ∀ deflate, (s'.run later).2.file deflate = (s.run later).2.file deflate) ↔
        ∃ op ∈ ops, op.OffersChannel) ∧
      (∀ deflate, s.file deflate = .error (.error .emptyFixture) ↔
        ¬∃ op ∈ ops, op.OffersChannel) ∧
      ∀ deflate, s'.file deflate ≠ .error (.error .emptyFixture) := by
  have hfix := eq_fixAxis_of_refused h
  have htime : s'.time = some (s.time.getD time) := by rw [hfix, fixAxis]
  have hnone : s.time = none ↔ ¬∃ op ∈ ops, op.OffersChannel := by
    rw [hs, time_run_eq_none_iff]
    simp [new]
  have hsame : s' = s ↔ ∃ op ∈ ops, op.OffersChannel := by
    rw [hfix, fixAxis_eq_self_iff, ne_eq, hnone, not_not]
  have hempty : ∀ deflate, s'.file deflate ≠ .error (.error .emptyFixture) := by
    intro deflate hf
    rw [file_eq_emptyFixture_iff, htime] at hf
    cases hf
  have hbefore : ∀ deflate, s.file deflate = .error (.error .emptyFixture) ↔
      ¬∃ op ∈ ops, op.OffersChannel := by
    intro deflate
    rw [file_eq_emptyFixture_iff, hnone]
  refine ⟨by rw [hfix, fixAxis], by rw [hfix, fixAxis], htime, hsame, ⟨?_, ?_⟩, hbefore, hempty⟩
  · -- the file alone, right after the refusal, tells the two sessions apart
    intro hall
    by_contra hno
    have hfile := (hall []).2 Deflate.storing
    exact hempty _ (hfile.trans ((hbefore _).mpr hno))
  · intro hoffer
    rw [hsame.mpr hoffer]
    exact fun later => ⟨rfl, fun _ => rfl⟩

/-- A session that has a channel refuses another one of its name, and is as before. -/
theorem refusal_repeated :
    ∃ s' : Session, ∃ e, ((new .v410).run [.appendChannel ⟨[⟨0⟩]⟩ ⟨"a", ⟨.uint8, [1]⟩⟩]).2.appendChannel
        ⟨[⟨0⟩]⟩ ⟨"a", ⟨.uint8, [2]⟩⟩ = (.error e, s') ∧
      s' = ((new .v410).run [.appendChannel ⟨[⟨0⟩]⟩ ⟨"a", ⟨.uint8, [1]⟩⟩]).2 := by
  have h : ((new .v410).run [.appendChannel ⟨[⟨0⟩]⟩ ⟨"a", ⟨.uint8, [1]⟩⟩]).2.appendChannel
      ⟨[⟨0⟩]⟩ ⟨"a", ⟨.uint8, [2]⟩⟩ = (.error (.duplicateChannel "a"),
        ((new .v410).run [.appendChannel ⟨[⟨0⟩]⟩ ⟨"a", ⟨.uint8, [1]⟩⟩]).2) := by decide
  exact ⟨_, _, h, (refusal_iff rfl h).2.2.2.1.mpr ⟨_, List.mem_singleton_self _, trivial⟩⟩

/-- A first channel of the name of the master channel is refused, and its axis is kept: a channel on
another axis is refused from then on, and there is a file without channels. -/
theorem refusal_first :
    ∃ s' : Session, (new .v410).appendChannel ⟨[⟨0⟩]⟩ ⟨"time", ⟨.uint8, [1]⟩⟩ =
        (.error (.duplicateChannel "time"), s') ∧
      s'.time ≠ (new .v410).time ∧
      (s'.appendChannel ⟨[]⟩ ⟨"a", ⟨.uint8, []⟩⟩).1 = .error (.lengthMismatch "a" 1 0) ∧
      ((new .v410).appendChannel ⟨[]⟩ ⟨"a", ⟨.uint8, []⟩⟩).1 = .ok () ∧
      (∃ bytes, s'.file Deflate.storing = .ok bytes) ∧
      (new .v410).file Deflate.storing = .error (.error .emptyFixture) := by
  refine ⟨(new .v410).fixAxis ⟨[⟨0⟩]⟩, by decide, by decide, by decide, by decide, ?_, rfl⟩
  exact exists_eq_ok_of_isOk (by decide +kernel)

end Session

end Mdf
