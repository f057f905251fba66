import Mdf.Measurement.Reader
import Mdf.Proofs.Bytes.Decode

/-!
# Where differing times are refused

`Spares d`: on no input and from no position does the reader `d` end with the refusal of data groups
with differing times.  Every reader below the loop over the data groups spares it, so this refusal
tells that times have been compared: a data group that cannot be read is refused for another reason
(`MeasuredGroup.spares_read`), or ends in a fault.
-/

namespace Mdf

/-- The refusal of data groups with differing times. -/
def Failure.differingAxes : Failure := .error (.unsupportedFeature .differingGroupAxes)

/-- The result is not the refusal of data groups with differing times. -/
abbrev Sparing {α : Type} (x : Except Failure α) : Prop :=
  Ends (· ≠ .differingAxes) (fun _ => True) x

lemma sparing_error {α : Type} {x : Except Error α}
    (h : ∀ e, x = .error e → e ≠ .unsupportedFeature .differingGroupAxes) :
    Sparing (liftM x : Except Failure α) :=
  ends_error (fun e he hf => h e he (Failure.error.inj hf)) fun _ _ => trivial

lemma sparing_fault {α : Type} (x : Except Fault α) : Sparing (liftM x : Except Failure α) :=
  ends_fault (fun _ => nofun) x

namespace Decode

variable {α β : Type}

/-- The reader never ends with the refusal of data groups with differing times. -/
def Spares (d : Decode α) : Prop := ∀ input p, Sparing (run d input p).1

/-! ### Sequences of steps -/

lemma spares_pure (a : α) : Spares (pure a) := fun _ _ => .ok trivial

lemma spares_bind {d : Decode α} {next : α → Decode β} (h : Spares d)
    (hn : ∀ a, Spares (next a)) : Spares (d >>= next) := by
  intro input p
  have hd := h input p
  rw [run_bind]
  rcases hrun : run d input p with ⟨a | f, q⟩
  · rw [hrun] at hd
    exact .error hd.of_error
  · exact hn _ input q

lemma spares_map {d : Decode α} {f : α → β} (h : Spares d) :
    Spares (d >>= fun a => pure (f a)) := spares_bind h fun _ => spares_pure _

lemma spares_refuse {e : Error} (h : e ≠ .unsupportedFeature .differingGroupAxes) :
    Spares (refuse e : Decode α) := fun _ _ => .error fun hf => h (Failure.error.inj hf)

lemma spares_refuseIf {condition : Prop} [Decidable condition] {e : Error}
    (h : e ≠ .unsupportedFeature .differingGroupAxes) : Spares (refuseIf condition e) := by
  unfold refuseIf
  split
  · exact spares_refuse h
  · exact spares_pure ()

lemma spares_liftM {x : Except Failure α} (h : Sparing x) : Spares (liftM x) := by
  intro input p
  rw [run_liftM]
  exact h

lemma spares_fault (x : Except Fault α) : Spares (liftM (liftM x : Except Failure α)) :=
  spares_liftM (sparing_fault x)

/-! ### Steps -/

lemma spares_size : Spares size := by
  intro input p
  rw [run_size]
  exact .ok trivial

lemma spares_seek (offset : Nat) : Spares (seek offset) := by
  intro input p
  rw [run_seek]
  split
  · exact .ok trivial
  · exact .error nofun

lemma spares_take (n : Nat) : Spares (take n) := by
  intro input p
  rw [run_take]
  split
  · exact .ok trivial
  · exact .error nofun

lemma spares_skip (n : Nat) : Spares (skip n) := spares_map (spares_take n)

lemma spares_number (n : Nat) : Spares (number n) := by
  unfold number
  rw [field_eq_take]
  exact spares_map (spares_take n)

lemma spares_uint8 : Spares uint8 := spares_map (spares_number 1)

lemma spares_uint16 : Spares uint16 := spares_map (spares_number 2)

lemma spares_uint32 : Spares uint32 := spares_map (spares_number 4)

lemma spares_uint64 : Spares uint64 := spares_map (spares_number 8)

lemma spares_uint64s (n : Nat) : Spares (uint64s n) := by
  induction n with
  | zero => exact spares_pure []
  | succ n ih => exact spares_bind spares_uint64 fun _ => spares_map ih

end Decode

open Decode Block

/-! ### Blocks -/

namespace Block.Header

lemma spares_readRest (first id : BlockId) (size offset : Nat) :
    Spares (readRest first id size offset) := by
  refine spares_bind (spares_skip 4) fun _ => spares_bind spares_uint64 fun _ => ?_
  refine spares_bind spares_uint64 fun _ => spares_bind (spares_fault _) fun _ => ?_
  split
  · exact spares_bind (spares_refuseIf nofun) fun _ => spares_map (spares_uint64s _)
  · exact spares_bind (spares_fault _) fun _ => spares_refuse nofun

lemma spares_readAny (first : BlockId) (others : List BlockId) (offset : Nat) :
    Spares (readAny first others offset) := by
  refine spares_bind spares_size fun _ => spares_bind (spares_refuseIf nofun) fun _ => ?_
  refine spares_bind (spares_seek offset) fun _ => spares_bind (spares_take 4) fun _ => ?_
  split
  · exact spares_refuse nofun
  · exact spares_readRest first _ _ offset

lemma spares_read (id : BlockId) (minLinks minData offset : Nat) :
    Spares (read id minLinks minData offset) := by
  refine spares_bind (spares_readAny id [] offset) fun _ => ?_
  refine spares_bind (spares_refuseIf nofun) fun _ => spares_bind (spares_fault _) fun _ => ?_
  exact spares_map (spares_refuseIf nofun)

end Block.Header

lemma ChannelGroup.spares_read (offset : Nat) : Spares (ChannelGroup.read offset) := by
  refine spares_bind (Header.spares_read _ _ _ _) fun _ => spares_bind spares_uint64 fun _ => ?_
  refine spares_bind spares_uint64 fun _ => spares_bind spares_uint16 fun _ => ?_
  refine spares_bind (spares_skip 6) fun _ => spares_bind spares_uint32 fun _ => ?_
  exact spares_bind spares_uint32 fun _ => spares_map (spares_refuseIf (by simp))

lemma Channel.spares_read (offset : Nat) : Spares (Channel.read offset) := by
  have htype : ∀ code, Sparing (liftM (DataType.ofCode code) : Except Failure DataType) := by
    refine fun code => sparing_error fun e he => ?_
    unfold DataType.ofCode at he
    split at he <;> cases he
    exact nofun
  refine spares_bind (Header.spares_read _ _ _ _) fun _ => spares_bind spares_uint8 fun _ => ?_
  refine spares_bind spares_uint8 fun _ => spares_bind spares_uint8 fun code => ?_
  refine spares_bind (spares_liftM (htype code)) fun _ => spares_bind spares_uint8 fun _ => ?_
  refine spares_bind spares_uint32 fun _ => spares_bind spares_uint32 fun _ => ?_
  refine spares_bind spares_uint32 fun _ => spares_bind (spares_refuseIf (by simp)) fun _ => ?_
  refine spares_bind (spares_refuseIf (by simp)) fun _ => ?_
  refine spares_bind (spares_refuseIf (by simp)) fun _ => ?_
  exact spares_map (spares_refuseIf (by simp))

lemma TextBlock.spares_read (offset : Nat) : Spares (TextBlock.read offset) := by
  refine spares_bind (Header.spares_readAny _ _ _) fun _ => spares_bind (spares_fault _) fun _ => ?_
  exact spares_bind (spares_take _) fun _ => spares_map (spares_fault _)

/-! ### Records -/

namespace Records

lemma sparing_ofZipType (code : UInt8) :
    Sparing (liftM (Storage.ofZipType code) : Except Failure Storage) := by
  refine sparing_error fun e he => ?_
  unfold Storage.ofZipType at he
  split at he <;> cases he
  exact nofun

lemma sparing_decompress (d : List UInt8) (declared : UInt64) :
    Sparing (liftM (Deflate.decompress d declared) : Except Failure (List UInt8)) := by
  refine sparing_error fun e he => ?_
  unfold Deflate.decompress Deflate.Decoder.decompress at he
  split at he
  · split at he
    · cases he
    · cases he
      exact nofun
  · cases he
    exact nofun

lemma spares_unpack (h : Header) : Spares (unpack h) := by
  refine spares_bind (spares_fault _) fun _ => spares_bind (spares_refuseIf nofun) fun _ => ?_
  refine spares_bind (spares_take 2) fun _ => spares_bind (spares_refuseIf (by simp)) fun _ => ?_
  refine spares_bind spares_uint8 fun zipType => ?_
  refine spares_bind (spares_liftM (sparing_ofZipType zipType)) fun _ => ?_
  refine spares_bind (spares_skip 1) fun _ => spares_bind spares_uint32 fun _ => ?_
  refine spares_bind spares_uint64 fun unpacked => spares_bind spares_uint64 fun packed => ?_
  refine spares_bind spares_size fun _ => spares_bind (spares_fault _) fun _ => ?_
  refine spares_bind (spares_refuseIf nofun) fun _ => spares_bind (spares_take _) fun stream => ?_
  exact spares_bind (spares_liftM (sparing_decompress stream _)) fun _ => spares_fault _

lemma spares_read (offset : Nat) : Spares (read offset) := by
  unfold read
  split
  · exact spares_pure []
  · refine spares_bind (Header.spares_readAny _ _ _) fun h => ?_
    split
    · exact spares_bind (spares_fault _) fun _ => spares_take _
    · split
      · exact spares_unpack h
      · exact spares_refuse (by simp)

end Records

/-! ### Chains -/

lemma Chain.spares_fold {σ : Type} {step : σ → Nat → Decode (σ × UInt64)}
    (hs : ∀ state offset, Spares (step state offset)) (state : σ) (link : UInt64) :
    Spares (fold step state link) := by
  have hfrom : ∀ visited state link, Spares (foldFrom step visited state link) := by
    intro visited state link
    induction visited, state, link using foldFrom.induct with
    | case1 visited state =>
      rw [foldFrom, if_pos rfl]
      exact spares_pure state
    | case2 visited state link hlink hunread ih =>
      rw [foldFrom, if_neg hlink, dif_pos hunread]
      exact spares_bind (hs state link.toNat) fun r => ih r.1 r.2
    | case3 visited state link hlink hread =>
      rw [foldFrom, if_neg hlink, dif_neg hread]
      exact spares_refuse nofun
  exact hfrom [] state link

/-! ### Data groups -/

namespace MeasuredGroup

lemma spares_readChannel (size : Nat) (found : FoundChannels) (offset : Nat) :
    Spares (readChannel size found offset) := by
  refine spares_bind (Channel.spares_read offset) fun c => ?_
  refine spares_bind (TextBlock.spares_read _) fun _ => spares_bind (spares_fault _) fun _ => ?_
  refine spares_bind (spares_refuseIf nofun) fun _ => ?_
  split
  · exact spares_map (spares_refuseIf (by simp))
  · split
    · exact spares_pure _
    · exact spares_map (TextBlock.spares_read _)

lemma spares_readRecords (g : DataGroup) (cg : ChannelGroup) : Spares (readRecords g cg) := by
  refine spares_bind (Records.spares_read _) fun _ => spares_bind spares_size fun _ => ?_
  exact spares_bind (spares_refuseIf nofun) fun _ => spares_map (spares_refuseIf nofun)

lemma sparing_masterTimes (c : Channel) (size : Nat) (records : List UInt8) :
    Sparing (masterTimes c size records) := by
  unfold masterTimes
  simp only
  split
  · split
    · exact ends_bind (sparing_fault _) fun rows _ => sparing_fault _
    · exact ends_pure trivial
  · exact .error nofun

lemma sparing_wordOfRow (kind : Kind) (c : Channel) (row : List UInt8) :
    Sparing (wordOfRow kind c row) := by
  refine ends_bind (sparing_fault _) fun bytes _ => sparing_error fun e he => ?_
  unfold Kind.word at he
  split at he <;> cases he
  exact nofun

lemma sparing_samplesOf (size count : Nat) (records : List UInt8) (f : FoundChannel) :
    Sparing (samplesOf size count records f) := by
  have hkind : Sparing (liftM (Kind.ofEncoding f.channel.encoding) : Except Failure Kind) := by
    refine sparing_error fun e he => ?_
    unfold Kind.ofEncoding at he
    split at he <;> cases he
    exact nofun
  refine ends_bind hkind fun kind _ => ends_bind (sparing_fault _) fun rows _ => ?_
  have hwords : ∀ row ∈ rows.take count, Sparing (wordOfRow kind f.channel row) :=
    fun row _ => sparing_wordOfRow kind f.channel row
  exact ends_bind (ends_mapM hwords) fun _ _ => ends_pure trivial

lemma sparing_ofRecords (size count : Nat) (records : List UInt8) (found : FoundChannels) :
    Sparing (ofRecords size count records found) := by
  have htimes : Sparing (timesOf size count records found.master) := by
    unfold timesOf
    split
    · exact ends_bind (sparing_masterTimes _ _ _) fun _ _ => ends_pure trivial
    · exact ends_pure trivial
  refine ends_bind htimes fun _ _ => ?_
  exact ends_bind (ends_mapM fun f _ => sparing_samplesOf size count records f)
    fun _ _ => ends_pure trivial

/-- **A data group is never refused for differing times before they are compared.** -/
theorem spares_read (g : DataGroup) : Spares (read g) := by
  refine spares_bind (spares_refuseIf (by simp)) fun _ => ?_
  refine spares_bind (ChannelGroup.spares_read _) fun cg => ?_
  refine spares_bind (spares_refuseIf (by simp)) fun _ => ?_
  refine spares_bind (spares_refuseIf (by simp)) fun _ => ?_
  refine spares_bind (spares_refuseIf (by simp)) fun _ => ?_
  refine spares_bind (spares_readRecords g cg) fun records => ?_
  refine spares_bind (Chain.spares_fold (spares_readChannel _) _ _) fun found => ?_
  exact spares_liftM (sparing_ofRecords ..)

end MeasuredGroup

namespace Measurement

lemma addChannels_ne_differingAxes (channels cs : List MeasuredChannel) :
    addChannels channels cs ≠ .error (.unsupportedFeature .differingGroupAxes) := by
  induction cs generalizing channels with
  | nil => exact nofun
  | cons c cs ih =>
    rw [addChannels]
    split
    · exact nofun
    · exact ih _

/-- **A group is refused for differing times exactly if they differ as numbers.** -/
theorem addGroup_eq_differingAxes_iff {first g : MeasuredGroup} :
    addGroup (some first) g = .error (.unsupportedFeature .differingGroupAxes) ↔
      Binary.ieeeEqAll g.time first.time ≠ true := by
  rw [addGroup]
  by_cases ht : Binary.ieeeEqAll g.time first.time = true
  · rw [if_pos ht]
    refine iff_of_false ?_ (not_not_intro ht)
    have hne := addChannels_ne_differingAxes first.channels g.channels
    cases hcs : addChannels first.channels g.channels with
    | ok cs => exact nofun
    | error e =>
      rw [hcs] at hne
      rw [error_bind]
      exact fun h => hne (congrArg Except.error (Except.error.inj h))
  · rw [if_neg ht]
    exact iff_of_true rfl ht

end Measurement

end Mdf
