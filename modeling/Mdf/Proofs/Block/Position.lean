import Mdf.Block.ChannelGroup
import Mdf.Block.DataGroup
import Mdf.Proofs.Bytes.Decode

/-!
# Readers that move to a place of their own

A reader of a block goes to the offset of the block before it reads, so it does not matter where it
stood: `Settles file d` says that from every position of the file the reader `d` ends with one value
at one position, or with one failure.  Whatever follows such a reader settles as well
(`settles_bind`).
-/

namespace Mdf

namespace Decode

variable {α β : Type} {file : List UInt8}

/-- From every position the reader ends alike. -/
inductive Settles (file : List UInt8) (d : Decode α) : Prop
  /-- It ends with this value, at this position. -/
  | ok (a : α) (q : Nat) (h : ∀ p, run d file p = (.ok a, q))
  | error (f : Failure) (h : Gives file d (.error f))

/-- What the reader has given once it gives from every position. -/
lemma Settles.gives {d : Decode α} {a : α} {p q : Nat} (h : Settles file d)
    (hrun : run d file p = (.ok a, q)) : Gives file d (.ok a) := by
  intro p'
  cases h with
  | ok b r hok => rw [hok p', ← hok p, hrun]
  | error f hf =>
    have hp := hf p
    rw [hrun] at hp
    cases hp

lemma settles_refuse (e : Error) : Settles file (refuse e : Decode α) :=
  .error (.error e) fun _ => rfl

lemma settles_seek (offset : Nat) : Settles file (seek offset) := by
  by_cases h : offset ≤ file.length
  · exact .ok () offset fun p => by rw [run_seek, if_pos h]
  · exact .error _ fun p => by rw [run_seek, if_neg h]

/-- **Whatever follows a reader that settles settles as well**: it starts at one position. -/
lemma settles_bind {d : Decode α} (h : Settles file d) (next : α → Decode β) :
    Settles file (d >>= next) := by
  cases h with
  | error f hf => exact .error f (gives_bind_error hf)
  | ok a q hok =>
    have hrun : ∀ p, run (d >>= next) file p = run (next a) file q :=
      fun p => run_bind_of_ok (hok p)
    rcases hnext : run (next a) file q with ⟨f | b, r⟩
    · exact .error f fun p => by rw [hrun p, hnext]
    · exact .ok b r fun p => by rw [hrun p, hnext]

lemma settles_size_bind {next : Nat → Decode β} (h : Settles file (next file.length)) :
    Settles file (size >>= next) := by
  have hrun : ∀ p, run (size >>= next) file p = run (next file.length) file p :=
    fun p => run_bind_of_ok (run_size file p)
  cases h with
  | ok b r hok => exact .ok b r fun p => by rw [hrun, hok]
  | error f hf => exact .error f fun p => by rw [hrun, hf p]

lemma settles_refuseIf_bind {condition : Prop} [Decidable condition] {e : Error}
    {next : Unit → Decode β} (h : Settles file (next ())) :
    Settles file (refuseIf condition e >>= next) := by
  unfold refuseIf
  split
  · exact settles_bind (settles_refuse e) next
  · exact h

end Decode

open Decode

variable {file : List UInt8}

/-! ### Blocks -/

lemma Block.Header.settles_readAny (first : BlockId) (others : List BlockId) (offset : Nat) :
    Settles file (readAny first others offset) :=
  settles_size_bind (settles_refuseIf_bind (settles_bind (settles_seek offset) _))

lemma Block.Header.settles_read (id : BlockId) (minLinks minData offset : Nat) :
    Settles file (read id minLinks minData offset) :=
  settles_bind (settles_readAny id [] offset) _

lemma DataGroup.settles_read (offset : Nat) : Settles file (DataGroup.read offset) :=
  settles_bind (Block.Header.settles_read _ _ _ offset) _

lemma ChannelGroup.settles_read (offset : Nat) : Settles file (ChannelGroup.read offset) :=
  settles_bind (Block.Header.settles_read _ _ _ offset) _

end Mdf
