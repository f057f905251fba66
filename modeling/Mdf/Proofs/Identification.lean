import Mdf.Identification
import Mdf.Proofs.Block.Fields
import Mdf.Proofs.Bytes.Numbers
import Mdf.Proofs.Text.Blank
import Mdf.Proofs.Text.Lossy

/-!
# Reading back the identification

An identification that is new or was read is written as 64 bytes, and read from these with its
revision and its flags.  Its program name has a field of eight bytes: `run_decode_encode` says what is
read of a longer one, and which ones are read back.  Names get longer than their field where it held
bytes that are no text, each of which is read as the three bytes of a U+FFFD.
-/

namespace Mdf.Identification

open Decode

variable {i : Identification} {program : String} {file : List UInt8} {p q : Nat}

/-! ### Fields -/

lemma length_field (v : Version) : v.field.length = 8 := by
  cases v <;> decide

lemma ofField_field (v : Version) : Version.ofField v.field = .ok v := by
  cases v <;> decide

@[simp] lemma length_programField (program : String) : (programField program).length = 8 := by
  have hle : ((Utf8.encode program).take 8).length ≤ 8 := List.length_take_le ..
  simp only [programField, List.length_append, Buffer.length_zeros]
  omega

/-- **An identification is written as 64 bytes.** -/
@[simp] theorem length_encode (i : Identification) : i.encode.length = size := by
  have hmark : (if i.unfinished.isSome then unfinishedMark else finishedMark).length = 8 := by
    split <;> rfl
  simp only [encode, List.length_append, hmark, length_field, length_programField,
    LittleEndian.length_uint16, Buffer.length_zeros, size]

/-- The name that is read from the field of a program name. -/
def keptName (program : String) : String :=
  Text.trimEnd (Utf8.decodeLossy ((programField program).takeWhile (· ≠ 0)))

lemma programName_eq (field : List UInt8) :
    programName field = .ok (Text.trimEnd (Utf8.decodeLossy (field.takeWhile (· ≠ 0)))) := by
  rw [programName, Buffer.beforeZero_eq]
  rfl

/-- An identification is read back but for the name of its program. -/
theorem reads_encode (i : Identification) :
    Reads decode i.encode ⟨i.version, keptName i.program, i.unfinished⟩ := by
  generalize hmark : (if i.unfinished.isSome then unfinishedMark else finishedMark) = mark
  have hlength : mark.length = 8 := by
    rw [← hmark]
    split <;> rfl
  have hknown : ¬(mark ≠ finishedMark ∧ mark ≠ unfinishedMark) := by
    rw [← hmark]
    split <;> simp
  have hflags : (if mark = finishedMark then none
      else some (i.unfinished.elim 0 Prod.fst, i.unfinished.elim 0 Prod.snd)) = i.unfinished := by
    rw [← hmark]
    cases i.unfinished with
    | none => rfl
    | some flags => exact if_neg (show unfinishedMark ≠ finishedMark by decide)
  have hbytes : i.encode = mark ++ (i.version.field ++ (programField i.program ++
      (LittleEndian.uint16 0 ++ (LittleEndian.uint16 0 ++ (LittleEndian.uint16 i.version.number ++
        (LittleEndian.uint16 0 ++ (Buffer.zeros 28 ++
          (LittleEndian.uint16 (i.unfinished.elim 0 Prod.fst) ++
            (LittleEndian.uint16 (i.unfinished.elim 0 Prod.snd) ++ []))))))))) := by
    simp only [encode, hmark, List.append_assoc, List.append_nil]
  rw [hbytes]
  unfold decode
  refine reads_bind (reads_take_of_length hlength) (reads_bind_nil (reads_refuseIf hknown) ?_)
  refine reads_bind (reads_take_of_length (length_field _)) ?_
  refine reads_bind_nil (reads_liftM (by rw [ofField_field]; rfl)) ?_
  refine reads_bind (reads_take_of_length (length_programField _)) ?_
  refine reads_bind_nil (reads_liftM (by rw [programName_eq]; rfl)) ?_
  refine reads_bind (reads_uint16 _) (reads_bind (reads_uint16 _) (reads_bind (reads_uint16 _)
    (reads_bind (reads_uint16 _) ?_)))
  refine reads_bind (reads_skip (Buffer.length_zeros 28)) ?_
  refine reads_bind (reads_uint16 _) (reads_bind (reads_uint16 _) ?_)
  refine reads_bind_nil (reads_refuseIf (by simp)) (reads_bind_nil (reads_refuseIf (by simp)) ?_)
  rw [hflags]
  exact reads_pure _

/-- **The identification of a new file is read back.** -/
theorem reads_decode (v : Version) : Reads decode (new v).encode (new v) := by
  have hname : keptName ownProgram = ownProgram := by decide
  have hread := reads_encode (new v)
  rwa [show (new v).program = ownProgram from rfl, hname] at hread

/-! ### Identifications that were read -/

/-- The identification stands at a position of a file. -/
structure FoundAt (file : List UInt8) (p : Nat) (i : Identification) : Prop where
  finished : i.unfinished = none → (file.drop p).take 8 = finishedMark
  version : Version.ofField ((file.drop (p + 8)).take 8) = .ok i.version
  /-- The name ends before the first zero byte of its field. -/
  program : i.program = Text.trimEnd
    (Utf8.decodeLossy (((file.drop (p + 16)).take 8).takeWhile (· ≠ 0)))
  byteOrder : numberAt file (p + 24) 2 = 0
  floatFormat : numberAt file (p + 26) 2 = 0
  number : numberAt file (p + 28) 2 = i.version.number.toNat

lemma foundAt_of_run_decode (hr : run decode file p = (.ok i, q)) : FoundAt file p i := by
  unfold decode at hr
  obtain ⟨-, hr⟩ := run_refuseIf_bind_eq_ok_iff.mp (of_take_bind hr)
  obtain ⟨version, htext, hr⟩ := run_liftM_bind_eq_ok_iff.mp (of_take_bind hr)
  obtain ⟨program, hprogram, hr⟩ := run_liftM_bind_eq_ok_iff.mp (of_take_bind hr)
  obtain ⟨byteOrder, horder, hr⟩ := of_uint16_bind hr
  obtain ⟨floatFormat, hformat, hr⟩ := of_uint16_bind hr
  obtain ⟨number, hnumber, hr⟩ := of_uint16_bind hr
  obtain ⟨codePage, -, hr⟩ := of_uint16_bind hr
  obtain ⟨flags, -, hr⟩ := of_uint16_bind (of_skip_bind hr)
  obtain ⟨ownFlags, -, hr⟩ := of_uint16_bind hr
  obtain ⟨hversion, hr⟩ := run_refuseIf_bind_eq_ok_iff.mp hr
  obtain ⟨hdefault, hr⟩ := run_refuseIf_bind_eq_ok_iff.mp hr
  rw [run_pure, Prod.mk.injEq, Except.ok.injEq] at hr
  obtain ⟨rfl, -⟩ := hr
  obtain ⟨horder0, hformat0⟩ := not_or.mp hdefault
  rw [not_not.mp horder0] at horder
  rw [not_not.mp hformat0] at hformat
  rw [not_not.mp hversion] at hnumber
  rw [liftM_error_eq_ok_iff] at htext
  rw [programName_eq] at hprogram
  refine ⟨fun hnone => ?_, htext, (Except.ok.inj hprogram).symm, horder.symm, hformat.symm,
    hnumber.symm⟩
  by_contra hmark
  rw [if_neg hmark] at hnone
  cases hnone

/-- The identifications there are: those of new files, and those that were read. -/
inductive Produced : Identification → Prop
  | new (v : Version) : Produced (new v)
  | read {input : List UInt8} {p q : Nat} {i : Identification}
      (h : run decode input p = (.ok i, q)) : Produced i

/-! ### Program names -/

/-- **No name holds U+0000 or a blank at its end.** -/
lemma Produced.program_proper (h : Produced i) :
    Utf8.NulFree i.program ∧ Text.trimEnd i.program = i.program := by
  cases h with
  | new v =>
    have hown : Utf8.NulFree ownProgram ∧ Text.trimEnd ownProgram = ownProgram := by decide
    exact hown
  | read h =>
    have hzero (field : List UInt8) : 0 ∉ field.takeWhile (· ≠ 0) := fun hmem => by
      simpa using List.mem_takeWhile_imp hmem
    rw [(foundAt_of_run_decode h).program]
    refine ⟨fun hmem => ?_, Text.trimEnd_trimEnd _⟩
    exact Utf8.nulFree_decodeLossy (hzero _) ((Text.isPrefix_trimEnd _).mem hmem)

/-- What is kept of a name: the characters that fit into the field, without blanks at the end. -/
lemma keptName_of_nulFree (h : Utf8.NulFree program) :
    keptName program = Text.trimEnd (String.ofList (Utf8.truncate 8 program.toList)) := by
  have hfield : (programField program).takeWhile (· ≠ 0) = (Utf8.encode program).take 8 := by
    have hne : ∀ b ∈ (Utf8.encode program).take 8, decide (b ≠ 0) = true := fun b hb =>
      decide_eq_true fun hb0 => Utf8.zero_notMem_encode h (hb0 ▸ List.mem_of_mem_take hb)
    have hzeros (n : Nat) : (Buffer.zeros n).takeWhile (· ≠ 0) = [] := by
      simp [Buffer.zeros]
    rw [programField, List.takeWhile_append_of_pos hne, hzeros, List.append_nil]
  rw [keptName, hfield, Utf8.decodeLossy, Utf8.encode, Utf8.run_take_encode]

/-- A name without a blank at its end is kept if its bytes, but for those of a U+FFFD that stands
last, are within the field. -/
lemma trimEnd_truncate_eq_iff (h : Text.trimEnd program = program) :
    Text.trimEnd (String.ofList (Utf8.truncate 8 program.toList)) = program ↔
      (Utf8.encode program).length ≤ 8 ∨
        ∃ s, program = s ++ "\uFFFD" ∧ (Utf8.encode s).length < 8 := by
  have htruncate : Text.trimEnd (String.ofList (Utf8.truncate 8 program.toList)) = program ↔
      Utf8.truncate 8 program.toList = program.toList := by
    constructor
    · -- both the cut and the trimming would make the name shorter
      intro heq
      have hstart := Text.isPrefix_trimEnd (String.ofList (Utf8.truncate 8 program.toList))
      rw [heq, String.toList_ofList] at hstart
      exact (hstart.eq_of_length_le (Utf8.length_truncate_le 8 _)).symm
    · intro heq
      rw [heq, String.ofList_toList, h]
  rw [htruncate, Utf8.truncate_eq_self_iff]
  refine or_congr Iff.rfl ⟨?_, ?_⟩
  · rintro ⟨ds, hds, hlt⟩
    refine ⟨String.ofList ds, String.toList_inj.mp ?_, by rwa [Utf8.encode, String.toList_ofList]⟩
    rw [hds, String.toList_append, String.toList_ofList]
    rfl
  · rintro ⟨s, rfl, hlt⟩
    exact ⟨s.toList, String.toList_append, hlt⟩

/-! ### Every identification -/

/-- **An identification that is new or was read is read back from its 64 bytes**, wherever they
stand, up to its program name: of this the characters are kept that fit into eight bytes. -/
theorem run_decode_encode (h : Produced i) (pre post : List UInt8) :
    i.encode.length = 64 ∧
    ∃ name, run decode (pre ++ i.encode ++ post) pre.length =
        (.ok ⟨i.version, name, i.unfinished⟩, pre.length + 64) ∧
      name = Text.trimEnd (String.ofList (Utf8.truncate 8 i.program.toList)) ∧
      (name = i.program ↔ (Utf8.encode i.program).length ≤ 8 ∨
        ∃ s, i.program = s ++ "\uFFFD" ∧ (Utf8.encode s).length < 8) := by
  obtain ⟨hnul, htrim⟩ := h.program_proper
  have hlength : i.encode.length = 64 := length_encode i
  have hread := reads_encode i pre post
  rw [keptName_of_nulFree hnul, hlength] at hread
  exact ⟨hlength, _, hread, rfl, trimEnd_truncate_eq_iff htrim⟩

/-- The identification of a finished file whose program field has no byte of a text. -/
def illFormed : List UInt8 :=
  finishedMark ++ Version.v410.field ++ List.replicate 8 0xFF ++ Buffer.zeros 4 ++
    LittleEndian.uint16 410 ++ Buffer.zeros 34

/-- What is read of it: each byte is a character of three bytes. -/
def illFormedRead : Identification := ⟨.v410, String.ofList (List.replicate 8 '\uFFFD'), none⟩

theorem run_decode_encode_illFormed :
    Produced illFormedRead ∧ ∃ name, run decode ([0] ++ illFormedRead.encode ++ [0]) 1 =
      (.ok ⟨.v410, name, none⟩, 65) ∧ name ≠ illFormedRead.program := by
  have hread : run decode illFormed 0 = (.ok illFormedRead, 64) := by decide +kernel
  obtain ⟨-, name, hrun, rfl, -⟩ := run_decode_encode (.read hread) [0] [0]
  exact ⟨.read hread, _, hrun, by decide +kernel⟩

/-- **A name longer than its field is cut**: eight characters are read, and three are read back. -/
theorem illFormed_cut :
    run decode illFormed 0 = (.ok illFormedRead, 64) ∧
      run decode illFormedRead.encode 0 =
        (.ok { illFormedRead with program := "\uFFFD\uFFFD\uFFFD" }, 64) ∧
      illFormedRead.program ≠ "\uFFFD\uFFFD\uFFFD" := by
  decide +kernel

end Mdf.Identification
