import Mdf.Proofs.Block.Records
import Mdf.Proofs.Deflate.Decoder
import Mdf.Proofs.Deflate.Stored

/-!
# Restoring a declared number of bytes

`decompress_exact` is the main statement: whatever decoder inflates the stream, exactly the streams
with as many bytes as declared are restored, although no more than one byte behind these is asked
for.  The decoder of this library inflates every stream of the format (`Stream.inflates`), so what a
sound compressor gives is restored (`Compressor.IsSound.inverts`).
-/

namespace Mdf.Deflate

open Decoder

variable {z out d : List UInt8} {given n : Nat} {s : inflating.State}

/-! ### The decoder of containers -/

lemma windowSize_le (k : Nat) : windowSize ≤ (k / windowSize + 1) * windowSize :=
  Nat.le_mul_of_pos_left _ (Nat.succ_pos _)

/-- A read gives no more than it is asked for, and stays at its container. -/
lemma of_read_inflating {s' : inflating.State} {bytes : List UInt8}
    (h : inflating.read s n = .ok (bytes, s')) :
    bytes.length ≤ n ∧ Inflation.container s' = Inflation.container s := by
  dsimp only [inflating] at h
  split at h
  · cases h
  · cases h
  · cases h
    exact ⟨List.length_take_le .., rfl⟩

/-- Of a stream a read gives the next bytes of the output. -/
lemma read_inflating (hz : Stream z out) (hle : given ≤ out.length) (hn : 0 < n) :
    inflating.read ⟨z, given⟩ n = .ok ((out.drop given).take n,
      ⟨z, given + ((out.drop given).take n).length⟩) := by
  have hcapacity : given + n ≤ ((given + n - 1) / windowSize + 1) * windowSize := by
    unfold windowSize
    omega
  generalize hc : ((given + n - 1) / windowSize + 1) * windowSize = capacity at hcapacity
  have hinflate := inflate_of_stream hz capacity
  simp only [inflating, hc, hinflate]
  by_cases hfits : out.length ≤ capacity
  · rw [if_pos hfits]
  · -- the output stops at the capacity, behind all that was asked for
    rw [if_neg hfits]
    have htake : ((out.take capacity).drop given).take n = (out.drop given).take n := by
      rw [List.drop_take, List.take_take, Nat.min_eq_left (by omega)]
    have hne : (out.drop given).take n ≠ [] := by
      apply List.ne_nil_of_length_pos
      rw [List.length_take, List.length_drop]
      omega
    obtain ⟨b, bytes, hbytes⟩ := List.exists_cons_of_ne_nil hne
    simp only [htake, hbytes]

lemma container_of_delivers (h : inflating.Delivers z s d) : Inflation.container s = z := by
  induction h with
  | start => rfl
  | read _ _ hread ih => rw [(of_read_inflating hread).2, ih]

/-- Of a stream the state knows how much was given so far. -/
lemma eq_of_delivers (hz : Stream z out) (h : inflating.Delivers z s d) :
    s = (⟨z, d.length⟩ : Inflation) ∧ d <+: out := by
  induction h with
  | start => exact ⟨rfl, List.nil_prefix⟩
  | @read s s' d bytes n _ hn hread ih =>
    obtain ⟨rfl, more, rfl⟩ := ih
    rw [read_inflating hz (by simp) hn, List.drop_left] at hread
    cases hread
    refine ⟨by rw [List.length_append], ?_⟩
    rw [List.prefix_append_right_inj]
    exact List.take_prefix n more

/-- **Every stream of the format is inflated.** -/
theorem Stream.inflates (hz : Stream z out) : inflating.Inflates z := by
  have hgives {out s d n} (hz : Stream z out) (hs : inflating.Delivers z s d) (hn : 0 < n) :
      ∃ bytes s', inflating.read s n = .ok (bytes, s') ∧ d ++ bytes <+: out ∧
        (bytes = [] → d = out) := by
    obtain ⟨rfl, more, rfl⟩ := eq_of_delivers hz hs
    refine ⟨_, _, read_inflating hz (by simp) hn, ?_, fun hend => ?_⟩
    · rw [List.drop_left, List.prefix_append_right_inj]
      exact List.take_prefix n more
    · rw [List.drop_left, List.take_eq_nil_iff] at hend
      rw [hend.resolve_left (by omega), List.append_nil]
  refine ⟨fun _ hread => (of_read_inflating hread).1, hgives, fun hs hn hread => ?_⟩
  obtain ⟨bytes, s', hread', -, hend⟩ := hgives hz hs hn
  cases hread.symm.trans hread'
  rwa [hend rfl]

/-- A stream has one output. -/
theorem Stream.unique {out' : List UInt8} (h : Stream z out) (h' : Stream z out') : out' = out := by
  have hread := read_inflating h (Nat.zero_le _) (Nat.succ_pos (out.length + out'.length))
  have hread' := read_inflating h' (Nat.zero_le _) (Nat.succ_pos (out.length + out'.length))
  have heq := Except.ok.inj (hread'.symm.trans hread)
  rw [List.drop_zero, List.drop_zero, List.take_of_length_le (by omega),
    List.take_of_length_le (by omega)] at heq
  exact congrArg Prod.fst heq

/-! ### What is no stream -/

section Defect

variable {e : Stop} {o : Array UInt8} (h : inflate windowSize z = (.error e, o)) (he : e ≠ .full)
include h he

/-- What stops at a defect or at the end of the input starts with no stream. -/
lemma not_stream_of_defect : ¬Stream z out := by
  intro hz
  rw [inflate_of_stream hz] at h
  split at h
  · cases h
  · cases h
    exact he rfl

/-- **What has a defect in its first window, or breaks off there, is inflated up to that.**  No read
comes to an end. -/
theorem inflates_of_defect : inflating.Inflates z where
  bounded _ hread := (of_read_inflating hread).1
  gives hz := absurd hz (not_stream_of_defect h he)
  ends {s s' d n} hs hn hread := by
    obtain rfl := container_of_delivers hs
    have hcapacity := inflate_of_le (windowSize_le (Inflation.given s + n - 1))
      (show (inflate windowSize (Inflation.container s)).1 ≠ .error .full by rw [h]; simpa using he)
    dsimp only [inflating] at hread
    rw [hcapacity, h] at hread
    cases e with
    | corrupt => cases hread
    | full => exact absurd rfl he
    | inputEnd =>
      generalize (o.toList.drop (Inflation.given s)).take n = bytes at hread
      cases bytes with
      | nil => cases hread
      | cons b bytes => cases hread

end Defect

/-! ### Compressors -/

/-- What the compressor gives is a stream of what it was given. -/
def Compressor.IsSound (deflate : Compressor) : Prop := ∀ d z, deflate d = .ok z → Stream z d

lemma isSound_storing : storing.IsSound := by
  intro d z h
  cases h
  exact stream_compress d

/-- **What a sound compressor gives is inverted by decompression.** -/
theorem Compressor.IsSound.inverts {deflate : Compressor} (h : deflate.IsSound) :
    deflate.Inverts := by
  intro d z hlength hz
  have hmemory : Buffer.limit < UInt64.size := by decide
  have hdeclared : d.length = (UInt64.ofNat d.length).toNat :=
    (UInt64.toNat_ofNat_of_lt' (by omega)).symm
  exact (decompress_eq_ok_iff (h d z hz).inflates).mpr ⟨h d z hz, hdeclared, hlength⟩

theorem inverts_storing : storing.Inverts := isSound_storing.inverts

/-! ### The declared length -/

/-- **Restoring a declared number of bytes accepts exactly the streams that hold so many.**  The
decoder is asked for one byte behind the declared ones at most, and yet nothing is accepted but a
whole stream with its checksum.  What holds another number of bytes is refused with the number that
was inflated.  So what a sound compressor gives comes back under the length of what went in, and
under no other. -/
theorem decompress_exact (decoder : Decoder) (room : Room) (z : List UInt8)
    (h : decoder.Inflates z) (declared : UInt64) :
    (∀ out, decoder.decompress room z declared = .ok out ↔
      Stream z out ∧ out.length = declared.toNat ∧ out.length < Buffer.limit) ∧
    (∀ out, Stream z out → decoder.decompress room z declared = restored out declared) ∧
    ∀ deflate : Compressor, deflate.IsSound → ∀ d, deflate.container d = .ok z →
      decoder.decompress room z declared = restored d declared := by
  refine ⟨fun _ => decompress_eq_ok_iff h, fun _ => decompress_of_stream h, ?_⟩
  intro deflate hsound d hz
  exact decompress_of_stream h (hsound d z (Compressor.container_eq_ok_iff.mp hz))

/-- A container of ten bytes, the last eight of them in a match. -/
def matched : List UInt8 := [0x78, 0x9C, 0x4B, 0x4C, 0x84, 0x01, 0x00, 0x14, 0xE1, 0x03, 0xCB]

lemma stream_matched : Stream matched (List.replicate 10 97) := by
  have hletter : IsWord fixedLiteralLengths (UInt8.toNat 97)
      [true, false, false, true, false, false, false, true] := by decide +kernel
  have hlength : IsWord fixedLiteralLengths (257 + 5)
      [false, false, false, false, true, true, false] := by decide +kernel
  have hdistance : IsWord fixedDistanceLengths 0 (List.replicate 5 false) := by decide +kernel
  have hstop : IsWord fixedLiteralLengths 256 (List.replicate 7 false) := by decide +kernel
  have hmatch : IsMatch (distanceBase 0 + number []) (lengthBase 5 + number [])
      (List.replicate 2 97) (List.replicate 10 97) :=
    ⟨by decide, by decide, by decide, by decide, by decide⟩
  have hsymbols : Symbols fixedLiteralLengths fixedDistanceLengths _ [] (List.replicate 10 97) :=
    .literal hletter (.literal hletter (.copy (by decide) hlength rfl (by decide) hdistance rfl
      hmatch (.stop hstop)))
  have hblocks : Blocks 16 _ [] (List.replicate 10 97) := .last (.fixed hsymbols)
  have hbytes : matched = 0x78 :: 0x9C ::
      ([0x4B, 0x4C, 0x84, 0x01, 0x00] ++ (checksumBytes (List.replicate 10 97) ++ [])) := by
    decide +kernel
  rw [hbytes]
  exact @Stream.mk _ _ _ _ _ _ [false, false] (by decide) (by decide) (by decide) hblocks

/-- Without the last byte of the checksum the input ends too soon. -/
lemma inflate_truncated : inflate windowSize (matched.take 10) =
    (.error .inputEnd, (List.replicate 10 97).toArray) := by
  decide +kernel

/-- With another checksum there is a defect behind all of the output. -/
lemma inflate_altered : inflate windowSize (matched.set 10 0) =
    (.error .corrupt, (List.replicate 10 97).toArray) := by
  decide +kernel

theorem decompress_exact_matched :
    inflating.Inflates matched ∧ Stream matched (List.replicate 10 97) ∧
      decompress matched 10 = .ok (List.replicate 10 97) ∧
      decompress matched 9 = .error (.decompression (.wrongLength 10 9)) ∧
      decompress matched 0xFFFFFFFFFFFFFFFF =
        .error (.decompression (.wrongLength 10 0xFFFFFFFFFFFFFFFF)) ∧
      inflating.Inflates (matched.take 10) ∧ decompress (matched.take 10) 10 ≠
        .ok (List.replicate 10 97) ∧
      inflating.Inflates (matched.set 10 0) ∧ decompress (matched.set 10 0) 10 ≠
        .ok (List.replicate 10 97) ∧
      inflating.Inflates (compress [1, 2, 3]) ∧ storing.IsSound ∧
      storing.container [1, 2, 3] = .ok (compress [1, 2, 3]) ∧
      decompress (compress [1, 2, 3]) 4 = .error (.decompression (.wrongLength 3 4)) := by
  have hmatched := stream_matched.inflates
  have htruncated := inflates_of_defect inflate_truncated nofun
  have haltered := inflates_of_defect inflate_altered nofun
  have hcompressed := (stream_compress [1, 2, 3]).inflates
  obtain ⟨haccepted, -, -⟩ := decompress_exact inflating _ matched hmatched 10
  obtain ⟨-, hshort, -⟩ := decompress_exact inflating _ matched hmatched 9
  obtain ⟨-, hlong, -⟩ := decompress_exact inflating _ matched hmatched 0xFFFFFFFFFFFFFFFF
  obtain ⟨hcut, -, -⟩ := decompress_exact inflating _ (matched.take 10) htruncated 10
  obtain ⟨hother, -, -⟩ := decompress_exact inflating _ (matched.set 10 0) haltered 10
  obtain ⟨-, -, hrestored⟩ := decompress_exact inflating _ (compress [1, 2, 3]) hcompressed 4
  refine ⟨hmatched, stream_matched, ?_, ?_, ?_, htruncated, ?_, haltered, ?_, hcompressed,
    isSound_storing, rfl, ?_⟩
  · exact (haccepted _).mpr ⟨stream_matched, rfl, by decide⟩
  · exact (hshort _ stream_matched).trans (by decide)
  · exact (hlong _ stream_matched).trans (by decide)
  · exact fun hok => not_stream_of_defect inflate_truncated nofun ((hcut _).mp hok).1
  · exact fun hok => not_stream_of_defect inflate_altered nofun ((hother _).mp hok).1
  · exact (hrestored storing isSound_storing _ rfl).trans (by decide)

end Mdf.Deflate
