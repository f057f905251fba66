import Mdf.Proofs.Measurement.Safety
import Mdf.Proofs.Session.Outcome

/-!
# What is read in every storage mode

The files that a session has in two storage modes differ in the block of records, and so in every
offset behind it.  What is read from them does not differ: it is `reread`, which does not depend on
the mode (`ofBytes_file_eq`).
-/

namespace Mdf

open Decode

namespace Session

variable {s : Session} {deflate : Deflate.Compressor} {bytes : List UInt8} {time : TimeAxis}
  {expected : Option Version}

/-- The session in another storage mode. -/
def withStorage (s : Session) (mode : Storage) : Session := { s with storage := mode }

lemma Consistent.withStorage (h : s.Consistent) (mode : Storage) :
    (s.withStorage mode).Consistent :=
  ⟨h.names, h.nodup, h.reserved, h.lengths⟩

/-! ### Reading -/

/-- What is read from the file of a session, as a file of the expected revision if there is one. -/
def reread (s : Session) (time : TimeAxis) (expected : Option Version) :
    Except Error Measurement := do
  Measurement.checkIdentification (Identification.new s.version) expected
  s.reopened time

/-- Another revision than the expected one is refused before anything else is read. -/
lemma ofBytes_file_of_refused {e : Error} (h : s.Consistent) (hb : s.file deflate = .ok bytes)
    (he : Measurement.checkIdentification (Identification.new s.version) expected = .error e) :
    Measurement.ofBytes bytes expected = .error (.error e) := by
  obtain ⟨_, _, _, _, _, -, -, -, -, hw⟩ := written_of_file h hb
  unfold Measurement.ofBytes Measurement.reader
  rw [run_bind_of_ok hw.run_decode]
  exact gives_bind_error (gives_liftM (by rw [he]; rfl)) _

lemma checkIdentification_new_eq_ok
    (h : Measurement.checkIdentification (Identification.new s.version) expected = .ok ()) :
    ∀ v ∈ expected, v = s.version := by
  rintro v ⟨⟩
  by_contra hne
  have hv : (some v).filter (· ≠ (Identification.new s.version).version) = some v :=
    Option.filter_some_pos (decide_eq_true hne)
  rw [Measurement.checkIdentification, hv] at h
  cases h

/-- **What is read from the file of a session**, whatever revision is expected. -/
theorem ofBytes_file_eq (h : s.Consistent) (hi : deflate.Inverts) (hb : s.file deflate = .ok bytes)
    (ht : s.time = some time) (expected : Option Version) :
    Measurement.ofBytes bytes expected =
      (liftM (s.reread time expected) : Except Failure Measurement) := by
  unfold reread
  cases hc : Measurement.checkIdentification (Identification.new s.version) expected with
  | error e => exact ofBytes_file_of_refused h hb hc
  | ok _ =>
    obtain ⟨time', ht', hread⟩ := ofBytes_file h hi hb expected (checkIdentification_new_eq_ok hc)
    cases ht.symm.trans ht'
    rwa [ok_bind]

/-- What is read can be written as a table. -/
lemma csv_reread {m : Measurement} (h : s.Consistent) (ht : s.time = some time)
    (hm : s.reread time expected = .ok m) : ∃ text, m.csv = .ok text := by
  obtain ⟨_, -, hm⟩ := bind_eq_ok_iff.mp hm
  obtain ⟨-, -, rfl⟩ := reopened_eq_ok_iff.mp hm
  refine Measurement.csv_eq_ok fun c hc => ?_
  obtain ⟨d, hd, rfl⟩ := List.mem_map.mp hc
  exact h.length_samples ht d hd

/-! ### Writing -/

/-- In a revision that knows compressed records, a session is written in every mode or refused in
every mode, as long as memory holds its files. -/
lemma file_withStorage_cases (h : s.Consistent) (hd : deflate.Total)
    (hv : s.version.supportsCompression = true) :
    (∃ e, ∀ mode, (s.withStorage mode).file deflate = .error (.error e)) ∨
      ∃ time, s.time = some time ∧ ∀ mode, (s.withStorage mode).InMemory deflate time →
        ∃ bytes, (s.withStorage mode).file deflate = .ok bytes := by
  cases ht : s.time with
  | none => exact .inl ⟨_, fun mode => file_of_no_axis ht⟩
  | some time =>
    have hs : ∀ mode, ¬((s.withStorage mode).storage ≠ .plain ∧
        ¬(s.withStorage mode).version.supportsCompression) := fun mode hs => hs.2 hv
    rcases pack_encodings s.channels (show 8 < Layout.sizeBound by decide) with
      ⟨-, layout, hl, hsize⟩ | ⟨-, hl⟩
    · refine .inr ⟨time, rfl, fun mode hmemory => ?_⟩
      exact (file_of_layout_cases (h.withStorage mode) hd ht (hs mode) hl hsize).1 hmemory
    · exact .inl ⟨_, fun mode => file_of_layout_error ht (hs mode) hl⟩

/-- **The storage mode is not seen by the reader.**  Whatever revision is expected, the files that a
session has in two modes are refused with the same error, or they hold the same measurement, and so
the same table.  Neither mode is refused where the other one is not, if the compressor never fails
and memory holds the files. -/
theorem ofBytes_withStorage (hr : s.Reachable) (hv : s.version = .v410 ∨ s.version = .v411)
    (hi : deflate.Inverts) (mode mode' : Storage) :
    (∀ bytes bytes', (s.withStorage mode).file deflate = .ok bytes →
      (s.withStorage mode').file deflate = .ok bytes' → ∀ expected,
        (∃ e, Measurement.ofBytes bytes expected = .error (.error e) ∧
          Measurement.ofBytes bytes' expected = .error (.error e)) ∨
        ∃ m text, Measurement.ofBytes bytes expected = .ok m ∧
          Measurement.ofBytes bytes' expected = .ok m ∧ m.csv = .ok text) ∧
    (deflate.Total → (∀ time ∈ s.time, (s.withStorage mode).InMemory deflate time ∧
        (s.withStorage mode').InMemory deflate time) →
      (∃ e, (s.withStorage mode).file deflate = .error (.error e) ∧
        (s.withStorage mode').file deflate = .error (.error e)) ∨
      ∃ bytes bytes', (s.withStorage mode).file deflate = .ok bytes ∧
        (s.withStorage mode').file deflate = .ok bytes') := by
  have h := hr.consistent
  refine ⟨fun bytes bytes' hb hb' expected => ?_, fun hd hmemory => ?_⟩
  · obtain ⟨time, _, ht, -⟩ := file_eq_ok hb
    have hread := ofBytes_file_eq (h.withStorage mode) hi hb ht expected
    have hread' := ofBytes_file_eq (h.withStorage mode') hi hb' ht expected
    have hsame : (s.withStorage mode').reread time expected =
        (s.withStorage mode).reread time expected := rfl
    rw [hsame] at hread'
    cases hm : (s.withStorage mode).reread time expected with
    | error e =>
      rw [hm] at hread hread'
      exact .inl ⟨e, hread, hread'⟩
    | ok m =>
      obtain ⟨text, hcsv⟩ := csv_reread (h.withStorage mode) ht hm
      rw [hm] at hread hread'
      exact .inr ⟨m, text, hread, hread', hcsv⟩
  · have hsupports : s.version.supportsCompression = true := by
      rcases hv with hv | hv <;> rw [hv] <;> rfl
    rcases file_withStorage_cases h hd hsupports with ⟨e, he⟩ | ⟨time, ht, hok⟩
    · exact .inl ⟨e, he mode, he mode'⟩
    · obtain ⟨hmemory, hmemory'⟩ := hmemory time ht
      obtain ⟨bytes, hb⟩ := hok mode hmemory
      obtain ⟨bytes', hb'⟩ := hok mode' hmemory'
      exact .inr ⟨bytes, bytes', hb, hb'⟩

lemma inMemory_floats_plain : (floats.withStorage .plain).InMemory Deflate.storing floatTime := by
  refine ⟨by decide, fun b hb => ?_⟩
  cases hb
  decide +kernel

theorem ofBytes_withStorage_floats :
    ∃ bytes bytes' m text, (floats.withStorage .plain).file Deflate.storing = .ok bytes ∧
      (floats.withStorage .transposed).file Deflate.storing = .ok bytes' ∧
      Measurement.ofBytes bytes none = .ok m ∧ Measurement.ofBytes bytes' none = .ok m ∧
      m.csv = .ok text := by
  have hr : floats.Reachable := ⟨.v410, floatOperations, rfl⟩
  obtain ⟨hread, hwrite⟩ :=
    ofBytes_withStorage hr (.inl rfl) Deflate.inverts_storing .plain .transposed
  have hmemory : ∀ time ∈ floats.time,
      (floats.withStorage .plain).InMemory Deflate.storing time ∧
        (floats.withStorage .transposed).InMemory Deflate.storing time := by
    rintro _ ⟨⟩
    exact ⟨inMemory_floats_plain, inMemory_floats⟩
  obtain ⟨packed, hpacked⟩ : ∃ bytes, (floats.withStorage .transposed).file Deflate.storing =
    .ok bytes := exists_file_floats
  rcases hwrite Deflate.total_storing hmemory with ⟨e, -, he⟩ | ⟨bytes, bytes', hb, hb'⟩
  · cases he.symm.trans hpacked
  obtain ⟨m, hm⟩ := (opens_iff (hr.consistent.withStorage .plain) Deflate.inverts_storing hb).mpr
    ⟨by decide, by decide⟩
  rcases hread bytes bytes' hb hb' none with ⟨e, he, -⟩ | ⟨m, text, hm, hm', hcsv⟩
  · cases he.symm.trans hm
  · exact ⟨bytes, bytes', m, text, hb, hb', hm, hm', hcsv⟩

end Session

end Mdf
