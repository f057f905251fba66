import Mdf.Proofs.Export.Table
import Mdf.Proofs.FileSystem.Directories
import Mdf.Proofs.FileSystem.Save
import Mdf.Proofs.Session.Fixture
import Mdf.Proofs.Session.Outcome

/-!
# Runs of the pipeline

A successful run makes the root, stores the measurement file and stores the table of what is read
from it (`Steps`).  The two files and their two temporary files have four locations, which differ as
the paths end differently.  So both files stay as they were stored, and a second run, which finds the
root and the same directories, stores the same again (`finished_of_run`).
-/

namespace Mdf.Pipeline

open FileAction Output Mdf.Tree

/-! ### The session of the fixture -/

/-- The session of a run, with the fixture. -/
def Config.filled (c : Config) : Session := (c.session.append .primitives).2

/-- The new session of a run takes all channels of the fixture. -/
lemma append_primitives_eq (c : Config) :
    c.session.append .primitives = (.ok (), c.session.holding .primitives) := by
  have hfresh : c.session.Fresh := ⟨rfl, rfl, rfl⟩
  exact hfresh.append_eq (.sequential (by decide)) (by decide)

lemma append_primitives (c : Config) : c.session.append .primitives = (.ok (), c.filled) := by
  rw [Config.filled, append_primitives_eq]

lemma filled_eq (c : Config) : c.filled = c.session.holding .primitives := by
  rw [Config.filled, append_primitives_eq]

lemma reachable_filled (c : Config) : c.filled.Reachable :=
  ⟨c.version, [.setStorage c.storage, .setStartTime c.startTime, .append .primitives], rfl⟩

/-! ### Where the outputs go -/

/-- The paths of the outputs and of their temporary files. -/
def Config.files (c : Config) : List Path :=
  [c.binaryPath, temporary c.binaryPath, c.csvPath, temporary c.csvPath]

variable {c : Config} {deflate : Deflate.Compressor} {t t' t₁ t₂ : Tree} {l : Location}

/-- An output path ends with its extension. -/
lemma exists_outputPath_eq (c : Config) (ext : String) :
    ∃ p : Path, c.outputPath ext = p.withSuffix ("." ++ ext) := by
  unfold Config.outputPath Path.join Path.withSuffix
  split
  · exact ⟨⟨c.baseName⟩, by rw [String.append_assoc]⟩
  split
  · exact ⟨⟨c.root.text ++ c.baseName⟩, by rw [String.append_assoc, String.append_assoc]⟩
  · exact ⟨⟨c.root.text ++ "/" ++ c.baseName⟩, by simp only [String.append_assoc]⟩

lemma ending?_outputPath {ext : String} (hslash : '/' ∉ ("." ++ ext).toList)
    (hlong : 2 < ("." ++ ext).length) (h : t.location? (c.outputPath ext) = some l) :
    ending? l = ("." ++ ext).toList.getLast? := by
  obtain ⟨p, hp⟩ := exists_outputPath_eq c ext
  rw [hp] at h
  exact ending?_of_location?_withSuffix hslash hlong h

lemma ending?_binaryPath (h : t.location? c.binaryPath = some l) : ending? l = some '4' :=
  (ending?_outputPath (by decide) (by decide) h).trans (by decide)

lemma ending?_csvPath (h : t.location? c.csvPath = some l) : ending? l = some 'v' :=
  (ending?_outputPath (by decide) (by decide) h).trans (by decide)

lemma ending?_temporary {p : Path} (h : t.location? (temporary p) = some l) :
    ending? l = some 'p' :=
  (ending?_of_location?_withSuffix (by decide) (by decide) h).trans (by decide)

/-! ### The actions on a tree -/

/-- What a run gives on a tree, and the tree afterwards. -/
def onTree {α : Type} (x : ExceptT StageFailure (StateM Tree) α) (t : Tree) :
    Except StageFailure α × Tree := (ExceptT.run x).run t

lemma onTree_inStage_bind {α β : Type} (stage : Stage) (x : FileAction (StateM Tree) α)
    (f : α → ExceptT StageFailure (StateM Tree) β) : onTree (inStage stage x >>= f) t =
      match x.onTree t with
      | (.ok a, t₁) => onTree (f a) t₁
      | (.error e, t₁) => (.error ⟨stage, e⟩, t₁) := by
  have hstage : (ExceptT.run (inStage stage x)) t =
      (Except.mapError (fun cause => ⟨stage, cause⟩) (x.onTree t).1, (x.onTree t).2) := rfl
  simp only [onTree, ExceptT.run_bind, StateT.run_bind]
  change ((ExceptT.run (inStage stage x)) t >>= _) = _
  rw [hstage]
  cases x.onTree t with
  | mk r t₁ => cases r <;> rfl

lemma onTree_run_eq_ok_iff {paths : Path × Path} :
    onTree (run deflate c) t = (.ok paths, t') ↔ paths = (c.binaryPath, c.csvPath) ∧
      ∃ t₂, (writeStage deflate c : FileAction (StateM Tree) Unit).onTree t = (.ok (), t₂) ∧
        (Measurement.exportFile c.binaryPath c.version .csv c.csvPath true :
          FileAction (StateM Tree) Unit).onTree t₂ = (.ok (), t') := by
  unfold run
  rw [onTree_inStage_bind]
  constructor
  · intro h
    split at h
    · rename_i t₂ hwrite
      rw [onTree_inStage_bind] at h
      split at h
      · rename_i t₃ hexport
        cases h
        exact ⟨rfl, t₂, hwrite, hexport⟩
      · cases h
    · cases h
  · rintro ⟨rfl, t₂, hwrite, hexport⟩
    rw [hwrite]
    dsimp only
    rw [onTree_inStage_bind, hexport]
    rfl

lemma onTree_writeStage_eq_ok_iff :
    (writeStage deflate c : FileAction (StateM Tree) Unit).onTree t = (.ok (), t₂) ↔
      ∃ t₁, (FileSystem.makeDirectories c.root : StateM Tree (Except FileError Unit)) t =
          (.ok (), t₁) ∧
        (c.filled.save deflate c.binaryPath true : FileAction (StateM Tree) Unit).onTree t₁ =
          (.ok (), t₂) := by
  unfold writeStage
  rw [append_primitives, onTree_bind_eq_ok_iff]
  constructor
  · rintro ⟨_, t₁, hroot, hsave⟩
    exact ⟨t₁, onTree_ofFile_eq_ok_iff.mp hroot, hsave⟩
  · rintro ⟨t₁, hroot, hsave⟩
    exact ⟨(), t₁, onTree_ofFile_eq_ok_iff.mpr hroot, hsave⟩

/-! ### The steps of a run -/

/-- What a run writes: the file of the session with the fixture, and the table of what is read from
it. -/
structure Produces (deflate : Deflate.Compressor) (c : Config) (bytes table : List UInt8) : Prop where
  file : c.filled.file deflate = .ok bytes
  csv : ∃ m text, Measurement.ofBytes bytes (some c.version) = .ok m ∧ m.csv = .ok text ∧
    table = Utf8.encode text

/-- The steps of a successful run, with the trees and the locations. -/
structure Steps (deflate : Deflate.Compressor) (c : Config) (t t₁ t₂ t' : Tree)
    (bytes table : List UInt8) (b b' v v' : Location) : Prop where
  root : (FileSystem.makeDirectories c.root : StateM Tree (Except FileError Unit)) t = (.ok (), t₁)
  produces : Produces deflate c bytes table
  binary : Stored t₁ t₂ c.binaryPath bytes b b'
  csv : Stored t₂ t' c.csvPath table v v'

section

variable {bytes table : List UInt8} {b b' v v' : Location}

/-- A file of the session can be read again, and has a table. -/
lemma exists_produces (hi : deflate.Inverts) (hb : c.filled.file deflate = .ok bytes) :
    ∃ table, Produces deflate c bytes table := by
  have hconsistent := (reachable_filled c).consistent
  have hversion : c.filled.version = c.version := by
    rw [filled_eq]
    rfl
  have hcomment : c.filled.comment = Session.defaultComment := by
    rw [filled_eq]
    rfl
  have hchannels : c.filled.channels = FixtureSet.primitives.channels := by
    rw [filled_eq]
    rfl
  obtain ⟨time, -, hread⟩ := Session.ofBytes_file hconsistent hi hb (some c.version)
    (by simp [hversion])
  have hnames : ∀ d ∈ FixtureSet.primitives.channels, Utf8.NulFree d.name := by decide
  rw [Session.reopened_of_nulFree hconsistent (hcomment ▸ by decide) (hchannels ▸ hnames)] at hread
  obtain ⟨text, hcsv⟩ := Measurement.csv_eq_ok (Measurement.rectangular_of_ofBytes hread)
  exact ⟨Utf8.encode text, hb, _, text, hread, hcsv, rfl⟩

/-- The table is made from what is read from a stored measurement file. -/
lemma exported_eq_ok_iff {p : Path} {version : Version} (h : t.read p = .ok bytes) :
    Measurement.exported t p version .csv = .ok table ↔
      ∃ m text, Measurement.ofBytes bytes (some version) = .ok m ∧ m.csv = .ok text ∧
        table = Utf8.encode text := by
  have hopened : Measurement.opened t p version = Measurement.ofBytes bytes (some version) := by
    rw [Measurement.opened, h]
  unfold Measurement.exported
  rw [hopened, bind_eq_ok_iff]
  constructor
  · rintro ⟨m, hm, hexport⟩
    obtain ⟨text, htext, hpure⟩ := bind_eq_ok_iff.mp hexport
    cases hpure
    exact ⟨m, text, hm, liftM_error_eq_ok_iff.mp htext, rfl⟩
  · rintro ⟨m, text, hm, htext, rfl⟩
    exact ⟨m, hm, bind_eq_ok_iff.mpr ⟨text, liftM_error_eq_ok_iff.mpr htext, rfl⟩⟩

/-- A successful run takes these steps. -/
lemma exists_steps {paths : Path × Path} (h : onTree (run deflate c) t = (.ok paths, t')) :
    paths = (c.binaryPath, c.csvPath) ∧
      ∃ t₁ t₂ bytes table b b' v v', Steps deflate c t t₁ t₂ t' bytes table b b' v v' := by
  obtain ⟨hpaths, t₂, hwrite, hexport⟩ := onTree_run_eq_ok_iff.mp h
  obtain ⟨t₁, hroot, hsave⟩ := onTree_writeStage_eq_ok_iff.mp hwrite
  obtain ⟨bytes, b, b', hfile, hb⟩ := (outcome_save .reliable deflate c.filled t₁).stored (by rw [hsave])
  obtain ⟨table, v, v', htable, hv⟩ :=
    (outcome_exportFile .reliable c.binaryPath c.version .csv t₂).stored (by rw [hexport])
  rw [hsave] at hb
  rw [hexport] at hv
  have hcsv := (exported_eq_ok_iff hb.read_target).mp htable
  exact ⟨hpaths, t₁, t₂, bytes, table, b, b', v, v', hroot, ⟨hfile, hcsv⟩, hb, hv⟩

/-- A run takes these steps where the root can be made, there is something to write, and all four
files can be made. -/
lemma exists_run
    (hroot : (FileSystem.makeDirectories c.root : StateM Tree (Except FileError Unit)) t =
      (.ok (), t₁))
    (hp : Produces deflate c bytes table) (hb : t₁.fileLocation c.binaryPath = .ok b)
    (hb' : t₁.fileLocation (temporary c.binaryPath) = .ok b')
    (hv : t₁.fileLocation c.csvPath = .ok v)
    (hv' : t₁.fileLocation (temporary c.csvPath) = .ok v') :
    ∃ t₂ t', onTree (run deflate c) t = (.ok (c.binaryPath, c.csvPath), t') ∧
      Steps deflate c t t₁ t₂ t' bytes table b b' v v' := by
  obtain ⟨t₂, hsave, hbinary⟩ :=
    (outcome_save .reliable deflate c.filled t₁).exists_stored hp.file rfl hb hb'
  have hsame := hbinary.sameDirectories
  obtain ⟨t', hexport, hcsv⟩ :=
    (outcome_exportFile .reliable c.binaryPath c.version .csv t₂).exists_stored
      ((exported_eq_ok_iff hbinary.read_target).mpr hp.csv) rfl
      (hsame.fileLocation_eq_ok_iff.mpr hv) (hsame.fileLocation_eq_ok_iff.mpr hv')
  have hwrite := onTree_writeStage_eq_ok_iff.mpr ⟨t₁, hroot, hsave⟩
  exact ⟨t₂, t', onTree_run_eq_ok_iff.mpr ⟨rfl, t₂, hwrite, hexport⟩, hroot, hp, hbinary, hcsv⟩

namespace Steps

variable (h : Steps deflate c t t₁ t₂ t' bytes table b b' v v')

include h

lemma sameDirectories : t₁.SameDirectories t' :=
  h.binary.sameDirectories.trans h.csv.sameDirectories

/-- Neither output is where the other one or its temporary file is. -/
lemma distinct : b ≠ v ∧ b ≠ v' ∧ b' ≠ v := by
  have hb := ending?_binaryPath (fileLocation_eq_ok_iff.mp h.binary.target).1
  have hb' := ending?_temporary (fileLocation_eq_ok_iff.mp h.binary.created).1
  have hv := ending?_csvPath (fileLocation_eq_ok_iff.mp h.csv.target).1
  have hv' := ending?_temporary (fileLocation_eq_ok_iff.mp h.csv.created).1
  refine ⟨?_, ?_, ?_⟩
  · rintro rfl
    cases hb.symm.trans hv
  · rintro rfl
    cases hb.symm.trans hv'
  · rintro rfl
    cases hb'.symm.trans hv

lemma entry?_binary : t'.entry? b = some (.file bytes) := by
  obtain ⟨hv, hv', -⟩ := h.distinct
  rw [h.csv.entry?_of_ne hv hv', h.binary.entry?_target]

lemma entry?_temporary_binary : t'.entry? b' = none := by
  obtain ⟨-, -, hv⟩ := h.distinct
  by_cases hv' : b' = v'
  · rw [hv', h.csv.entry?_temporary]
  · rw [h.csv.entry?_of_ne hv hv', h.binary.entry?_temporary]

lemma entry?_of_ne {k : Location} (hb : k ≠ b) (hb' : k ≠ b') (hv : k ≠ v) (hv' : k ≠ v') :
    t'.entry? k = t₁.entry? k := by
  rw [h.csv.entry?_of_ne hv hv', h.binary.entry?_of_ne hb hb']

/-- The files still have the locations at which they were stored. -/
lemma location?_files : t'.location? c.binaryPath = some b ∧
    t'.location? (temporary c.binaryPath) = some b' ∧ t'.location? c.csvPath = some v ∧
    t'.location? (temporary c.csvPath) = some v' := by
  rw [h.sameDirectories.location?_eq, h.sameDirectories.location?_eq,
    h.csv.sameDirectories.location?_eq, h.csv.sameDirectories.location?_eq]
  exact ⟨(fileLocation_eq_ok_iff.mp h.binary.target).1,
    (fileLocation_eq_ok_iff.mp h.binary.created).1, (fileLocation_eq_ok_iff.mp h.csv.target).1,
    (fileLocation_eq_ok_iff.mp h.csv.created).1⟩

lemma get?_binaryPath : t'.get? c.binaryPath = some (.file bytes) := by
  obtain ⟨-, -, hslash⟩ := fileLocation_eq_ok_iff.mp h.binary.target
  exact get?_eq_some_iff.mpr ⟨b, h.location?_files.1, h.entry?_binary, .inr hslash⟩

/-- A location to which no path of the run leads is as before, or it is a new directory on the way to
the root. -/
lemma entry?_others {k : Location} (hk : ∀ p ∈ c.files, t'.location? p ≠ some k) :
    t'.entry? k = t.entry? k ∨
      t.entry? k = none ∧ t'.entry? k = some .directory ∧ t'.OnTheWay c.root k := by
  obtain ⟨hb, hb', hv, hv'⟩ := h.location?_files
  have hne : ∀ p ∈ c.files, ∀ l, t'.location? p = some l → k ≠ l := by
    rintro p hp l hl rfl
    exact hk p hp hl
  rw [h.entry?_of_ne (hne _ (by simp [Config.files]) b hb)
    (hne _ (by simp [Config.files]) b' hb') (hne _ (by simp [Config.files]) v hv)
    (hne _ (by simp [Config.files]) v' hv')]
  have hprepares := prepares_makeDirectories t c.root
  rw [h.root] at hprepares
  rcases hprepares k with heq | ⟨hnone, hdir, hway⟩
  · exact .inl heq
  · exact .inr ⟨hnone, hdir, hway.of_keepsDirectories h.sameDirectories.keepsDirectories⟩

/-- A second run stores the same again. -/
lemma again : ∃ t'', onTree (run deflate c) t' = (.ok (c.binaryPath, c.csvPath), t'') ∧
    ∀ k, t''.entry? k = t'.entry? k := by
  have hsame := h.sameDirectories
  have hdirectory : c.root.text = "" ∨ t'.get? c.root = some .directory :=
    (get?_of_makeDirectories h.root).imp_right hsame.get?_eq_directory_iff.mpr
  have hcsv := h.csv.sameDirectories
  obtain ⟨t₃, t'', hrun, hagain⟩ := exists_run (makeDirectories_of_get? hdirectory) h.produces
    (hsame.fileLocation_eq_ok_iff.mpr h.binary.target)
    (hsame.fileLocation_eq_ok_iff.mpr h.binary.created)
    (hcsv.fileLocation_eq_ok_iff.mpr h.csv.target) (hcsv.fileLocation_eq_ok_iff.mpr h.csv.created)
  refine ⟨t'', hrun, fun k => ?_⟩
  by_cases hv : k = v
  · rw [hv, hagain.csv.entry?_target, h.csv.entry?_target]
  by_cases hv' : k = v'
  · rw [hv', hagain.csv.entry?_temporary, h.csv.entry?_temporary]
  by_cases hb : k = b
  · rw [hb, hagain.entry?_binary, h.entry?_binary]
  by_cases hb' : k = b'
  · rw [hb', hagain.entry?_temporary_binary, h.entry?_temporary_binary]
  · exact hagain.entry?_of_ne hb hb' hv hv'

end Steps

end

/-! ### What a run leaves -/

/-- What a successful run leaves on a tree. -/
structure Finished (deflate : Deflate.Compressor) (c : Config) (t : Tree) (paths : Path × Path)
    (t' : Tree) : Prop where
  paths_eq : paths = (c.binaryPath, c.csvPath)
  taken : c.session.append .primitives = (.ok (), c.filled)
  outputs : ∃ bytes table, Produces deflate c bytes table ∧
    t'.get? c.binaryPath = some (.file bytes) ∧ t'.get? c.csvPath = some (.file table)
  temporaries : t'.get? (temporary c.binaryPath) = none ∧ t'.get? (temporary c.csvPath) = none
  /-- All else is as it was, but for new directories on the way to the root. -/
  others : ∀ k, (∀ p ∈ c.files, t'.location? p ≠ some k) →
    t'.entry? k = t.entry? k ∨
      t.entry? k = none ∧ t'.entry? k = some .directory ∧ t'.OnTheWay c.root k
  /-- A second run gives the same paths and leaves everything as it is. -/
  again : ∃ t'', onTree (run deflate c) t' = (.ok paths, t'') ∧
    (∀ k, t''.entry? k = t'.entry? k) ∧ ∀ p, t''.get? p = t'.get? p

/-- **A successful run writes its two outputs and nothing else, and a second run changes nothing.**
The measurement file is that of the session with the fixture, and the table is that of what is read
from it, whatever stood at their paths before. -/
theorem finished_of_run {paths : Path × Path}
    (h : onTree (run deflate c) t = (.ok paths, t')) : Finished deflate c t paths t' := by
  obtain ⟨rfl, t₁, t₂, bytes, table, b, b', v, v', hsteps⟩ := exists_steps h
  obtain ⟨t'', hrun, hkept⟩ := hsteps.again
  obtain ⟨-, hb', -, -⟩ := hsteps.location?_files
  exact {
    paths_eq := rfl
    taken := append_primitives c
    outputs := ⟨bytes, table, hsteps.produces, hsteps.get?_binaryPath, hsteps.csv.get?_target⟩
    temporaries := ⟨get?_eq_none hb' hsteps.entry?_temporary_binary, hsteps.csv.get?_temporary⟩
    others := fun k => hsteps.entry?_others
    again := ⟨t'', hrun, hkept, get?_congr hkept⟩ }

/-- An old table, a temporary file that was left, and a file of no run. -/
def cluttered : Tree :=
  ⟨[(["out"], .directory), (["out", "primitives.csv"], .file [1]),
    (["out", "primitives.mf4.tmp"], .file [2]), (["notes"], .file [3])]⟩

/-- The outputs are beside the root, which is still to be made. -/
def detour : Config := { Config.default with root := ⟨"out/new"⟩, baseName := "../primitives" }

lemma exists_file_detour : ∃ bytes, detour.filled.file Deflate.storing = .ok bytes := by
  have hmemory : detour.filled.InMemory Deflate.storing FixtureSet.primitives.time := by
    refine ⟨by decide, fun b hb => ?_⟩
    cases hb
    decide +kernel
  exact Session.exists_file (reachable_filled detour).consistent Deflate.total_storing rfl
    (by decide) (by decide) hmemory

/-- A run on the cluttered tree, and a second one. -/
theorem finished_of_run_cluttered : ∃ t' t'' bytes table,
    onTree (run Deflate.storing detour) cluttered =
      (.ok (⟨"out/new/../primitives.mf4"⟩, ⟨"out/new/../primitives.csv"⟩), t') ∧
    Produces Deflate.storing detour bytes table ∧
    t'.get? ⟨"out/new/../primitives.mf4"⟩ = some (.file bytes) ∧
    t'.get? ⟨"out/new/../primitives.csv"⟩ = some (.file table) ∧
    t'.get? ⟨"out/new/../primitives.mf4.tmp"⟩ = none ∧
    t'.entry? ["notes"] = some (.file [3]) ∧
    onTree (run Deflate.storing detour) t' =
      (.ok (⟨"out/new/../primitives.mf4"⟩, ⟨"out/new/../primitives.csv"⟩), t'') ∧
    ∀ p, t''.get? p = t'.get? p := by
  have hroot : (FileSystem.makeDirectories detour.root : StateM Tree (Except FileError Unit))
      cluttered = (.ok (), cluttered.insert ["out", "new"] .directory) :=
    makeDirectories_of_missing (by decide +kernel) (by decide +kernel)
  have hb : (cluttered.insert ["out", "new"] .directory).fileLocation detour.binaryPath =
      .ok ["out", "primitives.mf4"] := fileLocation_eq_ok_iff.mpr (by decide +kernel)
  have hb' : (cluttered.insert ["out", "new"] .directory).fileLocation
      (temporary detour.binaryPath) = .ok ["out", "primitives.mf4.tmp"] :=
    fileLocation_eq_ok_iff.mpr (by decide +kernel)
  have hv : (cluttered.insert ["out", "new"] .directory).fileLocation detour.csvPath =
      .ok ["out", "primitives.csv"] := fileLocation_eq_ok_iff.mpr (by decide +kernel)
  have hv' : (cluttered.insert ["out", "new"] .directory).fileLocation
      (temporary detour.csvPath) = .ok ["out", "primitives.csv.tmp"] :=
    fileLocation_eq_ok_iff.mpr (by decide +kernel)
  obtain ⟨bytes, hfile⟩ := exists_file_detour
  obtain ⟨table, hproduces⟩ := exists_produces Deflate.inverts_storing hfile
  obtain ⟨-, t', hrun, -⟩ := exists_run hroot hproduces hb hb' hv hv'
  obtain ⟨-, -, ⟨bytes, table, hproduced, hbinary, hcsv⟩, ⟨htmp, -⟩, hothers, t'', hagain, -,
    hkept⟩ := finished_of_run hrun
  have hnotes : ∀ p ∈ detour.files, t'.location? p ≠ some ["notes"] := by
    intro p hp hl
    simp only [Config.files, List.mem_cons, List.not_mem_nil, or_false] at hp
    rcases hp with rfl | rfl | rfl | rfl
    · exact absurd (ending?_binaryPath hl) (by decide)
    · exact absurd (ending?_temporary hl) (by decide)
    · exact absurd (ending?_csvPath hl) (by decide)
    · exact absurd (ending?_temporary hl) (by decide)
  have hkeeps : t'.entry? ["notes"] = some (.file [3]) := by
    rcases hothers ["notes"] hnotes with heq | ⟨hnone, -⟩
    · exact heq
    · cases hnone
  exact ⟨t', t'', bytes, table, hrun, hproduced, hbinary, hcsv, htmp, hkeeps, hagain, hkept⟩

end Mdf.Pipeline
