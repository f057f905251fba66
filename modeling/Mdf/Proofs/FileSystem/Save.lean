import Mdf.Pipeline
import Mdf.Proofs.FileSystem.Output
import Mdf.Proofs.Session.RoundTrip

/-!
# Saving and exporting

Saving a session and exporting a measurement write one target each, and so does `Output.write` with
any content (`Writes`).  On any medium the target is left either complete or as it was; the temporary
file of a failed attempt stays exactly if it could not be moved (`settled_of_writes`).
-/

namespace Mdf

open FileAction Output

namespace Measurement

/-- What is read from a measurement file in a tree. -/
def opened (t : Tree) (source : Path) (version : Version) : Except Failure Measurement :=
  match t.read source with
  | .error e => .error (.error (.file (context "read" source e)))
  | .ok bytes => ofBytes bytes (some version)

/-- What is exported from a measurement file in a tree. -/
def exported (t : Tree) (source : Path) (version : Version) (format : ExportFormat) :
    Except Failure (List UInt8) := do
  let measurement ← opened t source version
  measurement.export? format

end Measurement

namespace Output

variable {medium : Medium} {p : Path} {overwrite : Bool}

/-- The actions that write a target on a medium, and what they write on each tree. -/
inductive Writes (medium : Medium) (p : Path) (overwrite : Bool) :
    FileAction (StateM Tree) Unit → (Tree → Except Failure (List UInt8)) → Prop
  /-- The bytes of a producer, which may fail. -/
  | write (content : Except Failure (List UInt8)) (wording : FileError → String) :
      Writes medium p overwrite
        (@Output.write (StateM Tree) _ (Tree.fileSystem medium) p overwrite content wording)
        fun _ => content
  | save (deflate : Deflate.Compressor) (s : Session) :
      Writes medium p overwrite
        (@Session.save (StateM Tree) _ (Tree.fileSystem medium) deflate s p overwrite)
        fun _ => s.file deflate
  | exportFile (source : Path) (version : Version) (format : ExportFormat) :
      Writes medium p overwrite
        (@Measurement.exportFile (StateM Tree) _ (Tree.fileSystem medium) source version format p
          overwrite)
        fun t => Measurement.exported t source version format

lemma outcome_save (medium : Medium) (deflate : Deflate.Compressor) (s : Session) (t : Tree) :
    Outcome medium t p overwrite (s.file deflate)
      ((@Session.save (StateM Tree) _ (Tree.fileSystem medium) deflate s p overwrite).onTree t) := by
  unfold Session.save
  by_cases ha : Refused t p overwrite
  · rw [onTree_bind_of_error (onTree_checkTarget_of_refused ha)]
    exact .refused ha
  rw [onTree_bind_of_ok (onTree_checkTarget ha)]
  cases hb : s.file deflate with
  | error f =>
    rw [onTree_bind_of_error (onTree_ofExcept _)]
    exact .failed rfl
  | ok bytes =>
    rw [onTree_bind_of_ok (onTree_ofExcept _)]
    exact outcome_write medium t p overwrite (.ok bytes) _

lemma onTree_open? (medium : Medium) (t : Tree) (source : Path) (version : Version) :
    (@Measurement.open? (StateM Tree) _ (Tree.fileSystem medium) source (some version)).onTree t =
      (Measurement.opened t source version, t) := by
  have hread : @FileSystem.read (StateM Tree) (Tree.fileSystem medium) source t =
      (t.read source, t) := rfl
  unfold Measurement.open? Measurement.opened
  cases hs : t.read source with
  | error e =>
    rw [hs] at hread
    rw [onTree_bind_of_error (onTree_ofFile_of_error hread)]
  | ok bytes =>
    rw [hs] at hread
    rw [onTree_bind_of_ok (onTree_ofFile_of_ok hread), onTree_ofExcept]

lemma outcome_exportFile (medium : Medium) (source : Path) (version : Version)
    (format : ExportFormat) (t : Tree) :
    Outcome medium t p overwrite (Measurement.exported t source version format)
      ((@Measurement.exportFile (StateM Tree) _ (Tree.fileSystem medium) source version format p
        overwrite).onTree t) := by
  have hopen := onTree_open? medium t source version
  unfold Measurement.exportFile Measurement.exported
  by_cases ha : Refused t p overwrite
  · rw [onTree_bind_of_error (onTree_checkTarget_of_refused ha)]
    exact .refused ha
  rw [onTree_bind_of_ok (onTree_checkTarget ha)]
  cases hm : Measurement.opened t source version with
  | error f =>
    rw [hm] at hopen
    rw [onTree_bind_of_error hopen]
    exact .failed rfl
  | ok measurement =>
    rw [hm] at hopen
    rw [onTree_bind_of_ok hopen]
    exact outcome_write medium t p overwrite (measurement.export? format) _

/-- Without a measurement there is no target to write. -/
lemma onTree_exportFile_of_error {source : Path} {version : Version} {format : ExportFormat}
    {t : Tree} {f : Failure} (h : Measurement.opened t source version = .error f) :
    (Measurement.exportFile source version format p true :
      FileAction (StateM Tree) Unit).onTree t = (.error f, t) := by
  have hopen := onTree_open? .reliable t source version
  rw [h] at hopen
  have haccepted : ¬Refused t p true := fun hrefused => by cases hrefused.1
  unfold Measurement.exportFile
  rw [onTree_bind_of_ok (onTree_checkTarget haccepted), onTree_bind_of_error hopen]

lemma outcome_of_writes {action : FileAction (StateM Tree) Unit}
    {content : Tree → Except Failure (List UInt8)} (h : Writes medium p overwrite action content)
    (t : Tree) : Outcome medium t p overwrite (content t) (action.onTree t) := by
  cases h with
  | write content wording => exact outcome_write medium t p overwrite content wording
  | save deflate s => exact outcome_save medium deflate s t
  | exportFile source version format => exact outcome_exportFile medium source version format t

/-- **A target is written as a whole or left as it was**, on any medium.  On success it holds the
content and the temporary file is gone.  On a failure it is as before, and so is everything else: the
temporary file is removed where there is no content or the medium does not take it as a whole, and
stays only if it could not be moved, which is so exactly if the target is a directory or has no
name. -/
theorem settled_of_writes {action : FileAction (StateM Tree) Unit}
    {content : Tree → Except Failure (List UInt8)} (h : Writes medium p overwrite action content)
    (t : Tree) : Settled medium t p overwrite (content t) (action.onTree t) :=
  (outcome_of_writes h t).settled

/-- A session of one channel. -/
def single : Session := ((Session.new .v410).run [.appendChannel ⟨[⟨0⟩]⟩ ⟨"a", ⟨.uint8, [1]⟩⟩]).2

lemma exists_file_single : ∃ bytes, single.file Deflate.storing = .ok bytes :=
  exists_eq_ok_of_isOk (by decide +kernel)

/-- In an empty tree the session is saved; where the medium has no room for it, neither the target
nor the temporary file is left. -/
theorem settled_of_writes_single :
    ∃ bytes, single.file Deflate.storing = .ok bytes ∧
      (∃ t, (single.save Deflate.storing ⟨"out.mf4"⟩ false : FileAction (StateM Tree) Unit).onTree
          Tree.empty = (.ok (), t) ∧
        t.get? ⟨"out.mf4"⟩ = some (.file bytes) ∧ t.get? ⟨"out.mf4.tmp"⟩ = none) ∧
      ∀ s : Shortage, ∃ f t, (@Session.save (StateM Tree) _ (Tree.fileSystem fun _ _ => some s)
          Deflate.storing single ⟨"out.mf4"⟩ false).onTree Tree.empty = (.error f, t) ∧
        t.get? ⟨"out.mf4"⟩ = none ∧ t.get? ⟨"out.mf4.tmp"⟩ = none := by
  have hs : ∀ medium, Settled medium Tree.empty ⟨"out.mf4"⟩ false (single.file Deflate.storing)
      ((@Session.save (StateM Tree) _ (Tree.fileSystem medium) Deflate.storing single ⟨"out.mf4"⟩
        false).onTree Tree.empty) := fun medium =>
    settled_of_writes (.save Deflate.storing single) Tree.empty
  have hnone : Tree.empty.get? ⟨"out.mf4"⟩ = none :=
    Tree.get?_eq_none (l := ["out.mf4"]) (by decide +kernel) rfl
  have hnone' : Tree.empty.get? ⟨"out.mf4.tmp"⟩ = none :=
    Tree.get?_eq_none (l := ["out.mf4.tmp"]) (by decide +kernel) rfl
  have haccepted : ¬Refused Tree.empty ⟨"out.mf4"⟩ false := fun h => h.2 hnone
  have htmp : Tree.empty.fileLocation ⟨"out.mf4.tmp"⟩ = .ok ["out.mf4.tmp"] :=
    Tree.fileLocation_eq_ok_iff.mpr (by decide +kernel)
  have htarget : Tree.empty.fileLocation ⟨"out.mf4"⟩ = .ok ["out.mf4"] :=
    Tree.fileLocation_eq_ok_iff.mpr (by decide +kernel)
  obtain ⟨bytes, hb⟩ := exists_file_single
  refine ⟨bytes, hb, ?_, fun s => ?_⟩
  · have hsettled := hs .reliable
    have hok := hsettled.succeeds.mpr ⟨haccepted, ⟨bytes, hb, rfl⟩, ⟨_, htmp⟩, _, htarget⟩
    obtain ⟨bytes', hb', hget, hgone⟩ := hsettled.written hok
    cases hb.symm.trans hb'
    exact ⟨_, Prod.ext hok rfl, hget, hgone⟩
  · have hsettled := hs fun _ _ => some s
    generalize FileAction.onTree _ Tree.empty = r at hsettled ⊢
    have hcomplete : ¬Complete (fun _ _ => some s) ⟨"out.mf4"⟩ (single.file Deflate.storing) :=
      not_complete_of_some hb rfl
    obtain ⟨result, t⟩ := r
    cases result with
    | ok => exact absurd (hsettled.succeeds.mp rfl).2.1 hcomplete
    | error f =>
      refine ⟨f, t, rfl, (hsettled.kept f rfl).trans hnone, ?_⟩
      by_contra hleft
      exact hcomplete ((hsettled.left f rfl hnone').mp hleft).complete

/-- A tree in which the target is a directory. -/
def occupied : Tree := ⟨[(["out.mf4"], .directory)]⟩

/-- Saving onto a directory fails, and leaves a temporary file that was not there before. -/
theorem leaves_occupied : occupied.get? ⟨"out.mf4.tmp"⟩ = none ∧
    ∃ f t bytes, (single.save Deflate.storing ⟨"out.mf4"⟩ true :
        FileAction (StateM Tree) Unit).onTree occupied = (.error f, t) ∧
      t.get? ⟨"out.mf4.tmp"⟩ = some (.file bytes) := by
  obtain ⟨bytes, hb⟩ := exists_file_single
  have hlocation : occupied.location? ⟨"out.mf4.tmp"⟩ = some ["out.mf4.tmp"] := by decide +kernel
  have htmp : occupied.fileLocation ⟨"out.mf4.tmp"⟩ = .ok ["out.mf4.tmp"] :=
    Tree.fileLocation_eq_ok_iff.mpr ⟨hlocation, by decide +kernel⟩
  have hdirectory : occupied.get? ⟨"out.mf4"⟩ = some .directory :=
    Tree.get?_eq_some_iff.mpr ⟨["out.mf4"], by decide +kernel⟩
  obtain ⟨e, htarget⟩ := Tree.exists_fileLocation_eq_error (.inr hdirectory)
  have ho : Outcome .reliable occupied ⟨"out.mf4"⟩ true (single.file Deflate.storing)
      ((single.save Deflate.storing ⟨"out.mf4"⟩ true : FileAction (StateM Tree) Unit).onTree
        occupied) := outcome_save .reliable Deflate.storing single occupied
  rw [hb] at ho
  refine ⟨Tree.get?_eq_none hlocation (by decide +kernel), ?_⟩
  generalize FileAction.onTree _ occupied = r at ho ⊢
  cases ho with
  | refused h => cases h.1
  | failed h => cases h
  | uncreated h => cases h.symm.trans htmp
  | removed _ h _ => cases h
  | unwritten _ _ hm _ => cases hm
  | moved _ _ _ _ hl' _ _ _ => cases hl'.symm.trans htarget
  | left _ hl h _ _ _ hc =>
    cases hl.symm.trans htmp
    exact ⟨_, _, _, rfl, hc.get?_of_location? hlocation (by decide)⟩

end Output

end Mdf
