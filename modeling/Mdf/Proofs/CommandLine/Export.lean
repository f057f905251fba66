import Mdf.CommandLine.Run
import Mdf.Proofs.FileSystem.Naming
import Mdf.Proofs.Measurement.Supported
import Mdf.Proofs.Pipeline

/-!
# Exporting from the command line

Without a named output the table goes beside its input, under the name of the input with another
extension.  It is written in place of whatever stands there, so an input that has this extension
already is replaced by its own table; every other input is left as it was (`keepsInput_of_export`).
-/

namespace Mdf

open FileAction Output Mdf.Tree

/-! ### Tables and measurement files -/

/-- A table begins with the name of the column of times. -/
lemma Measurement.exists_csv_eq {m : Measurement} {text : String} (h : m.csv = .ok text) :
    ∃ rest, text.toList = timeColumn.toList ++ rest := by
  obtain ⟨lines, hlines, htext⟩ := bind_eq_ok_iff.mp h
  cases htext
  obtain ⟨rows, -, htable⟩ := bind_eq_ok_iff.mp hlines
  cases htable
  have hfield : Csv.field timeColumn = timeColumn := by decide
  have htable := Csv.exists_table_eq timeColumn (m.channels.map MeasuredChannel.name) rows
  rwa [hfield] at htable

/-- A table does not begin as a measurement file does. -/
lemma Measurement.encode_csv_ne {bytes : List UInt8} {expected : Option Version} {m : Measurement}
    {text : String} (h : ofBytes bytes expected = .ok m) (hcsv : m.csv = .ok text) :
    Utf8.encode text ≠ bytes := by
  rintro rfl
  obtain ⟨_, _, _, _, _, _, _, hid, hcheck, -⟩ := exists_parts_of_ofBytes h
  have hmark := (Identification.foundAt_of_run_decode hid).finished
    (unfinished_of_checkIdentification hcheck)
  obtain ⟨rest, hrest⟩ := exists_csv_eq hcsv
  rw [List.drop_zero, Utf8.encode, hrest, List.flatMap_append] at hmark
  have hfirst := congrArg List.head? hmark
  cases hfirst

lemma ExportFormat.clean_extension (format : ExportFormat) :
    '/' ∉ format.extension.toList ∧ '.' ∉ format.extension.toList := by
  cases format
  decide

lemma Pipeline.Stage.exitCode_ne_zero (s : Pipeline.Stage) : s.exitCode ≠ 0 := by
  cases s <;> decide

namespace CommandLine

variable {args : List String} {input : Path} {output : Option Path}
  {version : Version} {format : ExportFormat} {t : Tree}

/-- The outcome of a run on a tree, and the tree afterwards. -/
def onTree (deflate : Deflate.Compressor) (args : List String) (t : Tree) : Outcome × Tree :=
  (run deflate args : StateM Tree Outcome).run t

/-- The outcome of a command that gives an output or fails. -/
def Outcome.ofResult : Except Pipeline.StageFailure String → Outcome
  | .ok out => ⟨0, out, ""⟩
  | .error f => ⟨f.stage.exitCode, "", "Fehler: " ++ f.message ++ "\n"⟩

lemma Outcome.code_ofResult_eq_zero_iff {r : Except Pipeline.StageFailure String} :
    (Outcome.ofResult r).code = 0 ↔ ∃ out, r = .ok out := by
  cases r with
  | ok out => exact iff_of_true rfl ⟨out, rfl⟩
  | error f => exact iff_of_false f.stage.exitCode_ne_zero (by simp)

/-- Running the program runs the command that it is asked for. -/
lemma onTree_of_command (deflate : Deflate.Compressor) {c : Command}
    (h : Command.ofArguments args = .ok c) (t : Tree) :
    onTree deflate args t = (Outcome.ofResult (Pipeline.onTree (c.output deflate) t).1,
      (Pipeline.onTree (c.output deflate) t).2) := by
  unfold onTree run
  rw [h]
  have hrun : (c.run deflate : StateM Tree Outcome).run t =
      (match (Pipeline.onTree (c.output deflate) t).1 with
        | .ok out => pure ⟨0, out, ""⟩
        | .error f => pure ⟨f.stage.exitCode, "", "Fehler: " ++ f.message ++ "\n"⟩ :
          StateM Tree Outcome).run (Pipeline.onTree (c.output deflate) t).2 := rfl
  refine hrun.trans ?_
  cases (Pipeline.onTree (c.output deflate) t).1 <;> rfl

/-- An export succeeds exactly if its target is written, and leaves what this leaves. -/
lemma onTree_of_exportFile (deflate : Deflate.Compressor)
    (h : Command.ofArguments args = .ok (.exportFile input output version format))
    {result : Except Failure Unit} {t' : Tree}
    (hr : (Measurement.exportFile input version format
      (output.getD (input.withExtension format.extension)) true :
        FileAction (StateM Tree) Unit).onTree t = (result, t')) :
    ((onTree deflate args t).1.code = 0 ↔ result = .ok ()) ∧ (onTree deflate args t).2 = t' := by
  rw [onTree_of_command deflate h, Outcome.code_ofResult_eq_zero_iff, Command.output,
    Pipeline.onTree_inStage_bind, hr]
  cases result with
  | ok _ => exact ⟨iff_of_true ⟨_, rfl⟩ rfl, rfl⟩
  | error e => exact ⟨iff_of_false (by simp) (by simp), rfl⟩

/-- An export to a target ends as writing the target does. -/
lemma exists_outcome_of_exportFile (deflate : Deflate.Compressor)
    (h : Command.ofArguments args = .ok (.exportFile input none version format)) (t : Tree) :
    ∃ result, Output.Outcome .reliable t (input.withExtension format.extension) true
        (Measurement.exported t input version format) (result, (onTree deflate args t).2) ∧
      ((onTree deflate args t).1.code = 0 ↔ result = .ok ()) := by
  have ho : Output.Outcome .reliable t (input.withExtension format.extension) true _ _ :=
    outcome_exportFile .reliable input version format t
  cases hr : (Measurement.exportFile input version format (input.withExtension format.extension)
      true : FileAction (StateM Tree) Unit).onTree t with
  | mk result t' =>
    obtain ⟨hcode, htree⟩ := onTree_of_exportFile deflate h hr
    rw [hr] at ho
    rw [htree]
    exact ⟨result, ho, hcode⟩

/-! ### The input of an export -/

/-- The exported table is none of the bytes of the input. -/
lemma ne_of_exported {bytes table : List UInt8} (hread : t.read input = .ok bytes)
    (h : Measurement.exported t input version format = .ok table) : table ≠ bytes := by
  cases format
  obtain ⟨m, text, hm, hcsv, rfl⟩ := (Pipeline.exported_eq_ok_iff hread).mp h
  exact Measurement.encode_csv_ne hm hcsv

/-- A file without the extension is as it was after its table is written. -/
lemma get?_of_not_hasExtension {bytes : List UInt8} {content : Except Failure (List UInt8)}
    {r : Except Failure Unit × Tree} (hget : t.get? input = some (.file bytes))
    (hext : ¬input.HasExtension format.extension)
    (ho : Output.Outcome .reliable t (input.withExtension format.extension) true content r) :
    r.2.get? input = t.get? input := by
  obtain ⟨hslash, hpoint⟩ := format.clean_extension
  obtain ⟨l, hl, -⟩ := exists_fileLocation_of_get? hget
  refine ho.get?_of_ne fun k hk => ?_
  have hlocation := (fileLocation_eq_ok_iff.mp hl).1
  cases hk.symm.trans hlocation
  exact ⟨fun htarget => hext ((location?_withExtension_iff hl hslash hpoint).mp htarget),
    location?_temporary_withExtension_ne hl hslash⟩

/-- The target of a file is another file unless the file has the extension already, and the
temporary file is another one in any case. -/
lemma target_of_file {bytes : List UInt8} (format : ExportFormat)
    (hget : t.get? input = some (.file bytes)) :
    (input.withExtension format.extension = input ↔ input.HasExtension format.extension) ∧
      Output.temporary (input.withExtension format.extension) ≠ input := by
  obtain ⟨hslash, hpoint⟩ := format.clean_extension
  obtain ⟨l, hl, -⟩ := exists_fileLocation_of_get? hget
  obtain ⟨front, name, hend⟩ := Path.exists_endsIn input
  obtain ⟨hname, -⟩ := isName_of_fileLocation hend hl
  refine ⟨Path.withExtension_eq_self_iff hend hname hslash hpoint, fun heq => ?_⟩
  refine location?_temporary_withExtension_ne hl hslash ?_
  rw [heq]
  exact (fileLocation_eq_ok_iff.mp hl).1

/-- What an export without a named output leaves of its input. -/
structure KeepsInput (t : Tree) (input : Path) (version : Version) (format : ExportFormat)
    (r : Outcome × Tree) : Prop where
  /-- The input is as it was, unless it has the extension of the table and the export succeeds. -/
  kept : r.2.get? input = t.get? input ↔ ¬(r.1.code = 0 ∧ input.HasExtension format.extension)
  /-- Otherwise its table stands in its place. -/
  replaced : r.1.code = 0 → input.HasExtension format.extension → ∃ table,
    Measurement.exported t input version format = .ok table ∧ r.2.get? input = some (.file table)
  /-- The target of a file is the file itself exactly if it has the extension. -/
  target : (∃ bytes, t.get? input = some (.file bytes)) →
    (input.withExtension format.extension = input ↔ input.HasExtension format.extension)
  /-- The temporary file never is the file itself. -/
  temporary : (∃ bytes, t.get? input = some (.file bytes)) →
    Output.temporary (input.withExtension format.extension) ≠ input

/-- A failure that changes nothing keeps the input. -/
lemma keepsInput_of_unchanged {r : Outcome × Tree} (hcode : r.1.code ≠ 0) (htree : r.2 = t) :
    KeepsInput t input version format r where
  kept := iff_of_true (by rw [htree]) fun hlost => hcode hlost.1
  replaced := fun hzero => absurd hzero hcode
  target := fun ⟨_, hget⟩ => (target_of_file format hget).1
  temporary := fun ⟨_, hget⟩ => (target_of_file format hget).2

lemma keepsInput_of_no_file (deflate : Deflate.Compressor)
    (h : Command.ofArguments args = .ok (.exportFile input output version format))
    (hfile : ¬∃ bytes, t.get? input = some (.file bytes)) :
    KeepsInput t input version format (onTree deflate args t) := by
  have hopened : ∃ f, Measurement.opened t input version = .error f := by
    unfold Measurement.opened
    split
    · exact ⟨_, rfl⟩
    · rename_i bytes hread
      exact absurd ⟨bytes, read_eq_ok_iff.mp hread⟩ hfile
  obtain ⟨f, hf⟩ := hopened
  obtain ⟨hcode, htree⟩ := onTree_of_exportFile deflate h (onTree_exportFile_of_error hf)
  refine keepsInput_of_unchanged (fun hzero => ?_) htree
  cases hcode.mp hzero

lemma keepsInput_of_file (deflate : Deflate.Compressor) {bytes : List UInt8}
    (h : Command.ofArguments args = .ok (.exportFile input none version format))
    (hget : t.get? input = some (.file bytes)) :
    KeepsInput t input version format (onTree deflate args t) := by
  obtain ⟨hself, htemporary⟩ := target_of_file format hget
  obtain ⟨result, ho, hcode⟩ := exists_outcome_of_exportFile deflate h t
  have hreplaced : (onTree deflate args t).1.code = 0 → input.HasExtension format.extension →
      ∃ table, Measurement.exported t input version format = .ok table ∧
        (onTree deflate args t).2.get? input = some (.file table) := by
    intro hzero hext
    rw [hself.mpr hext] at ho
    obtain ⟨table, htable, htarget, -⟩ := ho.get?_of_ok (hcode.mp hzero)
    exact ⟨table, htable, htarget⟩
  refine ⟨⟨fun hkept ⟨hzero, hext⟩ => ?_, fun hnot => ?_⟩, hreplaced, fun _ => hself,
    fun _ => htemporary⟩
  · obtain ⟨table, htable, htarget⟩ := hreplaced hzero hext
    rw [hkept, hget] at htarget
    cases htarget
    exact ne_of_exported (read_eq_ok_iff.mpr hget) htable rfl
  · by_cases hext : input.HasExtension format.extension
    · rw [hself.mpr hext] at ho
      cases hresult : result with
      | ok _ => exact absurd ⟨hcode.mpr hresult, hext⟩ hnot
      | error f => exact ho.get?_of_error hresult
    · exact get?_of_not_hasExtension hget hext ho

lemma keepsInput_of_command (deflate : Deflate.Compressor)
    (h : Command.ofArguments args = .ok (.exportFile input none version format)) (t : Tree) :
    KeepsInput t input version format (onTree deflate args t) := by
  by_cases hfile : ∃ bytes, t.get? input = some (.file bytes)
  · obtain ⟨bytes, hget⟩ := hfile
    exact keepsInput_of_file deflate h hget
  · exact keepsInput_of_no_file deflate h hfile

/-- An option is read with its value, and then the arguments behind these. -/
lemma scan_cons {α : Type} {options : List (OptionSpec α)} {arg : String} {joined : Option String}
    {o : OptionSpec α} (hstop : Argument.ofString arg ≠ .stop)
    (hfind : findOption options (Argument.ofString arg) = .ok (joined, o)) (seen : List String)
    (settings : α) (rest : List String) : scan options seen settings (arg :: rest) =
      o.arity.value joined rest >>= fun x => applyOption o seen x.1 settings >>= fun new =>
        scan options (o.name :: seen) new x.2 := by
  rw [scan, if_neg hstop, hfind]
  dsimp only
  split
  · rename_i hvalue
    rw [hvalue]
    rfl
  · rename_i value r hvalue
    rw [hvalue]
    dsimp only [ok_bind]
    cases applyOption o seen value settings <;> rfl

/-- The bare command takes every input that is a value, and refuses any other. -/
lemma ofArguments_export (s : String) : Command.ofArguments ["export", "-i", s] =
    if isValue s = true ∧ s ≠ "" then .ok (.exportFile ⟨s⟩ none .default .default)
    else .error .misuse := by
  have hform : Argument.ofString "-i" = .short 'i' none := by decide
  have hscan : readOptions exportOptions ⟨none, none, .default, .default⟩ ["-i", s] = _ :=
    scan_cons (by rw [hform]; simp) (by rw [hform]; rfl) [] _ [s]
  change readExport ["-i", s] = _
  rw [readExport, hscan]
  by_cases hvalue : isValue s = true
  · rw [show Arity.value .one none [s] = .ok (s, []) from if_pos hvalue, ok_bind]
    by_cases hs : s = ""
    · subst hs
      rfl
    · have hpath : readPath s = some ⟨s⟩ := if_neg hs
      simp [applyOption, hpath, hvalue, hs, scan, pure, Except.pure]
  · rw [show Arity.value .one none [s] = .error .misuse from if_neg hvalue,
      if_neg fun h => hvalue h.1]
    rfl

/-- **An export without a named output leaves its input as it was, unless the input has the
extension of the table and the export succeeds**: then the table stands in its place.  This holds of
every tree, of every input of the bare command, and with any options that name no output. -/
theorem keepsInput_of_export (deflate : Deflate.Compressor) (t : Tree) :
    (∀ s, KeepsInput t ⟨s⟩ .default .default (onTree deflate ["export", "-i", s] t)) ∧
      ∀ args input version format,
        Command.ofArguments args = .ok (.exportFile input none version format) →
          KeepsInput t input version format (onTree deflate args t) := by
  refine ⟨fun s => ?_, fun args input version format h => keepsInput_of_command deflate h t⟩
  have hargs := ofArguments_export s
  by_cases hs : isValue s = true ∧ s ≠ ""
  · rw [if_pos hs] at hargs
    exact keepsInput_of_command deflate hargs t
  · rw [if_neg hs] at hargs
    have hrun : onTree deflate ["export", "-i", s] t = (Stop.misuse.outcome, t) := by
      unfold onTree run
      rw [hargs]
      rfl
    rw [hrun]
    exact keepsInput_of_unchanged (show Stop.misuse.outcome.code ≠ 0 by decide) rfl

/-- A tree that holds a file alone, under a name. -/
def alone (name : String) (bytes : List UInt8) : Tree := ⟨[([name], .file bytes)]⟩

/-- Any file can be made or replaced in it. -/
lemma fileLocation_alone {name part : String} {bytes : List UInt8} {p : Path}
    (hl : (alone name bytes).location? p = some [part]) (hs : p.endsInSlash = false) :
    (alone name bytes).fileLocation p = .ok [part] := by
  refine fileLocation_eq_ok_iff.mpr ⟨hl, ?_, hs⟩
  unfold entry?
  rw [if_neg (List.cons_ne_nil part []), alone, List.lookup_cons]
  split <;> simp

lemma exists_read_single : ∃ bytes m, single.file Deflate.storing = .ok bytes ∧
    Measurement.ofBytes bytes (some .default) = .ok m := by
  obtain ⟨bytes, hb⟩ := exists_file_single
  have hr : single.Reachable := ⟨.v410, _, rfl⟩
  obtain ⟨time, ht, hread⟩ := Session.ofBytes_file hr.consistent Deflate.inverts_storing hb
    (some .default) (by decide)
  cases ht.symm.trans (show single.time = some ⟨[⟨0⟩]⟩ from rfl)
  rw [Session.reopened_eq_ok_iff.mpr ⟨by decide, by decide, rfl⟩] at hread
  exact ⟨bytes, _, hb, hread⟩

/-- A file that can be read is exported where its target can be written. -/
lemma code_of_read (deflate : Deflate.Compressor) {bytes : List UInt8} {m : Measurement}
    {l l' : Location}
    (h : Command.ofArguments args = .ok (.exportFile input none version .csv))
    (hread : t.read input = .ok bytes) (hm : Measurement.ofBytes bytes (some version) = .ok m)
    (hl : t.fileLocation (input.withExtension "csv") = .ok l)
    (hl' : t.fileLocation (Output.temporary (input.withExtension "csv")) = .ok l') :
    (onTree deflate args t).1.code = 0 := by
  obtain ⟨text, hcsv⟩ := Measurement.csv_eq_ok (Measurement.rectangular_of_ofBytes hm)
  obtain ⟨result, ho, hcode⟩ := exists_outcome_of_exportFile deflate h t
  obtain ⟨t', hr, -⟩ := ho.exists_stored
    ((Pipeline.exported_eq_ok_iff hread).mpr ⟨m, text, hm, hcsv, rfl⟩) rfl hl hl'
  exact hcode.mpr (Prod.mk.inj hr).1

/-- The bare export of this file succeeds. -/
lemma exists_export_alone (name : String) (hvalue : isValue name = true ∧ name ≠ "")
    (hlocation : ∀ bytes, (alone name bytes).location? ⟨name⟩ = some [name])
    (hslash : (⟨name⟩ : Path).endsInSlash = false)
    (htarget : (⟨name⟩ : Path).withExtension "csv" = ⟨"a.csv"⟩) :
    ∃ bytes, single.file Deflate.storing = .ok bytes ∧
      (alone name bytes).get? ⟨name⟩ = some (.file bytes) ∧
      Command.ofArguments ["export", "-i", name] = .ok (.exportFile ⟨name⟩ none .default .csv) ∧
      (onTree Deflate.storing ["export", "-i", name] (alone name bytes)).1.code = 0 := by
  obtain ⟨bytes, m, hb, hm⟩ := exists_read_single
  have hargs : Command.ofArguments ["export", "-i", name] =
      .ok (.exportFile ⟨name⟩ none .default .csv) := (ofArguments_export name).trans (if_pos hvalue)
  have hentry : Tree.entry? (alone name bytes) [name] = some (.file bytes) := by
    unfold entry?
    rw [if_neg (List.cons_ne_nil name []), alone, List.lookup_cons, beq_self_eq_true]
  have hget : (alone name bytes).get? ⟨name⟩ = some (.file bytes) :=
    get?_eq_some_iff.mpr ⟨[name], hlocation bytes, hentry, .inr hslash⟩
  have hl : (alone name bytes).location? ⟨"a.csv"⟩ = some ["a.csv"] :=
    location?_eq_some_iff.mpr ⟨by decide, by decide, by decide, rfl⟩
  have hl' : (alone name bytes).location? ⟨"a.csv.tmp"⟩ = some ["a.csv.tmp"] :=
    location?_eq_some_iff.mpr ⟨by decide, by decide, by decide, rfl⟩
  have htable : (alone name bytes).fileLocation ((⟨name⟩ : Path).withExtension "csv") =
      .ok ["a.csv"] := by
    rw [htarget]
    exact fileLocation_alone hl (by decide)
  have htemporary : (alone name bytes).fileLocation
      (Output.temporary ((⟨name⟩ : Path).withExtension "csv")) = .ok ["a.csv.tmp"] := by
    rw [htarget, show Output.temporary ⟨"a.csv"⟩ = ⟨"a.csv.tmp"⟩ by decide]
    exact fileLocation_alone hl' (by decide)
  exact ⟨bytes, hb, hget, hargs,
    code_of_read Deflate.storing hargs (read_eq_ok_iff.mpr hget) hm htable htemporary⟩

/-- An input with another extension is kept by an export that succeeds. -/
theorem keepsInput_of_export_alone :
    ∃ bytes, single.file Deflate.storing = .ok bytes ∧
      Command.ofArguments ["export", "-i", "a.mf4"] =
        .ok (.exportFile ⟨"a.mf4"⟩ none .default .csv) ∧
      (onTree Deflate.storing ["export", "-i", "a.mf4"] (alone "a.mf4" bytes)).1.code = 0 ∧
      (onTree Deflate.storing ["export", "-i", "a.mf4"] (alone "a.mf4" bytes)).2.get? ⟨"a.mf4"⟩ =
        some (.file bytes) := by
  obtain ⟨bytes, hb, hget, hargs, hcode⟩ := exists_export_alone "a.mf4" (by decide)
    (fun _ => location?_eq_some_iff.mpr ⟨by decide, by decide, by decide, rfl⟩) (by decide)
    (by decide)
  have hkeeps := (keepsInput_of_export Deflate.storing (alone "a.mf4" bytes)).2 _ _ _ _ hargs
  have hother := (hkeeps.target ⟨bytes, hget⟩).not.mp (by decide)
  refine ⟨bytes, hb, hargs, hcode, ?_⟩
  rw [← hget]
  exact hkeeps.kept.mpr fun hlost => hother hlost.2

/-- **An input that has the extension of the table is lost**: the export succeeds, and the table
stands in place of the measurement file. -/
theorem export_replaces_input :
    ∃ bytes table, single.file Deflate.storing = .ok bytes ∧
      (onTree Deflate.storing ["export", "-i", "a.csv"] (alone "a.csv" bytes)).1.code = 0 ∧
      (alone "a.csv" bytes).get? ⟨"a.csv"⟩ = some (.file bytes) ∧
      (onTree Deflate.storing ["export", "-i", "a.csv"] (alone "a.csv" bytes)).2.get? ⟨"a.csv"⟩ =
        some (.file table) ∧ table ≠ bytes := by
  obtain ⟨bytes, hb, hget, hargs, hcode⟩ := exists_export_alone "a.csv" (by decide)
    (fun _ => location?_eq_some_iff.mpr ⟨by decide, by decide, by decide, rfl⟩) (by decide)
    (by decide)
  have hkeeps := keepsInput_of_command Deflate.storing hargs (alone "a.csv" bytes)
  have hself := (hkeeps.target ⟨bytes, hget⟩).mp (by decide)
  obtain ⟨table, htable, hreplaced⟩ := hkeeps.replaced hcode hself
  exact ⟨bytes, table, hb, hcode, hget, hreplaced, ne_of_exported (read_eq_ok_iff.mpr hget) htable⟩

end CommandLine

end Mdf
