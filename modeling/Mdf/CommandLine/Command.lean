import Mdf.CommandLine.Options
import Mdf.Pipeline

/-!
# Commands

The three commands of the program, and their options.  Without a command the options are those of
`generate`, which then cannot be named any more.
-/

namespace Mdf.CommandLine

/-- What the program is asked to do. -/
inductive Command where
  /-- Write the fixture of boundary values and its table. -/
  | generate (config : Pipeline.Config)
  /-- Export a measurement file; without an output its path is derived from the input. -/
  | exportFile (input : Path) (output : Option Path) (version : Version) (format : ExportFormat)
  /-- Show what a measurement file holds, as JSON or for people. -/
  | inspect (input : Path) (version : Option Version) (json : Bool)
deriving DecidableEq, Repr

/-- A path, which must not be empty. -/
def readPath (s : String) : Option Path := if s = "" then none else some ⟨s⟩

/-- A result without its error. -/
def accepted {ε α : Type} : Except ε α → Option α
  | .ok a => some a
  | .error _ => none

/-! ### Generating -/

def generateOptions : List (OptionSpec Pipeline.Config) :=
  [⟨"root", none, .one, fun v c => (readPath v).map fun p => { c with root := p }⟩,
    ⟨"name", none, .one, fun v c => some { c with baseName := v }⟩,
    ⟨"version", none, .one, fun v c => (Version.parse? v).map fun r => { c with version := r }⟩,
    ⟨"compress", none, .optional Storage.deflate.name, fun v c =>
      (Storage.ofName? v).map fun m => { c with storage := m }⟩,
    ⟨"start-time-ns", none, .one, fun v c =>
      (Numeral.read? 10 UInt64.size v.toList).map fun n => { c with startTime := UInt64.ofNat n }⟩]

def readGenerate (args : List String) : Except Stop Command :=
  (readOptions generateOptions .default args).map .generate

/-! ### Exporting -/

structure ExportSettings where
  /-- The measurement file, which must be given. -/
  input : Option Path
  output : Option Path
  version : Version
  format : ExportFormat

def exportOptions : List (OptionSpec ExportSettings) :=
  [⟨"input", some 'i', .one, fun v c => (readPath v).map fun p => { c with input := some p }⟩,
    ⟨"output", some 'o', .one, fun v c => (readPath v).map fun p => { c with output := some p }⟩,
    ⟨"version", none, .one, fun v c => (Version.parse? v).map fun r => { c with version := r }⟩,
    ⟨"format", none, .one, fun v c =>
      (accepted (ExportFormat.ofName v)).map fun f => { c with format := f }⟩]

def readExport (args : List String) : Except Stop Command := do
  let s ← readOptions exportOptions ⟨none, none, .default, .default⟩ args
  match s.input with
  | some input => return .exportFile input s.output s.version s.format
  | none => throw .misuse

/-! ### Inspecting -/

structure InspectSettings where
  /-- The measurement file, which must be given. -/
  input : Option Path
  /-- The revision of the file, if only one is accepted. -/
  version : Option Version
  json : Bool

def inspectOptions : List (OptionSpec InspectSettings) :=
  [⟨"input", some 'i', .one, fun v c => (readPath v).map fun p => { c with input := some p }⟩,
    ⟨"version", none, .one, fun v c =>
      (Version.parse? v).map fun r => { c with version := some r }⟩,
    ⟨"json", none, .flag, fun _ c => some { c with json := true }⟩]

def readInspect (args : List String) : Except Stop Command := do
  let s ← readOptions inspectOptions ⟨none, none, false⟩ args
  match s.input with
  | some input => return .inspect input s.version s.json
  | none => throw .misuse

/-! ### Commands -/

def commandNames : List String := ["generate", "export", "inspect", "help"]

/-- Reads the arguments of `help`: nothing, or the name of a command. -/
def readHelp : List String → Stop
  | [] => .help
  | [name] => if name ∈ commandNames then .help else .misuse
  | _ => .misuse

/-- Reads the arguments of the program. -/
def Command.ofArguments : List String → Except Stop Command
  | "generate" :: args => readGenerate args
  | "export" :: args => readExport args
  | "inspect" :: args => readInspect args
  | "help" :: args => .error (readHelp args)
  | args => readGenerate args

end Mdf.CommandLine
