import Mdf.Export.Format
import Mdf.Export.Table
import Mdf.FileSystem.Output
import Mdf.Measurement.Reader
import Mdf.Session.File

/-!
# The pipeline

The fixture of boundary values is built, written as a measurement file, and exported from that file
as a table.  A failure carries the stage in which it arose.
-/

namespace Mdf

/-! ### Files of sessions and measurements -/

section

variable {m : Type → Type} [Monad m] [FileSystem m]

/-- Writes the file of a session. -/
def Session.save (deflate : Deflate.Compressor) (s : Session) (p : Path) (overwrite : Bool) :
    FileAction m Unit := do
  Output.checkTarget p overwrite
  let bytes ← FileAction.ofExcept (s.file deflate)
  Output.write p overwrite (.ok bytes) (Output.context "write" p)

namespace Measurement

/-- Reads a measurement file. -/
def open? (p : Path) (expected : Option Version) : FileAction m Measurement := do
  let bytes ← FileAction.ofFile (Output.context "read" p) (FileSystem.read p)
  FileAction.ofExcept (ofBytes bytes expected)

/-- A measurement in an export format. -/
def export? (measurement : Measurement) (format : ExportFormat) : Except Failure (List UInt8) := do
  match format with
  | .csv => return Utf8.encode (← measurement.csv)

/-- Exports a measurement file of the given revision. -/
def exportFile (source : Path) (version : Version) (format : ExportFormat) (target : Path)
    (overwrite : Bool) : FileAction m Unit := do
  Output.checkTarget target overwrite
  let measurement ← open? source (some version)
  Output.write target overwrite (measurement.export? format) FileError.message

end Measurement

end

namespace Pipeline

/-! ### Stages -/

/-- A stage of the pipeline. -/
inductive Stage where
  /-- The fixture is built. -/
  | build
  /-- The measurement file is written. -/
  | write
  /-- The table is exported. -/
  | exporting
deriving DecidableEq, Repr

namespace Stage

def all : List Stage := [build, write, exporting]

def name : Stage → String
  | build => "build"
  | write => "write"
  | exporting => "export"

def exitCode : Stage → UInt32
  | build => 2
  | write => 3
  | exporting => 4

end Stage

structure StageFailure where
  stage : Stage
  cause : Failure
deriving DecidableEq, Repr

/-- The wording of a failure and its stage. -/
def StageFailure.message (f : StageFailure) : String :=
  f.stage.name ++ " stage failed: " ++ f.cause.message

/-! ### Configuration -/

/-- Where the outputs go, and how the measurement file is written. -/
structure Config where
  /-- The directory of the outputs. -/
  root : Path
  /-- The name of the outputs, without extension. -/
  baseName : String
  version : Version
  /-- How records are kept. -/
  storage : Storage
  /-- The start of the measurement, in nanoseconds since 1970 UTC. -/
  startTime : UInt64
deriving DecidableEq, Repr

namespace Config

/-- What is done unless something else is asked for. -/
def default : Config := ⟨⟨"resources"⟩, "primitives", .default, .plain, 0⟩

/-- The path of the output with an extension. -/
def outputPath (c : Config) (ext : String) : Path := c.root.join (c.baseName ++ "." ++ ext)

def binaryPath (c : Config) : Path := c.outputPath "mf4"

def csvPath (c : Config) : Path := c.outputPath ExportFormat.csv.extension

def session (c : Config) : Session :=
  { Session.new c.version with storage := c.storage, startTime := c.startTime }

end Config

/-! ### Running -/

variable {m : Type → Type} [Monad m] [FileSystem m]

/-- An action whose failures belong to a stage. -/
def inStage {α : Type} (stage : Stage) (action : FileAction m α) : ExceptT StageFailure m α :=
  action.adapt fun cause => ⟨stage, cause⟩

def writeStage (deflate : Deflate.Compressor) (c : Config) : FileAction m Unit := do
  FileAction.ofFile (Output.context "create" c.root) (FileSystem.makeDirectories c.root)
  match c.session.append .primitives with
  | (.ok (), s) => s.save deflate c.binaryPath true
  | (.error e, _) => throw (.error e)

/-- Writes both outputs, in place of files that are there, and gives their paths. -/
def run (deflate : Deflate.Compressor) (c : Config) : ExceptT StageFailure m (Path × Path) := do
  inStage .write (writeStage deflate c)
  inStage .exporting (Measurement.exportFile c.binaryPath c.version .csv c.csvPath true)
  return (c.binaryPath, c.csvPath)

end Pipeline

end Mdf
