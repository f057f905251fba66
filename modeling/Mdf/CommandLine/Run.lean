import Mdf.CommandLine.Command
import Mdf.CommandLine.Report

/-!
# Running commands

A command ends with an exit code, a text for the standard output, and a text for the standard error.
A failure says its stage and gives the exit code of that stage.
-/

namespace Mdf.CommandLine

/-- How a run of the program ends. -/
structure Outcome where
  code : UInt32
  out : String
  err : String
deriving DecidableEq, Repr

section

variable {m : Type → Type} [Monad m] [FileSystem m]

/-- Runs a command and gives its output. -/
def Command.output (deflate : Deflate.Compressor) : Command → ExceptT Pipeline.StageFailure m String
  | .generate config => do
    let (binary, csv) ← Pipeline.run deflate config
    return binary.text ++ "\n" ++ csv.text ++ "\n"
  | .exportFile input output version format => do
    let output := output.getD (input.withExtension format.extension)
    Pipeline.inStage .exporting (Measurement.exportFile input version format output true)
    return output.text ++ "\n"
  | .inspect input version json => do
    let measurement ← Pipeline.inStage .exporting (Measurement.open? input version)
    return if json then (reportJson measurement).render ++ "\n" else report input measurement

def Command.run (deflate : Deflate.Compressor) (c : Command) : m Outcome := do
  match ← (c.output deflate : ExceptT Pipeline.StageFailure m String).run with
  | .ok out => return ⟨0, out, ""⟩
  | .error f => return ⟨f.stage.exitCode, "", "Fehler: " ++ f.message ++ "\n"⟩

end

/-- What the program says of its use. -/
def usage : String :=
  "Boundary-value MDF4 fixtures with CSV export\n\n"
    ++ "Usage: mdf4-fixtures [generate] [--root DIR] [--name NAME] [--version VERSION]\n"
    ++ "                     [--compress [MODE]] [--start-time-ns N]\n"
    ++ "       mdf4-fixtures export -i FILE [-o FILE] [--version VERSION] [--format FORMAT]\n"
    ++ "       mdf4-fixtures inspect -i FILE [--version VERSION] [--json]\n"

/-- The outcome of arguments that give no command. -/
def Stop.outcome : Stop → Outcome
  | help => ⟨0, usage, ""⟩
  | misuse => ⟨1, "", usage⟩

/-- Runs the program with the given arguments. -/
def run {m : Type → Type} [Monad m] [FileSystem m] (deflate : Deflate.Compressor)
    (args : List String) : m Outcome :=
  match Command.ofArguments args with
  | .ok c => c.run deflate
  | .error s => pure s.outcome

end Mdf.CommandLine
