import Mdf.Error
import Mdf.FileSystem.Basic

/-!
# Output files

An output file is written beside its target, under a name with `.tmp` behind it, and moved there
once it is complete.  So the target never holds a part of an output.
-/

namespace Mdf

/-- An action on files that may fail. -/
abbrev FileAction (m : Type → Type) := ExceptT Failure m

namespace FileAction

variable {m : Type → Type} [Monad m] {α : Type}

/-- The result of an operation on files, with a wording for its failure. -/
def ofFile (wording : FileError → String) (action : m (Except FileError α)) : FileAction m α := do
  match ← action with
  | .ok a => return a
  | .error e => throw (.error (.file (wording e)))

/-- A result that involves no files. -/
def ofExcept (r : Except Failure α) : FileAction m α := ExceptT.mk (pure r)

end FileAction

namespace Output

variable {m : Type → Type} [Monad m] [FileSystem m]

/-- Where an output is written before it is complete. -/
def temporary (p : Path) : Path := p.withSuffix ".tmp"

/-- Refuses a target at which there is something, unless it may be replaced. -/
def checkTarget (p : Path) (overwrite : Bool) : FileAction m Unit := do
  if overwrite then return ()
  if ← (FileSystem.isPresent p : m Bool) then throw (.error (.outputExists p.text))

/-- The wording of a failed step, with the path that it worked on. -/
def context (step : String) (p : Path) (e : FileError) : String :=
  step ++ " '" ++ p.text ++ "': " ++ e.message

/-- The bytes that are held back before they go to a file. -/
def bufferSize : Nat := 8192

/-- The wording for a file that does not take a content.  A content that fits into the buffer goes to
the file when it is complete; for a longer one the producer has the say. -/
def unwritten (p : Path) (bytes : List UInt8) (wording : FileError → String) : FileError → String :=
  if bytes.length < bufferSize then context "write" (temporary p) else wording

/-- Fills the temporary file with its content, or removes it if there is none or if the file does not
take it. -/
def fill (p : Path) (content : Except Failure (List UInt8)) (wording : FileError → String) :
    FileAction m Unit := do
  try
    let bytes ← FileAction.ofExcept content
    FileAction.ofFile (unwritten p bytes wording) (FileSystem.write (temporary p) bytes)
  catch e =>
    let _ ← (FileSystem.remove (temporary p) : m (Except FileError Unit))
    throw e

/-- Writes a target, given its bytes or why there are none, and the wording of their producer for a
file that does not take them. -/
def write (p : Path) (overwrite : Bool) (content : Except Failure (List UInt8))
    (wording : FileError → String) : FileAction m Unit := do
  checkTarget p overwrite
  FileAction.ofFile (context "create" (temporary p)) (FileSystem.create (temporary p))
  fill p content wording
  FileAction.ofFile (context "rename to" p) (FileSystem.rename (temporary p) p)

end Output

end Mdf
