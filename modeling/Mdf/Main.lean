import Mdf.CommandLine.Run

/-!
# The program

The command line on the files of the disk.
-/

namespace Mdf

/-- The reason of an error of the system. -/
def FileError.ofSystem : IO.Error → FileError
  | .noFileOrDirectory .. => .notFound
  | .alreadyExists .. => .alreadyExists
  | e => .other (toString e)

/-- The result of an action on the disk. -/
def attempt {α : Type} (action : IO α) : IO (Except FileError α) := do
  try return .ok (← action) catch e => return .error (.ofSystem e)

/-- Whether something at a path can be opened. -/
def canOpen (path : String) : IO Bool := do
  match ← attempt (IO.FS.Handle.mk path .read) with
  | .ok _ => return true
  | .error _ => return false

instance : FileSystem IO where
  isPresent p := canOpen p.text
  isDirectory p := canOpen (p.text ++ "/.")
  read p := attempt do return (← IO.FS.readBinFile p.text).toList
  create p := attempt (IO.FS.writeBinFile p.text ByteArray.empty)
  write p bytes := attempt (IO.FS.writeBinFile p.text ⟨bytes.toArray⟩)
  rename source target := attempt (IO.FS.rename source.text target.text)
  remove p := attempt (IO.FS.removeFile p.text)
  makeDirectory p := attempt (IO.FS.createDir p.text)

end Mdf

def main (args : List String) : IO UInt32 := do
  let outcome ← Mdf.CommandLine.run Mdf.Deflate.storing args
  IO.print outcome.out
  IO.eprint outcome.err
  return outcome.code
