import Mdf.FileSystem.Path

/-!
# File systems

`FileSystem m` gives the operations on files that the program uses, as actions of a monad `m`.
What they do is not fixed here: the program runs them on the disk, and `Tree` is a file system of
its own.
-/

namespace Mdf

/-- Why an operation on files fails. -/
inductive FileError where
  | notFound
  /-- A part of the path other than the last is no directory. -/
  | notDirectory
  /-- The path is that of a directory. -/
  | isDirectory
  /-- There is something at the path. -/
  | alreadyExists
  /-- The path or a part of it is too long. -/
  | nameTooLong
  /-- The path holds a character that no name may have. -/
  | invalidName
  | other (description : String)
deriving DecidableEq, Repr

/-- The wording of the reason, with its number if the system has one. -/
def FileError.message : FileError → String
  | notFound => "No such file or directory (os error 2)"
  | notDirectory => "Not a directory (os error 20)"
  | isDirectory => "Is a directory (os error 21)"
  | alreadyExists => "File exists (os error 17)"
  | nameTooLong => "File name too long (os error 36)"
  | invalidName => "file name contained an unexpected NUL byte"
  | other description => description

/-- The operations on files that the program uses. -/
class FileSystem (m : Type → Type) where
  /-- Whether there is something at a path. -/
  isPresent : Path → m Bool
  /-- Whether there is a directory at a path. -/
  isDirectory : Path → m Bool
  read : Path → m (Except FileError (List UInt8))
  /-- Makes an empty file, also in place of a file. -/
  create : Path → m (Except FileError Unit)
  write : Path → List UInt8 → m (Except FileError Unit)
  /-- Moves a file, also in place of a file. -/
  rename : Path → Path → m (Except FileError Unit)
  remove : Path → m (Except FileError Unit)
  /-- Makes a directory in one that exists. -/
  makeDirectory : Path → m (Except FileError Unit)

namespace FileSystem

variable {m : Type → Type} [Monad m] [FileSystem m]

/-- Makes a directory, unless there is one. -/
def ensureDirectory (p : Path) : m (Except FileError Unit) := do
  match ← makeDirectory p with
  | .ok () => return .ok ()
  | .error e => return if ← FileSystem.isDirectory p then .ok () else .error e

/-- Makes a directory and the ones above it that are missing.  The parent of a path is shorter, so
the bound `length` on its characters is never reached before the empty path, which needs no
directory. -/
def makeDirectoriesWithin : Nat → Path → m (Except FileError Unit)
  | 0, _ => return .ok ()
  | length + 1, p => do
    if p.text = "" then return .ok ()
    match ← makeDirectory p with
    | .ok () => return .ok ()
    | .error .notFound =>
      match p.parent? with
      | none => return .error .notFound
      | some above =>
        match ← makeDirectoriesWithin length above with
        | .ok () => ensureDirectory p
        | .error e => return .error e
    | .error e => return if ← FileSystem.isDirectory p then .ok () else .error e

/-- Makes a directory and the ones above it that are missing. -/
def makeDirectories (p : Path) : m (Except FileError Unit) :=
  makeDirectoriesWithin p.text.length p

end FileSystem

end Mdf
