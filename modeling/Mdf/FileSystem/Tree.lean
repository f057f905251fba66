import Mdf.FileSystem.Basic
import Mdf.Text.Utf8

/-!
# Trees of files

A tree gives each location, which is a list of names from the root on, a directory or the bytes of a
file.  The root is a directory, it is the directory that paths start from, and it is its own parent.

`Tree.resolve` follows a path part by part: each part but the last must lead to a directory.

The files of a tree are kept on a `Medium`, which may take only a part of what is written to a file.
`Tree.fileSystem` is the file system on any medium; the instance is the one that takes everything.
-/

namespace Mdf

/-- What stands at a location. -/
inductive Entry where
  | directory
  /-- A file of some bytes. -/
  | file (bytes : List UInt8)
deriving DecidableEq, Repr

/-- The names from the root on. -/
abbrev Location := List String

/-- Directories and files below a root. -/
structure Tree where
  /-- What stands where; the first entry of a location counts. -/
  entries : List (Location × Entry)
deriving DecidableEq, Repr

/-- What a path leads to. -/
inductive Target where
  /-- A location at which something stands. -/
  | found (location : Location) (entry : Entry)
  /-- A location in a directory at which nothing stands. -/
  | missing (location : Location)
deriving DecidableEq, Repr

/-- Where a medium stops taking the bytes of a file, and why. -/
structure Shortage where
  /-- The number of bytes that it has taken. -/
  taken : Nat
  error : FileError
deriving DecidableEq, Repr

/-- What files are kept on: where it stops taking the bytes that are written to a path, if it does. -/
def Medium : Type := Path → List UInt8 → Option Shortage

/-- The medium that takes all bytes. -/
def Medium.reliable : Medium := fun _ _ => none

namespace Tree

def empty : Tree := ⟨[]⟩

/-- What stands at a location. -/
def entry? (t : Tree) (l : Location) : Option Entry :=
  if l = [] then some .directory else t.entries.lookup l

/-- The tree without what stands at a location. -/
def erase (t : Tree) (l : Location) : Tree := ⟨t.entries.filter fun e => e.1 ≠ l⟩

/-- The tree with something else at a location. -/
def insert (t : Tree) (l : Location) (e : Entry) : Tree := ⟨(l, e) :: (t.erase l).entries⟩

/-- The bytes that a name may have. -/
def nameLimit : Nat := 255

/-- The bytes that a path may have. -/
def pathLimit : Nat := 4095

/-- Follows parts of a path from a directory. -/
def walk (t : Tree) (here : Location) : List String → Except FileError Target
  | [] => .ok (.found here .directory)
  | "." :: parts => t.walk here parts
  | ".." :: parts => t.walk here.dropLast parts
  | name :: parts =>
    let l := here ++ [name]
    if nameLimit < name.utf8ByteSize then .error .nameTooLong
    else
      match t.entry? l with
      | some .directory => t.walk l parts
      | some e => if parts = [] then .ok (.found l e) else .error .notDirectory
      | none => if parts = [] then .ok (.missing l) else .error .notFound

/-- What a path leads to.  A path that ends in a slash leads to no file. -/
def resolve (t : Tree) (p : Path) : Except FileError Target :=
  if p.text.contains '\x00' then .error .invalidName
  else if p.text = "" then .error .notFound
  else if pathLimit < p.text.utf8ByteSize then .error .nameTooLong
  else
    match t.walk [] p.parts with
    | .ok (.found l (.file d)) =>
      if p.endsInSlash then .error .notDirectory else .ok (.found l (.file d))
    | r => r

/-- What stands at a path. -/
def get? (t : Tree) (p : Path) : Option Entry :=
  match t.resolve p with
  | .ok (.found _ e) => some e
  | _ => none

/-! ### Operations -/

def read (t : Tree) (p : Path) : Except FileError (List UInt8) :=
  match t.resolve p with
  | .ok (.found _ (.file d)) => .ok d
  | .ok (.found _ .directory) => .error .isDirectory
  | .ok (.missing _) => .error .notFound
  | .error e => .error e

/-- The location at which a file can be made or replaced. -/
def fileLocation (t : Tree) (p : Path) : Except FileError Location :=
  match t.resolve p with
  | .ok (.found l (.file _)) => .ok l
  | .ok (.found _ .directory) => .error .isDirectory
  | .ok (.missing l) => if p.endsInSlash then .error .isDirectory else .ok l
  | .error e => .error e

/-- The location of a file. -/
def locationOfFile (t : Tree) (p : Path) : Except FileError (Location × List UInt8) :=
  match t.resolve p with
  | .ok (.found l (.file d)) => .ok (l, d)
  | .ok (.found _ .directory) => .error .isDirectory
  | .ok (.missing _) => .error .notFound
  | .error e => .error e

/-- Puts a file of the given bytes at a path. -/
def put (t : Tree) (p : Path) (bytes : List UInt8) : Except FileError Tree := do
  let l ← t.fileLocation p
  return t.insert l (.file bytes)

/-- Moves a file, also in place of a file. -/
def rename (t : Tree) (source target : Path) : Except FileError Tree := do
  let (l, d) ← t.locationOfFile source
  let l' ← t.fileLocation target
  return (t.erase l).insert l' (.file d)

def remove (t : Tree) (p : Path) : Except FileError Tree := do
  let (l, _) ← t.locationOfFile p
  return t.erase l

/-- Makes a directory in one that exists. -/
def makeDirectory (t : Tree) (p : Path) : Except FileError Tree :=
  match t.resolve p with
  | .ok (.found _ _) => .error .alreadyExists
  | .ok (.missing l) => .ok (t.insert l .directory)
  | .error e => .error e

/-- Takes a new tree as the state, if there is one. -/
def commit (change : Tree → Except FileError Tree) : StateM Tree (Except FileError Unit) := fun t =>
  match change t with
  | .ok t => (.ok (), t)
  | .error e => (.error e, t)

/-- Writes as much to a file as the medium takes. -/
def writeOn (medium : Medium) (p : Path) (bytes : List UInt8) :
    StateM Tree (Except FileError Unit) := do
  match medium p bytes with
  | none => commit fun t => t.put p bytes
  | some s =>
    match ← commit fun t => t.put p (bytes.take s.taken) with
    | .ok () => return .error s.error
    | .error e => return .error e

/-- The file system on a medium. -/
abbrev fileSystem (medium : Medium) : FileSystem (StateM Tree) where
  isPresent p := return ((← get).get? p).isSome
  isDirectory p := return (← get).get? p == some .directory
  read p := return (← get).read p
  create p := commit fun t => t.put p []
  write p bytes := writeOn medium p bytes
  rename source target := commit fun t => t.rename source target
  remove p := commit fun t => t.remove p
  makeDirectory p := commit fun t => t.makeDirectory p

instance : FileSystem (StateM Tree) := fileSystem .reliable

/-- The paths of everything in a tree, in order; those of directories end in a slash. -/
def listing (t : Tree) : List String :=
  let line : Location × Entry → String
    | (l, .directory) => "/".intercalate l ++ "/"
    | (l, .file _) => "/".intercalate l
  (t.entries.map line).mergeSort fun a b => decide (a ≤ b)

end Tree

end Mdf
