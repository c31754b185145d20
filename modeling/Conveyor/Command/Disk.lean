import Conveyor.Fault
import Conveyor.Path
import Conveyor.Store.Basic
import Conveyor.Unit.Directory

/-!
# The disk

The files that commands read and write: documents, and the databases of run histories.

- `Disk`: directories and files by their absolute paths, and the directory that relative paths
  refer to.
- `Disk.readFile`: the bytes of a file.
- `Disk.makeDirectories`: create a directory with everything above it.
- `Disk.openStore`, `Disk.saveStore`: the run history in a file.
-/

namespace Conveyor

/-- What is in a file. -/
inductive DiskFile where
  | plain (bytes : List UInt8)
  | history (store : Store)
  deriving DecidableEq, Repr

/-- Directories and files. -/
structure Disk where
  /-- The directory that relative paths refer to. -/
  base : Text
  directories : List Text
  files : List (Text × DiskFile)
  deriving DecidableEq, Repr

/-- Why a path leads nowhere. -/
inductive PathFault where
  | missing
  /-- A file stands where a directory is needed. -/
  | notDirectory
  /-- A directory stands where a file is needed. -/
  | isDirectory
  /-- A file stands where a directory is to be created. -/
  | occupied
  /-- The path, or a name in it, is longer than the file system allows. -/
  | tooLong
  /-- There is a null character in the path. -/
  | null
  deriving DecidableEq, Repr

/-- What is wrong with a path, in words. -/
def PathFault.message (path : Text) : PathFault → Text
  | .missing => "[Errno 2] No such file or directory: " ++ Text.quoted path
  | .notDirectory => "[Errno 20] Not a directory: " ++ Text.quoted path
  | .isDirectory => "[Errno 21] Is a directory: " ++ Text.quoted path
  | .occupied => "[Errno 17] File exists: " ++ Text.quoted path
  | .tooLong => tooLongPathMessage path
  | .null => nullMessage

/-- Why a file holds no run history that can be used. -/
inductive OpenFault where
  | cannotOpen
  | notADatabase
  /-- There is a null character in the path. -/
  | null
  deriving DecidableEq, Repr

/-- Why a history cannot be used, in words. -/
def OpenFault.message : OpenFault → Text
  | .cannotOpen => "unable to open database file"
  | .notADatabase => "file is not a database"
  | .null => nullMessage

/-- The path of something in a directory. -/
def inDirectory (directory name : Text) : Text :=
  if directory = "/" then "/" ++ name else directory ++ "/" ++ name

namespace Disk

/-! ## Reading -/

/-- The file at an absolute path. -/
def file? (d : Disk) (path : Text) : Option DiskFile := (d.files.find? fun f => f.1 = path).map
  Prod.snd

/-- Is there a directory at an absolute path? -/
def hasDirectory (d : Disk) (path : Text) : Bool := path = "/" || d.directories.contains path

/-- The directory that something at an absolute path is in. -/
def directoryOf (place : Text) : Text := (Path.read place).parent.text

/-- Follow the parts of a path from a place that is there, up to the place it leads to. -/
def follow (d : Disk) (place : Text) : List Text → Except PathFault Text
  | [] => .ok place
  | part :: rest =>
    if d.hasDirectory place then
      if part = ".." then follow d (directoryOf place) rest
      else if nameTooLong part then .error .tooLong
      else
        let next := inDirectory place part
        if d.hasDirectory next || (d.file? next).isSome then follow d next rest
        else .error .missing
    else .error .notDirectory

/-- Where a path is followed from. -/
def origin (d : Disk) (p : Path) : Text := if p.isAbsolute then "/" else d.base

/-- The absolute path of something that is there. -/
def locate (d : Disk) (p : Path) : Except PathFault Text :=
  if hasNull p.text then .error .null
  else if textTooLong p.text then .error .tooLong
  else d.follow (d.origin p) p.parts

/-- The bytes of a file. A run history is none that anyone else can read. -/
def readFile (d : Disk) (p : Path) : Except PathFault (List UInt8) := do
  let place ← d.locate p
  match d.file? place with
  | some (.plain bytes) => .ok bytes
  | some (.history _) => .ok []
  | none => .error .isDirectory

/-! ## Writing -/

/-- Create a directory in one that is there, unless it is there itself. -/
def makeDirectory (d : Disk) (p : Path) : Except PathFault Disk := do
  let above ← d.locate p.parent
  match p.parts.getLast? with
  | none => .ok d
  | some name =>
    if !d.hasDirectory above then .error .notDirectory
    else if name = ".." then .ok d
    else if nameTooLong name then .error .tooLong
    else
      let place := inDirectory above name
      if d.hasDirectory place then .ok d
      else if (d.file? place).isSome then .error .occupied
      else .ok { d with directories := d.directories ++ [place] }

/-- Create a directory, and first the one above it if that is missing. `depth` bounds how far
up. -/
def makeUpwards : (depth : Nat) → Disk → Path → Except PathFault Disk
  | 0, d, p => d.makeDirectory p
  | depth + 1, d, p =>
    match d.makeDirectory p with
    | .error .missing => do (← makeUpwards depth d p.parent).makeDirectory p
    | answer => answer

/-- Create a directory with everything above it, unless it is there. -/
def makeDirectories (d : Disk) (p : Path) : Except PathFault Disk :=
  if hasNull p.text then .error .null
  else if textTooLong p.text then .error .tooLong
  else makeUpwards p.parts.length d p

/-- A disk with one more file, in directories made for it. -/
def addFile (d : Disk) (path : Text) (bytes : List UInt8) : Disk :=
  let place := resolvePath d.base path
  match d.makeDirectories (Path.read place).parent with
  | .ok d' => { d' with files := d'.files ++ [(place, .plain bytes)] }
  | .error _ => d

/-! ## Run histories -/

/-- Does the path stand for a history that is gone when it is closed? -/
def isTransient (path : Text) : Bool := path = "" || path = ":memory:"

/-- The most bytes that the absolute path of a run history may have: that of its journal, which
is eight bytes longer, must fit into 512. -/
def maxHistoryPathBytes : Nat := 504

/-- Can a path to a run history be followed? `..` takes back the part before it, whether that is
there or not; but nothing is looked for below a file, or under a name that is too long. -/
def canFollow (d : Disk) (place : Text) : List Text → Bool
  | [] => place.byteSize ≤ maxHistoryPathBytes
  | part :: rest =>
    if part = ".." then canFollow d (directoryOf place) rest
    else if d.hasDirectory place then
      !nameTooLong part && canFollow d (inDirectory place part) rest
    else !(d.file? place).isSome && canFollow d (inDirectory place part) rest

/-- The run history in a file, with its tables. -/
def openStore (d : Disk) (path : Text) : Except OpenFault Store :=
  if isTransient path then .ok Store.empty.createTables
  else if hasNull path then .error .null
  else
    let p := Path.read path
    let place := resolvePath d.base path
    if !d.canFollow (d.origin p) p.parts then .error .cannotOpen
    else if d.hasDirectory place || !d.hasDirectory (directoryOf place) then .error .cannotOpen
    else
      match d.file? place with
      | some (.history s) => .ok s.reopen.createTables
      | some (.plain []) => .ok Store.empty.createTables
      | some (.plain _) => .error .notADatabase
      | none => .ok Store.empty.createTables

/-- Close a run history: what was committed stays in the file. -/
def saveStore (d : Disk) (path : Text) (s : Store) : Disk :=
  if isTransient path then d
  else
    let place := resolvePath d.base path
    { d with files := (place, .history s.reopen) :: d.files.filter fun f => f.1 ≠ place }

end Disk

end Conveyor
