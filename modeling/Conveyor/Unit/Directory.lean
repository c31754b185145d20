import Conveyor.Path

/-!
# Directories

- `resolvePath`: the absolute path without empty, `.` and `..` parts.
- `resolveWorkspace?`: the absolute path of the directory in which scripts run.
- `tempDirFor`: the temporary directory of a job, named after the job.
- `lookDirectory`: which directories there are to run in.
-/

namespace Conveyor

/-- The parts of a path; `..` takes back the part before it. The parts so far are reversed. -/
def resolveParts (acc : List Text) : List Text → List Text
  | [] => acc.reverse
  | part :: rest =>
    if part = "" || part = "." then resolveParts acc rest
    else if part = ".." then resolveParts acc.tail rest
    else resolveParts (part :: acc) rest

/-- The absolute path of `path`, seen from the directory `base`. -/
def resolvePath (base path : Text) : Text :=
  let parts :=
    if path.toList.head? = some '/' then pathParts path else pathParts base ++ pathParts path
  "/" ++ Text.joinWith "/" (resolveParts [] parts)

/-- The directory from which relative paths are seen. -/
def currentDirectory : Text := "/"

/-- The absolute path of a workspace; none if there is a null character in its path. -/
def resolveWorkspace? (path : Text) : Option Text :=
  if hasNull path then none else some (resolvePath currentDirectory path)

/-- May a character stand in the name of a temporary directory? -/
def isSafe (c : CodePoint) : Bool := c.isAlphanum || c == '_' || c == '.' || c == '-'

/-- The job's id with everything unsafe replaced. -/
def safeName (jobId : Text) : Text :=
  Text.ofList (jobId.toList.map fun c => if isSafe c then c else '_')

/-- The temporary directory of a job. -/
def tempDirFor (jobId : Text) : Text := "/vtmp/pipeline_job_" ++ safeName jobId ++ "_X"

/-- What is found at a path. -/
inductive DirectoryLook where
  | found
  | absent
  /-- The path is longer than the file system allows. -/
  | tooLong
  deriving DecidableEq, Repr

/-- The parts of the directories that are there in a rehearsal, besides the root. -/
def rehearsalDirectories : List (List Text) := [["tmp"]]

/-- Look for a directory below one that is there, part by part. -/
def lookFrom (above : List Text) : List Text → DirectoryLook
  | [] => .found
  | part :: rest =>
    if nameTooLong part then .tooLong
    else if rehearsalDirectories.contains (above ++ [part]) then lookFrom (above ++ [part]) rest
    else .absent

/-- Look for a directory at an absolute path. -/
def lookDirectory (path : Text) : DirectoryLook :=
  if textTooLong path then .tooLong else lookFrom [] ((pathParts path).filter isStep)

end Conveyor
