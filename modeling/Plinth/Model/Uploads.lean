import Plinth.Lib.FileSystem
import Plinth.Lib.Python.Os

/-!
# Uploaded files

`move_uploaded_file` of `plinth/action_utils.py`: a file that was uploaded is moved to where an app
keeps it.
-/

namespace Plinth.Uploads

open Python Exception FileSystem

/-! ## The machine -/

/-- The failures of the machine are given beforehand. A copy that fails leaves nothing, or the
file as far as it was written. -/
structure Host where
  depth : Nat
  fileUploadTempDir : List Char
  renames : Bool
  copyFault : Option (Option File × Exception)
  unlinkFault : Option Exception
  chownFault : Option Exception
  chmodFault : Option Exception

structure Upload where
  source : List Char
  destinationDir : List Char
  destinationFileName : List Char
  allowOverwrite : Bool := false
  user : String := "root"
  group : String := "root"
  permissions : Nat := 0o644

abbrev Action := Effect FileSystem Exception

def OSError : Exception :=
  ⟨builtin "OSError" [.exception], []⟩

def FileExistsError (message : String) : Exception :=
  ⟨builtin "FileExistsError" [.exception], [.str message]⟩

def ShutilError (message : String) : Exception :=
  ⟨⟨"shutil", "Error", "Error", [.exception]⟩, [.str message]⟩

def SameFileError : Exception :=
  ⟨⟨"shutil", "SameFileError", "SameFileError", [.exception]⟩, []⟩

/-! ## Paths -/

/-- `pathlib.Path(path).parts` -/
def parts (path : List Char) : List (List Char) :=
  let root := Os.initialSlashes path
  let names := (path.splitOn '/').filter fun name => name ≠ [] ∧ name ≠ ['.']
  if root = [] then names else root :: names

/-- Where `destination_dir / destination_file_name` leads to, whose directory is resolved. -/
def destination (destinationDir : Location) (fileName : List Char) : Location :=
  (fileName.splitOn '/').foldl (Path.resolveStep '.')
    (if fileName.head? = some '/' then [] else destinationDir)

def basename (location : Location) : List Char :=
  location.getLastD []

/-! ## Steps -/

variable (host : Host)

def rename (source target : Location) : Action Unit := do
  match (← get).entry source with
  | some (.node node) => modify fun fs => (fs.put source none).put target (some node)
  | _ => throw OSError

/-- The file that `shutil.copy2` leaves, which keeps the owner of the one it writes to. -/
def copied (file : File) (there : Option File) : File :=
  match there with
  | none => ⟨file.content, "root", "root", file.attributes.permissions⟩
  | some old =>
    ⟨file.content, old.attributes.user, old.attributes.group, file.attributes.permissions⟩

def write (target : Location) (file : File) (there : Option File) : Action Unit :=
  match host.copyFault with
  | none => modify (·.put target (some (.file (copied file there))))
  | some (none, exception) => throw exception
  | some (some left, exception) => do
      modify (·.put target (some (.file left)))
      throw exception

def copyTo (fs : FileSystem) (source : Location) (file : File) (target : Location) : Action Unit :=
  if target = source then throw SameFileError
  else match fs.entry target with
    | none => write host target file none
    | some (.node (.file old)) => write host target file (some old)
    | _ => throw OSError

/-- `shutil.copy2` to what is not a directory -/
def copy2 (source : Location) (file : File) (realDestination : Location) : Action Unit := do
  let fs ← get
  let target ← Effect.lift (fs.follow host.depth realDestination)
  copyTo host fs source file target

def unlink (source : Location) : Action Unit :=
  match host.unlinkFault with
  | none => modify (·.put source none)
  | some exception => throw exception

/-- Where `shutil.move` moves to: into a directory. -/
def realDestination (fs : FileSystem) (source destination : Location) :
    Except Exception Location :=
  if fs.isDir host.depth destination = true then do
    let directory ← fs.follow host.depth destination
    if fs.existsAt host.depth (directory ++ [basename source]) = true then
      .error (ShutilError "Destination path already exists")
    else .ok (directory ++ [basename source])
  else .ok destination

def moveTo (source : Location) (file : File) (real : Location) : Action Unit :=
  if host.renames = true then rename source real
  else do
    copy2 host source file real
    unlink host source

/-- `shutil.move` of a file -/
def move (source : Location) (file : File) (destination : Location) : Action Unit := do
  let real ← Effect.lift (realDestination host (← get) source destination)
  moveTo host source file real

def setAttributes (change : Attributes → Attributes) (location : Location) : Action Unit := do
  let fs ← get
  let target ← Effect.lift (fs.follow host.depth location)
  match fs.entry target with
  | some (.node (.file file)) =>
    set (fs.put target (some (.file ⟨file.content, change file.attributes⟩)))
  | some (.node (.directory attributes)) =>
    set (fs.put target (some (.directory (change attributes))))
  | _ => throw FileSystem.FileNotFoundError

/-- `shutil.chown` -/
def chown (user group : String) (destination : Location) : Action Unit :=
  match host.chownFault with
  | none => setAttributes host (fun a => ⟨user, group, a.permissions⟩) destination
  | some exception => throw exception

def chmod (permissions : Nat) (destination : Location) : Action Unit :=
  match host.chmodFault with
  | none => setAttributes host (fun a => ⟨a.user, a.group, permissions⟩) destination
  | some exception => throw exception

/-! ## `move_uploaded_file` -/

/-- The checks of resolved paths, and the file and the destination that they find. -/
def verifyLocations (upload : Upload) (fs : FileSystem) (source destinationDir : Location) :
    Except Exception (File × Location) :=
  let destination := destination destinationDir upload.destinationFileName
  match fs.stat host.depth source with
  | some (.file file) =>
    if ¬ parts host.fileUploadTempDir <+: ['/'] :: source then
      .error (ValueError "Uploaded file is not in expected temp directory")
    else if fs.isDir host.depth destinationDir = false then
      .error (ValueError "Destination is not a directory")
    else if (parts upload.destinationFileName).length ≠ 1 then
      .error (ValueError "Invalid destination file name")
    else if fs.existsAt host.depth destination = true ∧ upload.allowOverwrite = false then
      .error (FileExistsError "Destination already exists")
    else .ok (file, destination)
  | _ => .error (ValueError "Source is not a file")

def verify (upload : Upload) (fs : FileSystem) : Except Exception (Location × File × Location) := do
  let source ← fs.resolve true host.depth upload.source
  let destinationDir ← fs.resolve false host.depth upload.destinationDir
  let (file, destination) ← verifyLocations host upload fs source destinationDir
  return (source, file, destination)

def moveUploadedFile (upload : Upload) : Action Unit := do
  let (source, file, destination) ← Effect.lift (verify host upload (← get))
  move host source file destination
  chown host upload.user upload.group destination
  chmod host upload.permissions destination

/-- What `add_uploaded_archive` of the backups app moves. -/
def uploadedArchive (fileName temporaryFilePath : List Char) : Upload where
  source := temporaryFilePath
  destinationDir := "/var/lib/freedombox/backups-upload/".toList
  destinationFileName := fileName
  allowOverwrite := true
  permissions := 0o600

end Plinth.Uploads
