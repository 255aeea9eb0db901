import Mathlib.Data.List.Dedup
import Plinth.Lib.Python.Text
import Plinth.Lib.Python.Value

/-!
# Prompts for configuration files

`plinth/privileged/packages.py`: which configuration files keep packages from being upgraded. The
hashes that dpkg recorded, those of the files on disk and those of the downloaded packages are
compared.
-/

namespace Plinth.Package.Conffiles

open Python Exception

abbrev Path := List Char

abbrev Hash := List Char

abbrev Hashes := OrderedDict Path Hash

structure Section where
  package : Option String
  conffiles : Option (List Char)
  version : Option String

inductive OnDisk
  | missing
  | unreadable
  | file (content : Bytes)
  deriving DecidableEq

inductive Skipped
  | lookupError
  | aptError
  | valueError
  deriving DecidableEq

structure DebFile where
  package : Option String
  version : Option String
  conffiles : Option Bytes
  data : Path → Option Bytes

structure System where
  md5sum : Bytes → Hash
  status : List Section
  disk : Path → OnDisk
  /-- `apt_inst.DebFile` of each file that `_download_packages` returns -/
  download : Except Exception (List (Except Skipped DebFile))

structure PackageInfo where
  currentVersion : Option String
  newVersion : Option String
  modifiedConffiles : List Path

/-! ## Installed packages -/

def parseLine (conffiles : Hashes) (line : List Char) : Except Exception Hashes :=
  let parts := Text.words (Text.strip line)
  if parts[2]? = some "obsolete".toList then .ok conffiles
  else
    match parts with
    | filePath :: md5sum :: _ =>
      if md5sum = "newconffile".toList then .ok conffiles
      else .ok (conffiles.set filePath md5sum)
    | _ => .error (IndexError "list index out of range")

def parseConffilesValue (value : List Char) : Except Exception Hashes :=
  (Text.splitlines value).foldlM parseLine OrderedDict.empty

abbrev Status := OrderedDict String Hashes × OrderedDict String (Option String)

def addSection (packages : List String) (status : Status) (stanza : Section) :
    Except Exception Status :=
  match stanza.package with
  | some package =>
    if package ∈ packages then do
      let hashes ← parseConffilesValue (stanza.conffiles.getD [])
      return (status.1.set package hashes, status.2.set package stanza.version)
    else .ok status
  | none => .ok status

def getConffileHashesFromStatusFile (packages : List String) (sections : List Section) :
    Except Exception Status :=
  sections.foldlM (addSection packages) (OrderedDict.empty, OrderedDict.empty)

section System

variable (system : System)

def getConffileHash (conffile : Path) : Option Hash :=
  match system.disk conffile with
  | .file content => some (system.md5sum content)
  | _ => none

def systemHashes (hashes : Hashes) : OrderedDict Path (Option Hash) :=
  hashes.entries.foldl (fun systemHashes entry =>
    let systemMd5sum := getConffileHash system entry.1
    if some entry.2 ≠ systemMd5sum then systemHashes.set entry.1 systemMd5sum
    else systemHashes) OrderedDict.empty

def filterMatchingPackageHashes (packageHashes : OrderedDict String Hashes) :
    OrderedDict String (OrderedDict Path (Option Hash)) :=
  packageHashes.entries.foldl (fun mismatchedHashes entry =>
    if (systemHashes system entry.2).entries ≠ [] then
      mismatchedHashes.set entry.1 (systemHashes system entry.2)
    else mismatchedHashes) OrderedDict.empty

/-! ## Downloaded packages -/

def addHash (statusHashes : Hashes) (mismatchedHashes : OrderedDict Path (Option Hash))
    (debFile : DebFile) (hashes : Hashes) (conffile : Path) : Except Skipped Hashes :=
  if conffile ∈ statusHashes.keys ∧ conffile ∉ mismatchedHashes.keys then .ok hashes
  else
    match debFile.data (Text.lstripChars ['/'] conffile) with
    | some conffileData => .ok (hashes.set conffile (system.md5sum conffileData))
    | none => .error .lookupError

def required {α : Type} (value : Option α) : Except Skipped α :=
  match value with
  | some a => .ok a
  | none => .error .lookupError

def decodeConffiles (content : Bytes) : Except Skipped (List Path) :=
  match decode content with
  | .ok text => .ok (Text.words (Text.strip text.toList))
  | .error _ => .error .valueError

def getConffileHashesFromDownloadedFile (packages : List String)
    (statusHashes : OrderedDict String Hashes)
    (mismatchedHashes : OrderedDict String (OrderedDict Path (Option Hash)))
    (downloadedFile : Except Skipped DebFile) : Except Skipped (String × Hashes × String) := do
  let debFile ← downloadedFile
  let packageName ← required debFile.package
  if packageName ∉ packages then throw .valueError
  let newVersion ← required debFile.version
  let conffiles ← decodeConffiles (← required debFile.conffiles)
  let statusHashes := (statusHashes.get? packageName).getD OrderedDict.empty
  let mismatchedHashes := (mismatchedHashes.get? packageName).getD OrderedDict.empty
  let hashes ← conffiles.foldlM (addHash system statusHashes mismatchedHashes debFile)
    OrderedDict.empty
  return (packageName, hashes, newVersion)

abbrev Downloaded := OrderedDict String Hashes × OrderedDict String String

def getConffileHashesFromDownloadedFiles (packages : List String)
    (downloadedFiles : List (Except Skipped DebFile)) (statusHashes : OrderedDict String Hashes)
    (mismatchedHashes : OrderedDict String (OrderedDict Path (Option Hash))) : Downloaded :=
  downloadedFiles.foldl (fun new downloadedFile =>
    match getConffileHashesFromDownloadedFile system packages statusHashes mismatchedHashes
      downloadedFile with
    | .ok (packageName, hashes, newVersion) =>
      (new.1.set packageName hashes, new.2.set packageName newVersion)
    | .error _ => new) (OrderedDict.empty, OrderedDict.empty)

/-! ## Comparison -/

def getModifiedConffiles (statusHashes : Hashes)
    (mismatchedHashes : OrderedDict Path (Option Hash)) (newPackageHashes : Hashes) : List Path :=
  (mismatchedHashes.keys.filter fun conffile =>
    conffile ∈ newPackageHashes.keys ∧
      statusHashes.get? conffile ≠ newPackageHashes.get? conffile) ++
  (newPackageHashes.entries.filter fun entry =>
    entry.1 ∉ statusHashes.keys ∧ system.disk entry.1 ≠ .missing ∧
      getConffileHash system entry.1 ≠ some entry.2).map Prod.fst

def filterConffilePackages (packagesList : List String) :
    Except Exception (OrderedDict String PackageInfo) := do
  let packages := packagesList.dedup
  let (statusHashes, currentVersions) ← getConffileHashesFromStatusFile packages system.status
  let mismatchedHashes := filterMatchingPackageHashes system statusHashes
  let downloadedFiles ← system.download
  let (newPackageHashes, newVersions) := getConffileHashesFromDownloadedFiles system packages
    downloadedFiles statusHashes mismatchedHashes
  return packages.foldl (fun packagesInfo package =>
    let modifiedConffiles := getModifiedConffiles system
      ((statusHashes.get? package).getD OrderedDict.empty)
      ((mismatchedHashes.get? package).getD OrderedDict.empty)
      ((newPackageHashes.get? package).getD OrderedDict.empty)
    if modifiedConffiles = [] then packagesInfo
    else packagesInfo.set package
      { currentVersion := (currentVersions.get? package).join
        newVersion := newVersions.get? package
        modifiedConffiles }) OrderedDict.empty

end System

end Plinth.Package.Conffiles
