import Plinth.Lib.Effect
import Plinth.Lib.Python.Os
import Plinth.Lib.Python.Value

/-!
# Privileged actions of the backups app

`restore_exported_archive`, and the comment in `create_archive`, of
`plinth/modules/backups/privileged.py`.
-/

namespace Plinth.Backups

structure TarInfo where
  name : String
  deriving DecidableEq, Repr

def startswith (path directory : String) : Bool :=
  directory.toList.isPrefixOf path.toList

def TarInfo.path (member : TarInfo) : String :=
  "/" ++ member.name

def restoreExportedArchive (directories files : List String) : List TarInfo → List TarInfo
  | [] => []
  | member :: rest =>
    if member.path ∈ files then member :: restoreExportedArchive directories files rest
    else if directories.any (startswith member.path ·) then
      member :: restoreExportedArchive directories files rest
    else restoreExportedArchive directories files rest

/-! ## Comments -/

/-- `text.replace(c + c, c)` -/
def undoubled (c : Char) : List Char → List Char
  | a :: b :: rest => if a = c ∧ b = c then c :: undoubled c rest else a :: undoubled c (b :: rest)
  | text => text

/-- What `create_archive` makes of a comment for borg before 1.1.10. -/
def unescapeBraces (comment : String) : String :=
  String.ofList (undoubled '\x7d' (undoubled '\x7b' comment.toList))

/-- The comment that `create_archive` gives to borg, if any; `placeholders` from borg 1.1.10 on. -/
def borgComment (placeholders : Bool) (comment : String) : Option String :=
  if comment = "" then none
  else some (if placeholders then comment else unescapeBraces comment)

end Plinth.Backups

/-!
## Restoring from a repository

`_extract` and `restore_archive` of `plinth/modules/backups/privileged.py`. The archive is given by
the paths of its members; what `borg extract` does with it is a parameter.
-/

namespace Plinth.Backups

open Effect Python Exception

abbrev Member := List (List Char)

/-- A process of `borg extract`. -/
structure Extraction where
  members : List Member
  returncode : Int
  /-- `process.stderr.decode()` -/
  stderr : Except Exception String

structure Host where
  cwd : List Char
  absolute : cwd.head? = some '/'
  expanduser : String → String
  chdir : String → Except Exception Unit
  borgExtract : List Member → List (List Char) → Extraction
  whole : ∀ archive, (borgExtract archive []).members = archive
  chosen : ∀ archive paths, paths ≠ [] → ∀ member, member ∈ (borgExtract archive paths).members ↔
    member ∈ archive ∧ ∃ path ∈ paths, Path.components '/' '.' path <+: member

def CalledProcessError (returncode : Int) (command : List String) : Exception :=
  ⟨⟨"subprocess", "CalledProcessError", "CalledProcessError", [.exception]⟩,
    [.int returncode, .list (command.map .str)]⟩

abbrev Extracting := Effect (List Member) Exception

def extract (host : Host) (archive : List Member) (archivePath destination : String)
    (locations : Option (List (List Char))) : Extracting Unit :=
  tryFinally
    (do
      lift (host.chdir (host.expanduser destination))
      let process := host.borgExtract archive (locations.getD [])
      modify (· ++ process.members)
      when (process.returncode ≠ 0) do
        let error ← lift process.stderr
        -- Borg complains when no file is matched.
        when (¬ "never matched".toList <:+: error.toList) do
          throw (CalledProcessError process.returncode
            (["borg", "extract", archivePath] ++ (locations.getD []).map String.ofList)))
    (lift (host.chdir (String.ofList host.cwd)))

/-- `os.path.relpath(location, '/')` -/
def Host.relpath (host : Host) (location : String) : Except Exception (List Char) :=
  match Os.relpath host.cwd location.toList ['/'] with
  | some path => .ok path
  | none => .error (ValueError "no path specified")

def restoreArchive (host : Host) (archive : List Member) (archivePath destination : String)
    (directories files : List String) : Extracting Unit := do
  let locationsAll ← lift ((directories ++ files).mapM host.relpath)
  extract host archive archivePath destination (some locationsAll)

end Plinth.Backups
