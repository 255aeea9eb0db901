import Plinth.Lib.Python.Text
import Plinth.Model.Actions

/-!
# Import paths of modules

`plinth/module_loader.py`: the files that name the modules to be loaded, and the file in which
the path of a module that a request names is looked up.
-/

namespace Plinth.ModuleLoader

open Python Exception

abbrev Path := List (List Char)

inductive Node
  | file (lines : List (List Char))
  | unreadable (e : Exception)
  | brokenLink
  /-- a symbolic link to `/dev/null` -/
  | nullLink

/-- `_get_modules_enabled_paths` -/
inductive Location
  | usrShare
  | etcPlinth
  | etcFreedombox
  deriving DecidableEq, Repr

def locations : List Location := [.usrShare, .etcPlinth, .etcFreedombox]

def Location.path : Location → Path
  | .usrShare => ["usr".toList, "share".toList, "freedombox".toList, "modules-enabled".toList]
  | .etcPlinth => ["etc".toList, "plinth".toList, "modules-enabled".toList]
  | .etcFreedombox => ["etc".toList, "freedombox".toList, "modules-enabled".toList]

def IsFileName (name : List Char) : Prop :=
  name ≠ [] ∧ '/' ∉ name ∧ name ≠ ".".toList ∧ name ≠ "..".toList

structure FileSystem where
  node : Path → Option Node
  /-- `directory.glob('*')`, in its order -/
  glob : Location → List (List Char)
  listed : ∀ location name, name ∈ glob location ↔
    IsFileName name ∧ (node (location.path ++ [name])).isSome = true
  /-- the directory of the package `plinth` -/
  package : Path
  /-- the files that match `modules/*/data/usr/share/freedombox/modules-enabled/*` in it -/
  development : List Path

/-! ## Paths -/

def segments (path : List Char) : Path :=
  (path.splitOn '/').filter fun segment => segment ≠ [] ∧ segment ≠ ".".toList

/-- `directory / name` -/
def join (directory : Path) (name : List Char) : Path :=
  if name.head? = some '/' then segments name else directory ++ segments name

def developmentFile (fs : FileSystem) (name : List Char) : Path :=
  fs.package ++ segments ("modules/".toList ++ name ++
    "/data/usr/share/freedombox/modules-enabled/".toList ++ name)

def FileNotFoundError : Exception :=
  ⟨builtin "FileNotFoundError" [.exception, .fileNotFoundError],
    [.int 2, .str "No such file or directory"]⟩

/-! ## Files -/

def content (line : List Char) : List Char :=
  Text.strip (line.takeWhile (· ≠ '#'))

def readModuleImportPathsFromFile (fs : FileSystem) (path : Path) :
    Except Exception (Option (List Char)) :=
  match fs.node path with
  | some (.file lines) => .ok ((lines.map content).find? (· ≠ []))
  | some (.unreadable e) => .error e
  | some .nullLink => .ok none
  | some .brokenLink | none => .error FileNotFoundError

/-! ## Loading -/

def isHidden (name : List Char) : Bool :=
  ".".toList.isPrefixOf name ∨ ".dpkg".toList <:+: name

def addFile (fs : FileSystem) (location : Location) (moduleFiles : OrderedDict (List Char) Path)
    (name : List Char) : OrderedDict (List Char) Path :=
  if isHidden name then moduleFiles
  else
    match fs.node (location.path ++ [name]) with
    | some .nullLink => moduleFiles.erase name
    | _ => moduleFiles.set name (location.path ++ [name])

def moduleFiles (fs : FileSystem) : OrderedDict (List Char) Path :=
  locations.foldl (fun files location => (fs.glob location).foldl (addFile fs location) files) .empty

def getModulesEnabledFilesToRead (fs : FileSystem) : List Path :=
  if (moduleFiles fs).entries = [] then fs.development else (moduleFiles fs).values

def getModulesToLoad (fs : FileSystem) : Except Exception (List (List Char)) := do
  let modules ← (getModulesEnabledFilesToRead fs).mapM (readModuleImportPathsFromFile fs)
  return modules.filterMap id

/-! ## Resolution -/

def selectFile (fs : FileSystem) (name : List Char) (importPathFile : Option Path)
    (location : Location) : Option Path :=
  let file := join location.path name
  match fs.node file with
  | some (.file _) | some (.unreadable _) => some file
  | some .nullLink => none
  | some .brokenLink | none => importPathFile

def getModuleImportPath (fs : FileSystem) (name : List Char) : Except Exception (List Char) := do
  let importPathFile := (locations.foldl (selectFile fs name) none).getD (developmentFile fs name)
  match ← readModuleImportPathsFromFile fs importPathFile with
  | none => throw (ValueError "Module disabled")
  | some importPath => return importPath

def daemon (env : Actions.Environment) (fs : FileSystem) : Actions.Environment :=
  { env with getModuleImportPath := fun name =>
      String.ofList <$> getModuleImportPath fs name.toList }

end Plinth.ModuleLoader
