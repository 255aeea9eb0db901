import Plinth.Lib.Lookup
import Plinth.Lib.Python.Pathlib
import Plinth.Model.Package

/-!
# Configuration files that are dropped in

`plinth/config.py`, lines 80 to 109, and `plinth/privileged/config.py`. A file in `/etc` is a link to
a file that is shipped, or a copy of it. The program runs as root.
-/

namespace Plinth

open Effect Python Exception Lookup

structure DropinConfigs where
  appId : String
  componentId : String
  etcPaths : List (List Char)
  copyOnly : Bool

namespace DropinConfigs

open Pathlib (PurePath)

inductive Entry
  | file (content : Bytes)
  | directory
  | link (target : List Char)
  deriving DecidableEq

abbrev Tree := Location → Option Entry

abbrev Action := Effect Tree Exception

abbrev Apps := String → List DropinConfigs

/-! ## Errors -/

def FileNotFoundError : Exception :=
  ⟨builtin "FileNotFoundError" [.exception, .fileNotFoundError], []⟩

def NotADirectoryError : Exception :=
  ⟨builtin "NotADirectoryError" [.exception], []⟩

def IsADirectoryError : Exception :=
  ⟨builtin "IsADirectoryError" [.exception], []⟩

def FileExistsError : Exception :=
  ⟨builtin "FileExistsError" [.exception], []⟩

def OSError : Exception :=
  ⟨builtin "OSError" [.exception], []⟩

def SameFileError : Exception :=
  ⟨⟨"shutil", "SameFileError", "SameFileError", [.exception]⟩, []⟩

def AssertionError (message : String) : Exception :=
  ⟨builtin "AssertionError" [.exception], [.str message]⟩

def osError : Failure → Exception
  | .missing => FileNotFoundError
  | .notADirectory => NotADirectoryError
  | .loop => OSError

/-! ## Files -/

def kind : Entry → Kind
  | .file _ => .file
  | .directory => .directory
  | .link target => .link target

def kinds (tree : Tree) : Lookup.Tree :=
  fun location => (tree location).map kind

def depth : Nat := 41

def find (tree : Tree) (path : PurePath) : Except Failure Location :=
  walk (kinds tree) depth [] path.text

def locate (tree : Tree) (path : PurePath) : Except Failure Location :=
  place (kinds tree) depth [] path.text

def entryAt (tree : Tree) : Except Failure Location → Option Entry
  | .ok location => tree location
  | .error _ => none

/-- `path.exists()` -/
def «exists» (tree : Tree) (path : PurePath) : Bool :=
  (entryAt tree (find tree path)).isSome

/-- `path.is_dir()` -/
def isDir (tree : Tree) (path : PurePath) : Bool :=
  entryAt tree (find tree path) = some .directory

def content : Option Entry → Option Bytes
  | some (.file content) => some content
  | _ => none

/-- `path.is_file()` -/
def isFile (tree : Tree) (path : PurePath) : Bool :=
  (content (entryAt tree (find tree path))).isSome

def target : Option Entry → Option (List Char)
  | some (.link target) => some target
  | _ => none

/-- `path.is_symlink()` -/
def isSymlink (tree : Tree) (path : PurePath) : Bool :=
  (target (entryAt tree (locate tree path))).isSome

def readlinkOf : Option Entry → Except Exception PurePath
  | some (.link target) => .ok (Pathlib.path target)
  | some _ => .error OSError
  | none => .error FileNotFoundError

/-- `path.readlink()` -/
def readlink (tree : Tree) (path : PurePath) : Except Exception PurePath := do
  let location ← (locate tree path).mapError osError
  readlinkOf (tree location)

def bytesOf : Option Entry → Except Exception Bytes
  | some (.file content) => .ok content
  | some .directory => .error IsADirectoryError
  | some (.link _) => .error OSError
  | none => .error FileNotFoundError

def readBytes (tree : Tree) (path : PurePath) : Except Exception Bytes := do
  let location ← (find tree path).mapError osError
  bytesOf (tree location)

/-- `path.read_text()` -/
def readText (tree : Tree) (path : PurePath) : Except Exception (List Char) := do
  let content ← readBytes tree path
  let text ← decode content
  return Text.universalNewlines text.toList

def put (location : Location) (entry : Option Entry) : Action Unit :=
  modify fun tree => Function.update tree location entry

def unlinkAt (missingOk : Bool) (tree : Tree) : Except Failure Location → Action Unit
  | .ok location =>
    match tree location with
    | none => when (missingOk = false) (throw FileNotFoundError)
    | some .directory => throw IsADirectoryError
    | some _ => put location none
  | .error .missing => when (missingOk = false) (throw FileNotFoundError)
  | .error failure => throw (osError failure)

/-- `path.unlink(missing_ok)` -/
def unlink (missingOk : Bool) (path : PurePath) : Action Unit := do
  let tree ← get
  unlinkAt missingOk tree (locate tree path)

def make (entry : Entry) (path : PurePath) : Action Unit := do
  let tree ← get
  let location ← lift ((locate tree path).mapError osError)
  when ((tree location).isSome = true) (throw FileExistsError)
  put location (some entry)

def tolerate (path : PurePath) (e : Exception) : Action Unit := do
  let tree ← get
  when (e.isinstance .fileNotFoundError = true ∨ isDir tree path = false) (throw e)

/-- `path.mkdir(parents=True, exist_ok=True)`, which goes on in ever shorter paths. -/
def mkdir : Nat → PurePath → Action Unit
  | 0, path => tryCatch (make .directory path) (tolerate path)
  | above + 1, path => tryCatch (make .directory path) fun e =>
    if e.isinstance .fileNotFoundError = true ∧ path.parent ≠ path then do
      mkdir above path.parent
      tryCatch (make .directory path) (tolerate path)
    else tolerate path e

/-- `path.symlink_to(target)` -/
def symlinkTo (path target : PurePath) : Action Unit :=
  make (.link target.text) path

def sameFile (tree : Tree) (src dst : PurePath) : Bool :=
  «exists» tree src && «exists» tree dst && (find tree src).toOption = (find tree dst).toOption

def writeAt (content : Bytes) (tree : Tree) (location : Location) : Action Unit :=
  match tree location with
  | some .directory => throw IsADirectoryError
  | some (.link _) => throw OSError
  | _ => put location (some (.file content))

/-- `shutil.copyfile(src, dst)`, which follows links. -/
def copyfile (src dst : PurePath) : Action Unit := do
  let tree ← get
  when (sameFile tree src dst = true) (throw SameFileError)
  let content ← lift (readBytes tree src)
  let location ← lift ((find tree dst).mapError osError)
  writeAt content tree location

/-! ## The component -/

def ROOT : List Char := ['/']

def DROPIN_CONFIG_ROOT : List Char := "/usr/share/freedombox/".toList

def lstrip (path : List Char) : List Char :=
  Text.lstripChars ['/'] path

def getTargetPath (_self : DropinConfigs) (path : List Char) : PurePath :=
  ((Pathlib.path ROOT).join (Pathlib.path (lstrip DROPIN_CONFIG_ROOT))).join
    (Pathlib.path (lstrip path))

def getEtcPath (_self : DropinConfigs) (path : List Char) : PurePath :=
  (Pathlib.path ROOT).join (Pathlib.path (lstrip path))

def getManagedDropinConfig (apps : Apps) (appId : String) (path : List Char) :
    Except Exception DropinConfigs :=
  match (apps appId).find? (path ∈ ·.etcPaths) with
  | some component => .ok component
  | none => .error (AssertionError "Not a managed drop-in config")

/-- What the file has to be: the link, or a file that reads like the shipped one. -/
def isInPlace (tree : Tree) (etcPath target : PurePath) (copyOnly : Bool) :
    Except Exception Bool :=
  if copyOnly = false then
    if isSymlink tree etcPath = true then do
      let linked ← readlink tree etcPath
      return linked = target
    else .ok false
  else if isFile tree etcPath = true then do
    let text ← readText tree etcPath
    let shipped ← readText tree target
    return text = shipped
  else .ok false

def dropInvalid (etcPath : PurePath) (unlinkInvalid : Bool) : Bool → Action Bool
  | true => return true
  | false => do
      when (unlinkInvalid = true) (unlink true etcPath)
      return false

def dropinIsValid (apps : Apps) (appId : String) (path : List Char) (copyOnly unlinkInvalid : Bool) :
    Action Bool := do
  let component ← lift (getManagedDropinConfig apps appId path)
  let tree ← get
  if «exists» tree (component.getEtcPath path) || isSymlink tree (component.getEtcPath path) then do
    let inPlace ← lift (isInPlace tree (component.getEtcPath path) (component.getTargetPath path)
      copyOnly)
    dropInvalid (component.getEtcPath path) unlinkInvalid inPlace
  else return false

def dropinLink (apps : Apps) (appId : String) (path : List Char) (copyOnly : Bool) :
    Action Unit := do
  let component ← lift (getManagedDropinConfig apps appId path)
  let etcPath := component.getEtcPath path
  mkdir etcPath.parent.parts.length etcPath.parent
  if copyOnly then copyfile (component.getTargetPath path) etcPath
  else symlinkTo etcPath (component.getTargetPath path)

def dropinUnlink (apps : Apps) (appId : String) (path : List Char) (missingOk : Bool) :
    Action Unit := do
  let component ← lift (getManagedDropinConfig apps appId path)
  unlink missingOk (component.getEtcPath path)

def linkInvalid (apps : Apps) (self : DropinConfigs) (path : List Char) : Action Unit := do
  let valid ← dropinIsValid apps self.appId path self.copyOnly true
  when (valid = false) (dropinLink apps self.appId path self.copyOnly)

def enable (apps : Apps) (self : DropinConfigs) : Action Unit :=
  forEach self.etcPaths (linkInvalid apps self)

def disable (apps : Apps) (self : DropinConfigs) : Action Unit :=
  forEach self.etcPaths fun path => dropinUnlink apps self.appId path true

def check (self : DropinConfigs) (path : List Char) (result : Bool) : DiagnosticCheck where
  checkId := "dropin-config-" ++ String.ofList (self.getEtcPath path).text
  description := "Static configuration \x7betc_path\x7d is setup properly"
  result := if result then .passed else .failed
  parameters := [("etc_path", String.ofList (self.getEtcPath path).text)]
  componentId := self.componentId

def diagnose (apps : Apps) (self : DropinConfigs) : Action (List DiagnosticCheck) :=
  self.etcPaths.mapM fun path => do
    let result ← dropinIsValid apps self.appId path self.copyOnly false
    return self.check path result

/-! ## What is asked for -/

def location (path : List Char) : Location :=
  Pathlib.partsOf path

def shippedRoot : Location := ["usr".toList, "share".toList, "freedombox".toList]

/-- Directories stand on the way to the paths in `/etc`, which are themselves none, and a file is
shipped for each. -/
structure Prepared (component : DropinConfigs) (tree : Tree) : Prop where
  root : tree [] = some .directory
  rooted : ∀ location name, tree (location ++ [name]) ≠ none → tree location = some .directory
  inEtc : ∀ path ∈ component.etcPaths, ∃ names, names ≠ [] ∧ location path = "etc".toList :: names
  proper : ∀ path ∈ component.etcPaths, ['.', '.'] ∉ location path
  way : ∀ path ∈ component.etcPaths, ∀ before, before <+: location path → before ≠ location path →
    tree before = none ∨ tree before = some .directory
  plain : ∀ path ∈ component.etcPaths, tree (location path) ≠ some .directory
  shipped : ∀ path ∈ component.etcPaths, ∃ content,
    tree (shippedRoot ++ location path) = some (.file content)

def IsValid (self : DropinConfigs) (tree : Tree) (path : List Char) : Prop :=
  if self.copyOnly then ∃ content, tree (shippedRoot ++ location path) = some (.file content) ∧
    tree (location path) = some (.file content)
  else (∃ text, tree (location path) = some (.link text)) ∧
    find tree (self.getEtcPath path) = .ok (shippedRoot ++ location path)

structure Enabled (apps : Apps) (component : DropinConfigs) (tree : Tree) : Prop where
  valid : ∀ path ∈ component.etcPaths, IsValid component tree path
  diagnosed : ∃ checks, (component.diagnose apps).exec tree = (.ok checks, tree) ∧
    ∀ check ∈ checks, check.result = .passed
  again : (component.enable apps).exec tree = (.ok (), tree)
  disabled : ∃ without, (component.disable apps).exec tree = (.ok (), without) ∧
    ∀ path ∈ component.etcPaths, without (location path) = none

def Converges (apps : Apps) (self : DropinConfigs) (tree : Tree) : Prop :=
  ∃ enabled, (self.enable apps).exec tree = (.ok (), enabled) ∧ Enabled apps self enabled

/-! ## When it is so -/

def install (entry : Entry) (tree : Tree) (path : List Char) : Tree := fun other =>
  if other = location path then some entry
  else if other <+: location path then some .directory
  else tree other

def LinksTo (self : DropinConfigs) (tree : Tree) (path text : List Char) : Prop :=
  tree (location path) = some (.link text) ∧ Pathlib.path text = self.getTargetPath path

instance (self : DropinConfigs) (tree : Tree) (path : List Char) :
    Decidable (∃ text, LinksTo self tree path text) :=
  decidable_of_iff (∃ text ∈ target (tree (location path)),
      Pathlib.path text = self.getTargetPath path) <| by
    constructor
    · rintro ⟨text, linked, same⟩
      refine ⟨text, ?_, same⟩
      revert linked
      rcases tree (location path) with _ | _ | _ | _ <;> simp [target]
    · rintro ⟨text, linked, same⟩
      exact ⟨text, by simp [linked, target], same⟩

def settle (self : DropinConfigs) (tree : Tree) (path : List Char) : Tree :=
  if self.copyOnly then match tree (shippedRoot ++ location path) with
    | some entry => install entry tree path
    | none => tree
  else if ∃ text, LinksTo self tree path text then tree
  else install (.link (self.getTargetPath path).text) tree path

def textOf (content : Bytes) : Option (List Char) :=
  (decodeUtf8 content).map fun text => Text.universalNewlines text.toList

/-- For a copy, what is shipped is text, and so is a file that the path leads to; one with the same
text is a copy already. A link to what is shipped does not end in a slash or a dot. -/
def Fits (self : DropinConfigs) (tree : Tree) (path : List Char) : Prop :=
  if self.copyOnly then ∃ shipped text,
    tree (shippedRoot ++ location path) = some (.file shipped) ∧ textOf shipped = some text ∧
    ∀ found, content (entryAt tree (find tree (self.getEtcPath path))) = some found →
      ∃ text', textOf found = some text' ∧
        (text' = text → tree (location path) = some (.file shipped))
  else ∀ text, LinksTo self tree path text → lastName text ≠ [] ∧ lastName text ≠ ['.']

def AllFit (self : DropinConfigs) : Tree → List (List Char) → Prop
  | _, [] => True
  | tree, path :: paths => Fits self tree path ∧ AllFit self (settle self tree path) paths

end DropinConfigs

end Plinth
