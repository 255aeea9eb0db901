import Plinth.Lib.FileSystem
import Plinth.Lib.Lookup

/-!
# Keys for logging in

`plinth/modules/ssh/privileged.py`, lines 19 to 40 and 75 to 113. The program runs as root, in the
home directory of somebody else.
-/

namespace Plinth.Ssh

open Effect Python Exception Lookup
open FileSystem (Entry Node File Attributes)

abbrev Tree := Location → Option Entry

structure State where
  tree : Tree
  touched : List Location

abbrev Action := Effect State Exception

structure Passwd where
  pwDir : List Char
  pwGid : Nat

/-- What is there after `mkhomedir_helper`. -/
structure Made where
  succeeded : Bool
  tree : Tree
  touched : List Location

structure Host where
  depth : Nat
  getpwnam : String → Option Passwd
  /-- `grp.getgrnam('admin').gr_mem` -/
  admins : Option (List String)
  isAuthenticatedUser : String → String → Bool
  mkhomedirHelper : String → Tree → Made

/-! ## Errors -/

def PermissionError (message : String) : Exception :=
  ⟨builtin "PermissionError" [.exception, .permissionError], [.str message]⟩

def OSError : Exception :=
  ⟨builtin "OSError" [.exception], []⟩

def NotADirectoryError : Exception :=
  ⟨builtin "NotADirectoryError" [.exception], []⟩

def IsADirectoryError : Exception :=
  ⟨builtin "IsADirectoryError" [.exception], []⟩

def FileExistsError : Exception :=
  ⟨builtin "FileExistsError" [.exception], []⟩

def CalledProcessError : Exception :=
  ⟨⟨"subprocess", "CalledProcessError", "CalledProcessError", [.exception]⟩, []⟩

def osError : Failure → Exception
  | .missing => FileSystem.FileNotFoundError
  | .notADirectory => NotADirectoryError
  | .loop => OSError

/-! ## Files -/

def kind : Entry → Kind
  | .node (.file _) => .file
  | .node (.directory _) => .directory
  | .link target => .link target

def kinds (tree : Tree) : Lookup.Tree :=
  fun location => (tree location).map kind

def withDirectory (tree : Tree) (location : Location) (attributes : Attributes) : Tree :=
  fun other =>
    if other = location then some (.node (.directory attributes))
    else if location <+: other then none
    else tree other

def change (update : Attributes → Attributes) : Node → Node
  | .file file => .file ⟨file.content, update file.attributes⟩
  | .directory attributes => .directory (update attributes)

section Files

variable (host : Host)

def find (tree : Tree) (path : List Char) : Except Exception Location :=
  (walk (kinds tree) host.depth [] path).mapError osError

/-- `os.path.exists` -/
def existsAt (tree : Tree) (path : List Char) : Bool :=
  match find host tree path with
  | .ok location => (tree location).isSome
  | .error _ => false

def put (location : Location) (node : Node) : Action Unit :=
  modify fun s => ⟨Function.update s.tree location (some (.node node)), s.touched ++ [location]⟩

def mkdirAt (tree : Tree) (location : Location) : Action Unit :=
  if (tree location).isSome then throw FileExistsError
  else modify fun s =>
    ⟨withDirectory s.tree location ⟨"root", "root", 0o755⟩, s.touched ++ [location]⟩

def mkdir (path : List Char) : Action Unit := do
  let s ← get
  let location ← lift ((place (kinds s.tree) host.depth [] path).mapError osError)
  mkdirAt s.tree location

/-- `os.path.split` -/
def split (path : List Char) : List Char × List Char :=
  let head := path.rdropWhile (· ≠ '/')
  (if head.all (· = '/') then head else head.rdropWhile (· = '/'), path.rtakeWhile (· ≠ '/'))

def headAndTail (path : List Char) : List Char × List Char :=
  if (split path).2 = [] then split (split path).1 else split path

/-- `os.makedirs`, which goes on in ever shorter paths. -/
def makedirs : Nat → List Char → Action Unit
  | 0, path => mkdir host path
  | length + 1, path => do
      let s ← get
      let (head, tail) := headAndTail path
      if head ≠ [] ∧ tail ≠ [] ∧ existsAt host s.tree head = false then do
        tryCatch (makedirs length head) fun e => when (e.cls ≠ FileExistsError.cls) (throw e)
        when (tail ≠ ['.']) (mkdir host path)
      else mkdir host path

def setAttributesAt (tree : Tree) (update : Attributes → Attributes) (location : Location) :
    Action Unit :=
  match tree location with
  | some (.node node) => put location (change update node)
  | _ => throw FileSystem.FileNotFoundError

def setAttributes (update : Attributes → Attributes) (path : List Char) : Action Unit := do
  let s ← get
  let location ← lift (find host s.tree path)
  setAttributesAt s.tree update location

/-- `shutil.chown` -/
def chown (path : List Char) (user group : String) : Action Unit :=
  setAttributes host (fun attributes => ⟨user, group, attributes.permissions⟩) path

/-- `os.chmod` -/
def chmod (path : List Char) (permissions : Nat) : Action Unit :=
  setAttributes host (fun attributes => ⟨attributes.user, attributes.group, permissions⟩) path

def writeAt (tree : Tree) (text : List Char) (location : Location) : Action Unit :=
  match tree location with
  | some (.node (.directory _)) => throw IsADirectoryError
  | some (.node (.file file)) => put location (.file ⟨text, file.attributes⟩)
  | some (.link _) => throw OSError
  | none => put location (.file ⟨text, ⟨"root", "root", 0o644⟩⟩)

def write (path text : List Char) : Action Unit := do
  let s ← get
  let location ← lift (find host s.tree path)
  writeAt s.tree text location

def readAt (tree : Tree) (location : Location) : Except Exception (List Char) :=
  match tree location with
  | some (.node (.file file)) => .ok (Text.universalNewlines file.content)
  | some (.node (.directory _)) => .error IsADirectoryError
  | some (.link _) => .error OSError
  | none => .error FileSystem.FileNotFoundError

def read (tree : Tree) (path : List Char) : Except Exception (List Char) :=
  find host tree path >>= readAt tree

end Files

/-! ## Users -/

section Users

variable (host : Host)

def validateUser (username password : String) (mustBeAdmin : Bool) : Except Exception Unit :=
  if mustBeAdmin = true ∧ username ∉ host.admins.getD [] then
    .error (PermissionError ("\"" ++ username ++ "\" is not authorized to perform this action"))
  else if host.isAuthenticatedUser username password = false then
    .error (PermissionError "Invalid credentials")
  else .ok ()

def managedUser (username : String) : Except Exception String :=
  match host.getpwnam username with
  | none => .error (KeyError (.str ("getpwnam(): name not found: " ++ username)))
  | some passwd =>
    if passwd.pwGid = 0 then
      .error (ValueError ("User " ++ username ++ " is not managed by FreedomBox"))
    else .ok username

def getUserHomedir (username : String) : Except Exception (List Char) :=
  match host.getpwnam username with
  | none => .error (ValueError "Username not found")
  | some passwd => .ok passwd.pwDir

def mkhomedir (user : String) : Action Unit := do
  let s ← get
  let made := host.mkhomedirHelper user s.tree
  set (⟨made.tree, s.touched ++ made.touched⟩ : State)
  when (made.succeeded = false) (throw CalledProcessError)

end Users

/-! ## Keys -/

section Keys

variable (host : Host)

def ssh : List Char := ".ssh".toList

def authorizedKeys : List Char := "authorized_keys".toList

def sshFolder (homedir : List Char) : List Char :=
  Os.join homedir ssh

def keyFilePath (homedir : List Char) : List Char :=
  Os.join (sshFolder homedir) authorizedKeys

def getKeys (user : String) (tree : Tree) : Except Exception (List Char) := do
  let homedir ← getUserHomedir host user
  match read host tree (keyFilePath homedir) with
  | .ok text => .ok text
  | .error e => if e.isinstance .fileNotFoundError then .ok [] else .error e

def makeFolder (user : String) (folder : List Char) : Action Unit := do
  let s ← get
  when (existsAt host s.tree folder = false) do
    makedirs host folder.length folder
    chown host folder user "users"

def writeKeys (user : String) (keys homedir : List Char) : Action Unit := do
  makeFolder host user (sshFolder homedir)
  write host (keyFilePath homedir) keys
  chown host (keyFilePath homedir) user "users"
  chmod host (keyFilePath homedir) 0o600

def setKeys (user : String) (keys : List Char) (authUser authPassword : String) : Action Unit := do
  lift (validateUser host authUser authPassword (user ≠ authUser))
  let homedir ← lift (getUserHomedir host user)
  mkhomedir host user
  writeKeys host user keys homedir

end Keys

/-! ## What is asked for -/

section Asked

variable (host : Host)

def folderLocation (home : Location) : Location :=
  home ++ [ssh]

def keyLocation (home : Location) : Location :=
  home ++ [ssh, authorizedKeys]

def IsHome (tree : Tree) (user : String) (home : Location) : Prop :=
  ∃ passwd, host.getpwnam user = some passwd ∧ find host tree passwd.pwDir = .ok home

def InHome (tree : Tree) (user : String) (location : Location) : Prop :=
  ∃ home, IsHome host tree user home ∧ home <+: location

/-- What is documented of `mkhomedir_helper`: it makes the home directory of the user. -/
structure MakesHomes : Prop where
  made : ∀ user passwd tree, host.getpwnam user = some passwd →
    (host.mkhomedirHelper user tree).succeeded = true →
    existsAt host (host.mkhomedirHelper user tree).tree passwd.pwDir = true
  inside : ∀ user tree, ∀ location ∈ (host.mkhomedirHelper user tree).touched,
    InHome host (host.mkhomedirHelper user tree).tree user location
  untouched : ∀ user tree location,
    (∀ other ∈ (host.mkhomedirHelper user tree).touched, ¬ other <+: location) →
    (host.mkhomedirHelper user tree).tree location = tree location

/-- The file of a user has these keys, and besides it at most its folder has been made. -/
def OnlyKeys (made : Made) (user : String) (keys : List Char) (s : State) : Prop :=
  ∃ home own, IsHome host made.tree user home ∧ s.touched = made.touched ++ own ∧
    (∀ location ∈ own, location = keyLocation home ∨
      location = folderLocation home ∧ made.tree location = none) ∧
    s.tree (keyLocation home) = some (.node (.file ⟨keys, ⟨user, "users", 0o600⟩⟩))

variable (user : String) (keys : List Char) (authUser authPassword : String) (tree : Tree)

structure StaysWithin : Prop where
  raised : ∀ e s, (setKeys host user keys authUser authPassword).exec ⟨tree, []⟩ = (.error e, s) →
    ∀ location ∈ s.touched, InHome host (host.mkhomedirHelper user tree).tree user location
  returned : ∀ s, (setKeys host user keys authUser authPassword).exec ⟨tree, []⟩ = (.ok (), s) →
    OnlyKeys host (host.mkhomedirHelper user tree) user keys s
  unprivileged : authUser ∉ host.admins.getD [] → ∀ location ∈
    ((setKeys host user keys authUser authPassword).exec ⟨tree, []⟩).2.touched,
    InHome host (host.mkhomedirHelper user tree).tree authUser location
  unmanaged : managedUser host user ≠ .ok user →
    ((setKeys host user keys authUser authPassword).exec ⟨tree, []⟩).2.touched = []
  readBack : ∀ s, (setKeys host user keys authUser authPassword).exec ⟨tree, []⟩ = (.ok (), s) →
    getKeys host user s.tree = .ok keys
  untouched : ∀ location, (∀ other ∈
    ((setKeys host user keys authUser authPassword).exec ⟨tree, []⟩).2.touched,
    ¬ other <+: location) →
    ((setKeys host user keys authUser authPassword).exec ⟨tree, []⟩).2.tree location = tree location

def Denied : Prop :=
  user ≠ authUser ∧ authUser ∉ host.admins.getD [] ∨
    host.isAuthenticatedUser authUser authPassword = false ∨ host.getpwnam user = none

def Blocked (homedir : List Char) : Prop :=
  if existsAt host tree (sshFolder homedir) = true then
    ∀ location, find host tree (keyFilePath homedir) = .ok location →
      kinds tree location = some .directory
  else ∀ home, find host tree homedir = .ok home →
    kinds tree home ≠ some .directory ∨ tree (folderLocation home) ≠ none

def Plain (homedir : List Char) : Prop :=
  ∀ home, find host tree homedir = .ok home → ∀ target,
    tree (folderLocation home) ≠ some (.link target) ∧
      (tree (folderLocation home) ≠ none → tree (keyLocation home) ≠ some (.link target))

/-- What is asked of the account, and of the tree once there is a home directory. -/
def Harmless (passwd : Passwd) (made : Made) : Prop :=
  (made.succeeded = false ∨ Blocked host made.tree passwd.pwDir) ∧
      (passwd.pwGid = 0 → made.touched = []) ∨
    passwd.pwGid ≠ 0 ∧ Plain host made.tree passwd.pwDir ∧ '\r' ∉ keys

end Asked

end Plinth.Ssh
