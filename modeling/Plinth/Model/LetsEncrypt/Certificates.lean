import Plinth.Lib.FileSystem
import Plinth.Lib.Python.Pathlib

/-!
# Certificates of apps

`copy_certificate` and `compare_certificate` of `plinth/modules/letsencrypt/privileged.py`. Which
locations are read and written is kept beside the file system. A byte is a character.
-/

namespace Plinth.LetsEncrypt.Certificates

open Python Exception Pathlib FileSystem

abbrev Text := List Char

/-! ## Components -/

inductive Piece
  | char (c : Char)
  | domain
  deriving DecidableEq

structure Template where
  pieces : List Piece
  noBraces : ∀ c, .char c ∈ pieces → c ≠ '\x7b' ∧ c ≠ '\x7d'

namespace Template

def Piece.shown (domain : Text) : Piece → Text
  | .char c => [c]
  | .domain => domain

def placeholder : Text := "{domain}".toList

def text (template : Template) : Text :=
  template.pieces.flatMap (Piece.shown placeholder)

/-- `path.format(domain=domain)` -/
def format (template : Template) (domain : Text) : Text :=
  template.pieces.flatMap (Piece.shown domain)

/-- `'{domain}' in path` -/
def HasDomain (template : Template) : Prop :=
  .domain ∈ template.pieces

instance (template : Template) : Decidable template.HasDomain :=
  inferInstanceAs (Decidable (_ ∈ _))

/-- `path.partition('{domain}')[0]` -/
def beforeDomain (template : Template) : Text :=
  (template.pieces.takeWhile (· ≠ .domain)).flatMap (Piece.shown placeholder)

end Template

inductive Domains
  | star
  | list (domains : List Text)
  | callable (returned : Except Exception (List Text))

structure Destinations where
  privateKeyPath : Template
  certificatePath : Template
  userOwner : String
  groupOwner : String
  managingApp : Text

structure Component where
  domains : Domains
  daemons : Option (List String)
  reloadDaemons : Bool
  shouldCopyCertificates : Bool
  destinations : Option Destinations
  complete : shouldCopyCertificates = true → destinations.isSome = true

/-! ## The machine -/

structure System where
  fs : FileSystem
  reads : List Location
  writes : List Location
  made : List Location

structure Host where
  depth : Nat
  components : Text → Except Exception (List Component)
  umask : Nat
  /-- A write that fails leaves nothing, or the file as far as it was written. -/
  writeFault : Location → Option (Option Text × Exception)
  chownFault : String → String → Option Exception

structure Request where
  managingApp : Text
  sourcePrivateKey : Text
  sourceCertificate : Text
  privateKey : Text
  certificate : Text

structure Copy where
  sourcePrivateKey : Location
  sourceCertificate : Location
  privateKey : Location
  certificate : Location
  deriving DecidableEq

abbrev Action := Effect System Exception

def AssertionError (message : List Value) : Exception :=
  ⟨builtin "AssertionError" [.exception], message⟩

def OSError (name : String) : Exception :=
  ⟨builtin name [.exception], []⟩

def SameFileError : Exception :=
  ⟨⟨"shutil", "SameFileError", "SameFileError", [.exception]⟩, []⟩

/-! ## Checks -/

def located (location : Location) : PurePath :=
  path ('/' :: ['/'].intercalate location)

def leDirectory : Text := "/etc/letsencrypt/".toList

def etcSslDirectory : Text := "/etc/ssl/".toList

def IsSource (p : PurePath) : Prop :=
  leDirectory <+: p.text ∨ etcSslDirectory <+: p.text

instance (p : PurePath) : Decidable (IsSource p) := inferInstanceAs (Decidable (_ ∨ _))

/-- `_assert_source_directory` -/
def assertSourceDirectory (p : PurePath) : Except Exception Unit :=
  if IsSource p then .ok () else .error (AssertionError [])

/-- `_get_managed_path` -/
def getManagedPath (template : Template) : PurePath :=
  if template.HasDomain then path template.beforeDomain else (path template.text).parent

def templates (components : List Component) : List Template :=
  components.flatMap fun component =>
    match component.destinations with
    | none => []
    | some destinations => [destinations.privateKeyPath, destinations.certificatePath].filter
        fun template => template.pieces ≠ []

section Host

variable (host : Host)

def IsManaged (components : List Component) (p : PurePath) : Prop :=
  ∃ template ∈ templates components, (getManagedPath template).IsParent p

instance (components : List Component) (p : PurePath) : Decidable (IsManaged components p) :=
  inferInstanceAs (Decidable (∃ _ ∈ _, _))

/-- `_assert_managed_path` -/
def assertManagedPath (module : Text) (p : PurePath) : Except Exception Unit := do
  let components ← host.components module
  if IsManaged components p then return () else throw (AssertionError [.str "Not a managed path"])

def locateSource (fs : FileSystem) (text : Text) : Except Exception Location := do
  let location ← fs.resolve false host.depth text
  assertSourceDirectory (located location)
  return location

def locateManaged (fs : FileSystem) (module text : Text) : Except Exception Location := do
  let location ← fs.resolve false host.depth text
  assertManagedPath host module (located location)
  return location

def locate (fs : FileSystem) (request : Request) : Except Exception Copy := do
  let sourcePrivateKey ← locateSource host fs request.sourcePrivateKey
  let sourceCertificate ← locateSource host fs request.sourceCertificate
  let privateKey ← locateManaged host fs request.managingApp request.privateKey
  let certificate ← locateManaged host fs request.managingApp request.certificate
  return ⟨sourcePrivateKey, sourceCertificate, privateKey, certificate⟩

/-! ## Copying -/

def masked (permissions mask : Nat) : Nat :=
  permissions - (permissions &&& mask)

def makeDirectory (permissions : Nat) (location : Location) : Action Unit := do
  let s ← get
  match s.fs.entry location with
  | none => set { s with
      fs := s.fs.put location
        (some (.directory ⟨"root", "root", masked permissions host.umask⟩))
      made := s.made ++ [location] }
  | some _ =>
    if s.fs.isDir host.depth location = true then pure () else throw (OSError "FileExistsError")

/-- `mkdir(mode=0o755, parents=True, exist_ok=True)` -/
def mkdir (location : Location) : Action Unit := do
  Effect.forEach location.dropLast.inits.tail (makeDirectory host 0o777)
  Effect.when (location ≠ []) (makeDirectory host 0o755 location)

def reads (location : Location) : Action Unit :=
  modify fun s => { s with reads := s.reads ++ [location] }

def readBytes (location : Location) : Action Text := do
  reads location
  match (← get).fs.entry location with
  | some (.node (.file file)) => return file.content
  | some (.node (.directory _)) => throw (OSError "IsADirectoryError")
  | _ => throw FileSystem.FileNotFoundError

def writeFile (location : Location) (attributes : Attributes) (content : Text) : Action Unit := do
  modify fun s => { s with writes := s.writes ++ [location] }
  match host.writeFault location with
  | none => modify fun s =>
    { s with fs := s.fs.put location (some (.file ⟨content, attributes⟩)) }
  | some (none, exception) => throw exception
  | some (some left, exception) => do
      modify fun s => { s with fs := s.fs.put location (some (.file ⟨left, attributes⟩)) }
      throw exception

def isSameFile (fs : FileSystem) (source target : Location) : Bool :=
  source = target ∧ (fs.entry source).isSome

def writeOver (permissions : Nat) (target : Location) (content : Text) :
    Option Entry → Action Unit
  | none => writeFile host target ⟨"root", "root", permissions⟩ content
  | some (.node (.file file)) => writeFile host target file.attributes content
  | some _ => throw (OSError "IsADirectoryError")

/-- `shutil.copyfile`, with the permissions of a new file. -/
def copyfile (permissions : Nat) (source target : Location) : Action Unit := do
  if isSameFile (← get).fs source target = true then throw SameFileError
  else do
    let content ← readBytes source
    writeOver host permissions target content ((← get).fs.entry target)

def append (target : Location) (content : Text) : Action Unit := do
  match (← get).fs.entry target with
  | some (.node (.file file)) => writeFile host target file.attributes (file.content ++ content)
  | _ => throw (OSError "IsADirectoryError")

def setOwner (user group : String) (location : Location) : Action Unit := do
  let s ← get
  match s.fs.entry location with
  | some (.node (.file file)) => set { s with
      fs := s.fs.put location
        (some (.file ⟨file.content, user, group, file.attributes.permissions⟩))
      writes := s.writes ++ [location] }
  | _ => throw FileSystem.FileNotFoundError

/-- `shutil.chown` -/
def chown (user group : String) (location : Location) : Action Unit :=
  match host.chownFault user group with
  | none => setOwner user group location
  | some exception => throw exception

def copyChain (copy : Copy) : Action Unit :=
  if copy.certificate ≠ copy.privateKey then
    copyfile host 0o644 copy.sourceCertificate copy.certificate
  else do
    let content ← readBytes copy.sourceCertificate
    append host copy.privateKey content

def perform (copy : Copy) (userOwner groupOwner : String) : Action Unit := do
  mkdir host copy.privateKey.dropLast
  mkdir host copy.certificate.dropLast
  copyfile host 0o600 copy.sourcePrivateKey copy.privateKey
  copyChain host copy
  chown host userOwner groupOwner copy.certificate
  chown host userOwner groupOwner copy.privateKey

def copyCertificate (request : Request) (userOwner groupOwner : String) : Action Unit := do
  let copy ← Effect.lift (locate host (← get).fs request)
  perform host copy userOwner groupOwner

/-! ## Comparing -/

/-- `os.stat` of what a path leads to -/
def stat (text : Text) : Action Node := do
  let s ← get
  let location ← Effect.lift (s.fs.resolve true host.depth text)
  reads location
  match s.fs.entry location with
  | some (.node node) => return node
  | _ => throw FileSystem.FileNotFoundError

def sameBytes : Node → Node → Bool
  | .file file, .file file' => file.content = file'.content
  | _, _ => false

/-- `filecmp.cmp` -/
def cmp (first second : Text) : Action Bool := do
  let firstNode ← stat host first
  let secondNode ← stat host second
  return sameBytes firstNode secondNode

def compareFiles (request : Request) : Action Bool := do
  if (← cmp host request.sourceCertificate request.certificate) = true then
    cmp host request.sourcePrivateKey request.privateKey
  else return false

def checkPaths (request : Request) : Except Exception Unit := do
  assertSourceDirectory (path request.sourcePrivateKey)
  assertSourceDirectory (path request.sourceCertificate)
  assertManagedPath host request.managingApp (path request.privateKey)
  assertManagedPath host request.managingApp (path request.certificate)

def catchMissing (e : Exception) : Action Bool :=
  if e.isinstance .fileNotFoundError then return false else throw e

def compareCertificate (request : Request) : Action Bool := do
  Effect.lift (checkPaths host request)
  tryCatch (compareFiles host request) catchMissing

end Host

end Plinth.LetsEncrypt.Certificates
