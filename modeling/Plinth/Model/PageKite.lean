import Plinth.Lib.Python.Os
import Plinth.Lib.Python.Value
import Plinth.Lib.Runs

/-!
# Services of PageKite

`plinth/modules/pagekite`. A service is a line of a file that is chosen by the protocol of the
service. It is looked up by its parameters through Augeas, but deleted by a search in the lines.
-/

namespace Plinth.PageKite

open Python Exception

structure Service where
  protocol : List Char
  kitename : List Char
  backendHost : List Char
  backendPort : List Char
  secret : List Char
  deriving DecidableEq, Repr

inductive Param
  | protocol
  | kitename
  | backendHost
  | backendPort
  | secret
  deriving DecidableEq, Repr

def Param.name : Param → List Char
  | protocol => "protocol".toList
  | kitename => "kitename".toList
  | backendHost => "backend_host".toList
  | backendPort => "backend_port".toList
  | secret => "secret".toList

def serviceParams : List Param :=
  [.protocol, .kitename, .backendHost, .backendPort, .secret]

def Service.get (service : Service) : Param → List Char
  | .protocol => service.protocol
  | .kitename => service.kitename
  | .backendHost => service.backendHost
  | .backendPort => service.backendPort
  | .secret => service.secret

/-- The texts of the files `/etc/pagekite.d/*.rc` by their paths. -/
abbrev Directory := OrderedDict (List Char) (List Char)

/-! ## Lines -/

def convertServiceToString (service : Service) : List Char :=
  [':'].intercalate (serviceParams.map service.get)

def serviceOn : List Char := "service_on".toList

def lineStart : List Char := "service_on = ".toList

def serviceLine (service : Service) : List Char :=
  lineStart ++ convertServiceToString service ++ ['\n']

def fields (line : List Char) : Option Service :=
  if lineStart.isPrefixOf line then
    match ((line.drop lineStart.length).takeWhile (· ≠ '\n')).splitOn ':' with
    | [protocol, kitename, backendHost, backendPort, secret] =>
      some ⟨protocol, kitename, backendHost, backendPort, secret⟩
    | _ => none
  else none

def servicesOf (text : List Char) : List Service :=
  (Text.readlines text).filterMap fields

def services (directory : Directory) : List Service :=
  directory.entries.flatMap fun entry => servicesOf entry.2

/-! ## Paths of Augeas -/

/-- Letters that mean nothing of their own in an expression or a path of Augeas. -/
def isPlain (c : Char) : Bool :=
  c.isAlphanum ∨ c = '-' ∨ c = '_' ∨ c = '.' ∨ c = '/'

/-- What Augeas makes of other letters: of an expression that has them, and of a file name. -/
structure Augeas where
  evaluate : Directory → List Char → Except Exception (List (List Char))
  escape : List Char → List Char

def digits (n : Nat) : List Char :=
  Nat.toDigits 10 n

/-- A node `service_on`: its file, its number there and how many there are, and its fields. -/
structure Node where
  path : List Char
  number : Nat
  count : Nat
  service : Service

def nodes (directory : Directory) : List Node :=
  directory.entries.flatMap fun entry =>
    (servicesOf entry.2).zipIdx.map fun found =>
      ⟨entry.1, found.2 + 1, (servicesOf entry.2).length, found.1⟩

section Augeas

variable (augeas : Augeas)

def Node.augPath (node : Node) : List Char :=
  let path := if node.path.all isPlain then node.path else augeas.escape node.path
  let index := if node.count = 1 then [] else '[' :: digits node.number ++ [']']
  "/files".toList ++ (path ++ '/' :: serviceOn ++ index ++ '/' :: digits node.number)

def query (service : Service) (keys : List Param) : List Char :=
  "/files/etc/pagekite.d/*/service_on/*".toList ++ keys.flatMap fun param =>
    '[' :: param.name ++ "='".toList ++ service.get param ++ "']".toList

def getExistingServicePaths (directory : Directory) (service : Service) (keys : List Param) :
    Except Exception (List (List Char)) :=
  if keys.all fun param => '\'' ∉ service.get param then
    .ok (((nodes directory).filter fun node =>
      keys.all fun param => node.service.get param = service.get param).map
        (Node.augPath augeas))
  else augeas.evaluate directory (query service keys)

def confPath : List Char := "/files/etc/pagekite.d".toList

def unsupportedProtocol : Exception :=
  ValueError "Unsupported protocol"

def servicefile (protocol : List Char) : Except Exception (List Char) :=
  match protocol.splitOn '/' with
  | [name, port] => .ok (port ++ '_' :: name ++ ".rc".toList)
  | _ =>
    if protocol = "http".toList then .ok "80_http.rc".toList
    else if protocol = "https".toList then .ok "443_https.rc".toList
    else .error unsupportedProtocol

def getAugeasServicefilePath (protocol : List Char) : Except Exception (List Char) :=
  if ["http".toList, "https".toList, "raw".toList].any (Text.startswith protocol) then do
    let relpath ← servicefile protocol
    return Os.join (Os.join confPath relpath) serviceOn
  else .error unsupportedProtocol

/-- `len(aug.match(root + '/*'))` -/
def countBelow (directory : Directory) (root : List Char) : Except Exception Nat :=
  if root.all isPlain then
    .ok ((nodes directory).countP fun node =>
      "/files".toList ++ node.path ++ '/' :: serviceOn = root)
  else (augeas.evaluate directory (root ++ "/*".toList)).map List.length

def getNewServicePath (directory : Directory) (protocol : List Char) :
    Except Exception (List Char) := do
  let root ← getAugeasServicefilePath protocol
  let found ← countBelow augeas directory root
  return Os.join root (digits (found + 1))

def convertAugeasPathToFilepath (augpath : List Char) : List Char :=
  let augpath := Text.removeprefix augpath "/files".toList
  let augpath :=
    match Text.rfind serviceOn augpath with
    | some index => if index ≠ 0 then augpath.take index else augpath
    | none => augpath.dropLast
  Text.rstripChars ['/'] augpath

/-! ## Adding and removing -/

def alreadyExists : Exception :=
  RuntimeError "Service already exists"

def addService (service : Service) (directory : Directory) : Except Exception Directory := do
  let existing ← getExistingServicePaths augeas directory service [.protocol, .kitename]
  if existing ≠ [] then throw alreadyExists
  let root ← getNewServicePath augeas directory service.protocol
  let path := convertAugeasPathToFilepath root
  return directory.set path ((directory.get? path).getD [] ++ '\n' :: serviceLine service)

def holds (service : Service) (line : List Char) : Bool :=
  serviceOn.isPrefixOf line ∧ serviceParams.all fun param => service.get param <:+: line

def dropLine (service : Service) : List (List Char) → Option (List (List Char))
  | [] => none
  | line :: lines =>
    if holds service line then some lines
    else (dropLine service lines).map (line :: ·)

def removeFrom (service : Service) (directory : Directory) :
    List (List Char) → Except Exception Directory
  | [] => .ok directory
  | path :: paths =>
    let filepath := convertAugeasPathToFilepath path
    match directory.get? filepath with
    | none => .error ⟨builtin "FileNotFoundError" [.exception, .fileNotFoundError], []⟩
    | some text =>
      match dropLine service (Text.readlines (Text.universalNewlines text)) with
      | some lines => .ok (directory.set filepath lines.flatten)
      | none => removeFrom service directory paths

def removeService (service : Service) (directory : Directory) : Except Exception Directory := do
  let paths ← getExistingServicePaths augeas directory service serviceParams
  removeFrom service directory paths

end Augeas

/-! ## What is shown, and the forms -/

def kiteName : List Char := "@kitename".toList

def kiteSecret : List Char := "@kitesecret".toList

def backendHost : List Char := "localhost".toList

def predefinedServices : List Service :=
  [⟨"http".toList, kiteName, backendHost, "80".toList, kiteSecret⟩,
    ⟨"https".toList, kiteName, backendHost, "443".toList, kiteSecret⟩,
    ⟨"raw/22".toList, kiteName, backendHost, "22".toList, kiteSecret⟩]

/-- A custom service as `get_config` returns it. -/
structure Shown where
  service : Service
  frontendPort : Option (List Char)
  subdomains : Bool
  deriving DecidableEq, Repr

def shownAs (service : Service) : Except Exception Shown :=
  let subdomains := Text.startswith service.kitename "*.".toList
  match service.protocol.splitOn '/' with
  | [_] => .ok ⟨service, none, subdomains⟩
  | [protocol, port] => .ok ⟨{ service with protocol := protocol }, some port, subdomains⟩
  | _ => .error (ValueError "too many values to unpack (expected 2)")

def customServices (directory : Directory) : Except Exception (List Shown) :=
  ((services directory).filter (· ∉ predefinedServices)).mapM shownAs

/-- What the fields of the form that have no default read of the text they are given. -/
structure Fields where
  /-- the number that `forms.IntegerField` reads -/
  integer : List Char → Option Int
  decimal : ∀ n : Nat, integer (digits n) = some n

def choices : List (List Char) :=
  ["http".toList, "https".toList, "raw".toList]

def Fields.port (form : Fields) (text : List Char) : Option Nat :=
  match form.integer text with
  | some n => if 0 ≤ n ∧ n ≤ 65535 then some n.toNat else none
  | none => none

/-- `convert_formdata_to_service` of valid data -/
def convertFormdataToService (protocol : List Char) (frontendPort backendPort : Nat)
    (subdomains : Bool) : Service where
  protocol :=
    if digits frontendPort <:+: protocol then protocol
    else protocol ++ '/' :: digits frontendPort
  kitename := if subdomains then "*.".toList ++ kiteName else kiteName
  backendHost := backendHost
  backendPort := digits backendPort
  secret := kiteSecret

/-- The service that the form to delete a shown service is sent for, if it is valid. -/
def deleteForm (form : Fields) (shown : Shown) : Option Service := do
  if shown.service.protocol ∉ choices then none
  let frontendPort ← form.port (← shown.frontendPort)
  let backendPort ← form.port shown.service.backendPort
  return convertFormdataToService shown.service.protocol frontendPort backendPort shown.subdomains

/-! ## Calls one after the other -/

def Free (service : Service) : Prop :=
  ∀ param, ∀ c ∈ service.get param, c ≠ ':' ∧ c ≠ '\n' ∧ c ≠ '\r'

inductive Event
  | add (service : Service) (free : Free service)
  | remove (service : Service) (free : Free service)

def kept (directory : Directory) : Except Exception Directory → Directory
  | .ok changed => changed
  | .error _ => directory

def step (augeas : Augeas) (directory : Directory) : Event → Directory
  | .add service _ => kept directory (addService augeas service directory)
  | .remove service _ => kept directory (removeService augeas service directory)

def submitDelete (augeas : Augeas) (form : Fields) (directory : Directory) (shown : Shown) :
    Directory :=
  match deleteForm form shown with
  | some service => kept directory (removeService augeas service directory)
  | none => directory

end Plinth.PageKite
