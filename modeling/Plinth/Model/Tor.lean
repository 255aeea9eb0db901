import Plinth.Lib.Augeas
import Plinth.Lib.Effect
import Plinth.Lib.Python.Integer
import Plinth.Lib.Python.IpAddress
import Plinth.Lib.Python.Os
import Plinth.Lib.Runs

/-!
# Configuration of Tor

`plinth/modules/tor`: the options of `torrc` that a call of `configure()` changes, part after part,
and what is read of them again.
-/

namespace Plinth.Tor

open Effect Python Exception Augeas

abbrev Torrc := Augeas.Node

structure Environment where
  read : List Char → Option String
  saves : List Bool
  site : Option Exception

def Environment.Saves (environment : Environment) : Prop :=
  ∀ works ∈ environment.saves, works = true

structure System where
  saved : Torrc
  onionHeader : Option String
  environment : Environment

abbrev Call := Effect System Exception

def tooManyMatches : Exception :=
  ValueError "Too many matches"

def notSaved : Exception :=
  ⟨builtin "OSError" [.exception], [.str "Unable to save to file!"]⟩

def get (option : String) (aug : Torrc) : Except Exception (Option String) :=
  Node.getOne tooManyMatches option aug

def set (option value : String) (aug : Torrc) : Except Exception Torrc :=
  Node.setOne tooManyMatches option value aug

/-- `aug.set` of one of the nodes of an option -/
def setAt (option : String) (index : Index) (value : String) (aug : Torrc) : Torrc :=
  aug.set (some value) [⟨option, index⟩]

/-- `aug.save` -/
def save (aug : Torrc) : Call Unit := do
  let system ← MonadState.get
  let environment := { system.environment with saves := system.environment.saves.tail }
  if system.environment.saves.head? = some false then
    modify fun system => { system with environment := environment }
    throw notSaved
  modify fun system => { system with saved := aug, environment := environment }

/-! ## Reading -/

def areUpstreamBridgesEnabled (aug : Torrc) : Except Exception Bool := do
  let useBridges ← get "UseBridges" aug
  return useBridges = some "1"

def getUpstreamBridges (aug : Torrc) : Except Exception String := do
  let bridges ← (aug.values "Bridge").mapM fun
    | some bridge => pure bridge
    | none => throw (TypeError "sequence item: expected str instance, NoneType found")
  return "\n".intercalate bridges

def isRelayEnabled (aug : Torrc) : Bool :=
  match (aug.values "ORPort").head?.join with
  | some orport => orport ≠ "" ∧ orport ≠ "0"
  | none => false

def isBridgeRelayEnabled (aug : Torrc) : Except Exception Bool := do
  let bridge ← get "BridgeRelay" aug
  return bridge = some "1"

structure HiddenService where
  enabled : Bool
  status : String
  hostname : Option String
  ports : List (String × String)
  deriving DecidableEq, Repr

def hiddenServicePort : Option String → Except Exception (String × String)
  | none => .error (AttributeError "'NoneType' object has no attribute 'split'")
  | some value =>
    match Text.words value.toList with
    | virtport :: target :: _ => .ok (String.ofList virtport, String.ofList target)
    | _ => .error (IndexError "list index out of range")

def hostnameFile (directory : String) : List Char :=
  Os.join directory.toList "hostname".toList

def getHiddenService (read : List Char → Option String) (aug : Torrc) :
    Except Exception HiddenService := do
  let directory ← get "HiddenServiceDir" aug
  let ports ← (aug.values "HiddenServicePort").mapM hiddenServicePort
  if directory.getD "" = "" then return ⟨false, "Not Configured", none, ports⟩
  match read (hostnameFile (directory.getD "")) with
  | some text => return ⟨true, "Ok", some (String.ofList (Text.strip text.toList)), ports⟩
  | none => return ⟨false, "Not available (Run Tor at least once)", none, ports⟩

structure Status where
  useUpstreamBridges : Bool
  upstreamBridges : String
  relayEnabled : Bool
  bridgeRelayEnabled : Bool
  hiddenService : HiddenService
  deriving DecidableEq, Repr

def getStatus (read : List Char → Option String) (aug : Torrc) : Except Exception Status := do
  let useUpstreamBridges ← areUpstreamBridgesEnabled aug
  let upstreamBridges ← getUpstreamBridges aug
  let bridgeRelayEnabled ← isBridgeRelayEnabled aug
  let hiddenService ← getHiddenService read aug
  return ⟨useUpstreamBridges, upstreamBridges, isRelayEnabled aug, bridgeRelayEnabled,
    hiddenService⟩

/-! ## The parts of a call -/

def useUpstreamBridges (use : Option Bool) (aug : Torrc) : Call Torrc :=
  match use with
  | none => return aug
  | some use => do
      let aug ← lift (set "UseBridges" (if use then "1" else "0") aug)
      save aug
      return aug

def bridgesOf (text : List Char) : List (List Char) :=
  let bridges := (text.splitOn '\n').map Text.strip
  let bridges := bridges.filter (· ≠ [])
  bridges.map fun bridge => Text.strip ([' '].intercalate (Text.words bridge))

def setUpstreamBridges (upstreamBridges : Option String) (aug : Torrc) : Call Torrc :=
  match upstreamBridges with
  | none => return aug
  | some text => do
      let aug := aug.removeAll "Bridge"
      let aug := (bridgesOf text.toList).foldl
        (fun aug bridge => setAt "Bridge" .new (String.ofList bridge) aug) aug
      let aug ← lift
        (set "ClientTransportPlugin" "obfs3,scramblesuit,obfs4 exec /usr/bin/obfs4proxy" aug)
      save aug
      return aug

def setRelay (relay : Option Bool) (useUpstreamBridges : Bool) (aug : Torrc) : Torrc :=
  if relay = some true ∧ useUpstreamBridges = false then
    setAt "ORPort" (.nth 2) "[::]:9001" (setAt "ORPort" (.nth 1) "9001" aug)
  else if relay ≠ none then aug.removeAll "ORPort"
  else aug

def setBridgeRelay (bridge : Option Bool) (useUpstreamBridges : Bool) (aug : Torrc) :
    Except Exception Torrc := do
  if bridge = some true ∧ useUpstreamBridges = false then
    let aug ← set "BridgeRelay" "1" aug
    let aug ← set "ServerTransportPlugin" "obfs3,obfs4 exec /usr/bin/obfs4proxy" aug
    set "ExtORPort" "auto" aug
  else if bridge ≠ none then
    return ((aug.removeAll "BridgeRelay").removeAll "ServerTransportPlugin").removeAll "ExtORPort"
  else return aug

def enableRelay (relay bridge : Option Bool) (aug : Torrc) : Call Torrc := do
  if relay = none ∧ bridge = none then return aug
  let useUpstreamBridges ← lift (areUpstreamBridgesEnabled aug)
  let aug := setRelay relay useUpstreamBridges aug
  let aug ← lift (setBridgeRelay bridge useUpstreamBridges aug)
  save aug
  return aug

def setOnionHeader (hiddenService : Option HiddenService) : Call Unit := do
  match (← MonadState.get).environment.site with
  | some exception => throw exception
  | none =>
    let hostname := (hiddenService.filter HiddenService.enabled).bind HiddenService.hostname
    modify fun system => { system with onionHeader := hostname }

def hiddenServiceDir : String := "/var/lib/tor-instances/plinth/hidden_service"

def setHiddenService (aug : Torrc) : Except Exception Torrc := do
  let aug ← set "HiddenServiceDir" hiddenServiceDir aug
  let aug := setAt "HiddenServicePort" (.nth 1) "22 127.0.0.1:22" aug
  let aug := setAt "HiddenServicePort" (.nth 2) "80 127.0.0.1:80" aug
  return setAt "HiddenServicePort" (.nth 3) "443 127.0.0.1:443" aug

def enableHs (aug : Torrc) : Call Unit := do
  let read := (← MonadState.get).environment.read
  let hiddenService ← lift (getHiddenService read aug)
  when (hiddenService.enabled = false) do
    let aug ← lift (setHiddenService aug)
    save aug
    setOnionHeader (some (← lift (getHiddenService read aug)))

def disableHs (aug : Torrc) : Call Unit := do
  let read := (← MonadState.get).environment.read
  let hiddenService ← lift (getHiddenService read aug)
  when (hiddenService.enabled = true) do
    save ((aug.removeAll "HiddenServiceDir").removeAll "HiddenServicePort")
    setOnionHeader none

structure Arguments where
  useUpstreamBridges : Option Bool
  upstreamBridges : Option String
  relay : Option Bool
  bridgeRelay : Option Bool
  hiddenService : Option Bool
  deriving DecidableEq, Repr

def setGivenBridges (upstreamBridges : Option String) (aug : Torrc) : Call Torrc :=
  if upstreamBridges.getD "" ≠ "" then setUpstreamBridges upstreamBridges aug
  else return aug

def configure (arguments : Arguments) : Call Unit := do
  let aug := (← MonadState.get).saved
  let aug ← useUpstreamBridges arguments.useUpstreamBridges aug
  let relay := if arguments.useUpstreamBridges = some true then some false else arguments.relay
  let bridgeRelay :=
    if arguments.useUpstreamBridges = some true then some false else arguments.bridgeRelay
  let aug ← setGivenBridges arguments.upstreamBridges aug
  let aug ← enableRelay relay bridgeRelay aug
  match arguments.hiddenService with
  | some true => enableHs aug
  | some false => disableHs aug
  | none => return ()

/-! ## The first setup, and the form -/

def firstTimeSetup (aug : Torrc) : Call Torrc := do
  let aug ← lift (set "ControlPort" "9051" aug)
  let aug ← enableRelay (some true) (some true) aug
  let aug := setAt "ExitPolicy" (.nth 1) "reject *:*" aug
  let aug := setAt "ExitPolicy" (.nth 2) "reject6 *:*" aug
  let aug ← lift (setHiddenService aug)
  save aug
  return aug

structure FormData where
  relayEnabled : Bool
  bridgeRelayEnabled : Bool
  hsEnabled : Bool
  useUpstreamBridges : Bool
  upstreamBridges : String
  deriving DecidableEq, Repr

def changed [DecidableEq α] (old new : α) : Option α :=
  if old ≠ new then some new else none

/-- The arguments of the call that `__apply_changes` makes. -/
def applyChanges (oldStatus newStatus : FormData) : Option Arguments :=
  let arguments : Arguments :=
    { relay := changed oldStatus.relayEnabled newStatus.relayEnabled
      bridgeRelay := changed oldStatus.bridgeRelayEnabled newStatus.bridgeRelayEnabled
      hiddenService := changed oldStatus.hsEnabled newStatus.hsEnabled
      useUpstreamBridges := changed oldStatus.useUpstreamBridges newStatus.useUpstreamBridges
      upstreamBridges := changed oldStatus.upstreamBridges newStatus.upstreamBridges }
  if arguments = ⟨none, none, none, none, none⟩ then none else some arguments

/-! ## Calls one after the other -/

structure Event where
  arguments : Arguments
  environment : Environment

def System.under (system : System) (environment : Environment) : System :=
  { system with environment := environment }

def step (system : System) (event : Event) : System :=
  ((configure event.arguments).exec (system.under event.environment)).2

end Plinth.Tor

/-!
## Validation of upstream bridges

`bridges_validator` of `plinth/modules/tor/forms.py`.
-/

namespace Plinth.Tor

open Python Exception

/-- The validators of Django, and the digits of `int`. -/
structure Validators where
  /-- `validate_ipv4_address` does not raise. -/
  ipv4 : List Char → Bool
  /-- `validate_ipv6_address` does not raise. -/
  ipv6 : List Char → Bool
  digits : Integer.Digits
  ipv4_chars : ∀ s, ipv4 s = true → '.' ∈ s ∧ ∀ c ∈ s, c.isDigit = true ∨ c = '.'
  ipv6_chars : ∀ s, ipv6 s = true → ':' ∈ s.takeWhile (· ≠ '%') ∧
    ∀ c ∈ s.takeWhile (· ≠ '%'), IpAddress.isHexDigit c = true ∨ c = ':' ∨ c = '.'

def isLowerOrUnderscore (c : Char) : Bool :=
  c.isLower || c = '_'

/-- `[a-fA-F0-9:]` -/
def isHexColon (c : Char) : Bool :=
  IpAddress.isHexDigit c || c = ':'

def ValidationError : Exception :=
  ⟨⟨"django.core.exceptions", "ValidationError", "ValidationError", [.exception]⟩,
    [.str "Enter a valid bridge with this format: [transport] IP:ORPort [fingerprint]"]⟩

variable (validators : Validators)

def isIpv46 (s : List Char) : Bool :=
  validators.ipv4 s || validators.ipv6 s

/-- The part that should be the address, after a part that begins like a transport. -/
def ipPortPart : List (List Char) → Option (List Char)
  | [] => none
  | first :: rest => if first.head?.any isLowerOrUnderscore then rest.head? else some first

/-- The group of `(?::([0-9]+))?`; empty when there is none. -/
def portGroup : List Char → List Char
  | ':' :: s => s.takeWhile Char.isDigit
  | _ => []

/-- The groups of `\[([a-fA-F0-9:]+)\](?::([0-9]+))?` at the start of a part. -/
def bracketGroups : List Char → Option (List Char × List Char)
  | '[' :: s =>
    match s.dropWhile isHexColon with
    | ']' :: rest =>
      if s.takeWhile isHexColon = [] then none
      else some (s.takeWhile isHexColon, portGroup rest)
    | _ => none
  | _ => none

/-- `part.rsplit(':', maxsplit=1)`, with an empty port when there is no colon -/
def rsplitColon (part : List Char) : List Char × List Char :=
  match Text.rfind [':'] part with
  | some start => (part.take start, part.drop (start + 1))
  | none => (part, [])

def addressAndPort (part : List Char) : List Char × List Char :=
  (bracketGroups part).getD (rsplitColon part)

def checkPort (port : List Char) : Except Exception Unit :=
  if port = [] then .ok ()
  else do
    let port ← Integer.int validators.digits port
    if port < 0 ∨ 65535 < port then .error ValidationError else .ok ()

def checkAddress (part : List Char) : Except Exception Unit :=
  let (address, port) := addressAndPort part
  if isIpv46 validators address = true then checkPort validators port else .error ValidationError

def checkBridge (bridge : List Char) : Except Exception Unit :=
  match ipPortPart (Text.words bridge) with
  | none => .error ValidationError
  | some part => checkAddress validators part

def bridgeLines (bridges : List Char) : List (List Char) :=
  ((bridges.splitOn '\n').map Text.strip).filter (· ≠ [])

def bridgesValidator (bridges : List Char) : Except Exception Unit :=
  if bridgeLines bridges = [] then .error ValidationError
  else (bridgeLines bridges).forM (checkBridge validators)

end Plinth.Tor
