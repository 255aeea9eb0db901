import Plinth.Lib.Effect
import Plinth.Lib.Python.Integer
import Plinth.Lib.Python.Url

/-!
# Dynamic DNS

`plinth/modules/dynamicdns`: the run that brings the addresses of the configured domains up to
date, and the status that it records for each of them. What the programs and servers answer, and
any exception on the way to an answer, is found by the run.
-/

namespace Plinth.DynamicDns

open Effect Python Exception

inductive IpType
  | ipv4
  | ipv6
  deriving DecidableEq, Repr

inductive IpSetting
  | ipType (ipType : IpType)
  | both
  /-- `use_ipv6`, of the old configuration -/
  | useIpv6 (useIpv6 : Bool)
  deriving DecidableEq, Repr

structure Domain where
  domain : String
  ipSetting : IpSetting
  serviceType : String
  server : String
  updateUrl : String
  username : String
  password : Option String
  useHttpBasicAuth : Bool
  disableSslCertCheck : Bool
  deriving DecidableEq, Repr

/-- `domains` of the configuration. -/
structure Config where
  domains : OrderedDict String Domain
  /-- what is under `null` has no name -/
  named : ∀ entry ∈ domains.entries, entry.1 ≠ "null" → entry.2.domain = entry.1

structure DomainStatus where
  domain : String
  result : Bool
  ipAddresses : List (Option String)
  errorCode : Option String
  errorMessage : Option String
  timestamp : Int
  deriving DecidableEq, Repr

structure State where
  config : Config
  /-- `domains` of the status -/
  status : OrderedDict String DomainStatus

inductive Raised
  | calledProcessError (returncode : Int) (stderr stdout : Option Bytes)
  | other (exception : Exception)

structure Process where
  returncode : Int
  stdout : Bytes
  stderr : Bytes

structure Environment where
  isEnabled : Bool
  time : Domain → Int
  digits : Integer.Digits
  lower : List Char → List Char
  md5 : String → String
  /-- `host`, whose errors are not captured -/
  host : List String → Except Exception Process
  lookupPublicAddress : IpType → Except Raised String
  wget : List String → Except Exception Process
  requestGet : String → List (String × String) → Except Exception (List (String × String))
  /-- `str()`, which an object of any class may define -/
  str : Value → Except Exception String
  str_str : ∀ s, str (.str s) = .ok s

def NotImplementedError : Exception :=
  ⟨builtin "NotImplementedError" [.exception], []⟩

def ServerError : Exception :=
  ⟨builtin "Exception" [.exception], [.str "Server responded with an error"]⟩

/-! ## Configuration -/

def migrateDomain (domain : Domain) : Domain :=
  match domain.ipSetting with
  | .useIpv6 useIpv6 => { domain with ipSetting := .ipType (if useIpv6 then .ipv6 else .ipv4) }
  | _ => domain

theorem migrateDomain_domain (domain : Domain) : (migrateDomain domain).domain = domain.domain := by
  unfold migrateDomain
  split <;> rfl

def migrateOldConfig (config : Config) : Config where
  domains := (config.domains.erase "null").mapValues migrateDomain
  named := by
    intro entry member notNull
    obtain ⟨old, kept, rfl⟩ := List.mem_map.mp member
    rw [migrateDomain_domain]
    exact config.named old (List.mem_filter.mp kept).1 notNull

def Domain.ipTypes (domain : Domain) : List IpType :=
  match domain.ipSetting with
  | .both => [.ipv4, .ipv6]
  | .ipType ipType => [ipType]
  | .useIpv6 _ => []

section Environment

variable (env : Environment)

/-! ## Look-up -/

def lookupPublicAddress (ipType : IpType) : Option String :=
  (env.lookupPublicAddress ipType).toOption

def hostCommand (domain : String) (ipType : IpType) : List String :=
  let ipOption := match ipType with
    | .ipv6 => "AAAA"
    | .ipv4 => "A"
  ["host", "-t", ipOption, domain]

def queryDnsAddress (domain : String) (ipType : IpType) : Except Raised (Option String) :=
  match env.host (hostCommand domain ipType) with
  | .error e => .error (.other e)
  | .ok process =>
    if process.returncode ≠ 0 then .ok none
    else
      match decode process.stdout with
      | .error e => .error (.other e)
      | .ok output =>
        let last := (output.toList.splitOn ' ').getLastD []
        .ok (some (String.ofList (env.lower (Text.strip last))))

def checkUptodateForIpType (domain : Domain) (ipType : IpType) :
    Except Raised (Bool × Option String × Option String) := do
  let dnsAddress ← queryDnsAddress env domain.domain ipType
  let externalAddress := lookupPublicAddress env ipType
  return (dnsAddress = externalAddress ∧ dnsAddress ≠ none, dnsAddress, externalAddress)

/-! ## GnuDIP -/

def get (dictionary : List (String × String)) (key : String) : Option String :=
  (dictionary.find? fun entry => entry.1 = key).map Prod.snd

def checkRequiredKeys (dictionary : List (String × String)) (keys : List String) :
    Except Exception Unit :=
  let missingKeys := keys.filter fun key => (get dictionary key).isNone
  if missingKeys = [] then .ok ()
  else .error (ValueError ("Missing required keys in response: " ++ ", ".intercalate missingKeys))

def encodePassword (password : Option String) : Except Exception String :=
  match password with
  | some password => .ok password
  | none => .error (AttributeError "'NoneType' object has no attribute 'encode'")

def queryParams (domain username passwordDigest : String) (saltResponse : List (String × String)) :
    List (String × String) :=
  [("salt", (get saltResponse "salt").getD ""), ("time", (get saltResponse "time").getD ""),
    ("sign", (get saltResponse "sign").getD ""), ("user", username), ("domn", domain),
    ("pass", env.md5 (passwordDigest ++ "." ++ (get saltResponse "salt").getD "")), ("reqc", "2")]

def checkRetc (retc : Int) : Except Exception Unit :=
  if retc = 0 then .ok () else .error ServerError

def refuseIpv6 (ipType : IpType) : Except Exception Unit :=
  match ipType with
  | .ipv6 => .error NotImplementedError
  | .ipv4 => .ok ()

def subdomain (domain username : String) : String :=
  String.ofList (Text.removeprefix domain.toList (username ++ ".").toList)

def httpServer (server : String) : String :=
  "https://" ++ server ++ "/gnudip/cgi-bin/gdipupdt.cgi"

def saltKeys : List String :=
  ["salt", "time", "sign"]

def gnudipUpdate (server : String) (ipType : IpType) (domain username : String)
    (password : Option String) : Except Exception (Option String) := do
  refuseIpv6 ipType
  let domain := subdomain domain username
  let passwordDigest := env.md5 (← encodePassword password)
  let saltResponse ← env.requestGet (httpServer server) []
  checkRequiredKeys saltResponse saltKeys
  let updateResult ← env.requestGet (httpServer server)
    (queryParams env domain username passwordDigest saltResponse)
  checkRequiredKeys updateResult ["retc"]
  checkRetc (← Integer.int env.digits ((get updateResult "retc").getD "").toList)
  return get updateResult "addr"

/-! ## Update URLs -/

def replaceIf (text : String) (value : Option String) (url : List Char) : List Char :=
  match value with
  | some value => if value = "" then url else Text.replace text.toList (Url.quote value) url
  | none => url

def updateUrl (domain : Domain) (externalAddress : Option String) : String :=
  String.ofList <| replaceIf "<Pass>" domain.password <|
    replaceIf "<User>" (some domain.username) <| replaceIf "<Domain>" (some domain.domain) <|
      replaceIf "<Ip>" externalAddress domain.updateUrl.toList

def wgetCommand (domain : Domain) (ipType : IpType) (externalAddress : Option String) :
    List (Option String) :=
  ["wget", "-O", "-", "-t", "3", "-T", "3"].map some ++
    (if domain.useHttpBasicAuth then
      [some "--user", some domain.username, some "--password", domain.password] else []) ++
    (if domain.disableSslCertCheck then [some "--no-check-certificate"] else []) ++
    [some (match ipType with
      | .ipv6 => "-6"
      | .ipv4 => "-4"), some (updateUrl domain externalAddress)]

def NoneArgument : Exception :=
  TypeError "expected str, bytes or os.PathLike object, not NoneType"

def genericUpdate (domain : Domain) (ipType : IpType) (externalAddress : Option String) :
    Except Raised (Option String) :=
  match (wgetCommand domain ipType externalAddress).mapM id with
  | none => .error (.other NoneArgument)
  | some command =>
    match env.wget command with
    | .error e => .error (.other e)
    | .ok process =>
      if process.returncode ≠ 0 then
        .error (.calledProcessError process.returncode (some process.stderr)
          (some process.stdout))
      else .ok externalAddress

/-! ## Update -/

def updateDnsForDomain (domain : Domain) (ipType : IpType) (externalAddress : Option String) :
    Except Raised (Option String) :=
  if domain.serviceType = "gnudip" then
    (gnudipUpdate env domain.server ipType domain.domain domain.username
      domain.password).mapError .other
  else genericUpdate env domain ipType externalAddress

def attempt (domain : Domain) (ipType : IpType) : Except Raised (Option String) := do
  let (uptodate, dnsAddress, externalAddress) ← checkUptodateForIpType env domain ipType
  if uptodate then return dnsAddress
  else updateDnsForDomain env domain ipType externalAddress

def decodeOutput (output : Option Bytes) : Except Exception String :=
  match output with
  | some output => decode output
  | none => .error (AttributeError "'NoneType' object has no attribute 'decode'")

def describe : Raised → Except Exception (String × String)
  | .calledProcessError returncode stderr stdout => do
      let stderr ← decodeOutput stderr
      let stdout ← decodeOutput stdout
      return ("CalledProcessError", "Command failed: code=" ++ toString returncode ++
        ", stderr=" ++ stderr ++ ", stdout=" ++ stdout)
  | .other exception =>
    match exception.args with
    | [] => .error (IndexError "tuple index out of range")
    | argument :: _ => do return (exception.cls.name, ← env.str argument)

structure Outcome where
  result : Bool
  ipAddresses : List (Option String)
  errorCode : Option String
  errorMessage : Option String
  deriving DecidableEq, Repr

def Outcome.initial : Outcome :=
  ⟨true, [], none, none⟩

def checkIpType (domain : Domain) (outcome : Outcome) (ipType : IpType) :
    Except Exception Outcome :=
  match attempt env domain ipType with
  | .ok ipAddress => .ok { outcome with ipAddresses := outcome.ipAddresses ++ [ipAddress] }
  | .error raised => do
      let (errorCode, errorMessage) ← describe env raised
      return { outcome with
        result := false, errorCode := some errorCode, errorMessage := some errorMessage }

def newStatus (domain : Domain) (outcome : Outcome) : DomainStatus where
  domain := domain.domain
  result := outcome.result
  ipAddresses := outcome.ipAddresses
  errorCode := outcome.errorCode
  errorMessage := outcome.errorMessage
  timestamp := env.time domain

def setStatus (domain : Domain) (outcome : Outcome) (s : State) : State :=
  { s with status := s.status.set domain.domain (newStatus env domain outcome) }

def checkAndUpdateDnsForDomain (domain : Domain) : Effect State Exception Unit := do
  let outcome ← lift (domain.ipTypes.foldlM (checkIpType env domain) Outcome.initial)
  modify (setStatus env domain outcome)

def updateDns : Effect State Exception Unit := do
  modify fun s => { s with config := migrateOldConfig s.config }
  let config := (← MonadState.get).config
  when env.isEnabled (forEach config.domains.values (checkAndUpdateDnsForDomain env))

end Environment

end Plinth.DynamicDns
