import Mathlib.Data.String.Basic
import Plinth.Lib.Effect
import Plinth.Lib.Python.Format
import Plinth.Lib.Python.Text

/-!
# Domain names

The registry of `plinth/modules/names`, and the OpenID Connect clients of
`plinth/modules/oidc/components.py` whose addresses follow it. The database works.
-/

namespace Plinth.DomainNames

open Effect Python Exception

inductive Service
  | id (service : String)
  | port (service : Nat)
  deriving DecidableEq, Repr

inductive Services
  | all
  | list (services : List Service)
  deriving DecidableEq, Repr

structure DomainName where
  componentId : String
  name : String
  domainType : String
  /-- `none` for all of them -/
  services : Option (List String)
  deriving DecidableEq, Repr

structure OpenIDConnect where
  clientId : String
  redirectUris : List String
  deriving DecidableEq, Repr

structure Application where
  redirectUris : String
  allowedOrigins : String
  deriving DecidableEq, Repr

structure Registered where
  priority : String → Option Int
  clients : List OpenIDConnect
  digits : Format.Digits
  objects : Format.Objects String
  /-- the order in which a set built from these strings is gone through -/
  iterate : List String → List String

structure System where
  /-- `DomainName._all` -/
  domainNames : OrderedDict String DomainName
  applications : String → Option Application

abbrev Call := Effect System Exception Unit

/-! ## The registry -/

def normalizeService : Service → String
  | .id service => service
  | .port 80 => "http"
  | .port 443 => "https"
  | .port 22 => "ssh"
  | .port service => toString service

def normalizeServices : Services → Option (List String)
  | .all => none
  | .list services => some (services.map normalizeService)

section

variable (env : Registered)

def DomainName.priority (domain : DomainName) : Int :=
  (env.priority domain.domainType).getD 0

/-- The order of the keys `(-priority, name)`. -/
def DomainName.le (domain other : DomainName) : Bool :=
  other.priority env < domain.priority env ∨
    (domain.priority env = other.priority env ∧ domain.name ≤ other.name)

def listDomains (s : System) : List DomainName :=
  s.domainNames.values.mergeSort (DomainName.le env)

def uniqueNames (names : List String) : List String :=
  (names.foldl (fun d name => d.set name true) OrderedDict.empty).keys

def listNames (s : System) : List String :=
  uniqueNames ((listDomains env s).map DomainName.name)

/-! ## OpenID Connect clients -/

/-- `uri.format(domain=domain)` -/
def formatUri (uri domain : String) : Except Exception String :=
  Format.vformat env.digits env.objects
    (Format.getField env.digits env.objects fun
      | .inr "domain" => .ok domain
      | .inr name => .error (KeyError (.str name))
      | .inl _ => .error (IndexError "Replacement index out of range for positional args tuple"))
    uri

def domains (names : List String) : List String :=
  env.iterate (names ++ ["localhost"])

def expandUri (names : List String) (uri : String) : Except Exception (List String) :=
  if Text.contains "{domain}".toList uri.toList then (domains env names).mapM (formatUri env uri)
  else .ok [uri]

def OpenIDConnect.getRedirectUris (names : List String) (client : OpenIDConnect) :
    Except Exception String := do
  let uris ← client.redirectUris.mapM (expandUri env names)
  return " ".intercalate uris.flatten

def getAllowedOrigins (names : List String) : String :=
  " ".intercalate ((domains env names).map ("https://" ++ ·))

def OpenIDConnect.application (names : List String) (client : OpenIDConnect) :
    Except Exception Application := do
  return ⟨← client.getRedirectUris env names, getAllowedOrigins env names⟩

def createOrUpdateApplication (client : OpenIDConnect) : Call := do
  let application ← lift (client.application env (listNames env (← get)))
  modify fun s =>
    { s with applications := Function.update s.applications client.clientId (some application) }

def updateDomainsForAll : Call :=
  forEach env.clients (createOrUpdateApplication env)

/-! ## Signals -/

def componentId (sender name : String) : String :=
  "domain-" ++ sender ++ "-" ++ name

/-- `DomainName(…)`, which registers itself. -/
def register (sender domainType name : String) (services : Services) : Call :=
  match env.priority domainType with
  | none => throw (KeyError (.str domainType))
  | some _ => modify fun s =>
    { s with
      domainNames := s.domainNames.set (componentId sender name)
        ⟨componentId sender name, name, domainType, normalizeServices services⟩ }

def onDomainAdded (sender domainType name : String) (services : Services) : Call :=
  when (domainType ≠ "" ∧ name ≠ "") do
    register env sender domainType name services
    updateDomainsForAll env

def onDomainRemoved (sender domainType name : String) : Call :=
  if name ≠ "" then do
    let s ← get
    match s.domainNames.get? (componentId sender name) with
    | none => throw (KeyError (.str (componentId sender name)))
    | some _ => do
        set { s with domainNames := s.domainNames.erase (componentId sender name) }
        -- the handler of the oidc app
        when (domainType ≠ "") (updateDomainsForAll env)
  else
    modify fun s =>
      { s with
        domainNames := s.domainNames.filter fun entry => entry.2.domainType ≠ domainType }

inductive Signal
  | added (sender domainType name : String) (services : Services)
  | removed (sender domainType name : String)
  deriving DecidableEq, Repr

def handler : Signal → Call
  | .added sender domainType name services => onDomainAdded env sender domainType name services
  | .removed sender domainType name => onDomainRemoved env sender domainType name

/-- `send_robust`: an exception of the handler goes no further. -/
def send (s : System) (signal : Signal) : System :=
  ((handler env signal).exec s).2

end

end Plinth.DomainNames
