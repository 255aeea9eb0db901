import Plinth.Model.LetsEncrypt.Certificates

/-!
# Certificates of the domains of an app

`setup_certificates` and `get_status` of the component in `plinth/modules/letsencrypt/components.py`.
-/

namespace Plinth.LetsEncrypt.Certificates

open Python Exception Pathlib FileSystem

structure CertificateStatus where
  validity : Text
  lineage : Text
  deriving DecidableEq

structure Environment extends Host where
  /-- `DomainName.list_names()` -/
  listNames : List Text
  /-- `letsencrypt.get_status()`, where a domain without a certificate has an empty dictionary -/
  status : Except Exception (OrderedDict Text (Option CertificateStatus))
  /-- `try_reload_or_restart` or `try_restart` -/
  restart : Bool → String → Except Exception Unit

inductive Names
  | star
  | list (domains : List Text)

def Names.iterate : Names → List Text
  | .star => [['*']]
  | .list domains => domains

namespace Component

/-- `domains` -/
def names (component : Component) : Except Exception Names :=
  match component.domains with
  | .star => .ok .star
  | .list domains => .ok (.list domains)
  | .callable (.ok domains) => .ok (.list domains)
  | .callable (.error e) => .error e

variable (env : Environment) (component : Component)

def copyPaths (destinations : Destinations) (sourcePrivateKey sourceCertificate privateKey
    certificate : Text) : Action Unit :=
  copyCertificate env.toHost
    ⟨destinations.managingApp, sourcePrivateKey, sourceCertificate, privateKey, certificate⟩
    destinations.userOwner destinations.groupOwner

def needDestinations : Except Exception Destinations :=
  match component.destinations with
  | some destinations => .ok destinations
  | none => .error (TypeError "argument of type 'NoneType' is not iterable")

/-- `_copy_certificates` to these paths -/
def copyTo (destinations : Destinations) (domains : List Text)
    (sourcePrivateKey sourceCertificate : Text) : Action Unit :=
  if destinations.privateKeyPath.HasDomain ∨ destinations.certificatePath.HasDomain then
    Effect.forEach domains fun domain =>
      copyPaths env destinations sourcePrivateKey sourceCertificate
        (destinations.privateKeyPath.format domain) (destinations.certificatePath.format domain)
  else copyPaths env destinations sourcePrivateKey sourceCertificate
    destinations.privateKeyPath.text destinations.certificatePath.text

def copyCertificates (domains : List Text) (sourcePrivateKey sourceCertificate : Text) :
    Action Unit := do
  let destinations ← Effect.lift component.needDestinations
  copyTo env destinations domains sourcePrivateKey sourceCertificate

def snakeoilKey : Text := "/etc/ssl/private/ssl-cert-snakeoil.key".toList

def snakeoilCertificate : Text := "/etc/ssl/certs/ssl-cert-snakeoil.pem".toList

def lineageKey (lineage : Text) : Text :=
  ((path lineage).join (path "privkey.pem".toList)).text

def lineageCertificate (lineage : Text) : Text :=
  ((path lineage).join (path "fullchain.pem".toList)).text

def copySelfSignedCertificates (domains : List Text) : Action Unit :=
  component.copyCertificates env domains snakeoilKey snakeoilCertificate

def copyLetsencryptCertificates (domains : List Text) (lineage : Text) : Action Unit :=
  component.copyCertificates env domains (lineageKey lineage) (lineageCertificate lineage)

abbrev Status := OrderedDict Text (Option CertificateStatus)

def certified (status : Status) (domain : Text) : Option CertificateStatus :=
  (status.get? domain).join

/-! ## `setup_certificates` -/

def setupDomain (status : Status) (domain : Text) : Action Unit :=
  match certified status domain with
  | some certificate => component.copyLetsencryptCertificates env [domain] certificate.lineage
  | none => component.copySelfSignedCertificates env [domain]

def restartDaemons : Action Unit :=
  match component.daemons with
  | none => throw (TypeError "'NoneType' object is not iterable")
  | some daemons =>
    Effect.forEach daemons fun daemon => Effect.lift (env.restart component.reloadDaemons daemon)

def handledOf : Names → List Text
  | .star => env.listNames
  | .list domains => domains

def requested (appDomains : Option Names) : Except Exception Names :=
  match appDomains with
  | none => component.names
  | some (.list []) => component.names
  | some names => .ok names

def setupCertificates (appDomains : Option Names) : Action Unit := do
  let names ← Effect.lift (component.requested appDomains)
  let status ← Effect.lift env.status
  Effect.when (component.shouldCopyCertificates = true)
    (Effect.forEach (handledOf env names) (component.setupDomain env status))
  component.restartDaemons env

/-! ## `get_status` -/

def outdatedCopy : Text := "outdated-copy".toList

def selfSigned : Text := "self-signed".toList

/-- `_compare_certificate` -/
def compareRequest (destinations : Destinations) (domain lineage : Text) : Request where
  managingApp := destinations.managingApp
  sourcePrivateKey := lineageKey lineage
  sourceCertificate := lineageCertificate lineage
  privateKey := destinations.privateKeyPath.format domain
  certificate := destinations.certificatePath.format domain

def compare (domain lineage : Text) : Action Bool := do
  let destinations ← Effect.lift component.needDestinations
  compareCertificate env.toHost (compareRequest destinations domain lineage)

def certificateState (domain : Text) (certificate : CertificateStatus) : Action Text :=
  if component.shouldCopyCertificates = true then do
    let same ← component.compare env domain certificate.lineage
    return if same = true then certificate.validity else outdatedCopy
  else return certificate.validity

def domainState (status : Status) (domain : Text) : Action Text :=
  match certified status domain with
  | some certificate => component.certificateState env domain certificate
  | none => return selfSigned

def states (status : Status) : List Text → OrderedDict Text Text → Action (OrderedDict Text Text)
  | [], final => return final
  | domain :: rest, final => do
      let state ← component.domainState env status domain
      states status rest (final.set domain state)

def getStatus : Action (OrderedDict Text Text) := do
  let names ← Effect.lift component.names
  let status ← Effect.lift env.status
  component.states env status names.iterate .empty

end Component

end Plinth.LetsEncrypt.Certificates
