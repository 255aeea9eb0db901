import Plinth.Lib.Effect
import Plinth.Lib.Python.Pathlib
import Plinth.Lib.Python.Value

/-!
# Certificate events

`on_certificate_event_sync` of `plinth/modules/letsencrypt/components.py`, with the checks and the
repair of `plinth/modules/letsencrypt/__init__.py` that lead to events. What other apps and the
privileged process do is the environment of a call.
-/

namespace Plinth.LetsEncrypt

open Effect Python Exception Pathlib

inductive Event
  | obtained
  | renewed
  | revoked
  | deleted
  deriving DecidableEq, Repr

structure Component where
  componentId : String
  appId : Option String
  deriving DecidableEq, Repr

structure Delivery where
  componentId : String
  event : Event
  domains : List (List Char)
  lineage : List Char
  deriving DecidableEq, Repr

structure System where
  /-- `last_seen_modified_time` of each lineage in `letsencrypt_certificate_info` -/
  lastSeenModifiedTime : OrderedDict (List Char) Int
  deliveries : List Delivery
  /-- the calls of `on_certificate_event_sync`, with the lineage that is given -/
  events : List (Event × List (List Char) × Option (List Char))

structure Environment where
  /-- `LetsEncrypt.list()` -/
  components : List Component
  /-- `needs_setup()` of the apps that are registered -/
  needsSetup : String → Option (Except Exception Bool)
  /-- `on_certificate_<event>` -/
  handler : Component → Event → List (List Char) → List Char → Except Exception Unit
  /-- `privileged.get_modified_time` -/
  getModifiedTime : List Char → Except Exception Int

abbrev Action := Effect System Exception

def liveDirectory : List Char := "/etc/letsencrypt/live/".toList

def liveLineage (domain : List Char) : List Char :=
  ((path liveDirectory).join (path domain)).text

/-- The lineage of an event, or the `IndexError` when there is no domain to take it from. -/
def lineageOf (domains : List (List Char)) (lineage : Option (List Char)) :
    Except Exception (List Char) :=
  match lineage.filter (· ≠ []) with
  | some lineage => .ok lineage
  | none =>
    match domains with
    | [] => .error (IndexError "list index out of range")
    | domain :: _ => .ok (liveLineage domain)

section Environment

variable (env : Environment)

/-- `component.app.needs_setup()`; an app that is found is true. -/
def componentNeedsSetup (component : Component) : Except Exception Bool :=
  match component.appId with
  | none => .error (KeyError .none)
  | some appId => (env.needsSetup appId).getD (.error (KeyError (.str appId)))

def handle (event : Event) (domains : List (List Char)) (lineage : List Char)
    (component : Component) : Action Unit := do
  let needsSetup ← lift (componentNeedsSetup env component)
  if needsSetup = true then return ()
  else
    modify fun s =>
      { s with deliveries := s.deliveries ++ [⟨component.componentId, event, domains, lineage⟩] }
    match env.handler component event domains lineage with
    | .ok _ => return ()
    | .error e => if e.isinstance .exception then return () else throw e

def lineageKey (lineage : List Char) : List Char :=
  (path lineage).text

def certificateGetLastSeenModifiedTime (s : System) (lineage : List Char) : Int :=
  (s.lastSeenModifiedTime.get? lineage).getD 0

def certificateSetLastSeenModifiedTime (lineage : List Char) : Action Unit := do
  let modifiedTime ← lift (env.getModifiedTime (path lineage).name)
  modify fun s => { s with
    lastSeenModifiedTime := s.lastSeenModifiedTime.set (lineageKey lineage) modifiedTime }

def IsNew (event : Event) : Prop :=
  event = .obtained ∨ event = .renewed

instance : DecidablePred IsNew := fun _ => inferInstanceAs (Decidable (_ ∨ _))

def onCertificateEventSync (event : Event) (domains : List (List Char))
    (lineage : Option (List Char)) : Action Unit := do
  modify fun s => { s with events := s.events ++ [(event, domains, lineage)] }
  let lineage ← lift (lineageOf domains lineage)
  forEach env.components (handle env event domains lineage)
  Effect.when (IsNew event) (certificateSetLastSeenModifiedTime env lineage)

/-! ## Certificates that were renewed meanwhile -/

structure DomainStatus where
  certificateAvailable : Bool
  lineage : List Char
  modifiedTime : Int
  deriving DecidableEq, Repr

/-- `status['domains']`, where a domain without a certificate has an empty dictionary. The others
are the directories of certificates. -/
structure Status where
  domains : OrderedDict (List Char) (Option DomainStatus)
  live : ∀ domain domainStatus, (domain, some domainStatus) ∈ domains.entries →
    IsPart domain ∧ domainStatus.lineage = liveLineage domain

/-- The body of the loop over the status; a text of domains is split into words. -/
def handleModified (entry : List Char × Option DomainStatus) : Action Unit :=
  match entry.2 with
  | none => pure ()
  | some domainStatus => do
      let s ← get
      Effect.when (certificateGetLastSeenModifiedTime s domainStatus.lineage <
        domainStatus.modifiedTime)
        (onCertificateEventSync env .renewed (Text.words entry.1) (some domainStatus.lineage))

/-- `_certificate_handle_modified_internal` -/
def certificateHandleModifiedInternal (status : Status) : Action Unit :=
  forEach status.domains.entries (handleModified env)

end Environment

end Plinth.LetsEncrypt

/-!
## Repair of certificates

`LetsEncryptApp.repair` of `plinth/modules/letsencrypt/__init__.py`, with `certificate_obtain` and
`certificate_reobtain`. The calls are kept in the order in which they are made.
-/

namespace Plinth.LetsEncrypt

open Effect Python Exception Pathlib

structure FailedCheck where
  checkId : List Char
  domain : Option (List Char)
  deriving DecidableEq, Repr

inductive Call
  | certificateObtain (domain : List Char)
  | certificateReobtain (domain : List Char)
  /-- `privileged.obtain` -/
  | obtain (domain : List Char)
  /-- `components.on_certificate_event` -/
  | onCertificateEvent (event : Event) (domains : List (List Char))
      (lineage : Option (List Char))
  deriving DecidableEq, Repr

structure RepairState where
  calls : List Call
  /-- what `store_error_message` is given -/
  errors : List Exception

structure RepairEnvironment where
  getStatus : Except Exception Status
  /-- `privileged.obtain` -/
  obtain : List Char → Except Exception Unit
  /-- `App.repair` -/
  appRepair : List FailedCheck → Except Exception Bool

abbrev RepairAction := Effect RepairState Exception

def call (made : Call) : RepairAction Unit :=
  modify fun s => { s with calls := s.calls ++ [made] }

def storeErrorMessage (e : Exception) : RepairAction Unit :=
  modify fun s => { s with errors := s.errors ++ [e] }

variable (env : RepairEnvironment)

def privilegedObtain (domain : List Char) : RepairAction Unit := do
  call (.obtain domain)
  lift (env.obtain domain)

def certificateObtain (domain : List Char) : RepairAction Unit := do
  call (.certificateObtain domain)
  privilegedObtain env domain
  call (.onCertificateEvent .obtained [domain] none)

def certificateReobtain (domain : List Char) : RepairAction Unit := do
  call (.certificateReobtain domain)
  privilegedObtain env domain

def certificateAvailable (domainStatus : Option DomainStatus) : Bool :=
  domainStatus.any (·.certificateAvailable)

/-- The body of the `try` block; a domain that the status does not list is a `KeyError`. -/
def repairDomain (status : Status) (domain : List Char) : RepairAction Unit :=
  match status.domains.get? domain with
  | none => throw (KeyError (.str (String.ofList domain)))
  | some domainStatus =>
    if certificateAvailable domainStatus = true then certificateObtain env domain
    else certificateReobtain env domain

def catchException (e : Exception) : RepairAction Unit :=
  if e.isinstance .exception then storeErrorMessage e else throw e

def IsDomainCheck (check : FailedCheck) : Prop :=
  "letsencrypt-domain".toList <+: check.checkId

instance : DecidablePred IsDomainCheck := fun _ => inferInstanceAs (Decidable (_ <+: _))

def repairCheck (status : Status) (check : FailedCheck) : RepairAction Unit :=
  Effect.when (IsDomainCheck check)
    (match check.domain with
    | none => throw (KeyError (.str "domain"))
    | some domain => tryCatch (repairDomain env status domain) catchException)

def repair (failedChecks : List FailedCheck) : RepairAction Bool := do
  let status ← lift env.getStatus
  forEach failedChecks (repairCheck env status)
  lift (env.appRepair (failedChecks.filter fun check => ¬ IsDomainCheck check))

end Plinth.LetsEncrypt
