import Mathlib.Data.Finset.Basic
import Plinth.Model.Package

/-!
# Firewall components

`plinth/modules/firewall/components.py` and the calls to firewalld in
`plinth/modules/firewall/__init__.py`.
-/

namespace Plinth

structure Firewall where
  componentId : String
  ports : List String
  isExternal : Bool
  isEnabled : Bool
  deriving DecidableEq, Repr

namespace Firewall

open Effect

inductive Zone
  | internal
  | external
  deriving DecidableEq, Repr

/-- A `glib.Error`: one of the message bus, or an exception of firewalld with its code. -/
inductive Error
  | dbus (name : String)
  | firewalld (code : String)
  deriving DecidableEq, Repr

/-- The daemon: the services enabled in each zone now and in the permanent configuration, and
the services it has loaded and those whose definition is installed. It refuses a permanent
configuration with an unknown service. -/
structure Firewalld where
  running : Bool
  runtime : Zone → Finset String
  permanent : Zone → Finset String
  loaded : Finset String
  installed : Finset String
  known : ∀ zone, permanent zone ⊆ installed

structure System where
  allFirewallComponents : OrderedDict String Firewall
  keyed : ∀ k c, allFirewallComponents.get? k = some c → c.componentId = k
  firewalld : Firewalld

/-! ## The calls that firewalld answers -/

namespace Firewalld

def addRuntime (f : Firewalld) (zone : Zone) (service : String) : Firewalld :=
  { f with runtime := Function.update f.runtime zone (insert service (f.runtime zone)) }

def removeRuntime (f : Firewalld) (zone : Zone) (service : String) : Firewalld :=
  { f with runtime := Function.update f.runtime zone ((f.runtime zone).erase service) }

def addPermanent (f : Firewalld) (zone : Zone) (service : String)
    (installed : service ∈ f.installed) : Firewalld where
  running := f.running
  runtime := f.runtime
  permanent := Function.update f.permanent zone (insert service (f.permanent zone))
  loaded := f.loaded
  installed := f.installed
  known z := by
    obtain rfl | other := eq_or_ne z zone
    · rw [Function.update_self]
      exact Finset.insert_subset installed (f.known z)
    · rw [Function.update_of_ne other]
      exact f.known z

def removePermanent (f : Firewalld) (zone : Zone) (service : String) : Firewalld where
  running := f.running
  runtime := f.runtime
  permanent := Function.update f.permanent zone ((f.permanent zone).erase service)
  loaded := f.loaded
  installed := f.installed
  known z := by
    obtain rfl | other := eq_or_ne z zone
    · rw [Function.update_self]
      exact (Finset.erase_subset _ _).trans (f.known z)
    · rw [Function.update_of_ne other]
      exact f.known z

def reload (f : Firewalld) : Firewalld :=
  { f with runtime := f.permanent, loaded := f.installed }

end Firewalld

abbrev Call := Effect System Error

def modifyFirewalld (f : Firewalld → Firewalld) : Call Unit :=
  modify fun s => { s with firewalld := f s.firewalld }

def proxy : Call Firewalld := do
  let s ← get
  if s.firewalld.running then pure s.firewalld
  else throw (.dbus "ServiceUnknown")

/-- `addService` of the zone interface. -/
def proxyAddService (zone : Zone) (port : String) : Call Unit := do
  let firewalld ← proxy
  if port ∉ firewalld.loaded then throw (.firewalld "INVALID_SERVICE")
  else if port ∈ firewalld.runtime zone then throw (.firewalld "ALREADY_ENABLED")
  else modifyFirewalld (·.addRuntime zone port)

def proxyRemoveService (zone : Zone) (port : String) : Call Unit := do
  let firewalld ← proxy
  if port ∉ firewalld.loaded then throw (.firewalld "INVALID_SERVICE")
  else if port ∉ firewalld.runtime zone then throw (.firewalld "NOT_ENABLED")
  else modifyFirewalld (·.removeRuntime zone port)

/-- `addService` of the interface of the permanent configuration of the zone. -/
def configAddService (zone : Zone) (port : String) : Call Unit := do
  let firewalld ← proxy
  if port ∈ firewalld.permanent zone then throw (.firewalld "ALREADY_ENABLED")
  else if installed : port ∈ firewalld.installed then
    modify fun s => { s with firewalld := firewalld.addPermanent zone port installed }
  else throw (.firewalld "INVALID_SERVICE")

def configRemoveService (zone : Zone) (port : String) : Call Unit := do
  let firewalld ← proxy
  if port ∉ firewalld.permanent zone then throw (.firewalld "NOT_ENABLED")
  else modifyFirewalld (·.removePermanent zone port)

/-! ## The functions of the module -/

def isIgnored (dbusError serviceError : Option String) : Error → Bool
  | .dbus name => dbusError = some name
  | .firewalld code => serviceError = some code

def ignoreDbusError (dbusError serviceError : Option String) (body : Call Unit) : Call Unit :=
  tryCatch body fun e => if isIgnored dbusError serviceError e then pure () else throw e

def reload : Call Unit :=
  ignoreDbusError (some "ServiceUnknown") none do
    let _ ← proxy
    modifyFirewalld (·.reload)

def tryWithReload (operation : Call Unit) : Call Unit :=
  tryCatch operation fun e =>
    if e ≠ .firewalld "INVALID_SERVICE" then throw e
    else do
      reload
      operation

def getEnabledServices (zone : Zone) : Call (Finset String) :=
  tryCatch (do return (← proxy).runtime zone) fun e =>
    -- When firewalld is not running
    if isIgnored (some "ServiceUnknown") none e then pure ∅ else throw e

def addService (port : String) (zone : Zone) : Call Unit :=
  ignoreDbusError (some "ServiceUnknown") none do
    ignoreDbusError none (some "ALREADY_ENABLED") (proxyAddService zone port)
    ignoreDbusError none (some "ALREADY_ENABLED") (configAddService zone port)

def removeService (port : String) (zone : Zone) : Call Unit :=
  ignoreDbusError (some "ServiceUnknown") none do
    ignoreDbusError none (some "NOT_ENABLED") (proxyRemoveService zone port)
    ignoreDbusError none (some "NOT_ENABLED") (configRemoveService zone port)

/-! ## The component -/

def System.setIsEnabled (s : System) (componentId : String) (isEnabled : Bool) : System :=
  match found : s.allFirewallComponents.get? componentId with
  | none => s
  | some c =>
    { s with
      allFirewallComponents :=
        s.allFirewallComponents.set componentId { c with isEnabled := isEnabled }
      keyed := by
        intro k c' h
        rw [OrderedDict.get?_set] at h
        split at h
        · obtain rfl := Option.some.inj h
          rename_i same
          exact (s.keyed componentId c found).trans same.symm
        · exact s.keyed k c' h }

/-- `_enable` -/
def openPorts (self : Firewall) : Call Unit := do
  let internalEnabledPorts ← getEnabledServices .internal
  let externalEnabledPorts ← getEnabledServices .external
  forEach self.ports fun port => do
    when (port ∉ internalEnabledPorts) do
      addService port .internal
    when (self.isExternal ∧ port ∉ externalEnabledPorts) do
      addService port .external

def enable (self : Firewall) : Call Unit := do
  modify (·.setIsEnabled self.componentId true)
  tryWithReload self.openPorts

/-- `_disable` -/
def closePorts (self : Firewall) : Call Unit := do
  let internalEnabledPorts ← getEnabledServices .internal
  let externalEnabledPorts ← getEnabledServices .external
  forEach self.ports fun port => do
    when (port ∈ internalEnabledPorts) do
      let enabledComponentsOnPort := ((← get).allFirewallComponents.values.filter fun component =>
        port ∈ component.ports ∧ self.componentId ≠ component.componentId).map (·.isEnabled)
      when (!enabledComponentsOnPort.any id) do
        removeService port .internal
    when (port ∈ externalEnabledPorts) do
      let enabledComponentsOnPort := ((← get).allFirewallComponents.values.filter fun component =>
        port ∈ component.ports ∧ self.componentId ≠ component.componentId ∧
          component.isExternal).map (·.isEnabled)
      when (!enabledComponentsOnPort.any id) do
        removeService port .external

def disable (self : Firewall) : Call Unit := do
  modify (·.setIsEnabled self.componentId false)
  tryWithReload self.closePorts

/-- A call of `enable` or `disable` on the component with the given id. -/
structure Request where
  componentId : String
  enable : Bool
  deriving DecidableEq, Repr

def Request.call (r : Request) : Call Unit := do
  match (← get).allFirewallComponents.get? r.componentId with
  | none => pure ()
  | some self => if r.enable then self.enable else self.disable

def callAll (requests : List Request) : Call Unit :=
  forEach requests Request.call

end Firewall

end Plinth

/-!
## Diagnosis of firewall components

`Firewall.diagnose` of `plinth/modules/firewall/components.py`. The port numbers that firewalld
knows a service by are given.
-/

namespace Plinth.Firewall

open Effect

/-- `get_port_details` of each service: port numbers with their protocols -/
abbrev PortDetails := String → List (String × String)

def detailsText (details : List (String × String)) : String :=
  ", ".intercalate (details.map fun detail => detail.1 ++ "/" ++ detail.2)

def resultOf (passed : Bool) : DiagnosticCheck.Result :=
  if passed then .passed else .failed

variable (portDetails : PortDetails)

def internalCheck (self : Firewall) (internalPorts : Finset String) (port : String) :
    DiagnosticCheck where
  checkId := "firewall-port-internal-" ++ port
  description := "Port \x7bname\x7d (\x7bdetails\x7d) available for internal networks"
  result := resultOf (port ∈ internalPorts)
  parameters := [("name", port), ("details", detailsText (portDetails port))]
  componentId := self.componentId

def externalCheck (self : Firewall) (externalPorts : Finset String) (port : String) :
    DiagnosticCheck :=
  let parameters := [("name", port), ("details", detailsText (portDetails port))]
  if self.isExternal then
    { checkId := "firewall-port-external-available-" ++ port
      description := "Port \x7bname\x7d (\x7bdetails\x7d) available for external networks"
      result := resultOf (port ∈ externalPorts)
      parameters := parameters
      componentId := self.componentId }
  else
    { checkId := "firewall-port-external-unavailable-" ++ port
      description := "Port \x7bname\x7d (\x7bdetails\x7d) unavailable for external networks"
      result := resultOf (port ∉ externalPorts)
      parameters := parameters
      componentId := self.componentId }

def diagnose (self : Firewall) : Call (List DiagnosticCheck) := do
  let internalPorts ← getEnabledServices .internal
  let externalPorts ← getEnabledServices .external
  return self.ports.flatMap fun port =>
    [internalCheck portDetails self internalPorts port,
      externalCheck portDetails self externalPorts port]

end Plinth.Firewall
