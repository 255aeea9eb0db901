import Mathlib.Logic.Function.Basic
import Plinth.Model.Backups.Api

/-!
# Daemons and apps that share them

`plinth/daemon.py` and the `enable`, `disable` and `is_enabled` of `plinth/app.py`. Several names
may be names of one unit, as an alias is or a name without its suffix: which unit systemd finds
under a name is `unitOf`. The commands take effect.
-/

namespace Plinth.Daemon

open Backups (endsWith getServiceUnit)

structure System where
  enabled : String → Bool
  running : String → Bool
  switches : String → Bool

inductive Component
  | daemon (unit : String) (aliasName : Option String)
  | sharedDaemon (unit : String) (aliasName : Option String)
  /-- any other component, which turns `name` on and off -/
  | switch (name : String) (leader : Bool)
  deriving DecidableEq, Repr

structure App where
  appId : String
  components : List Component
  deriving DecidableEq, Repr

def names (unit : String) (aliasName : Option String) : List String :=
  unit :: aliasName.toList.filter (· ≠ "")

def Component.isLeader : Component → Bool
  | .daemon _ _ => true
  | .sharedDaemon _ _ => false
  | .switch _ leader => leader

/-- `get_components_of_type(SharedDaemon)` has one with this unit. -/
def App.shares (unit : String) (app : App) : Bool :=
  app.components.any fun
    | .sharedDaemon other _ => other = unit
    | _ => false

section

variable (unitOf : String → String)

/-! ## Units -/

def serviceEnable (name : String) (s : System) : System :=
  { s with
    enabled := Function.update s.enabled (unitOf name) true
    running := Function.update s.running (unitOf name) true }

def stopped (name : String) : List String :=
  if endsWith name ".socket" then [name, getServiceUnit name] else [name]

def serviceStop (name : String) (s : System) : System :=
  (stopped name).foldl
    (fun s name => { s with running := Function.update s.running (unitOf name) false }) s

def serviceDisable (name : String) (s : System) : System :=
  serviceStop unitOf name { s with enabled := Function.update s.enabled (unitOf name) false }

def daemonEnable (unit : String) (aliasName : Option String) (s : System) : System :=
  (names unit aliasName).foldl (fun s name => serviceEnable unitOf name s) s

def daemonDisable (unit : String) (aliasName : Option String) (s : System) : System :=
  (names unit aliasName).foldl (fun s name => serviceDisable unitOf name s) s

def daemonIsEnabled (unit : String) (aliasName : Option String) (s : System) : Bool :=
  (names unit aliasName).any fun name => s.enabled (unitOf name)

/-! ## Components and apps -/

def setSwitch (name : String) (on : Bool) (s : System) : System :=
  { s with switches := Function.update s.switches name on }

def Component.isEnabled (s : System) : Component → Bool
  | .daemon unit aliasName => daemonIsEnabled unitOf unit aliasName s
  | .sharedDaemon unit aliasName => daemonIsEnabled unitOf unit aliasName s
  | .switch name _ => s.switches name

def Component.enable (s : System) : Component → System
  | .daemon unit aliasName => daemonEnable unitOf unit aliasName s
  | .sharedDaemon unit aliasName => daemonEnable unitOf unit aliasName s
  | .switch name _ => setSwitch name true s

def App.isEnabled (s : System) (app : App) : Bool :=
  (app.components.filter Component.isLeader).all (Component.isEnabled unitOf s)

def App.enable (s : System) (app : App) : System :=
  app.components.foldl (Component.enable unitOf) s

/-- `apps` are those of `App.list`. -/
def otherAppsEnabled (apps : List App) (appId unit : String) (s : System) : Bool :=
  apps.any fun other =>
    other.appId ≠ appId && other.shares unit && other.isEnabled unitOf s

/-- The component of the app `appId`. -/
def Component.disable (apps : List App) (appId : String) (s : System) : Component → System
  | .daemon unit aliasName => daemonDisable unitOf unit aliasName s
  | .sharedDaemon unit aliasName =>
    if otherAppsEnabled unitOf apps appId unit s then s else daemonDisable unitOf unit aliasName s
  | .switch name _ => setSwitch name false s

def App.disable (apps : List App) (s : System) (app : App) : System :=
  app.components.reverse.foldl (Component.disable unitOf apps app.appId) s

/-! ## Calls -/

inductive Call
  | enable (app : App)
  | disable (app : App)
  deriving DecidableEq, Repr

def Call.app : Call → App
  | .enable app => app
  | .disable app => app

def call (apps : List App) (s : System) : Call → System
  | .enable app => app.enable unitOf s
  | .disable app => app.disable unitOf apps s

end

end Plinth.Daemon

/-!
## Temporarily running units

`Daemon.ensure_running`, `Container.ensure_running` and `action_utils.service_ensure_running`. The
components are those of apps, so that their units are managed; the commands take effect on the
units that exist.
-/

namespace Plinth.Daemon

inductive Context
  /-- also of a `SharedDaemon` -/
  | daemon (unit : String)
  | container (name : String)
  /-- `action_utils.service_ensure_running` -/
  | service (serviceName : String)
  deriving DecidableEq, Repr

def Context.unit : Context → String
  | .daemon unit => unit
  | .container name => name
  | .service serviceName => serviceName

/-- What is run in a context. By itself it does nothing to a unit: it returns or raises. A context
that raises without doing anything is `raises`, and one that raises at its end is followed by it. -/
inductive Body
  | returns
  | raises
  | andThen (first second : Body)
  | orElse (first second : Body)
  | within (context : Context) (body : Body)
  deriving DecidableEq, Repr

section

-- the units with a unit file: the `LoadState` of the others is `not-found`
variable (found : String → Bool)

def enableUnit (name : String) (s : System) : System :=
  if found name then serviceEnable id name s else s

def stopUnit (s : System) (name : String) : System :=
  if found name then { s with running := Function.update s.running name false } else s

def disableUnit (name : String) (s : System) : System :=
  (stopped name).foldl (stopUnit found)
    (if found name then { s with enabled := Function.update s.enabled name false } else s)

def Context.isSkipped : Context → Bool
  | .daemon unit => !found unit
  | _ => false

def Body.run : Body → System → Bool × System
  | .returns, s => (true, s)
  | .raises, s => (false, s)
  | .andThen first second, s =>
    match first.run s with
    | (true, s) => second.run s
    | (false, s) => (false, s)
  | .orElse first second, s =>
    match first.run s with
    | (true, s) => (true, s)
    | (false, s) => second.run s
  | .within context body, s =>
    if context.isSkipped found then body.run s
    else if s.running context.unit then body.run s
    else
      let (returned, s) := body.run (enableUnit found context.unit s)
      (returned, disableUnit found context.unit s)

/-! ## Which units are asked for -/

def Body.completes : Body → Bool
  | .returns => true
  | .raises => false
  | .andThen first second => first.completes && second.completes
  | .orElse first second => first.completes || second.completes
  | .within _ body => body.completes

def Body.entered : Body → List String
  | .returns => []
  | .raises => []
  | .andThen first second =>
    first.entered ++ if first.completes then second.entered else []
  | .orElse first second =>
    first.entered ++ if first.completes then [] else second.entered
  | .within context body =>
    if context.isSkipped found then body.entered else context.unit :: body.entered

end

/-! ## The units that are started -/

def Body.started (found : String → Bool) : Body → System → List String
  | .returns, _ => []
  | .raises, _ => []
  | .andThen first second, s =>
    first.started found s ++
      if first.completes then second.started found (first.run found s).2 else []
  | .orElse first second, s =>
    first.started found s ++
      if first.completes then [] else second.started found (first.run found s).2
  | .within context body, s =>
    if context.isSkipped found then body.started found s
    else if s.running context.unit then body.started found s
    else context.unit :: body.started found (enableUnit found context.unit s)

def turnedOff (found : String → Bool) (units : List String) (s : System) : System :=
  { s with
    enabled := fun unit => s.enabled unit && !(found unit && units.contains unit)
    running := fun unit =>
      s.running unit && !(found unit && units.any fun name => (stopped name).contains unit) }

end Plinth.Daemon
