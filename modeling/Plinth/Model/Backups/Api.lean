import Mathlib.Logic.Function.Basic
import Plinth.Lib.Effect

/-!
# Backing up and restoring apps

`plinth/modules/backups/api.py`, with the components of `plinth/modules/backups/components.py`
and the service actions of `plinth/action_utils.py`. The system is what these functions change:
the lock of each app, and which systemd units run and which Apache configurations are enabled.
-/

namespace Plinth.Backups

open Effect

inductive Apache.Kind
  | config
  | site
  | module
  deriving DecidableEq, Repr

/-- An entry of the `services` of a component: a string, or a dictionary with a type. -/
inductive Service
  | name (service : String)
  | system (name : String)
  | apache (name : String) (kind : Apache.Kind)
  deriving DecidableEq, Repr

structure Section where
  directories : List String
  files : List String
  deriving DecidableEq, Repr

structure BackupRestore where
  appId : String
  config : Section
  «data» : Section
  secrets : Section
  services : List Service
  settings : List String
  deriving DecidableEq, Repr

namespace BackupRestore

def getSettingsFile (self : BackupRestore) : Option String :=
  if self.settings.isEmpty ∨ self.appId = "" then none
  else some ("/var/lib/plinth/backups-data/" ++ self.appId ++ "-settings.json")

/-- The property `data`, with the settings file among the files. -/
def dataSection (self : BackupRestore) : Section :=
  match self.getSettingsFile with
  | none => self.data
  | some file => { self.data with files := self.data.files ++ [file] }

end BackupRestore

/-! ## Packets -/

structure BackupError where
  errorType : String
  component : BackupRestore
  hook : String
  deriving DecidableEq, Repr

structure Packet where
  operation : String
  root : String
  components : List BackupRestore
  path : Option String
  archiveComment : Option String
  errors : List BackupError
  directories : List String
  files : List String
  deriving DecidableEq, Repr

def Packet.sections (components : List BackupRestore) : List Section :=
  components.flatMap fun component => [component.config, component.dataSection, component.secrets]

def Packet.create (operation root : String) (components : List BackupRestore)
    (path archiveComment : Option String) : Packet where
  operation := operation
  root := root
  components := components
  path := path
  archiveComment := archiveComment
  errors := []
  directories := (sections components).flatMap (·.directories)
  files := (sections components).flatMap (·.files)

/-! ## The system -/

inductive Resource
  | unit (name : String)
  | apache (name : String) (kind : Apache.Kind)
  deriving DecidableEq, Repr

structure System where
  locked : String → Bool
  active : Resource → Bool

/-- The calls to the privileged daemon, by the position of their service handler. -/
inductive Step
  | stop (position : Nat)
  | restart (position : Nat)
  deriving DecidableEq, Repr

inductive Error
  | raised (step : Step)
  | handler (message : String)
  | setup (message : String)
  | typeError
  deriving DecidableEq, Repr

inductive Fault
  | before
  | after
  deriving DecidableEq, Repr

/-- What the apps and the handler of the operation do, and which privileged calls raise. -/
structure Environment where
  fault : Step → Option Fault
  /-- `setup.run_setup_on_apps` -/
  runSetup : List BackupRestore → System → Option String × System
  hook : String → BackupRestore → Packet → System → Option String × System
  handler : Packet → Option String → System → Option String × System

abbrev Call := Effect System Error

def System.setActive (s : System) (r : Resource) (active : Bool) : System :=
  { s with active := Function.update s.active r active }

/-! ## Services -/

def endsWith (name suffix : String) : Bool :=
  suffix.toList.isSuffixOf name.toList

/-- systemd takes a name without the suffix of a unit type as the name of a service. -/
def unitName (name : String) : String :=
  if [".service", ".socket", ".target", ".timer", ".path", ".mount", ".automount", ".swap",
    ".slice", ".scope", ".device"].any (endsWith name) then name
  else name ++ ".service"

/-- `_get_service_unit`: what stands before the last dot, as a service. -/
def getServiceUnit (socketName : String) : String :=
  String.ofList ((socketName.toList.reverse.dropWhile (· ≠ '.')).drop 1).reverse ++ ".service"

def serviceAction (name : String) (active : Bool) (s : System) : System :=
  s.setActive (.unit (unitName name)) active

def serviceStart (name : String) (s : System) : System :=
  serviceAction name true s

def serviceStop (name : String) (s : System) : System :=
  if endsWith name ".socket" then
    serviceAction (getServiceUnit name) false (serviceAction name false s)
  else serviceAction name false s

def privileged (env : Environment) (step : Step) (act : System → System) : Call Unit :=
  match env.fault step with
  | none => modify act
  | some .before => throw (.raised step)
  | some .after => do
      modify act
      throw (.raised step)

structure ServiceHandler where
  position : Nat
  backupApp : BackupRestore
  service : Service
  /-- `was_running` or `was_enabled` -/
  was : Option Bool
  deriving DecidableEq, Repr

namespace ServiceHandler

/-- What `stop` and `restart` of the two kinds of handlers do. -/
def stopWith (self : ServiceHandler) (env : Environment) (r : Resource)
    (stop : System → System) : Call ServiceHandler := do
  let was := (← get).active r
  when was do privileged env (.stop self.position) stop
  return { self with was := some was }

def restartWith (self : ServiceHandler) (env : Environment) (start : System → System) :
    Call Unit :=
  when (self.was = some true) do privileged env (.restart self.position) start

/-- For a dictionary of type 'system' the whole dictionary is passed as the name. -/
def stop (self : ServiceHandler) (env : Environment) : Call ServiceHandler :=
  match self.service with
  | .name service => self.stopWith env (.unit (unitName service)) (serviceStop service)
  | .system _ => throw .typeError
  | .apache name kind => self.stopWith env (.apache name kind) (·.setActive (.apache name kind) false)

def restart (self : ServiceHandler) (env : Environment) : Call Unit :=
  match self.service with
  | .name service => self.restartWith env (serviceStart service)
  | .system _ => when (self.was = some true) do throw .typeError
  | .apache name kind => self.restartWith env (·.setActive (.apache name kind) true)

end ServiceHandler

/-- The handlers that `_shutdown_services` creates. -/
def createHandlers (components : List BackupRestore) : List ServiceHandler :=
  (components.flatMap fun component => component.services.map fun service =>
    (component, service)).zipIdx.map fun ((component, service), position) =>
      ⟨position, component, service, none⟩

/-- The loop of `_shutdown_services`, over the reversed list. -/
def stopServices (env : Environment) : List ServiceHandler → Call (List ServiceHandler)
  | [] => return []
  | handler :: rest => do
      let rest ← stopServices env rest
      let handler ← handler.stop env
      return handler :: rest

def shutdownServices (env : Environment) (components : List BackupRestore) :
    Call (List ServiceHandler) :=
  stopServices env (createHandlers components)

def restoreServices (env : Environment) (originalState : List ServiceHandler) : Call Unit :=
  forEach originalState fun handler => handler.restart env

/-! ## Operations -/

def lockdownApps (components : List BackupRestore) (lockdown : Bool) : Call Unit :=
  forEach components fun component =>
    modify fun s => { s with locked := Function.update s.locked component.appId lockdown }

/-- Runs what is not modelled; `none` when it returns. -/
def foreign (wrap : String → Error) (run : System → Option String × System) : Call Unit := do
  let result := run (← get)
  set result.2
  match result.1 with
  | none => return ()
  | some message => throw (wrap message)

def runHooks (env : Environment) (hook : String) (components : List BackupRestore)
    (packet : Packet) : Call Packet :=
  components.foldlM (fun packet component =>
    tryCatch
      (do
        foreign .handler (env.hook hook component packet)
        return packet)
      fun _ => return { packet with errors := packet.errors ++ [⟨"hook", component, hook⟩] })
    packet

def runOperation (env : Environment) (packet : Packet) (encryptionPassphrase : Option String) :
    Call Unit := do
  let packet ← runHooks env (packet.operation ++ "_pre") packet.components packet
  foreign .handler (env.handler packet encryptionPassphrase)
  let _ ← runHooks env (packet.operation ++ "_post") packet.components packet

/-- What `backup_apps` and `restore_apps` do with the components, as no snapshots are
available. -/
def runLocked (env : Environment) (components : List BackupRestore) (packet : Packet)
    (encryptionPassphrase : Option String) : Call Unit := do
  lockdownApps components true
  let originalState ← shutdownServices env components
  tryFinally (runOperation env packet encryptionPassphrase) do
    restoreServices env originalState
    lockdownApps components false

/-- The components are those of all apps that are set up or of the selected ones, in the order
of the apps. -/
def backupApps (env : Environment) (components : List BackupRestore) (path : Option String)
    (encryptionPassphrase archiveComment : Option String) : Call Unit :=
  runLocked env components (.create "backup" "/" components path archiveComment)
    encryptionPassphrase

def restoreApps (env : Environment) (components : List BackupRestore) (backupFile : Option String)
    (encryptionPassphrase : Option String) : Call Unit := do
  -- `_install_apps_before_restore`
  foreign .setup (env.runSetup components)
  runLocked env components (.create "restore" "/" components backupFile none) encryptionPassphrase

end Plinth.Backups
