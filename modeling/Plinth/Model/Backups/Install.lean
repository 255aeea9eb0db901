import Plinth.Model.Backups.Api
import Plinth.Model.Setup

/-!
# Setup before a restore

`_install_apps_before_restore` of `plinth/modules/backups/api.py`. The setup of the apps keeps a
record of the operations that it starts.
-/

namespace Plinth.Backups

open Effect Python Exception Setup

structure Progress where
  versions : Startup.Versions
  runs : List String

abbrev Installing := Effect Progress Exception

section Installing

variable (startup : Startup)

/-- `component.app` -/
def getApp (appId : String) : Except Exception Package.App :=
  match startup.apps.find? fun app => app.appId = appId with
  | some app => .ok app
  | none => .error (KeyError (.str appId))

def needsInstall (versions : Startup.Versions) (app : Package.App) : Bool :=
  getSetupState app (versions app.appId) ∈ [.needsSetup, .needsUpdate]

def appsToSetup (versions : Startup.Versions) : List BackupRestore → Except Exception (List String)
  | [] => .ok []
  | component :: rest => do
      let app ← getApp startup component.appId
      let others ← appsToSetup versions rest
      return if needsInstall versions app then app.appId :: others else others

def setupApp (app : Package.App) : Installing Unit := do
  let progress ← get
  match ← lift (runSetupOnApp (startup.outcome app) app (progress.versions app.appId) false) with
  | none => pure ()
  | some operation => do
      modify fun progress => { progress with runs := progress.runs ++ [app.appId] }
      lift (join operation)
      modify fun progress =>
        { progress with versions := Function.update progress.versions app.appId app.version }

def setupApps (appIds : List String) (essential : Bool) : Installing Unit :=
  forEach startup.apps fun app =>
    if essential = true ∧ app.isEssential = false then pure ()
    else if appIds ≠ [] ∧ app.appId ∉ appIds then pure ()
    else setupApp startup app

def runSetupOnApps (appIds : List String) : Installing Unit :=
  if appIds = [] then setupApps startup [] true
  else setupApps startup appIds false

def installAppsBeforeRestore (components : List BackupRestore) : Installing Unit := do
  runSetupOnApps startup (← lift (appsToSetup startup (← get).versions components))

end Installing

end Plinth.Backups
