import Plinth.Model.Package
import Plinth.Model.Package.Conffiles

/-!
# Setup of apps

`plinth/setup.py`: the setup and the uninstallation of an app, the setup of the apps at startup,
and the handlers that are notified when packages have changed. Of a run of a handler, each look at
the system and each operation is a step; what is found in an attempt is given by its number.
-/

namespace Plinth.Setup

open Python Exception Atomic Effect Package

/-! ## Operations on an app -/

section Operations

variable (env : Package.Environment)

/-- `attempt_upgrade_for_app` -/
def attemptUpgradeForApp (app : Package.App) (allowInstall : Bool) : Effect Package.State Exception Unit := do
  let now ← takeMoment
  let packages ← lift (env.forceUpgrade now app)
  Effect.when (packages ≠ []) (install env allowInstall packages)

/-- `_run_setup_on_app` -/
def runSetup (app : Package.App) (allowInstall : Bool) : Effect Package.State Exception Unit := do
  let currentVersion := (← get).setupVersion app.appId
  Effect.when (currentVersion ≠ 0) do
    transaction env.refreshPackageLists
    attemptUpgradeForApp env app allowInstall
  app.setup env allowInstall
  modify fun s => { s with setupVersion := Function.update s.setupVersion app.appId app.version }

/-- `_run_uninstall_on_app` -/
def runUninstall (app : Package.App) : Effect Package.State Exception Unit := do
  transaction (env.component · app.appId)
  app.uninstall env
  modify fun s => { s with setupVersion := Function.update s.setupVersion app.appId 0 }

inductive Event
  | setup (app : Package.App) (allowInstall : Bool)
  | uninstall (app : Package.App)
  | elapse (moments : Nat)

def step (s : Package.State) : Event → Package.State
  | .setup app allowInstall => ((runSetup env app allowInstall).exec s).2
  | .uninstall app => ((runUninstall env app).exec s).2
  | .elapse moments => { s with now := s.now + moments }

end Operations

/-! ## Packages that have changed -/

def getActualPackages (cache : Cache) (app : Package.App) : Except Exception (List String) :=
  List.flatten <$> app.packages.mapM (Packages.getActualPackages cache)

/-- `_app_needs_setup_rerun` -/
def appNeedsSetupRerun (packagesKnown : Value) (cache : Cache) :
    List String → Except Exception Bool
  | [] => .ok false
  | package :: packages =>
    match installedVersion cache package with
    -- also for a package that is not in the cache
    | none => .ok false
    | some installedVersion => do
        let packageKnown ← dictGet packagesKnown package (.dict [])
        let versionKnown ← dictGet packageKnown "version" .none
        if isText installedVersion versionKnown then
          appNeedsSetupRerun packagesKnown cache packages
        else return true

/-! ## Setup at startup -/

inductive Outcome
  | refused
  | raises (e : Exception)
  | completes

/-- `run_setup_on_app` -/
def runSetupOnApp (outcome : Outcome) (app : Package.App) (currentVersion : Nat) (rerun : Bool) :
    Except Exception (Option Outcome) :=
  if rerun = false ∧ app.version ≤ currentVersion then .ok none
  else match outcome with
    | .refused => .error (KeyError (.str "Operation in progress/scheduled"))
    | operation => .ok (some operation)

def join : Outcome → Except Exception Unit
  | .raises e => .error e
  | _ => .ok ()

inductive SetupState
  | needsSetup
  | needsUpdate
  | upToDate
  deriving DecidableEq, Repr

def getSetupState (app : Package.App) (currentVersion : Nat) : SetupState :=
  if currentVersion ≠ 0 ∧ app.version ≤ currentVersion then .upToDate
  else if currentVersion = 0 then .needsSetup
  else .needsUpdate

structure Startup where
  apps : List Package.App
  nodup : (apps.map Package.App.appId).Nodup
  outcome : Package.App → Outcome

namespace Startup

/-- `get_setup_version()` of each app. -/
abbrev Versions := String → Nat

variable (startup : Startup)

/-- The setup of an app of the loop; an operation that completes has set the version. -/
def setupApp (app : Package.App) : Effect Versions Exception Unit := do
  let versions ← get
  match ← lift (runSetupOnApp (startup.outcome app) app (versions app.appId) false) with
  | none => pure ()
  | some operation => do
      lift (join operation)
      modify fun versions => Function.update versions app.appId app.version

def setupApps (appIds : List String) (essential : Bool) : Effect Versions Exception Unit :=
  forEach startup.apps fun app =>
    if essential = true ∧ app.isEssential = false then pure ()
    else if appIds ≠ [] ∧ app.appId ∉ appIds then pure ()
    else startup.setupApp app

def runSetupOnApps (appIds : List String) : Effect Versions Exception Unit :=
  if appIds = [] then startup.setupApps [] true
  else startup.setupApps appIds false

def isSetupRequired (versions : Versions) (app : Package.App) : Bool :=
  (app.isEssential ∧ getSetupState app (versions app.appId) ≠ .upToDate) ∨
    getSetupState app (versions app.appId) = .needsUpdate

def getAppsForRegularSetup (versions : Versions) : List String :=
  (startup.apps.filter (isSetupRequired versions)).map Package.App.appId

def attempt (isFirstSetup : Bool) : Effect Versions Exception Unit :=
  if isFirstSetup then startup.runSetupOnApps []
  else do
    let versions ← get
    startup.runSetupOnApps (startup.getAppsForRegularSetup versions)

def retry (isFirstSetup : Bool) : Nat → Versions → Versions
  | 0, versions => versions
  | attempts + 1, versions =>
    match (startup.attempt isFirstSetup).exec versions with
    | (.ok _, versions) => versions
    | (.error _, versions) => retry isFirstSetup attempts versions

def isFirstSetup (versions : Versions) : Bool :=
  startup.apps.any fun app =>
    app.isEssential ∧ getSetupState app (versions app.appId) = .needsSetup

def runSetupOnStartup (attempts : Nat) (versions : Versions) : Versions :=
  startup.retry (startup.isFirstSetup versions) attempts versions

end Startup

/-! ## Handlers of notifications -/

inductive Failure
  | temporary (message : String)
  | permanent (message : String)
  | unknown (e : Exception)

/-- The state that a handler changes, and what has become of the last notification. -/
structure World (ι : Type) where
  attempt : Nat
  unread : List ι
  reading : Bool
  late : Bool
  completed : Bool
  carriedOut : List String

section Handler

variable {ι : Type}

abbrev Handler (ι : Type) := Program (World ι) Failure

def World.begin (w : World ι) : World ι :=
  { w with reading := false, late := false, completed := false }

def World.read [DecidableEq ι] (item : ι) (w : World ι) : World ι :=
  { w with unread := w.unread.filter (· ≠ item), reading := true }

def retries : Failure → Bool
  | .permanent _ => false
  | .temporary _ | .unknown _ => true

def act (action : World ι → World ι) : Handler ι Unit :=
  .step action fun _ => .done (.ok ())

/-- An attempt between its two messages in the log, and whether another one is to be made. -/
def tryAttempt (attempt : Handler ι Unit) : Handler ι Bool :=
  Program.tryCatch
    (do
      act World.begin
      attempt
      act fun w => { w with completed := true }
      return false)
    fun failure => return retries failure

/-- `self._wait_event.wait(...)` -/
def wait (waitEvent : Nat → Bool) : Handler ι Bool :=
  .step (fun w => { w with attempt := w.attempt + 1 }) fun w => .done (.ok (waitEvent w.attempt))

/-- The loops of `_on_dpkg_invoked` and `_run_upgrade`. -/
def attempts (waitEvent : Nat → Bool) (attempt : Handler ι Unit) : Nat → Handler ι Unit
  | 0 => return
  | left + 1 => do
      if ← tryAttempt attempt then
        if ← wait waitEvent then return
        else attempts waitEvent attempt left
      else return

end Handler

/-! ## After dpkg -/

/-- What `_post_invoke_on_app` finds. -/
structure Snapshot where
  setupVersion : Nat
  cache : Cache
  packagesKnown : Value

structure DpkgHandler where
  apps : List Package.App
  nodup : (apps.map Package.App.appId).Nodup
  isShuttingDown : Nat → Bool
  isPackageManagerBusy : Nat → Bool
  waitEvent : Nat → Bool
  snapshot : Nat → Package.App → Snapshot
  outcome : Nat → Package.App → Outcome

def isInterested (app : Package.App) : Bool :=
  app.packages.any Packages.rerunSetupOnUpgrade

def isSelected (snapshot : Snapshot) (app : Package.App) : Except Exception Bool :=
  if getSetupState app snapshot.setupVersion = .needsSetup then .ok false
  else match getActualPackages snapshot.cache app with
    | .error _ => .ok false
    | .ok packages => appNeedsSetupRerun snapshot.packagesKnown snapshot.cache packages

namespace DpkgHandler

def handleAttempts : Nat := 12

variable (handler : DpkgHandler)

/-- `run_setup_on_app(app.app_id, rerun=True)` and `operation.join()` -/
def rerunSetup (app : Package.App) : Handler String Unit :=
  .step id fun w =>
    let snapshot := handler.snapshot w.attempt app
    match runSetupOnApp (handler.outcome w.attempt app) app snapshot.setupVersion true with
    | .error e => .done (.error (.unknown e))
    | .ok none => .done (.ok ())
    | .ok (some operation) =>
      match join operation with
      | .error e => .done (.error (.unknown e))
      | .ok _ => act fun w => { w with carriedOut := w.carriedOut ++ [app.appId] }

def postInvokeOnApp (app : Package.App) : Handler String Unit :=
  if isInterested app then
    .step (World.read app.appId) fun w =>
      match isSelected (handler.snapshot w.attempt app) app with
      | .error e => .done (.error (.unknown e))
      | .ok false => .done (.ok ())
      | .ok true => handler.rerunSetup app
  else return

def postInvokeOnApps : List Package.App → Handler String Unit
  | [] => return
  | app :: apps => do
      handler.postInvokeOnApp app
      postInvokeOnApps apps

def attemptPostInvoke : Handler String Unit :=
  .step id fun w =>
    if handler.isShuttingDown w.attempt then
      .done (.error (.permanent "Service is shutting down"))
    else if handler.isPackageManagerBusy w.attempt then
      .done (.error (.temporary "Package manager is busy"))
    else handler.postInvokeOnApps handler.apps

/-- `_on_dpkg_invoked` -/
def onDpkgInvoked : Handler String Unit :=
  attempts handler.waitEvent handler.attemptPostInvoke handleAttempts

def interested : List String :=
  (handler.apps.filter isInterested).map Package.App.appId

end DpkgHandler

/-! ## Forced upgrades -/

structure ForceUpgrader where
  isShuttingDown : Nat → Bool
  isPackageManagerBusy : Nat → Bool
  waitEvent : Nat → Bool
  /-- `_get_list_of_apps_to_force_upgrade` -/
  appsToForceUpgrade : Nat → Except Exception (List String)
  outcome : Nat → String → Outcome

namespace ForceUpgrader

def upgradeAttempts : Nat := 12

variable (upgrader : ForceUpgrader)

def isError : Outcome → Bool
  | .completes => false
  | _ => true

def forceUpgradeApps : List String → Bool → Handler Unit Unit
  | [], needRetry =>
    if needRetry then .done (.error (.temporary "Some apps failed to force upgrade."))
    else return
  | appId :: appIds, needRetry =>
    .step id fun w =>
      forceUpgradeApps appIds (needRetry || isError (upgrader.outcome w.attempt appId))

def attemptUpgrade : Handler Unit Unit :=
  .step id fun w =>
    if upgrader.isShuttingDown w.attempt then
      .done (.error (.permanent "Service is shutting down"))
    else if upgrader.isPackageManagerBusy w.attempt then
      .done (.error (.temporary "Package manager is busy"))
    else .step (World.read ()) fun w =>
      match upgrader.appsToForceUpgrade w.attempt with
      | .error e => .done (.error (.unknown e))
      | .ok appIds => upgrader.forceUpgradeApps appIds false

/-- `_run_upgrade` -/
def runUpgrade : Handler Unit Unit :=
  attempts upgrader.waitEvent upgrader.attemptUpgrade upgradeAttempts

end ForceUpgrader

/-! ## Notifications -/

structure Notified (ι : Type) where
  world : World ι
  running : Option (Handler ι Unit)

inductive Notified.Event
  | notify
  | advance
  deriving DecidableEq, Repr

/-- `on_dpkg_invoked` and `on_package_cache_updated`: a notification starts a run if it gets the
lock, and does nothing else otherwise. -/
def Notified.step {ι : Type} (items : List ι) (run : Handler ι Unit) (n : Notified ι) :
    Notified.Event → Notified ι
  | .notify =>
    match n.running with
    | none => ⟨{ n.world.begin with unread := items }, some run⟩
    | some running =>
      ⟨{ n.world with unread := items, late := n.world.late || n.world.reading }, some running⟩
  | .advance =>
    match n.running with
    | none => n
    | some (.done _) => ⟨n.world, none⟩
    | some (.step action next) => ⟨action n.world, some (next n.world)⟩

end Plinth.Setup

/-!
## Apps to force upgrade

`_get_list_of_apps_to_force_upgrade` of `plinth/setup.py`: the packages that apps manage, which of
them can be upgraded, and which of these are kept from it by a prompt.
-/

namespace Plinth.Setup.ForceUpgrade

open Python Exception Package

structure Environment where
  apps : List Package.App
  /-- whether the class of an app has the method `force_upgrade` -/
  forceUpgrade : Package.App → Bool
  /-- `get_setup_version()` -/
  setupVersion : String → Nat
  /-- the packages of the cache of apt, with `is_upgradable` -/
  cache : List (String × Bool)
  /-- what the helper of the prompts finds when it is asked for these packages -/
  conffiles : List String → Conffiles.System

variable (env : Environment)

/-- `[package.name for package in packages]` -/
def getListOfUpgradablePackages : List String :=
  (env.cache.filter Prod.snd).map Prod.fst

abbrev PackageAppsMap := OrderedDict String (List String)

def appsOf (packageAppsMap : PackageAppsMap) (package : String) : List String :=
  (packageAppsMap.get? package).getD []

/-- `package_apps_map[managed_package].add(app.app_id)` -/
def addAppId (appId : String) (packageAppsMap : PackageAppsMap) (package : String) :
    PackageAppsMap :=
  packageAppsMap.set package ((appsOf packageAppsMap package).insert appId)

abbrev Managed := List String × PackageAppsMap

def addComponent (appId : String) (managed : Managed) (component : Packages) : Managed :=
  (managed.1 ∪ component.possiblePackages,
    component.possiblePackages.foldl (addAppId appId) managed.2)

def isConsidered (app : Package.App) : Bool :=
  env.forceUpgrade app ∧ getSetupState app (env.setupVersion app.appId) ≠ .needsSetup

def addApp (managed : Managed) (app : Package.App) : Managed :=
  if isConsidered env app then app.packages.foldl (addComponent app.appId) managed else managed

def filterManagedPackages (packages : List String) : Managed :=
  let managed := env.apps.foldl (addApp env) ([], OrderedDict.empty)
  (managed.1.filter (· ∈ packages), managed.2)

def filterConffilePromptPackages (packages : List String) :
    Except Exception (OrderedDict String Conffiles.PackageInfo) :=
  Conffiles.filterConffilePackages (env.conffiles packages) packages

abbrev AppsToUpgrade := OrderedDict String (OrderedDict String Conffiles.PackageInfo)

/-- `apps[app_id][package_name] = conffile_packages[package_name]` for each app of a package. -/
def addPackage (packageAppsMap : PackageAppsMap) (apps : AppsToUpgrade)
    (package : String × Conffiles.PackageInfo) : AppsToUpgrade :=
  (appsOf packageAppsMap package.1).foldl (fun apps appId => apps.setIn appId package.1 package.2)
    apps

def getListOfAppsToForceUpgrade : Except Exception AppsToUpgrade :=
  let packages := getListOfUpgradablePackages env
  if packages = [] then .ok OrderedDict.empty
  else
    let (managedPackages, packageAppsMap) := filterManagedPackages env packages
    if managedPackages = [] then .ok OrderedDict.empty
    else do
      let conffilePackages ← filterConffilePromptPackages env managedPackages
      return conffilePackages.entries.foldl (addPackage packageAppsMap) OrderedDict.empty

end Plinth.Setup.ForceUpgrade
