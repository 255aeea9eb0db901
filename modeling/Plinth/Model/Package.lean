import Plinth.Lib.Effect
import Plinth.Model.Registries

/-!
# Packages of apps

`plinth/package.py`: the expressions that stand for packages, the components that install and
uninstall them, and the packages that are known. What apt says changes with time, at any moment
and by any program, so that every look at it and every transaction takes its own moment.
-/

namespace Plinth.Package

open Python Exception Atomic Effect

structure CachePackage where
  installed : Option String
  candidate : Bool
  /-- what the installed version depends on and recommends, as the names of each alternative -/
  dependencies : List (List String)
  deriving DecidableEq, Repr

abbrev Cache := OrderedDict String CachePackage

def installedVersion (cache : Cache) (package : String) : Option String :=
  cache.get? package >>= CachePackage.installed

inductive PackageExpression
  | package (name : String)
  | or (package1 package2 : PackageExpression)
  deriving DecidableEq, Repr

def MissingPackageError (name : String) : Exception :=
  ⟨⟨"plinth.errors", "MissingPackageError", "MissingPackageError", [.exception]⟩, [.str name]⟩

def PackageNotInstalledError (name : String) : Exception :=
  ⟨⟨"plinth.errors", "PackageNotInstalledError", "PackageNotInstalledError", [.exception]⟩,
    [.str name]⟩

namespace PackageExpression

def possible : PackageExpression → List String
  | .package name => [name]
  | .or package1 package2 => package1.possible ++ package2.possible

def actual (cache : Cache) : PackageExpression → Except Exception String
  | .package name =>
    if (cache.get? name).any CachePackage.candidate then .ok name
    else .error (MissingPackageError name)
  | .or package1 package2 =>
    match package1.actual cache with
    | .ok name => .ok name
    | .error _ => package2.actual cache

end PackageExpression

inductive ConflictsAction
  | ignore
  | remove
  deriving DecidableEq, Repr

structure Packages where
  packages : List PackageExpression
  conflicts : List String
  conflictsAction : Option ConflictsAction
  rerunSetupOnUpgrade : Bool
  deriving DecidableEq, Repr

namespace Packages

def possiblePackages (component : Packages) : List String :=
  component.packages.flatMap PackageExpression.possible

def getActualPackages (cache : Cache) (component : Packages) : Except Exception (List String) :=
  component.packages.mapM (PackageExpression.actual cache)

end Packages

inductive Component
  | packages (component : Packages)
  | other (componentId : String)
  deriving DecidableEq, Repr

def Component.packages? : Component → Option Packages
  | .packages component => some component
  | .other _ => none

structure App where
  appId : String
  isEssential : Bool
  /-- `info.version` -/
  version : Nat
  components : List Component
  deriving DecidableEq, Repr

/-- `get_components_of_type(Packages)` -/
def App.packages (app : App) : List Packages :=
  app.components.filterMap Component.packages?

/-! ## Packages to keep -/

def CachePackage.dependencyNames (package : CachePackage) : List String :=
  if package.installed.isSome then package.dependencies.flatten else []

def unprocessed (cache : Cache) (processed : List String) : List String :=
  (cache.entries.filter fun entry => entry.1 ∉ processed).flatMap fun entry =>
    entry.2.dependencyNames

theorem length_unprocessed_entries (name : String) (processed : List String)
    (new : name ∉ processed) (entries : List (String × CachePackage))
    (nodup : (entries.map Prod.fst).Nodup) :
    ((entries.filter fun entry => entry.1 ∉ name :: processed).flatMap fun entry =>
        entry.2.dependencyNames).length +
      (((entries.find? fun entry => entry.1 = name).map Prod.snd).elim []
        CachePackage.dependencyNames).length =
      ((entries.filter fun entry => entry.1 ∉ processed).flatMap fun entry =>
        entry.2.dependencyNames).length := by
  induction entries with
  | nil => rfl
  | cons entry entries ih =>
    rw [List.map_cons, List.nodup_cons] at nodup
    by_cases here : entry.1 = name
    · have others : entries.filter (fun entry => entry.1 ∉ name :: processed) =
          entries.filter fun entry => entry.1 ∉ processed := by
        apply List.filter_congr
        intro other member
        have different : other.1 ≠ name := by
          intro same
          exact nodup.1 (List.mem_map.mpr ⟨other, member, same.trans here.symm⟩)
        simp [different]
      rw [List.filter_cons_of_neg (by simp [here]), List.filter_cons_of_pos (by simp [here, new]),
        List.find?_cons_of_pos (by simp [here]), others, List.flatMap_cons, List.length_append]
      exact Nat.add_comm _ _
    · rw [List.find?_cons_of_neg (by simp [here])]
      by_cases old : entry.1 ∈ processed
      · rw [List.filter_cons_of_neg (by simp [old]), List.filter_cons_of_neg (by simp [old])]
        exact ih nodup.2
      · rw [List.filter_cons_of_pos (by simp [old, here]), List.filter_cons_of_pos (by simp [old])]
        simp only [List.flatMap_cons, List.length_append]
        have rest := ih nodup.2
        omega

theorem length_unprocessed_cons (cache : Cache) (name : String) (processed : List String)
    (new : name ∉ processed) :
    (unprocessed cache (name :: processed)).length +
        ((cache.get? name).elim [] CachePackage.dependencyNames).length =
      (unprocessed cache processed).length :=
  length_unprocessed_entries name processed new cache.entries cache.nodup

/-- The loop over `keep_packages`, which is a set. -/
def keepWithDependencies (cache : Cache) (processed : List String) : List String → List String
  | [] => processed
  | name :: keepPackages =>
    if _ : name ∈ processed then keepWithDependencies cache processed keepPackages
    else
      keepWithDependencies cache (name :: processed)
        ((cache.get? name).elim [] CachePackage.dependencyNames ++ keepPackages)
termination_by keepPackages => (unprocessed cache processed).length + keepPackages.length
decreasing_by
  · simp
  · have bound := length_unprocessed_cons cache name processed (by assumption)
    simp only [List.length_append, List.length_cons]
    omega

/-- `_filter_packages_to_keep`, given the apps that are installed beside the one of the component. -/
def filterPackagesToKeep (cache : Cache) (installedApps : List App) (packages : List String) :
    List String :=
  let needed := installedApps.flatMap fun app => app.packages.flatMap Packages.possiblePackages
  let keepPackages := keepWithDependencies cache [] ("freedombox" :: needed)
  packages.filter (· ∉ keepPackages)

/-! ## Transactions -/

structure Environment where
  apps : List App
  cache : Nat → Cache
  installTransaction : Nat → List String → Option Exception
  uninstallTransaction : Nat → List String → Option Exception
  refreshPackageLists : Nat → Option Exception
  component : Nat → String → Option Exception
  /-- what `attempt_upgrade_for_app` raises, or the packages that it installs -/
  forceUpgrade : Nat → App → Except Exception (List String)
  removed : ∀ now packages, uninstallTransaction now packages = none →
    ∀ package ∈ packages, installedVersion (cache (now + 1)) package = none

structure State where
  now : Nat
  table : KVStore.Table
  setupVersion : String → Nat
  /-- every package that has been marked as known, with the moment; no function reads it -/
  marked : List (Nat × String)

section Transactions

variable (env : Environment)

def takeMoment : Effect State Exception Nat := do
  let s ← get
  modify fun s => { s with now := s.now + 1 }
  return s.now

def openCache : Effect State Exception Cache := do
  let now ← takeMoment
  return env.cache now

def transaction (raises : Nat → Option Exception) : Effect State Exception Unit := do
  let now ← takeMoment
  match raises now with
  | some e => throw e
  | none => pure ()

def onTable {α : Type} (program : Program KVStore.Table Exception α) : Effect State Exception α := do
  let result := program.exec (← get).table
  modify fun s => { s with table := result.2 }
  lift result.1

/-- `mark_known` -/
def markKnownNow (packages : List String) : Effect State Exception Unit := do
  let now := (← get).now
  let cache ← openCache env
  onTable (markKnown (installedVersion cache) packages)
  modify fun s => { s with marked := s.marked ++ packages.map fun package => (now, package) }

def assertInstalled (cache : Cache) (package : String) : Effect State Exception Unit :=
  match cache.get? package with
  | none => throw (KeyError (.str ("The cache has no package named '" ++ package ++ "'")))
  | some cachePackage =>
    if cachePackage.installed.isSome then pure () else throw (PackageNotInstalledError package)

def install (allowInstall : Bool) (packages : List String) : Effect State Exception Unit :=
  if allowInstall then do
    transaction (env.installTransaction · packages)
    markKnownNow env packages
  else do
    let cache ← openCache env
    forEach packages (assertInstalled cache)

def uninstall (packages : List String) : Effect State Exception Unit := do
  transaction (env.uninstallTransaction · packages)
  onTable (unmarkKnown packages)

def packagesInstalled (cache : Cache) (candidates : List String) : List String :=
  candidates.filter fun package => (installedVersion cache package).isSome

namespace Packages

def findConflicts (component : Packages) : Effect State Exception (List String) :=
  if component.conflicts = [] then return []
  else do
    let cache ← openCache env
    return packagesInstalled cache component.conflicts

def setup (allowInstall : Bool) (component : Packages) : Effect State Exception Unit := do
  let packagesToRemove ← component.findConflicts env
  Effect.when (packagesToRemove ≠ [] ∧ component.conflictsAction = some .remove)
    (Package.uninstall env packagesToRemove)
  let cache ← openCache env
  let packages ← lift (component.getActualPackages cache)
  install env allowInstall packages

def uninstall (app : App) (component : Packages) : Effect State Exception Unit := do
  transaction env.refreshPackageLists
  let cache ← openCache env
  let installed := (← get).setupVersion
  let others := env.apps.filter fun other => other.appId ≠ app.appId ∧ installed other.appId ≠ 0
  Package.uninstall env (filterPackagesToKeep cache others component.possiblePackages)

end Packages

namespace App

def setupComponent (allowInstall : Bool) : Component → Effect State Exception Unit
  | .packages component => component.setup env allowInstall
  | .other componentId => transaction (env.component · componentId)

def uninstallComponent (app : App) : Component → Effect State Exception Unit
  | .packages component => component.uninstall env app
  | .other componentId => transaction (env.component · componentId)

def setup (allowInstall : Bool) (app : App) : Effect State Exception Unit :=
  forEach app.components (setupComponent env allowInstall)

def uninstall (app : App) : Effect State Exception Unit :=
  forEach app.components.reverse (uninstallComponent env app)

end App

end Transactions

end Plinth.Package

/-!
## Diagnosis of packages

How expressions for packages are put together and printed, and `Packages.diagnose`, of
`plinth/package.py`, with the checks of `plinth/diagnostic_check.py`.
-/

namespace Plinth

open Python Exception Effect

inductive DiagnosticCheck.Result
  | notDone
  | skipped
  | passed
  | warning
  | failed
  | error
  deriving DecidableEq, Repr

structure DiagnosticCheck where
  checkId : String
  description : String
  result : DiagnosticCheck.Result
  parameters : List (String × String)
  componentId : String
  deriving DecidableEq, Repr

namespace Package

namespace PackageExpression

def className : PackageExpression → String
  | .package _ => "Package"
  | .or .. => "PackageOr"

/-- the attribute `name` -/
def name : PackageExpression → Except Exception String
  | .package name => .ok name
  | .or .. => .error (AttributeError "'PackageOr' object has no attribute 'name'")

/-- `__repr__`, which `str` uses too -/
def repr : PackageExpression → Except Exception String
  | .package name => .ok name
  | .or package1 package2 => do
      let name1 ← package1.name
      let name2 ← package2.name
      return name1 ++ " | " ++ name2

/-- The operator, which only `Package` has. -/
def bar (left right : PackageExpression) : Except Exception PackageExpression :=
  match left with
  | .package name => .ok (.or (.package name) right)
  | .or .. => .error (TypeError ("unsupported operand type(s) for |: 'PackageOr' and '" ++
      right.className ++ "'"))

inductive Term
  | package (name : String)
  | packageOr (package1 package2 : Term)
  | bar (left right : Term)
  deriving DecidableEq, Repr

def Term.eval : Term → Except Exception PackageExpression
  | .package name => .ok (.package name)
  | .packageOr package1 package2 => do
      let package1 ← package1.eval
      let package2 ← package2.eval
      return .or package1 package2
  | .bar left right => do
      let left ← left.eval
      let right ← right.eval
      left.bar right

end PackageExpression

structure Candidate where
  version : String
  isInstalled : Bool
  deriving DecidableEq, Repr

/-- The cache that `diagnose` opens for itself: the packages in it, with the candidate of each. -/
abbrev Candidates := String → Option (Option Candidate)

namespace Packages

def unavailable (packageExpression : String) (componentId : String) : DiagnosticCheck where
  checkId := "package-available-" ++ packageExpression
  description := "Package \x7bpackage_expression\x7d is not available for install"
  result := .failed
  parameters := [("package_expression", packageExpression)]
  componentId := componentId

def latest (candidates : Candidates) (packageName : String) (componentId : String) :
    DiagnosticCheck where
  checkId := "package-latest-" ++ packageName
  description := "Package \x7bpackage_name\x7d is the latest version (\x7blatest_version\x7d)"
  result :=
    match candidates packageName with
    | some (some candidate) => if candidate.isInstalled then .passed else .warning
    | _ => .warning
  parameters := [("package_name", packageName), ("latest_version",
    match candidates packageName with
    | some (some candidate) => candidate.version
    | _ => "?")]
  componentId := componentId

/-- One turn of the loop of `diagnose`; `actual` opens caches of its own. -/
def diagnoseExpression (cache : Cache) (candidates : Candidates) (componentId : String)
    (packageExpression : PackageExpression) : Except Exception DiagnosticCheck :=
  match packageExpression.actual cache with
  | .ok packageName => .ok (latest candidates packageName componentId)
  | .error _ => do return unavailable (← packageExpression.repr) componentId

def diagnose (cache : Cache) (candidates : Candidates) (componentId : String)
    (component : Packages) : Except Exception (List DiagnosticCheck) :=
  component.packages.mapM (diagnoseExpression cache candidates componentId)

end Packages

end Package

end Plinth
