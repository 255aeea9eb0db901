import Plinth.Model.Setup
import Plinth.Model.Setup.Repair
import Plinth.Proof.Package.Conffiles

/-! # The reported outcome of a repair -/

namespace Plinth.Setup.Repair

open Effect

def Message.isError : Message → Bool
  | .diagnosticsError _ | .repairError _ | .repairedWithErrors _ | .installError
  | .setupRepairError | .updateError => true
  | .skipped | .rerunning | .repaired | .installed | .updated => false

/-! ## What is stored -/

def Thread.store (t : Thread) (stored : List String) : Thread :=
  { t with errors := t.errors ++ stored }

@[simp] theorem store_nil (t : Thread) : t.store [] = t := by
  simp [Thread.store]

@[simp] theorem store_store (t : Thread) (first second : List String) :
    (t.store first).store second = t.store (first ++ second) := by
  simp [Thread.store]

@[simp] theorem errors_store (t : Thread) (stored : List String) :
    (t.store stored).errors = t.errors ++ stored := rfl

@[simp] theorem exception_store (t : Thread) (stored : List String) :
    (t.store stored).exception = t.exception := rfl

def Behaves {α : Type} (m : Run α) (behaviour : Behaviour α) : Prop :=
  ∀ t, m.exec t = (behaviour.result, t.store behaviour.stored)

theorem exec_forEach_store (stored : List String) (t : Thread) :
    (forEach stored storeErrorMessage).exec t = (.ok (), t.store stored) := by
  induction stored generalizing t with
  | nil => simp [forEach]
  | cons error rest ih =>
    have first : (storeErrorMessage error).exec t = (.ok (), t.store [error]) := rfl
    rw [forEach, exec_bind, first]
    dsimp only
    rw [ih, store_store]
    rfl

theorem behaves_run {α : Type} (behaviour : Behaviour α) : Behaves behaviour.run behaviour := by
  intro t
  rw [Behaviour.run, exec_bind, exec_forEach_store]
  exact exec_lift _ _

theorem behaves_pure {α : Type} (a : α) : Behaves (pure a) ⟨[], .ok a⟩ := by
  intro t
  simp

theorem Behaves.bind {α β : Type} {m : Run α} {f : α → Run β} {first : Behaviour α}
    {rest : α → Behaviour β} (before : Behaves m first) (after : ∀ a, Behaves (f a) (rest a)) :
    Behaves (m >>= f) (match first.result with
      | .ok a => ⟨first.stored ++ (rest a).stored, (rest a).result⟩
      | .error e => ⟨first.stored, .error e⟩) := by
  intro t
  rw [exec_bind, before t]
  cases first.result with
  | error e => rfl
  | ok a =>
    dsimp only
    rw [after a, store_store]

theorem exists_behaves_repairComponents (failedChecks : List Check) (components : List Component)
    (shouldRerunSetup : Bool) :
    ∃ behaviour, Behaves (App.repairComponents failedChecks components shouldRerunSetup)
      behaviour := by
  induction components generalizing shouldRerunSetup with
  | nil => exact ⟨_, behaves_pure shouldRerunSetup⟩
  | cons component rest ih =>
    simp only [App.repairComponents]
    split
    · exact ih shouldRerunSetup
    · choose behaviour behaves using fun result => ih (shouldRerunSetup || result)
      exact ⟨_, (behaves_run _).bind behaves⟩

theorem exists_behaves_repair (app : App) (failedChecks : List Check) :
    ∃ behaviour, Behaves (app.repair failedChecks) behaviour := by
  choose behaviour behaves using fun remaining : List Check =>
    exists_behaves_repairComponents remaining app.components (remaining.any App.withoutComponent)
  exact ⟨_, (behaves_run (app.ownRepair failedChecks)).bind behaves⟩

def behaviourOf {α : Type} (m : Run α) : Behaviour α :=
  ⟨(m.exec initial).2.errors, (m.exec initial).1⟩

theorem Behaves.behaviourOf {α : Type} {m : Run α} {behaviour : Behaviour α}
    (behaves : Behaves m behaviour) : Behaves m (behaviourOf m) := by
  intro t
  have new := behaves initial
  rw [behaves t, Repair.behaviourOf, new]
  simp [initial]

theorem exec_attempt {α : Type} {m : Run α} {behaviour : Behaviour α}
    (behaves : Behaves m behaviour) (t : Thread) :
    (attempt m).exec t = (.ok behaviour.result, t.store behaviour.stored) := by
  rw [attempt, exec_tryCatch, exec_bind, behaves t]
  cases behaviour.result <;> rfl

/-! ## The course of a repair -/

inductive Course
  | undiagnosed (exception : String)
  | nothing
  | raises (stored : List String) (exception : String)
  | completes (stored : List String) (exception : Option String)

def courseOf (app : App) : Course :=
  match app.diagnose with
  | .error exception => .undiagnosed exception
  | .ok checks =>
    if checks.filter hasFailed = [] then .nothing
    else
      let behaviour := behaviourOf (app.repair (checks.filter hasFailed))
      match behaviour.result with
      | .error exception => .raises behaviour.stored exception
      | .ok false => .completes behaviour.stored none
      | .ok true =>
        match app.setup.result with
        | .ok () => .completes (behaviour.stored ++ app.setup.stored) none
        | .error exception => .completes (behaviour.stored ++ app.setup.stored) exception

namespace Course

def stored : Course → List String
  | .undiagnosed _ | .nothing => []
  | .raises stored _ | .completes stored _ => stored

def Fails : Course → Prop
  | .undiagnosed _ | .raises _ _ => True
  | .nothing => False
  | .completes stored exception => exception ≠ none ∨ stored ≠ []

def success : Course → Message
  | .nothing => .skipped
  | _ => .repaired

end Course

theorem exec_runSetupOnApp (app : App) (t : Thread) :
    ∃ message, (runSetupOnApp app true).exec t = (.ok (), { t.store app.setup.stored with
      message := message
      exception := (match app.setup.result with
        | .ok () => none
        | .error exception => some exception) <|> t.exception }) := by
  rw [runSetupOnApp, exec_bind, exec_attempt (behaves_run app.setup)]
  cases app.setup.result with
  | error exception => exact ⟨_, rfl⟩
  | ok u =>
    dsimp only
    split
    · exact ⟨_, rfl⟩
    · exact ⟨t.message, rfl⟩

theorem exec_reportRepair (t : Thread) :
    reportRepair.exec t = (.ok (), if t.errors = [] then
        { message := some .repaired, exception := t.exception, errors := [] }
      else
        { message := some (.repairedWithErrors t.errors)
          exception := some (lines t.errors)
          errors := [] }) := by
  have retrieved : retrieveErrorMessages.exec t = (.ok t.errors, { t with errors := [] }) := rfl
  rw [reportRepair, exec_bind, retrieved]
  dsimp only
  split <;> rfl

theorem step_eq (t : Thread) (app : App) :
    step t app = match courseOf app with
      | .undiagnosed exception =>
        { t with message := some (.diagnosticsError exception), exception := some exception }
      | .nothing => { t with message := some .skipped }
      | .raises stored exception =>
        { t.store stored with
          message := some (.repairError exception)
          exception := some exception }
      | .completes stored exception =>
        if t.errors ++ stored = [] then
          { message := some .repaired, exception := exception <|> t.exception, errors := [] }
        else
          { message := some (.repairedWithErrors (t.errors ++ stored))
            exception := some (lines (t.errors ++ stored))
            errors := [] } := by
  unfold step runRepairOnApp courseOf
  cases app.diagnose with
  | error exception => rfl
  | ok checks =>
    dsimp only
    split
    · rfl
    · obtain ⟨behaviour, behaves⟩ := exists_behaves_repair app (checks.filter hasFailed)
      rw [exec_bind, exec_attempt behaves.behaviourOf]
      cases (behaviourOf (app.repair (checks.filter hasFailed))).result with
      | error exception => rfl
      | ok shouldRerunSetup =>
        cases shouldRerunSetup with
        | false =>
          dsimp only
          rw [when_of_not Bool.false_ne_true, exec_bind, exec_pure]
          dsimp only
          rw [exec_reportRepair]
          rfl
        | true =>
          dsimp only
          have updated : (onUpdate (some .rerunning) none).exec
              (t.store (behaviourOf (app.repair (checks.filter hasFailed))).stored) =
              (.ok (), { t.store (behaviourOf (app.repair (checks.filter hasFailed))).stored
                with message := some .rerunning }) := rfl
          rw [when_of rfl, exec_bind, exec_bind, updated]
          dsimp only
          obtain ⟨message, ran⟩ := exec_runSetupOnApp app
            { t.store (behaviourOf (app.repair (checks.filter hasFailed))).stored
              with message := some .rerunning }
          rw [ran]
          dsimp only
          rw [exec_reportRepair]
          cases app.setup.result <;> simp [Thread.store]

/-! ## Truthful reports -/

structure Truthful (app : App) (t : Thread) : Prop where
  failure : (courseOf app).Fails ↔
    t.exception ≠ none ∧ ∃ message, t.message = some message ∧ message.isError = true
  success : ¬ (courseOf app).Fails → t.exception = none ∧ t.message = some (courseOf app).success
  own : ∀ errors, t.message = some (.repairedWithErrors errors) → errors = (courseOf app).stored

/-- Nothing that the operation or its thread have kept is taken for a result of this repair, and
a failed setup does not pass for a success. -/
def Unmixed (t : Thread) (app : App) : Prop :=
  match courseOf app with
  | .undiagnosed _ | .raises _ _ => True
  | .nothing => t.exception = none
  | .completes stored exception =>
    t.errors = [] ∧ (stored ≠ [] ∨ exception = none ∧ t.exception = none)

theorem truthful_step_iff (t : Thread) (app : App) :
    Truthful app (step t app) ↔ Unmixed t app := by
  rw [step_eq, Unmixed]
  cases course : courseOf app with
  | undiagnosed exception =>
    apply iff_of_true _ trivial
    constructor <;> simp [course, Course.Fails, Message.isError]
  | raises stored exception =>
    apply iff_of_true _ trivial
    constructor <;> simp [course, Course.Fails, Message.isError]
  | nothing =>
    constructor
    · intro truthful
      have success := truthful.success
      simpa [course, Course.Fails, Course.success] using success
    · intro none
      constructor <;> simp [course, Course.Fails, Course.success, none]
  | completes stored exception =>
    dsimp only
    by_cases kept : t.errors = []
    · by_cases silent : stored = []
      · rw [if_pos (by simp [kept, silent])]
        constructor
        · intro truthful
          have failure := truthful.failure
          have success := truthful.success
          cases exception with
          | some e => simp [course, Course.Fails, Message.isError] at failure
          | none => simpa [course, Course.Fails, silent, kept, Course.success] using success
        · intro unmixed
          obtain ⟨none, none'⟩ := unmixed.2.resolve_left (not_not.mpr silent)
          constructor <;> simp [course, Course.Fails, Course.success, silent, none, none']
      · rw [if_neg (by simp [silent])]
        apply iff_of_true _ ⟨kept, .inl silent⟩
        constructor <;> simp [course, Course.Fails, Course.stored, silent, kept, Message.isError]
    · rw [if_neg (by simp [kept])]
      apply iff_of_false
      · intro truthful
        have own := truthful.own _ rfl
        simp [course, Course.stored, kept] at own
      · simp [kept]

/-- Repairs. In an operation that repairs apps one after the other, every report is truthful
exactly when none of them takes over what the operation and its thread have kept, and none runs a
setup that fails without an error stored. -/
theorem repairs_are_reported_iff (apps : List App) :
    Runs.Throughout step (fun t app => Truthful app (step t app)) initial apps ↔
      Runs.Throughout step Unmixed initial apps :=
  Runs.throughout_congr (fun _ => True) (fun t app _ => truthful_step_iff t app)
    (fun _ _ _ _ => trivial) initial apps trivial

def failingSetup : App where
  appId := "wiki"
  diagnose := .ok [⟨"daemon", some "daemon-wiki", .failed⟩]
  ownRepair checks := ⟨[], .ok checks⟩
  components := [⟨"daemon-wiki", fun _ => ⟨[], .ok true⟩⟩]
  setupVersion := 1
  setup := ⟨[], .error "no space left"⟩

theorem failed_setup_is_reported_as_repaired :
    ¬ ∀ apps, Runs.Throughout step (fun t app => Truthful app (step t app)) initial apps := by
  intro all
  have truthful := (all [failingSetup]).1
  have failure := truthful.failure.mp (.inl (by simp))
  obtain ⟨_, message, shown, isError⟩ := failure
  cases shown
  cases isError

end Plinth.Setup.Repair

/-! ## Apps to force upgrade -/

namespace Plinth.Setup.ForceUpgrade

open Python Exception Effect Package

/-! ## Managed packages -/

theorem appsOf_addAppId (appId : String) (packageAppsMap : PackageAppsMap) (package : String)
    (appId' package' : String) :
    appId' ∈ appsOf (addAppId appId packageAppsMap package) package' ↔
      appId' ∈ appsOf packageAppsMap package' ∨ appId' = appId ∧ package' = package := by
  rw [addAppId, appsOf, OrderedDict.get?_set]
  by_cases same : package' = package
  · rw [if_pos same, Option.getD_some, List.mem_insert_iff, same]
    tauto
  · rw [if_neg same, ← appsOf]
    tauto

theorem appsOf_addComponent (appId : String) (managed : Managed) (component : Packages)
    (appId' package : String) :
    appId' ∈ appsOf (addComponent appId managed component).2 package ↔
      appId' ∈ appsOf managed.2 package ∨
        appId' = appId ∧ package ∈ component.possiblePackages := by
  have loop := Fold.holds_foldl_iff (fun map => appId' ∈ appsOf map package)
    (fun package' => appId' = appId ∧ package = package')
    (fun map package' => appsOf_addAppId appId map package' appId' package)
    component.possiblePackages managed.2
  rw [addComponent, loop]
  constructor
  · rintro (old | ⟨package', member, same, rfl⟩)
    · exact .inl old
    · exact .inr ⟨same, member⟩
  · rintro (old | ⟨same, member⟩)
    · exact .inl old
    · exact .inr ⟨package, member, same, rfl⟩

section Environment

variable (env : Environment)

theorem appsOf_addApp (managed : Managed) (app : Package.App) (appId package : String) :
    appId ∈ appsOf (addApp env managed app).2 package ↔ appId ∈ appsOf managed.2 package ∨
      isConsidered env app ∧ app.appId = appId ∧
        ∃ component ∈ app.packages, package ∈ component.possiblePackages := by
  rw [addApp]
  split
  · next considered =>
    have loop := Fold.holds_foldl_iff (fun managed : Managed => appId ∈ appsOf managed.2 package)
      (fun component => appId = app.appId ∧ package ∈ component.possiblePackages)
      (fun managed component => appsOf_addComponent app.appId managed component appId package)
      app.packages managed
    rw [loop]
    constructor
    · rintro (old | ⟨component, member, same, possible⟩)
      · exact .inl old
      · exact .inr ⟨considered, same.symm, component, member, possible⟩
    · rintro (old | ⟨_, same, component, member, possible⟩)
      · exact .inl old
      · exact .inr ⟨component, member, same.symm, possible⟩
  · next refused =>
    constructor
    · exact .inl
    · rintro (old | ⟨considered, _⟩)
      · exact old
      · exact absurd considered refused

theorem packages_addApp (managed : Managed) (app : Package.App) (package : String) :
    package ∈ (addApp env managed app).1 ↔ package ∈ managed.1 ∨
      isConsidered env app ∧ ∃ component ∈ app.packages, package ∈ component.possiblePackages := by
  rw [addApp]
  split
  · next considered =>
    have loop : package ∈ (app.packages.foldl (addComponent app.appId) managed).1 ↔ _ :=
      Fold.holds_foldl_iff (fun managed : Managed => package ∈ managed.1)
        (fun component => package ∈ component.possiblePackages) (fun _ _ => List.mem_union_iff)
        app.packages managed
    rw [loop, considered]
    simp
  · next refused =>
    rw [Bool.not_eq_true] at refused
    simp [refused]

structure Manages (app : Package.App) (package : String) : Prop where
  implements : env.forceUpgrade app = true
  isSetUp : getSetupState app (env.setupVersion app.appId) = .upToDate ∨
    getSetupState app (env.setupVersion app.appId) = .needsUpdate
  listed : ∃ component ∈ app.packages, ∃ expression ∈ component.packages,
    package ∈ expression.possible

theorem manages_iff (app : Package.App) (package : String) :
    Manages env app package ↔ isConsidered env app ∧
      ∃ component ∈ app.packages, package ∈ component.possiblePackages := by
  have states : (getSetupState app (env.setupVersion app.appId) = .upToDate ∨
      getSetupState app (env.setupVersion app.appId) = .needsUpdate) ↔
        getSetupState app (env.setupVersion app.appId) ≠ .needsSetup := by
    cases getSetupState app (env.setupVersion app.appId) <;> decide
  simp only [isConsidered, Packages.possiblePackages, List.mem_flatMap, decide_eq_true_eq]
  constructor
  · rintro ⟨implements, isSetUp, listed⟩
    exact ⟨⟨implements, states.mp isSetUp⟩, listed⟩
  · rintro ⟨⟨implements, isSetUp⟩, listed⟩
    exact ⟨implements, states.mpr isSetUp, listed⟩

theorem appsOf_filterManagedPackages (packages : List String) (appId package : String) :
    appId ∈ appsOf (filterManagedPackages env packages).2 package ↔
      ∃ app ∈ env.apps, app.appId = appId ∧ Manages env app package := by
  have loop := Fold.holds_foldl_iff (fun managed : Managed => appId ∈ appsOf managed.2 package) _
    (fun managed app => appsOf_addApp env managed app appId package) env.apps ([], .empty)
  rw [filterManagedPackages, loop, appsOf, OrderedDict.get?_empty]
  simp only [manages_iff, Option.getD_none, List.not_mem_nil, false_or]
  apply exists_congr
  intro app
  tauto

def managedPackages : List String :=
  (filterManagedPackages env (getListOfUpgradablePackages env)).1

theorem mem_managedPackages (package : String) :
    package ∈ managedPackages env ↔
      (∃ app ∈ env.apps, Manages env app package) ∧ (package, true) ∈ env.cache := by
  have loop := Fold.holds_foldl_iff (fun managed : Managed => package ∈ managed.1) _
    (fun managed app => packages_addApp env managed app package) env.apps ([], .empty)
  rw [managedPackages, filterManagedPackages, List.mem_filter, loop]
  simp [manages_iff, getListOfUpgradablePackages]

end Environment

/-! ## Attribution -/

theorem lookup_addPackage (packageAppsMap : PackageAppsMap) (apps : AppsToUpgrade)
    (entry : String × Conffiles.PackageInfo) (appId package : String) :
    (addPackage packageAppsMap apps entry).lookup appId package =
      (if entry.1 = package then
        (if appId ∈ appsOf packageAppsMap package then some entry.2 else none)
      else none).or (apps.lookup appId package) := by
  have loop := Fold.observed_foldl_const (fun apps : AppsToUpgrade => apps.lookup appId package)
    entry.2 (fun appId' => appId = appId' ∧ package = entry.1)
    (fun apps appId' => apps.lookup_setIn appId' appId entry.1 package entry.2)
    (appsOf packageAppsMap entry.1) apps
  rw [addPackage, loop]
  by_cases same : entry.1 = package
  · simp only [same, and_true, exists_eq_right', if_true]
    split <;> rfl
  · have missed : ¬ ∃ appId' ∈ appsOf packageAppsMap entry.1, appId = appId' ∧ package = entry.1 := by
      rintro ⟨_, _, _, same'⟩
      exact same same'.symm
    rw [if_neg same, if_neg missed]
    rfl

theorem lookup_addPackages (packageAppsMap : PackageAppsMap)
    (found : OrderedDict String Conffiles.PackageInfo) (appId package : String)
    (info : Conffiles.PackageInfo) :
    (found.entries.foldl (addPackage packageAppsMap) OrderedDict.empty).lookup appId package =
        some info ↔
      appId ∈ appsOf packageAppsMap package ∧ found.get? package = some info := by
  have loop := Fold.observed_foldl (fun apps : AppsToUpgrade => apps.lookup appId package) _
    (fun apps entry => lookup_addPackage packageAppsMap apps entry appId package) found.entries
    OrderedDict.empty
  rw [loop, found.findSome?_entries package
    (fun info => if appId ∈ appsOf packageAppsMap package then some info else none),
    OrderedDict.lookup, OrderedDict.get?_empty]
  by_cases member : appId ∈ appsOf packageAppsMap package
  · simp [member]
  · simp [member]

theorem filled_addPackages (packageAppsMap : PackageAppsMap)
    (entries : List (String × Conffiles.PackageInfo)) :
    (entries.foldl (addPackage packageAppsMap) OrderedDict.empty).Filled := by
  refine List.foldlRecOn entries _ OrderedDict.filled_empty fun apps filled entry _ => ?_
  exact List.foldlRecOn _ _ filled fun apps filled appId _ => filled.setIn appId entry.1 entry.2

/-! ## Selection -/

theorem keys_foldl_set {packages : List String} {keep : String → Prop} [DecidablePred keep]
    (info : String → Conffiles.PackageInfo) {package : String}
    (reported : package ∈ (packages.foldl (fun packagesInfo package =>
      if keep package then packagesInfo else packagesInfo.set package (info package))
        (OrderedDict.empty : OrderedDict String Conffiles.PackageInfo)).keys) :
    package ∈ packages := by
  rw [Fold.holds_foldl_iff (fun packagesInfo : OrderedDict String Conffiles.PackageInfo =>
    package ∈ packagesInfo.keys) (fun package' => ¬ keep package' ∧ package = package')] at reported
  · rcases reported with initial | ⟨package', member, _, rfl⟩
    · cases initial
    · exact member
  · intro packagesInfo package'
    split
    · next kept => simp [kept]
    · next set =>
      rw [OrderedDict.mem_keys_set, or_comm]
      simp [set]

theorem asked_of_reported {system : Conffiles.System} {packagesList : List String}
    {found : OrderedDict String Conffiles.PackageInfo}
    (ok : Conffiles.filterConffilePackages system packagesList = .ok found) {package : String}
    {info : Conffiles.PackageInfo} (reported : found.get? package = some info) :
    package ∈ packagesList := by
  obtain ⟨status, _, ok⟩ := ok_of_bind ok
  obtain ⟨files, _, ok⟩ := ok_of_bind ok
  cases ok
  exact List.mem_dedup.mp
    (keys_foldl_set _ ((OrderedDict.mem_keys_iff ..).mpr ⟨info, reported⟩))

theorem getList_eq (env : Environment) :
    getListOfAppsToForceUpgrade env =
      if managedPackages env = [] then .ok OrderedDict.empty
      else (fun found : OrderedDict String Conffiles.PackageInfo =>
        found.entries.foldl (addPackage
          (filterManagedPackages env (getListOfUpgradablePackages env)).2) OrderedDict.empty) <$>
        filterConffilePromptPackages env (managedPackages env) := by
  rw [getListOfAppsToForceUpgrade]
  split
  · next nothing =>
    have unmanaged : managedPackages env = [] := by
      rw [managedPackages, filterManagedPackages, nothing]
      simp
    rw [if_pos unmanaged]
  · rfl

/-- The call raises what the helper raises. An app has a package under it exactly when the helper
reports the package, which can be upgraded, and the app manages it. -/
theorem forceUpgrade_exact (env : Environment) :
    (∀ e, getListOfAppsToForceUpgrade env = .error e ↔
      managedPackages env ≠ [] ∧
        filterConffilePromptPackages env (managedPackages env) = .error e) ∧
    ∀ apps, getListOfAppsToForceUpgrade env = .ok apps →
      (∀ appId package info, apps.lookup appId package = some info ↔
        (∃ app ∈ env.apps, app.appId = appId ∧ Manages env app package) ∧
        (package, true) ∈ env.cache ∧
        ∃ found, filterConffilePromptPackages env (managedPackages env) = .ok found ∧
          found.get? package = some info) ∧
      ∀ appId, appId ∈ apps.keys ↔ ∃ package info, apps.lookup appId package = some info := by
  rw [getList_eq]
  by_cases unmanaged : managedPackages env = []
  · rw [if_pos unmanaged]
    constructor
    · simp [unmanaged]
    · rintro apps ⟨⟩
      constructor
      · intro appId package info
        simp only [OrderedDict.lookup, OrderedDict.get?_empty, Option.bind_none, reduceCtorEq,
          false_iff]
        rintro ⟨⟨app, member, _, manages⟩, upgradable, _⟩
        have managed := (mem_managedPackages env package).mpr ⟨⟨app, member, manages⟩, upgradable⟩
        rw [unmanaged] at managed
        cases managed
      · exact OrderedDict.filled_empty
  · rw [if_neg unmanaged]
    cases asked : filterConffilePromptPackages env (managedPackages env) with
    | error e =>
      constructor
      · intro e'
        rw [Except.map_error, Except.error.injEq]
        simp [unmanaged]
      · rintro apps ⟨⟩
    | ok found =>
      constructor
      · intro e
        simp [Except.map_ok]
      · rintro apps ⟨⟩
        refine ⟨fun appId package info => ?_, filled_addPackages _ found.entries⟩
        rw [lookup_addPackages, appsOf_filterManagedPackages]
        constructor
        · rintro ⟨⟨app, member, same, manages⟩, reported⟩
          have managed : package ∈ managedPackages env := asked_of_reported asked reported
          exact ⟨⟨app, member, same, manages⟩, ((mem_managedPackages env package).mp managed).2,
            found, rfl, reported⟩
        · rintro ⟨manager, _, found', ⟨⟩, reported⟩
          exact ⟨manager, reported⟩

/-! ## Two apps that share a package -/

def sharing (appId : String) (expression : PackageExpression) : Package.App where
  appId
  isEssential := false
  version := 2
  components := [.packages
    { packages := [expression], conflicts := [], conflictsAction := none
      rerunSetupOnUpgrade := false }]

def shared : Environment where
  apps := [sharing "first" (.package "sample"), sharing "second" (.or (.package "a") (.package "sample")),
    sharing "third" (.package "sample")]
  forceUpgrade _ := true
  setupVersion appId := if appId = "first" then 2 else if appId = "second" then 1 else 0
  cache := [("a", false), ("sample", true), ("other", true)]
  conffiles _ := Conffiles.withUpdate

theorem forceUpgrade_exact_shared : ∃ apps, getListOfAppsToForceUpgrade shared = .ok apps ∧
    apps.keys = ["second", "first"] ∧
    ∀ appId, appId ∈ apps.keys ↔ ∃ package info, apps.lookup appId package = some info := by
  have keys : (getListOfAppsToForceUpgrade shared).toOption.map OrderedDict.keys =
      some ["second", "first"] := by decide +kernel
  cases listed : getListOfAppsToForceUpgrade shared with
  | error e => rw [listed] at keys; cases keys
  | ok apps =>
    rw [listed] at keys
    exact ⟨apps, rfl, Option.some.inj keys, ((forceUpgrade_exact shared).2 apps listed).2⟩

end Plinth.Setup.ForceUpgrade
