import Plinth.Lib.Calendar
import Plinth.Lib.Python.Text
import Plinth.Model.ActionUtils

/-!
# Distribution upgrades

`plinth/modules/upgrades/distupgrade.py` and what it uses of `upgrades/utils.py`: the contexts in
which an upgrade runs, and the status of upgrades.
-/

namespace Plinth.Upgrades

open ActionUtils Effect Python

def packagesWithPrompts : List String := ["firewalld", "minidlna", "radicale", "bind9"]

def obsoletePackages : List String := []

def preDebconfSelections : List String :=
  ["grub-pc grub-pc/install_devices_empty boolean true"]

def quassel : String := "quasselcore"

/-! ## Performing an upgrade -/

inductive Step
  | apt (step : AptStep)
  | takeSnapshot
  | loadAugeas
  | disableAptSnapshot (state : String)
  | aptUpdate
  | aptFix
  | debconfSetSelections
  | packagesRemoveObsolete
  | aptFullUpgrade
  | aptAutoremove
  | unattendedUpgrades
  | freedomboxRestart
  | triggerOnComplete
  deriving DecidableEq, Repr

structure Environment where
  /-- `snapshot_module.is_supported()` -/
  isSupported : Bool
  raises : Step → Option Exception

def isAptSnapshotsEnabled (s : System) : Bool :=
  s.disableAptSnapshot ≠ some "yes"

section Perform

variable (env : Environment)

def work (step : Step) : Action :=
  attempt (env.raises step) id

def disableAptSnapshot (state : String) : Action :=
  attempt (env.raises (.disableAptSnapshot state)) fun s => { s with disableAptSnapshot := some state }

/-- The snapshot, and whether snapshots of apt are to be enabled again. What raises before they are
disabled has nothing to undo. -/
def snapshotRunAndDisable (body : Action) : Action :=
  if env.isSupported then do
    work env .takeSnapshot
    work env .loadAugeas
    let reenable := isAptSnapshotsEnabled (← get)
    Effect.when (reenable = true) (disableAptSnapshot env "yes")
    tryFinally body (Effect.when (reenable = true) (disableAptSnapshot env "no"))
  else body

def servicesDisable (body : Action) : Action :=
  serviceEnsureStopped quassel body

def aptHoldPackages (body : Action) : Action :=
  aptHoldFreedombox (fun step => env.raises (.apt step))
    (aptHold (fun step => env.raises (.apt step)) packagesWithPrompts body)

def debconfSetSelections : Action :=
  Effect.when (preDebconfSelections ≠ []) (work env .debconfSetSelections)

def packagesRemoveObsolete : Action :=
  Effect.when (obsoletePackages ≠ []) (work env .packagesRemoveObsolete)

def upgrade : Action := do
  work env .aptUpdate
  work env .aptFix
  debconfSetSelections env
  packagesRemoveObsolete env
  work env .aptFullUpgrade
  work env .aptAutoremove

def perform : Action := do
  snapshotRunAndDisable env (servicesDisable (aptHoldPackages env (upgrade env)))
  work env .unattendedUpgrades
  work env .freedomboxRestart
  work env .triggerOnComplete

end Perform

/-! ## The status of upgrades -/

/-- The keys of `distribution_info`. -/
inductive Release
  | bullseye
  | bookworm
  | trixie
  | forky
  | duke
  | testing
  | unstable
  deriving DecidableEq, Repr

namespace Release

def all : List Release :=
  [.bullseye, .bookworm, .trixie, .forky, .duke, .testing, .unstable]

def codename : Release → String
  | .bullseye => "bullseye"
  | .bookworm => "bookworm"
  | .trixie => "trixie"
  | .forky => "forky"
  | .duke => "duke"
  | .testing => "testing"
  | .unstable => "unstable"

def version : Release → Option Nat
  | .bullseye => some 11
  | .bookworm => some 12
  | .trixie => some 13
  | .forky => some 14
  | .duke => some 15
  | .testing | .unstable => none

def next : Release → Option Release
  | .bullseye => some .bookworm
  | .bookworm => some .trixie
  | .trixie => some .forky
  | .forky => some .duke
  | .duke | .testing | .unstable => none

def midnight (year month day : Nat) : Nat :=
  Calendar.days (Calendar.daysBeforeYear year + Calendar.daysBeforeMonth year month + day)

def releaseDate : Release → Option Nat
  | .bullseye => some (midnight 2021 8 14)
  | .bookworm => some (midnight 2023 6 10)
  | .trixie => some (midnight 2025 8 9)
  | .forky | .duke | .testing | .unstable => none

def ofCodename? (codename : String) : Option Release :=
  all.find? fun release => release.codename = codename

end Release

def waitPeriodAfterRelease : Nat := Calendar.days 30

/-- The values of `distribution` of the entries of `sources.list`. -/
abbrev SourcesList := List (Option String)

/-- The set `dists`. -/
def distributions (sourcesList : SourcesList) : List String :=
  (((sourcesList.filterMap id).filter (· ≠ "")).map fun dist => String.ofList
    (Text.removesuffix (Text.removesuffix dist.toList "-updates".toList) "-security".toList)).dedup

def getSourcesListCodename (sourcesList : SourcesList) : Option String :=
  let dists := distributions sourcesList
  if "unstable" ∈ dists ∨ "sid" ∈ dists then some "unstable"
  else if "testing" ∈ dists then some "testing"
  else
    match dists with
    | [dist] => some dist
    | _ => none

/-! ## The distributions of `sources.list` -/

/-- An entry of `sources.list`. A comment has no distribution. -/
structure SourcesEntry where
  distribution : Option String
  nodes : List (String × String)
  deriving DecidableEq, Repr

def suites (entries : List SourcesEntry) : SourcesList :=
  entries.map SourcesEntry.distribution

def updatedDistribution (oldCodename newCodename dist : String) : String :=
  if dist = oldCodename ∨ dist = "stable" then newCodename
  else if Text.startswith dist.toList (oldCodename.toList ++ ['-']) ∨
      Text.startswith dist.toList ("stable".toList ++ ['-']) then
    String.ofList (newCodename.toList ++ '-' :: (Text.partition ['-'] dist.toList).2)
  else dist

def sourcesListUpdate (oldCodename newCodename : String) (entries : List SourcesEntry) :
    List SourcesEntry :=
  entries.map fun entry =>
    { entry with
      distribution := entry.distribution.map (updatedDistribution oldCodename newCodename) }

/-! ## What `get_status` reports -/

inductive NextAction
  | continue_
  | ready
  | manual
  | waitOrManual
  deriving DecidableEq, Repr

/-- What `get_status` reads. -/
structure Facts where
  updatesEnabled : Bool
  distUpgradeEnabled : Bool
  hasFreeSpace : Bool
  running : Bool
  sourcesList : SourcesList
  /-- what `lsb_release` prints, which comes with the package `base-files` -/
  baseFilesCodename : String
  now : Nat

structure Status where
  updatesEnabled : Bool
  distUpgradeEnabled : Bool
  hasFreeSpace : Bool
  running : Bool
  currentCodename : Option String
  currentVersion : Option Nat := none
  currentReleaseDate : Option Nat := none
  nextCodename : Option String := none
  nextVersion : Option Nat := none
  nextReleaseDate : Option Nat := none
  nextAction : Option NextAction := none
  nextActionDate : Option Nat := none

def nextAction (facts : Facts) (current : Release) : Option NextAction :=
  let nextReleaseDate := current.next.bind Release.releaseDate
  if facts.running then none
  else if some facts.baseFilesCodename = current.next.map Release.codename then some .continue_
  else
    match nextReleaseDate with
    | none => none
    | some date =>
      if ¬ facts.updatesEnabled ∨ ¬ facts.distUpgradeEnabled ∨ ¬ facts.hasFreeSpace then none
      else if facts.now ≥ date + waitPeriodAfterRelease then some .ready
      else if facts.now < date then some .manual
      else some .waitOrManual

def getStatus (facts : Facts) : Status :=
  let codename := getSourcesListCodename facts.sourcesList
  let status : Status :=
    { updatesEnabled := facts.updatesEnabled
      distUpgradeEnabled := facts.distUpgradeEnabled
      hasFreeSpace := facts.hasFreeSpace
      running := facts.running
      currentCodename := codename }
  if codename ∈ [none, some "testing", some "unstable"] then status
  else
    let currentCodename := if codename = some "stable" then some facts.baseFilesCodename else codename
    match currentCodename.bind Release.ofCodename? with
    | none => status
    | some current =>
      { status with
        currentCodename := currentCodename
        currentVersion := current.version
        currentReleaseDate := current.releaseDate
        nextCodename := current.next.map Release.codename
        nextVersion := current.next.bind Release.version
        nextReleaseDate := current.next.bind Release.releaseDate
        nextAction := nextAction facts current
        nextActionDate :=
          (current.next.bind Release.releaseDate).map (· + waitPeriodAfterRelease) }

end Plinth.Upgrades

/-!
## The notification of distribution upgrades

`dist_upgrade_show_notification` of `plinth/modules/upgrades/__init__.py`: what is shown before,
during and after an upgrade. What has been shown is known only by the data of the notification.
-/

namespace Plinth.Upgrades.Notification

inductive NoteState
  | starting
  | waiting
  | done
  deriving DecidableEq, Repr

structure NoteData where
  currentCodename : Option String
  currentVersion : Option Nat
  nextCodename : Option String
  nextVersion : Option Nat
  state : NoteState
  forDays : Option Nat
  inDays : Option Int
  deriving DecidableEq, Repr

/-- The notification `upgrades-dist-upgrade`. -/
structure Note where
  data : NoteData
  lastUpdateTime : Nat
  dismissed : Bool
  deriving DecidableEq, Repr

def inDays (status : Status) (now : Nat) : Option Int :=
  status.nextActionDate.map fun date : Nat => (date : Int) - now

def forDays (status : Status) (now : Nat) : Option Nat :=
  match inDays status now with
  | none => none
  | some inDays =>
    if inDays > Calendar.days 60 then none
    else if inDays > Calendar.days 30 then some 60
    else if inDays > Calendar.days 7 then some 30
    else if inDays > Calendar.days 1 then some 7
    else some 1

/-- `in_days.days if in_days else None` -/
def wholeDays (inDays : Option Int) : Option Int :=
  match inDays with
  | some inDays => if inDays = 0 then none else some (inDays / Calendar.days 1)
  | none => none

section Shown

variable (status : Status) (starting : Bool) (now : Nat) (note : Option Note)

def isCompleted : Bool :=
  forDays status now = none ∧ status.currentCodename ≠ none ∧ status.currentCodename ≠ some "" ∧
    note.bind (·.data.nextCodename) = status.currentCodename

def noteState : NoteState :=
  if isCompleted status now note then .done
  else if starting then .starting
  else .waiting

def newData : NoteData where
  currentCodename := status.currentCodename
  currentVersion := status.currentVersion
  nextCodename := status.nextCodename
  nextVersion := status.nextVersion
  state := noteState status starting now note
  forDays := forDays status now
  inDays := wholeDays (inDays status now)

def distUpgradeShowNotification : Option Note :=
  let state := noteState status starting now note
  if status.running then note
  else if status.nextAction = none ∧ state ≠ .done then note
  else if forDays status now = none ∧ note.map (·.data.state) = some .done then note
  else if forDays status now = none ∧ state = .waiting then note
  else if forDays status now = note.bind (·.data.forDays) ∧
      some state = note.map (·.data.state) ∧
      status.nextCodename = note.bind (·.data.nextCodename) then note
  else some ⟨newData status starting now note, now, false⟩

end Shown

/-! ## Runs -/

inductive Event
  | check (facts : Facts) (starting : Bool) (now : Nat)
  | dismiss

def step (note : Option Note) : Event → Option Note
  | .check facts starting now => distUpgradeShowNotification (getStatus facts) starting now note
  | .dismiss => note.map fun note => { note with dismissed := true }

end Plinth.Upgrades.Notification
