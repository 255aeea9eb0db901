import Plinth.Model.Backups.Schedule
import Plinth.Model.Registries

/-!
# Repositories of backups in the store

The constructors, `load`, `save` and `get_instance` of `plinth/modules/backups/repository.py`, with
`Schedule.__init__` and `get_storage_format` of `backups/schedule.py`. What is loaded has the
values of the store as its attributes, of whatever kind they are.
-/

namespace Plinth.Backups

open Python Exception Atomic

namespace Store

def get (uuid : String) : Program KVStore.Table Exception Value := do
  let storages ← getStorages
  Program.lift (getItem storages uuid)

end Store

namespace Borg

/-- `RootBorgRepository`, `BorgRepository` and `SshBorgRepository` -/
inductive Class
  | root
  | disk
  | ssh
  deriving DecidableEq, Repr

def Class.storageType : Class → String
  | root => "root"
  | disk => "disk"
  | ssh => "ssh"

/-- `RootBorgRepository.UUID` -/
def rootUuid : String := "root"

/-- `RootBorgRepository.PATH` -/
def rootPath : String := "/var/lib/freedombox/borgbackup"

/-! ## Objects -/

structure ScheduleObject where
  repositoryUuid : Value
  enabled : Value
  dailyToKeep : Value
  weeklyToKeep : Value
  monthlyToKeep : Value
  runAtHour : Value
  unselectedApps : Value

structure Object where
  cls : Class
  path : Value
  credentials : Value
  uuid : String
  schedule : ScheduleObject
  /-- `None` in the classes that do not have it -/
  verified : Value

/-- `value or default` -/
def orElse (value default : Value) : Value :=
  if value.truthy then value else default

/-- `value if value is not None else default` -/
def ifNotNone (value default : Value) : Value :=
  match value with
  | .none => default
  | value => value

/-- The argument of this name, which is `None` when it is not given. -/
def argument (name : String) (items : List (Value × Value)) : Value :=
  (lookup name items).getD .none

def scheduleArguments : List String :=
  ["repository_uuid", "enabled", "daily_to_keep", "weekly_to_keep", "monthly_to_keep",
    "run_at_hour", "unselected_apps"]

def isKeyword (names : List String) : Value → Bool
  | .str name => name ∈ names
  | _ => false

/-- `Schedule(**arguments)` -/
def ScheduleObject.init (arguments : Value) : Except Exception ScheduleObject :=
  match arguments with
  | .dict items =>
    if items.all (fun item => isKeyword scheduleArguments item.1) then
      .ok
        { repositoryUuid := argument "repository_uuid" items
          enabled := orElse (argument "enabled" items) (.bool false)
          dailyToKeep := ifNotNone (argument "daily_to_keep" items) (.int 5)
          weeklyToKeep := ifNotNone (argument "weekly_to_keep" items) (.int 3)
          monthlyToKeep := ifNotNone (argument "monthly_to_keep" items) (.int 3)
          runAtHour := ifNotNone (argument "run_at_hour" items) (.int 2)
          unselectedApps := orElse (argument "unselected_apps" items) (.list []) }
    else .error (TypeError "Schedule.__init__() got an unexpected keyword argument")
  | value =>
    .error (TypeError ("Schedule() argument after ** must be a mapping, not " ++ value.className))

/-- The constructors, where `uuid1` is a new uuid. -/
def init (uuid1 : String) (cls : Class) (path credentials : Value) (uuid : Option String)
    (schedule verified : Value) : Except Exception Object := do
  let uuid := if cls = .root then rootUuid else (uuid.filter (· ≠ "")).getD uuid1
  let schedule ← setItem (orElse schedule (.dict [])) "repository_uuid" (.str uuid)
  let schedule ← ScheduleObject.init schedule
  return {
    cls := cls
    path := if cls = .root then .str rootPath else path
    credentials := orElse credentials (.dict [])
    uuid := uuid
    schedule := schedule
    verified := if cls = .ssh then orElse verified (.bool false) else .none }

/-- What `load` makes of the storage. -/
def ofStorage (uuid1 : String) (cls : Class) (uuid : String) (storage : Value) :
    Except Exception Object :=
  match storage with
  | .dict items => do
      let path ← getItem storage "path"
      let _ ← getItem storage "uuid"
      let credentials := (lookup "credentials" items).getD (.dict [])
      let schedule := (lookup "schedule" items).getD (.dict [])
      init uuid1 cls path credentials (some uuid) schedule (argument "verified" items)
  | value => .error (TypeError ("'" ++ value.className ++ "' object is not iterable"))

def load (uuid1 : String) (cls : Class) (uuid : String) : Program KVStore.Table Exception Object := do
  let storage ← Store.get uuid
  Program.lift (ofStorage uuid1 cls uuid storage)

def getInstance (uuid1 uuid : String) : Program KVStore.Table Exception Object :=
  if uuid = rootUuid then
    (load uuid1 .root uuid).tryCatch fun e =>
      if e.isinstance .keyError then .lift (init uuid1 .root .none .none none .none .none)
      else .done (.error e)
  else do
    let storage ← Store.get uuid
    let storageType ← Program.lift (getItem storage "storage_type")
    load uuid1 (if isText "ssh" storageType then .ssh else .disk) uuid

/-! ## Repositories -/

/-- A repository as the program has them: the uuid of that of the root file system is reserved. -/
structure Repository where
  cls : Class
  path : String
  credentials : List (String × Value)
  uuid : String
  schedule : Schedule
  verified : Bool
  nodup : (credentials.map Prod.fst).Nodup
  jsonData : ∀ credential ∈ credentials, JsonData credential.2
  nonempty : uuid ≠ ""
  reserved : cls = .root ↔ uuid = rootUuid
  isRootPath : cls = .root → path = rootPath
  sameUuid : schedule.repositoryUuid = uuid
  unverified : cls ≠ .ssh → verified = false

def count (n : Nat) : Value := .int n

def ofSchedule (schedule : Schedule) : ScheduleObject where
  repositoryUuid := .str schedule.repositoryUuid
  enabled := .bool schedule.enabled
  dailyToKeep := count schedule.dailyToKeep
  weeklyToKeep := count schedule.weeklyToKeep
  monthlyToKeep := count schedule.monthlyToKeep
  runAtHour := count schedule.runAtHour
  unselectedApps := .list (schedule.unselectedApps.map .str)

def Repository.object (repository : Repository) : Object where
  cls := repository.cls
  path := .str repository.path
  credentials := .dict (texts repository.credentials)
  uuid := repository.uuid
  schedule := ofSchedule repository.schedule
  verified := if repository.cls = .ssh then .bool repository.verified else .none

/-- `Schedule.get_storage_format` -/
def scheduleStorage (schedule : Schedule) : List (String × Value) :=
  [("enabled", .bool schedule.enabled),
    ("daily_to_keep", count schedule.dailyToKeep),
    ("weekly_to_keep", count schedule.weeklyToKeep),
    ("monthly_to_keep", count schedule.monthlyToKeep),
    ("run_at_hour", count schedule.runAtHour),
    ("unselected_apps", .list (schedule.unselectedApps.map .str))]

/-- `_get_storage_format`, but for the uuid. -/
def storageFields (repository : Repository) : List (String × Value) :=
  [("path", .str repository.path),
    ("storage_type", .str repository.cls.storageType),
    ("added_by_module", .str "backups"),
    ("credentials", .dict (texts repository.credentials)),
    ("schedule", .dict (texts (scheduleStorage repository.schedule)))] ++
  if repository.cls = .ssh then [("verified", .bool repository.verified)] else []

def Printable (schedule : Schedule) : Prop :=
  ∀ n ∈ [schedule.dailyToKeep, schedule.weeklyToKeep, schedule.monthlyToKeep, schedule.runAtHour],
    tooLong n = false

instance (schedule : Schedule) : Decidable (Printable schedule) :=
  inferInstanceAs (Decidable (∀ n ∈ _, _))

theorem jsonData_count {n : Nat} (short : tooLong n = false) : JsonData (count n) :=
  .int n short

theorem jsonData_texts {members : List (String × Value)} (nodup : (members.map Prod.fst).Nodup)
    (all : ∀ member ∈ members, JsonData member.2) : JsonData (.dict (texts members)) :=
  .dict members nodup all

theorem jsonData_scheduleStorage {schedule : Schedule} (printable : Printable schedule) :
    JsonData (.dict (texts (scheduleStorage schedule))) := by
  have names : JsonData (.list (schedule.unselectedApps.map .str)) := by
    refine .list _ ?_
    intro value member
    obtain ⟨name, _, rfl⟩ := List.mem_map.mp member
    exact .str name
  refine jsonData_texts (by simp [scheduleStorage]) ?_
  simp only [scheduleStorage, List.forall_mem_cons]
  simp only [Printable, List.forall_mem_cons] at printable
  obtain ⟨daily, weekly, monthly, hour, _⟩ := printable
  exact ⟨.bool _, jsonData_count daily, jsonData_count weekly, jsonData_count monthly,
    jsonData_count hour, names, by simp⟩

def Repository.storage (repository : Repository) (printable : Printable repository.schedule) :
    Store.Storage where
  uuid := some repository.uuid
  fields := storageFields repository
  nodup := by
    rw [storageFields]
    split <;> simp
  noUuid := by
    rw [storageFields]
    split <;> simp
  jsonData := by
    have schedule := jsonData_scheduleStorage printable
    have credentials := jsonData_texts repository.nodup repository.jsonData
    rw [storageFields]
    split <;> simp only [List.forall_mem_append, List.forall_mem_cons]
    · exact ⟨⟨.str _, .str _, .str _, credentials, schedule, by simp⟩, .bool _, by simp⟩
    · exact ⟨⟨.str _, .str _, .str _, credentials, schedule, by simp⟩, by simp⟩

/-- `json.dumps` raises for an integer that is too long. -/
def save (uuid1 : String) (repository : Repository) : Program KVStore.Table Exception Value :=
  if printable : Printable repository.schedule then
    Store.updateOrAdd uuid1 (repository.storage printable)
  else .done (.error intError)

end Borg

end Plinth.Backups
