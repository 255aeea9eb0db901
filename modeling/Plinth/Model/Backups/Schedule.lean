import Mathlib.Logic.Function.Basic
import Plinth.Lib.Calendar
import Plinth.Lib.Python.Value
import Plinth.Model.Backups.Api

/-!
# Scheduled backups

`plinth/modules/backups/schedule.py`, with the part of a repository that it uses.
-/

namespace Plinth.Backups

open Calendar Effect Python Exception

inductive Period
  | daily
  | weekly
  | monthly
  deriving DecidableEq, Repr

namespace Period

def text : Period → String
  | daily => "daily"
  | weekly => "weekly"
  | monthly => "monthly"

def all : List Period := [.daily, .weekly, .monthly]

def sorted : List Period := [.daily, .monthly, .weekly]

end Period

structure Schedule where
  repositoryUuid : String
  enabled : Bool
  dailyToKeep : Nat
  weeklyToKeep : Nat
  monthlyToKeep : Nat
  runAtHour : Nat
  unselectedApps : List String
  deriving DecidableEq, Repr

/-! ## Archives -/

structure Archive where
  name : String
  comment : String
  start : DateTime
  deriving DecidableEq, Repr

structure ScheduledArchive where
  name : String
  periods : List Value
  start : DateTime
  deriving Repr

inductive RepositoryCall
  | getInstance (uuid : String)
  | prepare
  | listArchives
  | createArchive (name : String) (appIds : List String) (archiveComment : String)
  | deleteArchive (name : String)
  | cleanup
  deriving DecidableEq, Repr

/-- A borg repository, with the calls so far and the archives that they have made. -/
structure Repository where
  archives : List Archive
  names_nodup : (archives.map (·.name)).Nodup
  calls : List RepositoryCall
  made : List Archive

/-! ## Comments -/

def doubled (c : Char) (text : List Char) : List Char :=
  text.flatMap fun d => if d = c then [c, c] else [d]

/-- The replacements that `_serialize_comment` makes. -/
def escapeBraces (text : String) : String :=
  String.ofList (doubled '\x7d' (doubled '\x7b' text.toList))

def serializeComment (data : Value) : Except Exception String := do
  return escapeBraces (← dumps jsonDefault data)

/-- What one call of `run_schedule` meets outside of the schedule. -/
structure Trigger where
  now : DateTime
  /-- `repository.generate_archive_name()` -/
  archiveName : String
  /-- the apps of `api.get_all_components_for_backup()` -/
  appIds : List String
  storedComment : String → String
  stored : ∀ text, storedComment (escapeBraces text) = text
  fault : List RepositoryCall → RepositoryCall → Option (Fault × Exception)

namespace Repository

variable (trigger : Trigger)

abbrev Run := Effect Repository Exception

def record (call : RepositoryCall) (self : Repository) : Repository :=
  { self with calls := self.calls ++ [call] }

def add (archive : Archive) (self : Repository) (new : archive.name ∉ self.archives.map (·.name)) :
    Repository :=
  { self with
    archives := archive :: self.archives
    names_nodup := List.nodup_cons.mpr ⟨new, self.names_nodup⟩
    made := self.made ++ [archive] }

def remove (name : String) (self : Repository) : Repository :=
  { self with
    archives := self.archives.filter (·.name ≠ name)
    names_nodup := self.names_nodup.sublist (List.filter_sublist.map _) }

def perform (call : RepositoryCall) (work : Repository → Repository) : Run Unit := do
  let fault := trigger.fault (← get).calls call
  modify (record call)
  match fault with
  | none => modify work
  | some (.before, exception) => throw exception
  | some (.after, exception) => do
      modify work
      throw exception

def sorted (self : Repository) : List Archive :=
  self.archives.mergeSort fun a b => b.start.instant ≤ a.start.instant

def listArchives : Run (List Archive) := do
  perform trigger .listArchives id
  return (← get).sorted

def BorgArchiveExists : Exception :=
  ⟨⟨"plinth.modules.backups.errors", "BorgArchiveExists", "BorgArchiveExists", [.exception]⟩,
    [.str "An archive with given name already exists in the repository."]⟩

/-- The archive that `borg create` makes unless there is one with the name. -/
def addNew (archive : Archive) (self : Repository) : Repository :=
  if new : archive.name ∉ self.archives.map (·.name) then self.add archive new else self

def createArchive (name : String) (appIds : List String) (archiveComment : String) : Run Unit := do
  let taken := name ∈ (← get).archives.map (·.name)
  perform trigger (.createArchive name appIds archiveComment)
    (addNew ⟨name, trigger.storedComment archiveComment, trigger.now⟩)
  when taken do throw BorgArchiveExists

def deleteArchive (name : String) : Run Unit :=
  perform trigger (.deleteArchive name) (remove name)

end Repository

namespace Schedule

open Repository

/-! ## Due periods -/

abbrev Times := Period → DateTime

def isBackupTooSoon (now : DateTime) (recentBackupTimes : Times) : Bool :=
  now.since (recentBackupTimes .daily) < hours 2 ∨ now.since (recentBackupTimes .weekly) < hours 2 ∨
    now.since (recentBackupTimes .monthly) < hours 2

/-- `last_monthly.replace(month=last_monthly.month + 1)`, or the handler of its `ValueError`. -/
def nextMonthly (lastMonthly : DateTime) : Except Exception DateTime :=
  match lastMonthly.withDate? lastMonthly.year (lastMonthly.month + 1) lastMonthly.day with
  | some next => .ok next
  | none =>
    match lastMonthly.withDate? (lastMonthly.year + 1) 1 lastMonthly.day with
    | some next => .ok next
    | none => .error (ValueError "year 10000 is out of range")

def anHourAfter (time : DateTime) : Except Exception Nat :=
  if time.instant + hours 1 ≤ DateTime.max.instant then .ok (time.instant + hours 1)
  else .error (OverflowError "date value out of range")

def tooLongSinceLastBackup (localTime : DateTime) (recentBackupTimes : Times) :
    Except Exception (List Period) := do
  let daily := if localTime.since (recentBackupTimes .daily) > (days 1 + hours 1 : Nat)
    then [Period.daily] else []
  let weekly := if localTime.since (recentBackupTimes .weekly) > (days 7 + hours 1 : Nat)
    then [Period.weekly] else []
  let nextMonthly ← nextMonthly (recentBackupTimes .monthly)
  let monthly := if localTime.instant > (← anHourAfter nextMonthly) then [Period.monthly] else []
  return daily ++ weekly ++ monthly

def timeForPeriods (self : Schedule) (localTime : DateTime) : List Period :=
  let daily := if localTime.hour = self.runAtHour then [Period.daily] else []
  let weekly := if localTime.hour = self.runAtHour ∧ localTime.isoweekday = 7
    then [Period.weekly] else []
  let monthly := if localTime.hour = self.runAtHour ∧ localTime.day = 1
    then [Period.monthly] else []
  daily ++ weekly ++ monthly

def toKeep (self : Schedule) : Period → Nat
  | .daily => self.dailyToKeep
  | .weekly => self.weeklyToKeep
  | .monthly => self.monthlyToKeep

def getDisabledPeriods (self : Schedule) : List Period :=
  Period.all.filter fun period => self.toKeep period = 0

/-! ## Scheduled archives -/

def scheduledPeriods (comment : String) : Except Exception (Option (List Value)) :=
  match loads comment with
  | .error exception =>
    if exception.isinstance .jsonDecodeError then .ok none else .error exception
  | .ok (.dict items) =>
    match lookup "type" items, lookup "periods" items with
    | some (.str "scheduled"), some (.list periods) => .ok (some periods)
    | _, _ => .ok none
  | .ok _ => .ok none

/-- One turn of the loop of `_list_scheduled_archives`. -/
def scheduledArchive (now : DateTime) (archive : Archive) :
    Except Exception (Option ScheduledArchive) := do
  match ← scheduledPeriods archive.comment with
  | none => return none
  | some periods =>
    -- A backup from a time when the clock was ahead is ignored.
    if archive.start.instant > now.instant then return none
    else return some ⟨archive.name, periods, archive.start⟩

def scheduledArchives (now : DateTime) : List Archive → Except Exception (List ScheduledArchive)
  | [] => .ok []
  | archive :: rest => do
      let entry ← scheduledArchive now archive
      let others ← scheduledArchives now rest
      return entry.toList ++ others

def listScheduledArchives (trigger : Trigger) : Run (List ScheduledArchive) := do
  lift (scheduledArchives trigger.now (← listArchives trigger))

def hash : Value → Except Exception Unit
  | .list _ => .error (TypeError "unhashable type: 'list'")
  | .dict _ => .error (TypeError "unhashable type: 'dict'")
  | _ => .ok ()

def isNamed (period : Period) : Value → Bool
  | .str s => s = period.text
  | _ => false

def knownPeriods (periods : List Value) : Except Exception (List Period) := do
  periods.forM hash
  return Period.all.filter fun period => periods.any (isNamed period)

def updateTimes (times : Times) (start : DateTime) (period : Period) : Times :=
  if (times period).instant < start.instant then Function.update times period start else times

/-- The loop of `_get_recent_backup_times`. -/
def recentTimes : List ScheduledArchive → Times → Except Exception Times
  | [], times => .ok times
  | archive :: rest, times => do
      let periods ← knownPeriods archive.periods
      recentTimes rest (periods.foldl (updateTimes · archive.start) times)

def getRecentBackupTimes (trigger : Trigger) : Run Times := do
  lift (recentTimes (← listScheduledArchives trigger) fun _ => .min)

/-! ## Backup and cleanup -/

def backupComment (periods : List Period) : Value :=
  .dict [(.str "type", .str "scheduled"),
    (.str "periods", .list (periods.map fun period => .str period.text))]

def scheduledName (periods : List Period) (archiveName : String) : String :=
  "scheduled: " ++ ", ".intercalate (periods.map (·.text)) ++ ": " ++ archiveName

/-- The set of periods is given as a list; `list.sort()` puts it into the order of strings. -/
def runBackup (self : Schedule) (trigger : Trigger) (periods : List Period) :
    Run Unit := do
  perform trigger (.getInstance self.repositoryUuid) id
  let periods := Period.sorted.filter (· ∈ periods)
  let comment ← lift (serializeComment (backupComment periods))
  createArchive trigger (scheduledName periods trigger.archiveName)
    (trigger.appIds.filter (· ∉ self.unselectedApps)) comment

/-- How many archives of each period the loop of `_run_cleanup` has met. -/
abbrev Counts := Period → Nat

def count (counts : Counts) (periods : List Period) : Counts :=
  fun period => if period ∈ periods then counts period + 1 else counts period

def cleanupArchives (self : Schedule) (trigger : Trigger) :
    List ScheduledArchive → Counts → Run Unit
  | [], _ => return ()
  | archive :: rest, counts => do
      let periods ← lift (knownPeriods archive.periods)
      let counts := count counts periods
      let keep := periods.any fun period => counts period ≤ self.toKeep period
      when (!keep) do deleteArchive trigger archive.name
      cleanupArchives self trigger rest counts

def runCleanup (self : Schedule) (trigger : Trigger) : Run Unit := do
  self.cleanupArchives trigger (← listScheduledArchives trigger) fun _ => 0
  perform trigger .cleanup id

/-- The periods that `run_schedule` makes a backup for. -/
def duePeriods (self : Schedule) (tooLongPeriods timeForPeriods : List Period) : List Period :=
  Period.all.filter fun period =>
    (period ∈ tooLongPeriods ∨ period ∈ timeForPeriods) ∧ period ∉ self.getDisabledPeriods

def runSchedule (self : Schedule) (trigger : Trigger) : Run Bool := do
  if !self.enabled then return false
  perform trigger (.getInstance self.repositoryUuid) id
  perform trigger .prepare id
  let recentBackupTimes ← getRecentBackupTimes trigger
  if isBackupTooSoon trigger.now recentBackupTimes then return false
  let tooLongPeriods ← lift (tooLongSinceLastBackup trigger.now recentBackupTimes)
  let periods := self.duePeriods tooLongPeriods (self.timeForPeriods trigger.now)
  if periods.isEmpty then return false
  self.runBackup trigger periods
  self.runCleanup trigger
  return true

end Schedule

end Plinth.Backups
