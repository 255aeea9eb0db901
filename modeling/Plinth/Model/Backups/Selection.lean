import Plinth.Model.Backups.Schedule

/-!
# The apps of a backup

How `plinth/modules/backups/api.py` finds the components of a backup, with `create_archive` of
`backups/repository.py` and the end of `_run_backup` of `backups/schedule.py`, which hand down the
list of the selected apps.
-/

namespace Plinth.Backups

open Effect

inductive AppComponent
  | backupRestore (component : BackupRestore)
  | other
  deriving DecidableEq, Repr

structure InstalledApp where
  appId : String
  needsSetup : Bool
  components : List AppComponent
  own : ∀ component, .backupRestore component ∈ components → component.appId = appId

/-- `App.list()` -/
structure Apps where
  list : List InstalledApp
  nodup : (list.map (·.appId)).Nodup

def AppComponent.backupRestore? : AppComponent → Option BackupRestore
  | .backupRestore component => some component
  | .other => none

def getBackupRestoreComponent (app : InstalledApp) : Except Error BackupRestore :=
  match app.components.findSome? (·.backupRestore?) with
  | some component => .ok component
  | none => .error .typeError

/-- One turn of the loop of `get_all_components_for_backup`. -/
def componentForBackup (app : InstalledApp) : Option BackupRestore :=
  if app.needsSetup then none
  else match getBackupRestoreComponent app with
    | .ok component => some component
    -- `except TypeError`
    | .error _ => none

def getAllComponentsForBackup (apps : Apps) : List BackupRestore :=
  apps.list.filterMap componentForBackup

def getComponentsInOrder (apps : Apps) (appIds : List String) :
    Except Error (List BackupRestore) :=
  (apps.list.filter (·.appId ∈ appIds)).mapM getBackupRestoreComponent

/-- The components of `backup_apps` for the argument `app_ids`. -/
def componentsOf (apps : Apps) (appIds : Option (List String)) :
    Except Error (List BackupRestore) :=
  match appIds with
  -- `not app_ids`
  | none | some [] => .ok (getAllComponentsForBackup apps)
  | some (appId :: rest) => getComponentsInOrder apps (appId :: rest)

def backupSelectedApps (env : Environment) (apps : Apps) (path : String)
    (appIds : Option (List String)) (encryptionPassphrase archiveComment : Option String) :
    Call Unit := do
  let components ← lift (componentsOf apps appIds)
  backupApps env components (some path) encryptionPassphrase archiveComment

/-- What `create_archive` uses of a repository. -/
structure Target where
  borgPath : String
  encryptionPassphrase : Option String
  deriving DecidableEq, Repr

def Target.getArchivePath (self : Target) (archiveName : String) : String :=
  self.borgPath ++ "::" ++ archiveName

def Target.createArchive (self : Target) (env : Environment) (apps : Apps) (archiveName : String)
    (appIds : List String) (archiveComment : Option String) : Call Unit :=
  backupSelectedApps env apps (self.getArchivePath archiveName) (some appIds)
    self.encryptionPassphrase archiveComment

namespace Schedule

def selectedAppIds (self : Schedule) (apps : Apps) : List String :=
  ((getAllComponentsForBackup apps).map (·.appId)).filter (· ∉ self.unselectedApps)

/-- The end of `_run_backup`. -/
def createScheduledArchive (self : Schedule) (env : Environment) (apps : Apps) (target : Target)
    (name comment : String) : Call Unit :=
  target.createArchive env apps name (self.selectedAppIds apps) (some comment)

end Schedule

end Plinth.Backups
