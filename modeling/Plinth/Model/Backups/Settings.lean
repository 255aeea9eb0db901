import Plinth.Model.PrivilegedDaemon
import Plinth.Model.Registries

/-!
# Settings of an app in a backup

The hooks of `plinth/modules/backups/components.py` that keep the settings of an app in a file, the
privileged actions that write and read it, and `_run_hooks`, which goes on when a hook raises.
-/

namespace Plinth.Backups.Settings

open Effect Python Exception Actions

structure BackupRestore where
  appId : String
  settings : List String
  deriving DecidableEq, Repr

structure State where
  table : KVStore.Table
  files : String → Option Bytes
  errors : List (BackupRestore × String)

abbrev Action := Effect State Exception

def backupsDataPath : String := "/var/lib/plinth/backups-data/"

def settingsPath (appId : String) : String :=
  backupsDataPath ++ appId ++ "-settings.json"

/-! ## Privileged actions -/

def isAppIdChar (c : Char) : Bool :=
  'a' ≤ c ∧ c ≤ 'z' ∨ '0' ≤ c ∧ c ≤ '9' ∨ c = '_'

def assertAppId (appId : String) : Except Exception Unit :=
  if appId ≠ "" ∧ appId.toList.all isAppIdChar then .ok ()
  else .error ⟨builtin "Exception" [.exception], [.str "Invalid App ID"]⟩

def scalar : Annotation :=
  .union [.int, .float, .bool, .str]

/-- `def dump_settings(app_id: str, settings: dict[str, int | float | bool | str])` -/
def dumpSettingsSpec : ArgSpec where
  args := ["app_id", "settings"]
  varargs := none
  varkw := none
  defaults := []
  kwonlyargs := []
  kwonlydefaults := []
  annotations := ⟨[("app_id", .str), ("settings", .dict .str scalar)], by decide⟩
  nodup := by decide

/-- `def load_settings(app_id: str)` -/
def loadSettingsSpec : ArgSpec where
  args := ["app_id"]
  varargs := none
  varkw := none
  defaults := []
  kwonlyargs := []
  kwonlydefaults := []
  annotations := ⟨[("app_id", .str)], by decide⟩
  nodup := by decide

def dumpSettings : List Value → Action Value
  | [.str appId, settings] => do
      lift (assertAppId appId)
      let text ← lift (dumps jsonDefault settings)
      modify fun s =>
        { s with files := Function.update s.files (settingsPath appId) (some (encodeUtf8 text)) }
      return .none
  | _ => throw (TypeError "dump_settings() takes 2 positional arguments")

/-- `settings_path.read_text()` and `json.loads`. What is read is not checked. -/
def readSettings : Option Bytes → Except Exception Value
  | none => .ok (.dict [])
  | some content => do loads (← decode content)

def loadSettings : List Value → Action Value
  | [.str appId] => do
      lift (assertAppId appId)
      lift (readSettings ((← get).files (settingsPath appId)))
  | _ => throw (TypeError "load_settings() takes 1 positional argument")

/-- A call of an action of the module, as it passes through the daemon: the request is written and
read, its arguments are checked, and the value is written and read. `str` is the interpreter's text of
a value in a message. -/
def callPrivileged (str : Value → String) (argspec : ArgSpec) (actionName : String)
    (func : List Value → Action Value) (args : List Value) : Action Value := do
  let requestString ← lift
    (dumps jsonDefault (request "backups" actionName args [] (.bool false) (.bool true)))
  let received ← lift (PrivilegedDaemon.readRequest (encodeUtf8 requestString))
  let request ← lift (parseRequest received)
  lift (assertValidArguments str ⟨argspec, fun _ _ => ⟨[], [], .returns .none⟩⟩ request.args
    request.kwargs)
  let value ← func request.args
  let reply ← lift (dumps encoderDefault value)
  lift (loads reply)

/-! ## Hooks -/

section Hooks

variable (str : Value → String)

def addSetting (table : KVStore.Table) (data : OrderedDict String Value) (key : String) :
    OrderedDict String Value :=
  match KVStore.get table key with
  | .ok value => data.set key value
  | .error _ => data

def settingsData (table : KVStore.Table) (settings : List String) : OrderedDict String Value :=
  settings.foldl (addSetting table) OrderedDict.empty

def dictOf (data : List (String × Value)) : Value :=
  .dict (data.map fun entry => (.str entry.1, entry.2))

def settingsBackupPre (component : BackupRestore) : Action Unit :=
  if component.settings = [] then pure ()
  else do
    let data := settingsData (← get).table component.settings
    let _ ← callPrivileged str dumpSettingsSpec "dump_settings" dumpSettings
      [.str component.appId, dictOf data.entries]

/-- `data.items()` -/
def items : Value → Except Exception Kwargs
  | .dict members => .ok (stringItems members)
  | value => .error (AttributeError ("'" ++ value.className ++ "' object has no attribute 'items'"))

def setKey (key : String) (value : Value) : Action Unit := do
  let result := (KVStore.set key value).exec (← get).table
  modify fun s => { s with table := result.2 }
  lift result.1

def settingsRestorePost (component : BackupRestore) : Action Unit :=
  if component.settings = [] then pure ()
  else do
    let data ← callPrivileged str loadSettingsSpec "load_settings" loadSettings
      [.str component.appId]
    let items ← lift (items data)
    forEach items fun (key, value) => setKey key value

def runHooks (name : String) (hook : BackupRestore → Action Unit)
    (components : List BackupRestore) : Action Unit :=
  forEach components fun component =>
    tryCatch (hook component) fun _ =>
      modify fun s => { s with errors := s.errors ++ [(component, name)] }

end Hooks

end Plinth.Backups.Settings
