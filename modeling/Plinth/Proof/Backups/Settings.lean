import Plinth.Model.Backups.Settings
import Plinth.Proof.Actions.Exactness
import Plinth.Proof.Actions.Transparency
import Plinth.Proof.Registries

/-! # Settings that survive -/

namespace Plinth.Backups.Settings

open Effect Python Exception Actions

/-! ## Calls -/

def requestText (actionName : String) (args : List Value) : Except Exception String :=
  dumps jsonDefault (request "backups" actionName args [] (.bool false) (.bool true))

def requestSize (actionName : String) (args : List Value) : Nat :=
  match requestText actionName args with
  | .ok text => (encodeUtf8 text).length
  | .error _ => 0

def signature (argspec : ArgSpec) : Function :=
  ⟨argspec, fun _ _ => ⟨[], [], .returns .none⟩⟩

structure Accepted (argspec : ArgSpec) (actionName : String) (args : List Value) : Prop where
  short : requestSize actionName args ≤ PrivilegedDaemon.maxRequestLength
  types : Accepts (signature argspec) args []

section Call

variable {str : Value → String} {argspec : ArgSpec} {actionName : String}
  {func : List Value → Action Value} {args : List Value}

theorem exists_requestText (actionName : String) (data : ∀ value ∈ args, JsonData value) :
    ∃ text, requestText actionName args = .ok text ∧
      parseRequest text = .ok ⟨"backups", actionName, args, [], false, true⟩ := by
  have received : JsonData (received "backups" actionName args [] true) :=
    jsonData_received true data List.nodup_nil (by simp)
  obtain ⟨text, dumped, loaded⟩ := received.loads_dumps jsonDefault
  refine ⟨text, ?_, parseRequest_received loaded⟩
  rw [requestText, dumps, encode_request rfl, ← dumps]
  exact dumped

theorem exec_callPrivileged_of_accepted (data : ∀ value ∈ args, JsonData value)
    (accepted : Accepted argspec actionName args) (s : State) :
    (callPrivileged str argspec actionName func args).exec s =
      ((do
        let value ← func args
        let reply ← lift (dumps encoderDefault value)
        lift (loads reply)) : Action Value).exec s := by
  obtain ⟨text, dumped, parsed⟩ := exists_requestText actionName data
  have short := accepted.short
  rw [requestSize, dumped] at short
  have read : PrivilegedDaemon.readRequest (encodeUtf8 text) = .ok text := by
    rw [PrivilegedDaemon.readRequest, if_neg (Nat.not_lt.mpr short), decodeUtf8_encodeUtf8]
  have valid := assertValidArguments_of_accepts str accepted.types
  unfold callPrivileged
  rw [show dumps jsonDefault (request "backups" actionName args [] (.bool false) (.bool true)) = .ok text
    from dumped]
  simp only [exec_bind, exec_lift, read, parsed]
  rw [show assertValidArguments str ⟨argspec, fun _ _ => ⟨[], [], .returns .none⟩⟩ args [] = .ok ()
    from valid]

theorem exec_callPrivileged_of_refused (data : ∀ value ∈ args, JsonData value)
    (refused : ¬ Accepted argspec actionName args) (s : State) :
    ∃ e, (callPrivileged str argspec actionName func args).exec s = (.error e, s) := by
  obtain ⟨text, dumped, parsed⟩ := exists_requestText actionName data
  unfold callPrivileged
  rw [show dumps jsonDefault (request "backups" actionName args [] (.bool false) (.bool true)) = .ok text
    from dumped]
  simp only [exec_bind, exec_lift]
  by_cases short : (encodeUtf8 text).length ≤ PrivilegedDaemon.maxRequestLength
  · have read : PrivilegedDaemon.readRequest (encodeUtf8 text) = .ok text := by
      rw [PrivilegedDaemon.readRequest, if_neg (Nat.not_lt.mpr short), decodeUtf8_encodeUtf8]
    simp only [read, parsed]
    cases valid : assertValidArguments str ⟨argspec, fun _ _ => ⟨[], [], .returns .none⟩⟩ args [] with
    | error e => exact ⟨e, rfl⟩
    | ok _ =>
      have fits : requestSize actionName args ≤ PrivilegedDaemon.maxRequestLength := by
        rw [requestSize, dumped]
        exact short
      exact absurd ⟨fits, accepts_of_assertValidArguments valid⟩ refused
  · have tooLong : PrivilegedDaemon.readRequest (encodeUtf8 text) =
        .error (ValueError "Request too large") := if_pos (Nat.not_le.mp short)
    rw [tooLong]
    exact ⟨_, rfl⟩

end Call

/-! ## Types of the arguments -/

def IsScalar : Value → Prop
  | .int _ | .float _ | .bool _ | .str _ => True
  | _ => False

theorem inhabits_scalar_iff (value : Value) : Inhabits scalar value ↔ IsScalar value := by
  constructor
  · intro inhabits
    cases inhabits with
    | union member inhabits =>
      simp only [List.mem_cons, List.not_mem_nil, or_false] at member
      rcases member with rfl | rfl | rfl | rfl <;> cases inhabits <;> trivial
  · intro isScalar
    match value, isScalar with
    | .int n, _ => exact .union (.head _) (.int n)
    | .float f, _ => exact .union (.tail _ (.head _)) (.float f)
    | .bool b, _ => exact .union (.head _) (.intBool b)
    | .str s, _ => exact .union (.tail _ (.tail _ (.tail _ (.head _)))) (.str s)

theorem accepts_dump_iff (appId : String) (data : List (String × Value)) :
    Accepts (signature dumpSettingsSpec) [.str appId, dictOf data] [] ↔
      ∀ entry ∈ data, IsScalar entry.2 := by
  constructor
  · intro accepts entry member
    obtain ⟨hint, found, inhabits⟩ := accepts.positionals ("settings", dictOf data) (.tail _ (.head _))
    cases found
    cases inhabits with
    | dict _ values =>
      exact (inhabits_scalar_iff _).mp (values (.str entry.1, entry.2) (List.mem_map_of_mem member))
  · intro all
    refine ⟨Nat.le_refl 2, fun key member => ?_, fun entry member => ?_, fun entry member => ?_,
      fun entry member => ?_⟩
    · cases member
    · cases member
    · cases member
    · rcases List.mem_cons.mp member with rfl | member
      · exact ⟨.str, rfl, .str appId⟩
      · rcases List.mem_cons.mp member with rfl | member
        · refine ⟨_, rfl, .dict (fun item present => ?_) fun item present => ?_⟩
          · obtain ⟨entry, -, rfl⟩ := List.mem_map.mp present
            exact .str entry.1
          · obtain ⟨entry, stored, rfl⟩ := List.mem_map.mp present
            exact (inhabits_scalar_iff _).mpr (all entry stored)
        · cases member

theorem accepts_load (appId : String) :
    Accepts (signature loadSettingsSpec) [.str appId] [] := by
  refine ⟨Nat.le_refl 1, fun key member => ?_, fun entry member => ?_, fun entry member => ?_,
    fun entry member => ?_⟩
  · cases member
  · cases member
  · cases member
  · rcases List.mem_cons.mp member with rfl | member
    · exact ⟨.str, rfl, .str appId⟩
    · cases member

theorem requestSize_load_le {appId : String} {settings : Value} (data : JsonData settings) :
    requestSize "load_settings" [.str appId] ≤
      requestSize "dump_settings" [.str appId, settings] := by
  obtain ⟨document, encoded, -⟩ := data.encode jsonDefault
  have load : requestText "load_settings" [.str appId] = .ok (Json.dumps (.obj
      [("module", .str "backups"), ("action", .str "load_settings"), ("args", .arr [.str appId]),
        ("kwargs", .obj [])])) := rfl
  have dump : requestText "dump_settings" [.str appId, settings] = .ok (Json.dumps (.obj
      [("module", .str "backups"), ("action", .str "dump_settings"),
        ("args", .arr [.str appId, document]), ("kwargs", .obj [])])) := by
    simp [requestText, request, dumps, encode, encodeItems, encodeList, encodeKey, encoded]
    rfl
  rw [requestSize, load, requestSize, dump]
  dsimp only
  rw [Json.dumps, Json.dumps, encodeUtf8_ofList (Json.ascii_print _),
    encodeUtf8_ofList (Json.ascii_print _), List.length_map, List.length_map]
  have names : (Json.printString "load_settings").length = (Json.printString "dump_settings").length := by
    decide
  simp only [Json.print, Json.printMembers, Json.printElements, List.length_append,
    List.length_cons, names]
  omega

/-! ## The settings that have a value -/

theorem get?_foldl_settings (table : KVStore.Table) (settings : List String)
    (data : OrderedDict String Value) (key : String) :
    (settings.foldl (addSetting table) data).get? key =
      if key ∈ settings then (KVStore.get table key).toOption.or (data.get? key)
      else data.get? key := by
  induction settings generalizing data with
  | nil => rfl
  | cons first settings ih =>
    rw [List.foldl_cons, ih, addSetting]
    by_cases same : key = first
    · subst same
      cases KVStore.get table key <;> simp [Except.toOption]
    · cases KVStore.get table first <;> simp [same, OrderedDict.get?_set]

theorem get?_settingsData (table : KVStore.Table) (settings : List String) (key : String)
    (value : Value) :
    (settingsData table settings).get? key = some value ↔
      key ∈ settings ∧ KVStore.get table key = .ok value := by
  rw [settingsData, get?_foldl_settings]
  by_cases declared : key ∈ settings
  · rw [if_pos declared]
    cases KVStore.get table key <;> simp [Except.toOption, declared]
  · simp [declared]

theorem jsonData_get {table : KVStore.Table} {key : String} {value : Value}
    (found : KVStore.get table key = .ok value) : JsonData value := by
  unfold KVStore.get at found
  split at found
  · exact jsonData_loads found
  · cases found

theorem jsonData_settingsData (table : KVStore.Table) (settings : List String) :
    ∀ entry ∈ (settingsData table settings).entries, JsonData entry.2 := by
  intro entry member
  have found := ((settingsData table settings).get?_eq_some_iff entry.1 entry.2).mpr member
  exact jsonData_get ((get?_settingsData ..).mp found).2

theorem jsonData_dictOf (data : OrderedDict String Value)
    (all : ∀ entry ∈ data.entries, JsonData entry.2) : JsonData (dictOf data.entries) :=
  .dict data.entries data.nodup all

/-! ## A dump -/

def ValidAppId (appId : String) : Prop :=
  appId ≠ "" ∧ appId.toList.all isAppIdChar = true

instance decidableValidAppId (appId : String) : Decidable (ValidAppId appId) :=
  inferInstanceAs (Decidable (_ ∧ _))

theorem assertAppId_of_valid {appId : String} (valid : ValidAppId appId) :
    assertAppId appId = .ok () :=
  if_pos valid

theorem assertAppId_of_invalid {appId : String} (invalid : ¬ ValidAppId appId) :
    ∃ e, assertAppId appId = .error e :=
  ⟨_, if_neg invalid⟩

structure Dumpable (component : BackupRestore) (table : KVStore.Table) : Prop where
  appId : ValidAppId component.appId
  scalars : ∀ key ∈ component.settings, ∀ value, KVStore.get table key = .ok value → IsScalar value
  short : requestSize "dump_settings" [.str component.appId,
    dictOf (settingsData table component.settings).entries] ≤ PrivilegedDaemon.maxRequestLength

theorem dumpable_iff (component : BackupRestore) (table : KVStore.Table) :
    Dumpable component table ↔ ValidAppId component.appId ∧
      Accepted dumpSettingsSpec "dump_settings" [.str component.appId,
        dictOf (settingsData table component.settings).entries] := by
  constructor
  · rintro ⟨appId, scalars, short⟩
    refine ⟨appId, short, (accepts_dump_iff ..).mpr fun entry member => ?_⟩
    have found := (OrderedDict.get?_eq_some_iff _ entry.1 entry.2).mpr member
    obtain ⟨declared, stored⟩ := (get?_settingsData ..).mp found
    exact scalars entry.1 declared entry.2 stored
  · rintro ⟨appId, short, types⟩
    refine ⟨appId, fun key declared value stored => ?_, short⟩
    have found := (get?_settingsData ..).mpr ⟨declared, stored⟩
    exact (accepts_dump_iff ..).mp types (key, value) ((OrderedDict.get?_eq_some_iff ..).mp found)

section Hooks

variable {str : Value → String} {component : BackupRestore} {s : State}

theorem dump_data (component : BackupRestore) (table : KVStore.Table) :
    ∀ value ∈ [.str component.appId, dictOf (settingsData table component.settings).entries],
      JsonData value := by
  intro value member
  simp only [List.mem_cons, List.not_mem_nil, or_false] at member
  rcases member with rfl | rfl
  · exact .str _
  · exact jsonData_dictOf _ (jsonData_settingsData table component.settings)

def dumped (component : BackupRestore) (s : State) (text : String) : State :=
  { s with
    files := Function.update s.files (settingsPath component.appId) (some (encodeUtf8 text)) }

theorem exec_settingsBackupPre (declared : component.settings ≠ []) :
    (settingsBackupPre str component).exec s = (do
      let _ ← callPrivileged str dumpSettingsSpec "dump_settings" dumpSettings
        [.str component.appId, dictOf (settingsData s.table component.settings).entries]
      return : Action Unit).exec s := by
  rw [settingsBackupPre, if_neg declared, exec_bind, exec_get]

variable (str) in
theorem exec_settingsBackupPre_of_dumpable (declared : component.settings ≠ [])
    (dumpable : Dumpable component s.table) :
    ∃ text, loads text = .ok (dictOf (settingsData s.table component.settings).entries) ∧
      (settingsBackupPre str component).exec s = (.ok (), dumped component s text) := by
  obtain ⟨text, written, read⟩ := (jsonData_dictOf _
    (jsonData_settingsData s.table component.settings)).loads_dumps jsonDefault
  refine ⟨text, read, ?_⟩
  have accepted := ((dumpable_iff ..).mp dumpable).2
  rw [exec_settingsBackupPre declared, exec_bind,
    exec_callPrivileged_of_accepted (dump_data component s.table) accepted]
  simp only [dumpSettings, exec_bind, exec_lift, assertAppId_of_valid dumpable.appId, written,
    exec_modify, exec_pure]
  rfl

variable (str) in
theorem exec_settingsBackupPre_of_refused (declared : component.settings ≠ [])
    (refused : ¬ Dumpable component s.table) :
    ∃ e, (settingsBackupPre str component).exec s = (.error e, s) := by
  rw [exec_settingsBackupPre declared, exec_bind]
  rw [dumpable_iff, not_and_or] at refused
  by_cases accepted : Accepted dumpSettingsSpec "dump_settings" [.str component.appId,
    dictOf (settingsData s.table component.settings).entries]
  · obtain ⟨e, raised⟩ := assertAppId_of_invalid (refused.resolve_right (not_not.mpr accepted))
    refine ⟨e, ?_⟩
    rw [exec_callPrivileged_of_accepted (dump_data component s.table) accepted]
    simp only [dumpSettings, exec_bind, exec_lift, raised]
  · obtain ⟨e, raised⟩ : ∃ e, (callPrivileged str dumpSettingsSpec "dump_settings" dumpSettings
        [.str component.appId, dictOf (settingsData s.table component.settings).entries]).exec s =
          (.error e, s) :=
      exec_callPrivileged_of_refused (dump_data component s.table) accepted s
    exact ⟨e, by rw [raised]⟩

/-! ## A load -/

def loaded (component : BackupRestore) (file : Option Bytes) : Kwargs :=
  if ValidAppId component.appId ∧
      requestSize "load_settings" [.str component.appId] ≤ PrivilegedDaemon.maxRequestLength then
    match readSettings file >>= items with
    | .ok entries => entries
    | .error _ => []
  else []

theorem jsonData_readSettings {file : Option Bytes} {value : Value}
    (read : readSettings file = .ok value) : JsonData value := by
  cases file with
  | none =>
    cases read
    exact .dict [] List.nodup_nil (by simp)
  | some content =>
    obtain ⟨text, -, loaded⟩ := ok_of_bind read
    exact jsonData_loads loaded

theorem of_items {value : Value} (data : JsonData value) {entries : Kwargs}
    (read : items value = .ok entries) :
    (entries.map Prod.fst).Nodup ∧ ∀ entry ∈ entries, JsonData entry.2 := by
  cases data with
  | dict members nodup all =>
    rw [items, stringItems_map] at read
    cases read
    exact ⟨nodup, all⟩
  | none | bool | int | float | str | list => cases read

theorem of_loaded (component : BackupRestore) (file : Option Bytes) :
    ((loaded component file).map Prod.fst).Nodup ∧
      ∀ entry ∈ loaded component file, JsonData entry.2 := by
  unfold loaded
  split
  · split
    · rename_i entries read
      obtain ⟨value, read, found⟩ := ok_of_bind read
      exact of_items (jsonData_readSettings read) found
    · exact ⟨List.nodup_nil, by simp⟩
  · exact ⟨List.nodup_nil, by simp⟩

def restored (entries : Kwargs) (table : KVStore.Table) : KVStore.Table :=
  entries.foldl (fun table entry => KVStore.put entry.1 entry.2 table) table

theorem exec_setKey {key : String} {value : Value} (data : JsonData value) (s : State) :
    (setKey key value).exec s = (.ok (), { s with table := KVStore.put key value s.table }) := by
  simp only [setKey, exec_bind, exec_get, KVStore.set_of_jsonData data, exec_modify, exec_lift]
  rfl

theorem exec_forEach_setKey {entries : Kwargs} (data : ∀ entry ∈ entries, JsonData entry.2)
    (s : State) :
    (forEach entries fun (key, value) => setKey key value).exec s =
      (.ok (), { s with table := restored entries s.table }) := by
  induction entries generalizing s with
  | nil => rfl
  | cons entry entries ih =>
    rw [forEach, exec_bind, exec_setKey (data entry (.head _))]
    exact ih (fun entry member => data entry (.tail _ member)) _

theorem load_data (component : BackupRestore) :
    ∀ value ∈ [Value.str component.appId], JsonData value := by
  intro value member
  rw [List.mem_singleton.mp member]
  exact .str _

theorem state_settingsRestorePost (declared : component.settings ≠ []) :
    ((settingsRestorePost str component).exec s).2 =
      { s with table := restored (loaded component (s.files (settingsPath component.appId))) s.table } := by
  rw [settingsRestorePost, if_neg declared, exec_bind]
  by_cases accepted : Accepted loadSettingsSpec "load_settings" [.str component.appId]
  · rw [exec_callPrivileged_of_accepted (load_data component) accepted]
    by_cases valid : ValidAppId component.appId
    · cases read : readSettings (s.files (settingsPath component.appId)) with
      | error e =>
        have nothing : loaded component (s.files (settingsPath component.appId)) = [] := by
          rw [loaded, read, if_pos ⟨valid, accepted.short⟩]
          rfl
        rw [nothing]
        simp only [loadSettings, exec_bind, exec_lift, exec_get, assertAppId_of_valid valid, read]
        rfl
      | ok value =>
        obtain ⟨text, written, reply⟩ := (jsonData_readSettings read).loads_dumps encoderDefault
        simp only [loadSettings, exec_bind, exec_lift, exec_get, assertAppId_of_valid valid, read,
          written, reply]
        cases found : items value with
        | error e =>
          have nothing : loaded component (s.files (settingsPath component.appId)) = [] := by
            rw [loaded, read, if_pos ⟨valid, accepted.short⟩, bind_of_ok rfl found]
          rw [nothing]
          rfl
        | ok entries =>
          have all : loaded component (s.files (settingsPath component.appId)) = entries := by
            rw [loaded, read, if_pos ⟨valid, accepted.short⟩, bind_of_ok rfl found]
          rw [all]
          simp only [exec_forEach_setKey (of_items (jsonData_readSettings read) found).2]
    · obtain ⟨e, raised⟩ := assertAppId_of_invalid valid
      have nothing : loaded component (s.files (settingsPath component.appId)) = [] :=
        if_neg fun both => valid both.1
      rw [nothing]
      simp only [loadSettings, exec_bind, exec_lift, raised]
      rfl
  · obtain ⟨e, raised⟩ : ∃ e, (callPrivileged str loadSettingsSpec "load_settings" loadSettings
        [.str component.appId]).exec s = (.error e, s) :=
      exec_callPrivileged_of_refused (load_data component) accepted s
    have nothing : loaded component (s.files (settingsPath component.appId)) = [] :=
      if_neg fun both => accepted ⟨both.2, accepts_load component.appId⟩
    rw [raised, nothing]
    rfl

/-! ## The store after a restore -/

theorem get_put {value : Value} (data : JsonData value) (key : String) (table : KVStore.Table) :
    KVStore.get (KVStore.put key value table) key = .ok value := by
  obtain ⟨text, written, read⟩ := data.loads_dumps jsonDefault
  simp only [KVStore.put, written, KVStore.get, Function.update_self]
  exact read

theorem put_other {key key' : String} (other : key' ≠ key) (value : Value) (table : KVStore.Table) :
    KVStore.put key value table key' = table key' := by
  cases written : dumps jsonDefault value with
  | ok text =>
    simp only [KVStore.put, written]
    exact Function.update_of_ne other _ _
  | error e => simp only [KVStore.put, written]

theorem restored_other {entries : Kwargs} {key : String} (absent : key ∉ entries.map Prod.fst)
    (table : KVStore.Table) : restored entries table key = table key := by
  induction entries generalizing table with
  | nil => rfl
  | cons entry entries ih =>
    rw [List.map_cons, List.mem_cons, not_or] at absent
    exact (ih absent.2 _).trans (put_other absent.1 _ _)

theorem get_congr {table table' : KVStore.Table} {key : String} (same : table key = table' key) :
    KVStore.get table key = KVStore.get table' key := by
  rw [KVStore.get, KVStore.get, same]

theorem get_restored {entries : Kwargs} (nodup : (entries.map Prod.fst).Nodup)
    (data : ∀ entry ∈ entries, JsonData entry.2) {key : String} {value : Value}
    (member : (key, value) ∈ entries) (table : KVStore.Table) :
    KVStore.get (restored entries table) key = .ok value := by
  induction entries generalizing table with
  | nil => cases member
  | cons entry entries ih =>
    obtain ⟨fresh, nodup⟩ := List.nodup_cons.mp nodup
    rcases List.mem_cons.mp member with rfl | member
    · have kept := restored_other fresh (KVStore.put key value table)
      exact (get_congr kept).trans (get_put (data _ (.head _)) key table)
    · exact ih nodup (fun entry member => data entry (.tail _ member)) member _

/-! ## Backup and restore -/

variable (str component)

def backup (s : State) : State :=
  ((runHooks "backup_pre" (settingsBackupPre str) [component]).exec s).2

def restore (s : State) : State :=
  ((runHooks "restore_post" (settingsRestorePost str) [component]).exec s).2

/-- Whatever becomes of the store after the backup, the restore sets every declared key that had a
value back to it, and changes no other key. -/
def Survives (s : State) : Prop :=
  ∀ changed : KVStore.Table,
    let final := (restore str component { backup str component s with table := changed }).table
    (∀ key ∈ component.settings, ∀ value, KVStore.get s.table key = .ok value →
      KVStore.get final key = .ok value) ∧
    ∀ key ∉ component.settings, final key = changed key

structure Left (s : State) : Prop where
  values : ∀ key ∈ component.settings, ∀ value, KVStore.get s.table key = .ok value →
    (key, value) ∈ loaded component (s.files (settingsPath component.appId))
  declared : ∀ entry ∈ loaded component (s.files (settingsPath component.appId)),
    entry.1 ∈ component.settings

variable {str component}

theorem state_runHooks (name : String) (hook : BackupRestore → Action Unit) (s : State) :
    ((runHooks name hook [component]).exec s).2.table = ((hook component).exec s).2.table ∧
      ((runHooks name hook [component]).exec s).2.files = ((hook component).exec s).2.files := by
  simp only [runHooks, forEach, exec_bind, exec_tryCatch]
  obtain ⟨result, s'⟩ := (hook component).exec s
  cases result <;> exact ⟨rfl, rfl⟩

variable (str) in
theorem files_backup_of_dumpable (declared : component.settings ≠ [])
    (dumpable : Dumpable component s.table) :
    loaded component ((backup str component s).files (settingsPath component.appId)) =
      (settingsData s.table component.settings).entries := by
  obtain ⟨text, read, run⟩ := exec_settingsBackupPre_of_dumpable str declared dumpable
  have short : requestSize "load_settings" [.str component.appId] ≤ _ :=
    (requestSize_load_le (jsonData_dictOf _ (jsonData_settingsData s.table component.settings))).trans
      dumpable.short
  rw [backup, (state_runHooks ..).2, run]
  simp only [dumped, Function.update_self]
  have content : readSettings (some (encodeUtf8 text)) =
      .ok (dictOf (settingsData s.table component.settings).entries) := by
    rw [readSettings, decode, decodeUtf8_encodeUtf8]
    exact read
  rw [loaded, if_pos ⟨dumpable.appId, short⟩, content, bind_of_ok rfl (by rfl)]
  exact stringItems_map _

variable (str) in
theorem files_backup_of_refused (declared : component.settings ≠ [])
    (refused : ¬ Dumpable component s.table) : (backup str component s).files = s.files := by
  obtain ⟨e, run⟩ := exec_settingsBackupPre_of_refused str declared refused
  rw [backup, (state_runHooks ..).2, run]

theorem table_restore (declared : component.settings ≠ []) (s : State) :
    (restore str component s).table =
      restored (loaded component (s.files (settingsPath component.appId))) s.table := by
  rw [restore, (state_runHooks ..).1, state_settingsRestorePost declared]

theorem survives_iff_loaded (declared : component.settings ≠ []) (s : State) :
    Survives str component s ↔
      Left component { s with files := (backup str component s).files } := by
  have table (changed : KVStore.Table) :
      (restore str component { backup str component s with table := changed }).table =
        restored (loaded component ((backup str component s).files (settingsPath component.appId)))
          changed := table_restore declared _
  obtain ⟨nodup, data⟩ := of_loaded component
    ((backup str component s).files (settingsPath component.appId))
  constructor
  · intro survives
    obtain ⟨values, others⟩ := survives fun _ => none
    rw [table] at values others
    constructor
    · intro key member value found
      have final := values key member value found
      by_cases present : key ∈ (loaded component
          ((backup str component s).files (settingsPath component.appId))).map Prod.fst
      · obtain ⟨entry, stored, rfl⟩ := List.mem_map.mp present
        rw [get_restored nodup data stored] at final
        cases final
        exact stored
      · rw [get_congr (restored_other present _)] at final
        cases final
    · intro entry stored
      by_contra undeclared
      have final := others entry.1 undeclared
      have same := get_restored nodup data stored fun _ => none
      rw [KVStore.get, final] at same
      cases same
  · intro left changed
    rw [table]
    constructor
    · intro key member value found
      exact get_restored nodup data (left.values key member value found) changed
    · intro key undeclared
      apply restored_other
      intro present
      obtain ⟨entry, stored, rfl⟩ := List.mem_map.mp present
      exact undeclared (left.declared entry stored)

end Hooks

/-- The settings survive where the dump is accepted; otherwise only where an earlier one holds them. -/
theorem survives_iff (str : Value → String) (component : BackupRestore) (s : State) :
    Survives str component s ↔
      component.settings = [] ∨ Dumpable component s.table ∨ Left component s := by
  by_cases declared : component.settings = []
  · simp only [declared, true_or, iff_true]
    intro changed
    have idle : (restore str component { backup str component s with table := changed }).table =
        changed := by
      rw [restore, (state_runHooks ..).1, settingsRestorePost, if_pos declared]
      rfl
    rw [idle, declared]
    exact ⟨by simp, fun _ _ => rfl⟩
  · rw [survives_iff_loaded declared]
    by_cases dumpable : Dumpable component s.table
    · simp only [dumpable, true_or, or_true, iff_true]
      have file := files_backup_of_dumpable str declared dumpable
      constructor
      · intro key member value found
        rw [file]
        exact (OrderedDict.get?_eq_some_iff ..).mp ((get?_settingsData ..).mpr ⟨member, found⟩)
      · intro entry member
        rw [file] at member
        have found := (OrderedDict.get?_eq_some_iff _ entry.1 entry.2).mpr member
        exact ((get?_settingsData ..).mp found).1
    · simp only [declared, dumpable, false_or]
      rw [files_backup_of_refused str declared dumpable]

/-- A setting that is `null` keeps the other one from being saved. -/
def withNull : BackupRestore where
  appId := "sample"
  settings := ["sample_mode", "sample_secret"]

def withNullStore : State where
  table key :=
    if key = "sample_mode" then some "\"public\""
    else if key = "sample_secret" then some "null"
    else none
  files _ := none
  errors := []

theorem loads_of_dumps {value : Value} {text : String} (data : JsonData value)
    (dumped : dumps jsonDefault value = .ok text) : loads text = .ok value := by
  obtain ⟨_, same, read⟩ := data.loads_dumps jsonDefault
  rw [dumped] at same
  cases same
  exact read

theorem get_of_table {table : KVStore.Table} {key text : String} {value : Value}
    (found : table key = some text) (read : loads text = .ok value) :
    KVStore.get table key = .ok value := by
  rw [KVStore.get, found]
  exact read

theorem null_loses_settings : ¬ Survives Value.className withNull withNullStore := by
  have declared : withNull.settings ≠ [] := by decide
  have atMode : withNullStore.table "sample_mode" = some "\"public\"" := by simp [withNullStore]
  have atSecret : withNullStore.table "sample_secret" = some "null" := by simp [withNullStore]
  have mode : KVStore.get withNullStore.table "sample_mode" = .ok (.str "public") :=
    get_of_table atMode (loads_of_dumps (.str "public") rfl)
  have secret : KVStore.get withNullStore.table "sample_secret" = .ok .none :=
    get_of_table atSecret (loads_of_dumps .none rfl)
  have refused : ¬ Dumpable withNull withNullStore.table := fun dumpable =>
    dumpable.scalars "sample_secret" (by decide) .none secret
  rw [survives_iff_loaded declared, files_backup_of_refused _ declared refused]
  intro left
  have stored := left.values "sample_mode" (by decide) (.str "public") mode
  have nothing : loaded withNull none = [] := by
    unfold loaded
    split <;> rfl
  rw [show withNullStore.files (settingsPath withNull.appId) = none from rfl, nothing] at stored
  cases stored

end Plinth.Backups.Settings
