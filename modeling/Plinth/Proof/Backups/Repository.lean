import Plinth.Model.Backups.Repository
import Plinth.Proof.Registries

/-!
# Repositories that come back from the store

What is saved is loaded again as an object of the same class with equal attributes, since the
attributes are in the form that the constructors give them.
-/

namespace Plinth.Backups

open Python Exception Atomic

/-! ## The store -/

namespace Store

def storages (table : KVStore.Table) : Except Exception Value :=
  parse (KVStore.valueAt storageKey (.dict []) table)

theorem exec_getStorages_bind {α : Type} (next : Value → Program KVStore.Table Exception α)
    (table : KVStore.Table) : (getStorages >>= next).exec table =
      match storages table with
      | .ok value => (next value).exec table
      | .error e => (.error e, table) := by
  rw [getStorages_bind, Program.exec, storages]
  cases parse (KVStore.valueAt storageKey (.dict []) table) <;> rfl

theorem exec_get (uuid : String) (table : KVStore.Table) :
    (get uuid).exec table = (storages table >>= (getItem · uuid), table) := by
  rw [get, exec_getStorages_bind]
  cases storages table <;> rfl

theorem storages_put {document : Value} (data : JsonData document) {text : String}
    (dumped : dumps jsonDefault document = .ok text) (table : KVStore.Table) :
    storages (KVStore.put storageKey (.str text) table) = .ok document := by
  obtain ⟨text', dumped', nonempty, loaded⟩ := KVStore.parse_dumps data
  cases dumped.symm.trans dumped'
  have truthy : (Value.str text).truthy = true := decide_eq_true nonempty
  rw [storages, KVStore.valueAt_put (.str text), parse, if_pos truthy]
  exact loaded

theorem assertRequired_of_all {storage : Storage} {names : List String}
    (all : ∀ name ∈ names, name ∈ storage.fields.map Prod.fst) :
    assertRequired storage names = .ok () := by
  induction names with
  | nil => rfl
  | cons name names ih =>
    rw [assertRequired, if_pos (all name List.mem_cons_self)]
    exact ih fun later member => all later (List.mem_cons_of_mem _ member)

theorem exec_updateOrAdd (uuid1 : String) {storage : Storage} {items : List (Value × Value)}
    {table : KVStore.Table} (required : assertRequired storage requiredFields = .ok ())
    (found : storages table = .ok (.dict items)) :
    ∃ table', (updateOrAdd uuid1 storage).exec table =
        (.ok (.str (storage.uuid.getD uuid1)), table') ∧
      storages table' = .ok (.dict (setKey (storage.uuid.getD uuid1)
        (storage.value (storage.uuid.getD uuid1)) items)) := by
  have data : JsonData (.dict items) :=
    format.jsonData_parse (KVStore.jsonData_valueAt format.jsonData_default table) found
  have newData := jsonData_setKey (storage.uuid.getD uuid1) data
    (jsonData_value storage (storage.uuid.getD uuid1))
  obtain ⟨text, dumped, _⟩ := KVStore.parse_dumps newData
  refine ⟨KVStore.put storageKey (.str text) table, ?_, storages_put newData dumped table⟩
  rw [updateOrAdd, required]
  change (getStorages >>= _).exec table = _
  rw [exec_getStorages_bind, found]
  change Program.exec ((Program.lift (dumps jsonDefault _)).bind _) table = _
  rw [dumped]
  change Program.exec ((KVStore.set storageKey (.str text)).bind _) table = _
  rw [KVStore.set_of_jsonData (.str text)]
  rfl

theorem storages_updateOrAdd {uuid1 : String} {storage : Storage} {table table' : KVStore.Table}
    {result : Value} (saved : (updateOrAdd uuid1 storage).exec table = (.ok result, table')) :
    ∃ items, storages table = .ok (.dict items) ∧
      storages table' = .ok (.dict (setKey (storage.uuid.getD uuid1)
        (storage.value (storage.uuid.getD uuid1)) items)) := by
  cases required : assertRequired storage requiredFields with
  | error e =>
    rw [updateOrAdd, required] at saved
    cases saved
  | ok done =>
    rcases found : storages table with e | existing
    · rw [updateOrAdd, required] at saved
      change (getStorages >>= _).exec table = _ at saved
      rw [exec_getStorages_bind, found] at saved
      cases saved
    · cases existing with
      | dict items =>
        obtain ⟨written, result, after⟩ := exec_updateOrAdd uuid1 required found
        rw [result] at saved
        cases saved
        exact ⟨items, rfl, after⟩
      | _ =>
        rw [updateOrAdd, required] at saved
        change (getStorages >>= _).exec table = _ at saved
        rw [exec_getStorages_bind, found] at saved
        cases saved

end Store

namespace Borg

/-! ## Attributes -/

theorem orElse_dict (items : List (Value × Value)) : orElse (.dict items) (.dict []) = .dict items := by
  cases items <;> rfl

theorem orElse_list (elements : List Value) :
    orElse (.list elements) (.list []) = .list elements := by
  cases elements <;> rfl

theorem orElse_bool (b : Bool) : orElse (.bool b) (.bool false) = .bool b := by
  cases b <;> rfl

theorem init_scheduleStorage (schedule : Schedule) :
    (setItem (orElse (.dict (texts (scheduleStorage schedule))) (.dict [])) "repository_uuid"
      (.str schedule.repositoryUuid) >>= ScheduleObject.init) = .ok (ofSchedule schedule) := by
  have enabled := orElse_bool schedule.enabled
  have unselected := orElse_list (schedule.unselectedApps.map .str)
  rw [orElse_dict]
  simp [setItem, texts, scheduleStorage, setKey, bind, Except.bind, ScheduleObject.init, isKeyword,
    scheduleArguments, argument, lookup, ifNotNone, count, ofSchedule, enabled, unselected]

theorem uuid_of_nonempty {uuid : String} (nonempty : uuid ≠ "") (uuid1 : String) :
    ((some uuid).filter (· ≠ "")).getD uuid1 = uuid := by
  simp [Option.filter, nonempty]

def items (repository : Repository) : List (Value × Value) :=
  texts (storageFields repository ++ [("uuid", .str repository.uuid)])

theorem lookup_items (repository : Repository) :
    lookup "path" (items repository) = some (.str repository.path) ∧
    lookup "uuid" (items repository) = some (.str repository.uuid) ∧
    lookup "storage_type" (items repository) = some (.str repository.cls.storageType) ∧
    lookup "credentials" (items repository) = some (.dict (texts repository.credentials)) ∧
    lookup "schedule" (items repository) =
      some (.dict (texts (scheduleStorage repository.schedule))) ∧
    argument "verified" (items repository) =
      if repository.cls = .ssh then .bool repository.verified else .none := by
  by_cases ssh : repository.cls = .ssh
  · simp [items, storageFields, texts, lookup, argument, ssh]
  · simp [items, storageFields, texts, lookup, argument, ssh]

theorem init_repository (uuid1 : String) (repository : Repository) :
    init uuid1 repository.cls (.str repository.path) (.dict (texts repository.credentials))
      (some repository.uuid) (.dict (texts (scheduleStorage repository.schedule)))
      (if repository.cls = .ssh then .bool repository.verified else .none) =
        .ok repository.object := by
  have uuid : (if repository.cls = .root then rootUuid
      else ((some repository.uuid).filter (· ≠ "")).getD uuid1) = repository.uuid := by
    split
    · exact (repository.reserved.mp ‹_›).symm
    · exact uuid_of_nonempty repository.nonempty uuid1
  have path : (if repository.cls = .root then .str rootPath else .str repository.path) =
      Value.str repository.path := by
    split
    · rw [repository.isRootPath ‹_›]
    · rfl
  have schedule := init_scheduleStorage repository.schedule
  rw [repository.sameUuid] at schedule
  obtain ⟨arguments, updated, made⟩ := Effect.ok_of_bind schedule
  rw [init, uuid, path]
  apply Effect.bind_of_ok updated
  apply Effect.bind_of_ok made
  rw [Repository.object]
  by_cases ssh : repository.cls = .ssh
  · simp only [if_pos ssh, orElse_bool, orElse_dict]
    rfl
  · simp only [if_neg ssh, orElse_dict]
    rfl

theorem ofStorage_items (uuid1 : String) (repository : Repository) :
    ofStorage uuid1 repository.cls repository.uuid (.dict (items repository)) =
      .ok repository.object := by
  obtain ⟨path, uuid, _, credentials, schedule, verified⟩ := lookup_items repository
  have path : getItem (.dict (items repository)) "path" = .ok (.str repository.path) := by
    simp only [getItem, path]
  have uuid : getItem (.dict (items repository)) "uuid" = .ok (.str repository.uuid) := by
    simp only [getItem, uuid]
  rw [ofStorage]
  apply Effect.bind_of_ok path
  apply Effect.bind_of_ok uuid
  rw [credentials, schedule, verified]
  exact init_repository uuid1 repository

/-! ## New repositories -/

/-! ## Saving and loading -/

theorem exec_get_self {repository : Repository} {table : KVStore.Table}
    (found : (Store.storages table >>= (getItem · repository.uuid)) = .ok (.dict (items repository))) :
    (Store.get repository.uuid).exec table = (.ok (.dict (items repository)), table) := by
  rw [Store.exec_get, found]

theorem exec_load_self (uuid1 : String) {repository : Repository} {table : KVStore.Table}
    (found : (Store.storages table >>= (getItem · repository.uuid)) = .ok (.dict (items repository))) :
    (load uuid1 repository.cls repository.uuid).exec table = (.ok repository.object, table) := by
  rw [load, Program.exec_bind, exec_get_self found]
  dsimp only
  rw [ofStorage_items]
  rfl

theorem exec_getInstance_self (uuid1 : String) {repository : Repository} {table : KVStore.Table}
    (found : (Store.storages table >>= (getItem · repository.uuid)) = .ok (.dict (items repository))) :
    (getInstance uuid1 repository.uuid).exec table = (.ok repository.object, table) := by
  have loaded := exec_load_self uuid1 found
  rw [getInstance]
  by_cases root : repository.uuid = rootUuid
  · rw [repository.reserved.mpr root] at loaded
    rw [if_pos root, Program.exec_tryCatch, loaded]
  · have notRoot : repository.cls ≠ .root := fun isRoot => root (repository.reserved.mp isRoot)
    obtain ⟨_, _, storageType, _⟩ := lookup_items repository
    have read : getItem (.dict (items repository)) "storage_type" =
        .ok (.str repository.cls.storageType) := by
      simp only [getItem, storageType]
    have dispatch : (if isText "ssh" (.str repository.cls.storageType) then Class.ssh else .disk) =
        repository.cls := by
      cases cls : repository.cls with
      | root => exact absurd cls notRoot
      | disk => rfl
      | ssh => rfl
    rw [if_neg root, Program.exec_bind, exec_get_self found]
    dsimp only
    rw [read]
    change (load uuid1 (if isText "ssh" (.str repository.cls.storageType) then Class.ssh else .disk)
      repository.uuid).exec table = _
    rw [dispatch, loaded]

theorem getInstance_save (uuid1 : String) {repository : Repository} {table table' : KVStore.Table}
    {result : Value} (saved : (save uuid1 repository).exec table = (.ok result, table')) :
    (getInstance uuid1 repository.uuid).exec table' = (.ok repository.object, table') ∧
      ∀ uuid ≠ repository.uuid,
        ((Store.get uuid).exec table').1 = ((Store.get uuid).exec table).1 := by
  rw [save] at saved
  split at saved
  · rename_i printable
    obtain ⟨stored, before, after⟩ := Store.storages_updateOrAdd saved
    constructor
    · apply exec_getInstance_self
      rw [after]
      have here : lookup repository.uuid (setKey repository.uuid (.dict (items repository)) stored) =
          some (.dict (items repository)) := by
        rw [lookup_setKey, if_pos rfl]
      change getItem (.dict (setKey repository.uuid (.dict (items repository)) stored)) _ = _
      simp only [getItem, here]
    · intro uuid other
      have there : lookup uuid (setKey repository.uuid (.dict (items repository)) stored) =
          lookup uuid stored := by
        rw [lookup_setKey, if_neg other]
      rw [Store.exec_get, Store.exec_get, before, after]
      have same : getItem (.dict (setKey repository.uuid (.dict (items repository)) stored)) uuid =
          getItem (.dict stored) uuid := by
        simp only [getItem, there]
      exact same
  · cases saved

theorem save_returns (uuid1 : String) {repository : Repository} {table : KVStore.Table}
    {stored : List (Value × Value)} (printable : Printable repository.schedule)
    (found : Store.storages table = .ok (.dict stored)) :
    ∃ result table', (save uuid1 repository).exec table = (.ok result, table') := by
  have required : Store.assertRequired (repository.storage printable) Store.requiredFields =
      .ok () := by
    apply Store.assertRequired_of_all
    intro field member
    simp only [Store.requiredFields, List.mem_cons, List.not_mem_nil, or_false] at member
    rcases member with rfl | rfl | rfl <;> simp [Repository.storage, storageFields]
  rw [save, dif_pos printable]
  obtain ⟨table', saved, _⟩ := Store.exec_updateOrAdd uuid1 required found
  exact ⟨_, table', saved⟩

def remote : Repository where
  cls := .ssh
  path := "user@example.org:~/backups"
  credentials := [("ssh_keyfile", .str "/root/.ssh/id_ed25519"), ("encryption_passphrase", .none)]
  uuid := "b0fa29a4"
  schedule := ⟨"b0fa29a4", false, 0, 0, 0, 0, ["calibre"]⟩
  verified := true
  nodup := by simp
  jsonData := by
    simp only [List.forall_mem_cons]
    exact ⟨.str _, .none, by simp⟩
  nonempty := by simp
  reserved := by simp [rootUuid]
  isRootPath := by simp
  sameUuid := rfl
  unverified := by simp

theorem getInstance_save_remote : ∃ table,
    (getInstance "" "b0fa29a4").exec table = (.ok remote.object, table) := by
  have printable : Printable remote.schedule := by
    simp [Printable, remote, tooLong]
  have found : Store.storages (fun _ => none) = .ok (.dict []) := rfl
  obtain ⟨result, table, saved⟩ := save_returns "" printable found
  exact ⟨table, (getInstance_save "" saved).1⟩

end Borg

end Plinth.Backups
