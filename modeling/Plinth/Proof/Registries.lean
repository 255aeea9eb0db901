import Plinth.Model.Registries

/-! # Updates that are lost -/

namespace Plinth

open Python Exception Atomic

/-! ## Documents of the store -/

namespace KVStore

def valueAt (key : String) (default : Value) (table : Table) : Value :=
  match get table key with
  | .ok value => value
  | .error _ => default

def put (key : String) (value : Value) (table : Table) : Table :=
  match dumps jsonDefault value with
  | .ok text => Function.update table key (some text)
  | .error _ => table

theorem getDefault_bind {α : Type} (key : String) (default : Value)
    (next : Value → Program Table Exception α) :
    (getDefault key default >>= next) = .step id fun table => next (valueAt key default table) := by
  have after : (fun table => (match get table key with
      | .ok value => (Program.done (.ok value) : Program Table Exception Value)
      | .error _ => .done (.ok default)).bind next) = fun table => next (valueAt key default table) := by
    funext table
    rw [valueAt]
    cases get table key <;> rfl
  rw [← after]
  rfl

theorem set_of_jsonData {key : String} {value : Value} (data : JsonData value) :
    set key value = .step (put key value) fun _ => .done (.ok ()) := by
  obtain ⟨text, dumped, _⟩ := data.loads_dumps jsonDefault
  have written : put key value = fun table => Function.update table key (some text) := by
    funext table
    rw [put, dumped]
  rw [set, dumped, written]

theorem jsonData_valueAt {key : String} {default : Value} (data : JsonData default)
    (table : Table) : JsonData (valueAt key default table) := by
  rw [valueAt]
  split
  · rename_i value found
    rw [get] at found
    split at found
    · exact jsonData_loads found
    · cases found
  · exact data

theorem valueAt_put {key : String} {default value : Value} (data : JsonData value)
    (table : Table) : valueAt key default (put key value table) = value := by
  obtain ⟨text, dumped, loaded⟩ := data.loads_dumps jsonDefault
  rw [valueAt, get, put, dumped]
  simp only [Function.update_self]
  rw [loaded]

theorem put_put {key : String} {value : Value} (data : JsonData value) (value' : Value)
    (table : Table) : put key value (put key value' table) = put key value table := by
  obtain ⟨text, dumped, _⟩ := data.loads_dumps jsonDefault
  simp only [put, dumped]
  cases dumps jsonDefault value' with
  | error e => rfl
  | ok text' => simp only [Function.update_idem]

structure Format where
  key : String
  default : Value
  parse : Value → Except Exception Value
  store : Value → Except Exception Value
  jsonData_default : JsonData default
  jsonData_parse : ∀ {value document}, JsonData value → parse value = .ok document →
    JsonData document
  parse_store : ∀ {document}, JsonData document →
    ∃ value, store document = .ok value ∧ JsonData value ∧ parse value = .ok document

def Format.document (format : Format) : Document Table Value where
  Valid := JsonData
  read table := (format.parse (valueAt format.key format.default table)).toOption
  write new table := match format.store new with
    | .ok value => put format.key value table
    | .error _ => table
  valid_read := by
    intro document table found
    rcases parsed : format.parse (valueAt format.key format.default table) with e | document'
    · rw [parsed] at found
      cases found
    · rw [parsed] at found
      cases found
      exact format.jsonData_parse (jsonData_valueAt format.jsonData_default table) parsed
  read_write := by
    intro document data table
    obtain ⟨value, stored, valueData, parsed⟩ := format.parse_store data
    rw [stored, valueAt_put valueData, parsed]
    rfl
  write_write := by
    intro document data document' table
    obtain ⟨value, stored, valueData, _⟩ := format.parse_store data
    rw [stored]
    dsimp only
    split
    · exact put_put valueData _ table
    · rfl

def Format.plain (key : String) (default : Value) (data : JsonData default) : Format where
  key := key
  default := default
  parse := .ok
  store := .ok
  jsonData_default := data
  jsonData_parse := by
    intro value document data parsed
    cases parsed
    exact data
  parse_store := fun {document} data => ⟨document, rfl, data, rfl⟩

theorem loads_empty : loads "" = .error JSONDecodeError := rfl

theorem parse_dumps {document : Value} (data : JsonData document) :
    ∃ text, dumps jsonDefault document = .ok text ∧ text ≠ "" ∧ loads text = .ok document := by
  obtain ⟨text, dumped, loaded⟩ := data.loads_dumps jsonDefault
  refine ⟨text, dumped, ?_, loaded⟩
  rintro rfl
  rw [loads_empty] at loaded
  cases loaded

theorem jsonData_loadsValue {value document : Value} (data : JsonData value)
    (loaded : loadsValue value = .ok document) : JsonData document := by
  cases data with
  | str s => exact jsonData_loads loaded
  | _ => cases loaded

def Format.text (key : String) (default : Value) (parse : Value → Except Exception Value)
    (data : JsonData default)
    (jsonData_parse : ∀ {value document}, JsonData value → parse value = .ok document →
      JsonData document)
    (parse_str : ∀ {text}, text ≠ "" → parse (.str text) = loads text) : Format where
  key := key
  default := default
  parse := parse
  store document := .str <$> dumps jsonDefault document
  jsonData_default := data
  jsonData_parse := jsonData_parse
  parse_store := by
    intro document data
    obtain ⟨text, dumped, nonempty, loaded⟩ := parse_dumps data
    refine ⟨.str text, ?_, .str text, ?_⟩
    · rw [dumped]
      rfl
    · rw [parse_str nonempty, loaded]

theorem updates_of_parse {α : Type} (format : Format) {update : Value → Option Value}
    {next : Value → Program Table Exception α}
    (writes : ∀ document, JsonData document →
      Writes format.document (update document) (next document)) :
    Updates format.document update (.step id fun table =>
      (Program.lift (format.parse (valueAt format.key format.default table)) :
        Program Table Exception Value).bind next) := by
  apply Updates.reads
  intro table
  change Writes _ ((format.parse (valueAt format.key format.default table)).toOption >>= update) _
  rcases parsed : format.parse (valueAt format.key format.default table) with e | document
  · exact .nothing
  · apply writes
    exact format.jsonData_parse (jsonData_valueAt format.jsonData_default table) parsed

theorem writes_text {α : Type} {format : Format} {new : Value}
    (stores : format.store new = .str <$> dumps jsonDefault new) (data : JsonData new) (result : α) :
    Writes format.document (some new) (do
      let text ← Program.lift (dumps jsonDefault new)
      set format.key (.str text)
      return result) := by
  obtain ⟨text, dumped, _⟩ := parse_dumps data
  have written : format.document.write new = put format.key (.str text) := by
    funext table
    change (match format.store new with
      | .ok value => put format.key value table
      | .error _ => table) = _
    rw [stores, dumped]
    rfl
  rw [dumped]
  change Writes _ _ ((set format.key (.str text)).bind fun _ => .done (.ok result))
  rw [set_of_jsonData (.str text), ← written]
  exact .write fun _ => ⟨_, rfl⟩

theorem writes_plain {format : Format} {new : Value} (stores : format.store new = .ok new)
    (data : JsonData new) : Writes format.document (some new) (set format.key new) := by
  have written : format.document.write new = put format.key new := by
    funext table
    change (match format.store new with
      | .ok value => put format.key value table
      | .error _ => table) = _
    rw [stores]
  rw [set_of_jsonData data, ← written]
  exact .write fun _ => ⟨_, rfl⟩

end KVStore

/-! ## Entries of a dictionary -/

section Entries

def entry (registry : Value) (key : String) : Option (Option Value) :=
  match registry with
  | .dict items => some (lookup key items)
  | _ => none

def putEntry (registry : Value) (key : String) (new : Option Value) : Value :=
  match registry, new with
  | .dict items, some value => .dict (setKey key value items)
  | .dict items, none => .dict (eraseKey key items)
  | registry, _ => registry

def changeEntry (change : Option Value → Option (Option Value)) (registry : Value)
    (key : String) : Option Value :=
  (entry registry key >>= change).map (putEntry registry key)

theorem entry_putEntry {registry : Value} {key : String} {old : Option Value}
    (found : entry registry key = some old) (new : Option Value) (key' : String) :
    entry (putEntry registry key new) key' = if key' = key then some new else entry registry key' := by
  cases registry with
  | dict items =>
    cases new with
    | none => simp only [putEntry, entry, lookup_eraseKey]; split <;> rfl
    | some value => simp only [putEntry, entry, lookup_setKey]; split <;> rfl
  | _ => cases found

theorem putEntry_entry {registry : Value} {key : String} {old : Option Value}
    (found : entry registry key = some old) : putEntry registry key old = registry := by
  cases registry with
  | dict items =>
    have found := Option.some.inj found
    cases old with
    | none => rw [putEntry, eraseKey_of_lookup found]
    | some value => rw [putEntry, setKey_of_lookup found]
  | _ => cases found

theorem jsonData_putEntry {registry : Value} {key : String} {new : Option Value}
    (data : JsonData registry) (newData : ∀ value, new = some value → JsonData value) :
    JsonData (putEntry registry key new) := by
  cases registry with
  | dict items =>
    cases new with
    | none => exact jsonData_eraseKey data
    | some value => exact jsonData_setKey _ data (newData value rfl)
  | _ => exact data

theorem jsonData_entry {registry : Value} {key : String} {value : Value}
    (data : JsonData registry) (found : entry registry key = some (some value)) :
    JsonData value := by
  cases registry with
  | dict items => exact jsonData_lookup data (Option.some.inj found)
  | _ => cases found

theorem changeEntry_iff {change : Option Value → Option (Option Value)} {registry new : Value}
    {key : String} : changeEntry change registry key = some new ↔
      ∃ old value, entry registry key = some old ∧ change old = some value ∧
        putEntry registry key value = new := by
  rw [changeEntry]
  cases entry registry key with
  | none => simp
  | some old => cases changed : change old <;> simp [changed]

variable {change : String → Option Value → Option (Option Value)}

def changeEntries (change : String → Option Value → Option (Option Value)) :
    List String → Value → Option Value
  | [], registry => some registry
  | key :: keys, registry => changeEntry (change key) registry key >>= changeEntries change keys

def Settles (change : String → Option Value → Option (Option Value)) (keys : List String) : Prop :=
  keys.Pairwise fun key key' => key = key' → ∀ old new, change key old = some new →
    change key new = some new

theorem changeEntries_entry {keys : List String} {registry new : Value}
    (settles : Settles change keys) (changed : changeEntries change keys registry = some new) :
    (∀ key ∉ keys, entry new key = entry registry key) ∧
      ∀ key ∈ keys, ∃ old value, entry registry key = some old ∧ change key old = some value ∧
        entry new key = some value := by
  induction keys generalizing registry with
  | nil =>
    cases changed
    simp
  | cons key keys ih =>
    obtain ⟨twice, settles⟩ := List.pairwise_cons.mp settles
    rw [changeEntries, Option.bind_eq_bind, Option.bind_eq_some_iff] at changed
    obtain ⟨next, first, changed⟩ := changed
    obtain ⟨old, value, found, changes, rfl⟩ := changeEntry_iff.mp first
    obtain ⟨others, those⟩ := ih settles changed
    have entries := entry_putEntry found value
    constructor
    · intro key' absent
      rw [List.mem_cons, not_or] at absent
      rw [others key' absent.2, entries, if_neg absent.1]
    · intro key' member
      by_cases same : key' = key
      · subst same
        refine ⟨old, value, found, changes, ?_⟩
        by_cases again : key' ∈ keys
        · obtain ⟨old', value', found', changes', result⟩ := those key' again
          rw [entries, if_pos rfl] at found'
          cases found'
          rw [twice key' again rfl old value changes] at changes'
          cases changes'
          exact result
        · rw [others key' again, entries, if_pos rfl]
      · obtain ⟨old', value', found', changes', result⟩ :=
          those key' ((List.mem_cons.mp member).resolve_left same)
        rw [entries, if_neg same] at found'
        exact ⟨old', value', found', changes', result⟩

theorem changeEntries_of_entries {keys : List String} {registry : Value}
    (settles : Settles change keys)
    (changes : ∀ key ∈ keys, ∃ old value, entry registry key = some old ∧
      change key old = some value) : ∃ new, changeEntries change keys registry = some new := by
  induction keys generalizing registry with
  | nil => exact ⟨registry, rfl⟩
  | cons key keys ih =>
    obtain ⟨twice, settles⟩ := List.pairwise_cons.mp settles
    obtain ⟨old, value, found, changed⟩ := changes key List.mem_cons_self
    have entries := entry_putEntry found value
    have later : ∀ key' ∈ keys, ∃ old' value', entry (putEntry registry key value) key' = some old' ∧
        change key' old' = some value' := by
      intro key' member
      rw [entries]
      by_cases same : key' = key
      · subst same
        exact ⟨value, value, if_pos rfl, twice key' member rfl old value changed⟩
      · rw [if_neg same]
        exact changes key' (List.mem_cons_of_mem _ member)
    obtain ⟨new, result⟩ := ih settles later
    refine ⟨new, ?_⟩
    rw [changeEntries, changeEntry_iff.mpr ⟨old, value, found, changed, rfl⟩]
    exact result

theorem changeEntries_of_unchanged {keys : List String} {registry : Value}
    (unchanged : ∀ key ∈ keys, ∃ old, entry registry key = some old ∧ change key old = some old) :
    changeEntries change keys registry = some registry := by
  induction keys with
  | nil => rfl
  | cons key keys ih =>
    obtain ⟨old, found, changed⟩ := unchanged key List.mem_cons_self
    rw [changeEntries,
      changeEntry_iff.mpr ⟨old, old, found, changed, putEntry_entry found⟩]
    exact ih fun key' member => unchanged key' (List.mem_cons_of_mem _ member)

theorem jsonData_changeEntries {keys : List String} {registry new : Value}
    (valid : ∀ key ∈ keys, ∀ old value, (∀ v, old = some v → JsonData v) →
      change key old = some (some value) → JsonData value)
    (data : JsonData registry) (changed : changeEntries change keys registry = some new) :
    JsonData new := by
  induction keys generalizing registry with
  | nil =>
    cases changed
    exact data
  | cons key keys ih =>
    rw [changeEntries, Option.bind_eq_bind, Option.bind_eq_some_iff] at changed
    obtain ⟨next, first, changed⟩ := changed
    obtain ⟨old, value, found, changes, rfl⟩ := changeEntry_iff.mp first
    apply ih (fun key' member => valid key' (List.mem_cons_of_mem _ member)) _ changed
    apply jsonData_putEntry data
    rintro v rfl
    apply valid key List.mem_cons_self old v _ changes
    rintro v' rfl
    exact jsonData_entry data found

theorem touches_changeEntries {document : Document KVStore.Table Value} {keys : List String}
    {present : Set String} (jsonData : document.Valid = JsonData) (sub : ∀ key ∈ keys, key ∈ present)
    (settles : Settles change keys)
    (valid : ∀ key ∈ keys, ∀ old value, (∀ v, old = some v → JsonData v) →
      change key old = some (some value) → JsonData value) :
    Touches document entry present (changeEntries change keys) where
  valid := by
    intro registry new data changed
    rw [jsonData] at data ⊢
    exact jsonData_changeEntries valid data changed
  frame := by
    intro registry new changed key absent
    exact (changeEntries_entry settles changed).1 key fun member => absent (sub key member)
  depends := by
    intro registry registry' new agree changed
    obtain ⟨others, those⟩ := changeEntries_entry settles changed
    have changes : ∀ key ∈ keys, ∃ old value, entry registry' key = some old ∧
        change key old = some value := by
      intro key member
      obtain ⟨old, value, found, changes, _⟩ := those key member
      exact ⟨old, value, (agree key (sub key member)).trans found, changes⟩
    obtain ⟨new', changed'⟩ := changeEntries_of_entries settles changes
    obtain ⟨others', those'⟩ := changeEntries_entry settles changed'
    refine ⟨new', changed', ?_⟩
    intro key inside
    by_cases member : key ∈ keys
    · obtain ⟨old, value, found, changes, result⟩ := those key member
      obtain ⟨old', value', found', changes', result'⟩ := those' key member
      rw [agree key inside, found] at found'
      cases found'
      rw [changes] at changes'
      cases changes'
      rw [result, result']
    · rw [others key member, others' key member, agree key inside]
  unchanged := by
    intro registry new changed same
    obtain ⟨_, those⟩ := changeEntries_entry settles changed
    have unchanged := changeEntries_of_unchanged fun key member => by
      obtain ⟨old, value, found, changes, result⟩ := those key member
      rw [same key (sub key member), found] at result
      cases result
      exact ⟨old, found, changes⟩
    rw [unchanged] at changed
    exact (Option.some.inj changed).symm

end Entries

/-! ## Repositories -/

namespace Backups.Store

def parse (storages : Value) : Except Exception Value :=
  if storages.truthy then loadsValue storages else .ok storages

def format : KVStore.Format :=
  .text storageKey (.dict []) parse (.dict [] List.nodup_nil (by simp))
    (by
      intro value document data parsed
      rw [parse] at parsed
      split at parsed
      · exact KVStore.jsonData_loadsValue data parsed
      · cases parsed
        exact data)
    (by
      intro text nonempty
      exact if_pos (decide_eq_true nonempty))

def Call.update : Call → Value → Option Value
  | .updateOrAdd uuid1 storage, storages =>
    match assertRequired storage requiredFields with
    | .ok _ => (setItem storages (storage.uuid.getD uuid1)
        (storage.value (storage.uuid.getD uuid1))).toOption
    | .error _ => none
  | .delete uuid, storages => (delItem storages uuid).toOption

theorem getStorages_bind {α : Type} (next : Value → Program KVStore.Table Exception α) :
    (getStorages >>= next) = .step id fun table =>
      (Program.lift (parse (KVStore.valueAt storageKey (.dict []) table)) : Program _ _ _).bind
        next := by
  have read : getStorages = .step id fun table =>
      Program.lift (parse (KVStore.valueAt storageKey (.dict []) table)) := by
    rw [getStorages, KVStore.getDefault_bind]
    congr 1
    funext table
    rw [parse]
    split <;> rfl
  rw [read]
  rfl

theorem jsonData_value (storage : Storage) (uuid : String) : JsonData (storage.value uuid) := by
  refine jsonData_dict_iff.mpr ⟨_, rfl, ?_, ?_⟩
  · rw [List.map_append, List.nodup_append]
    refine ⟨storage.nodup, by simp, ?_⟩
    rintro field present _ last rfl
    have last : field = "uuid" := by simpa using last
    subst last
    exact storage.noUuid present
  · intro field present
    rcases List.mem_append.mp present with present | last
    · exact storage.jsonData field present
    · rw [List.mem_singleton.mp last]
      exact .str uuid

def Call.change : Call → String → Option Value → Option (Option Value)
  | .updateOrAdd uuid1 storage, _, _ =>
    match assertRequired storage requiredFields with
    | .ok _ => some (some (storage.value (storage.uuid.getD uuid1)))
    | .error _ => none
  | .delete _, _, old => if old.isSome then some none else none

theorem update_eq (call : Call) : call.update = changeEntries call.change [call.uuid] := by
  funext storages
  have single : changeEntries call.change [call.uuid] storages =
      changeEntry (call.change call.uuid) storages call.uuid := by
    rw [changeEntries]
    cases changeEntry (call.change call.uuid) storages call.uuid <;> rfl
  rw [single, changeEntry]
  cases call with
  | updateOrAdd uuid1 storage =>
    rw [Call.update]
    cases storages <;> cases required : assertRequired storage requiredFields <;>
      simp [entry, setItem, Call.change, required, Except.toOption, putEntry, Call.uuid]
  | delete uuid =>
    rw [Call.update]
    cases storages with
    | dict items =>
      cases found : lookup uuid items <;>
        simp [entry, delItem, Call.change, found, Except.toOption, putEntry, Call.uuid]
    | _ => simp [entry, delItem, Except.toOption]

theorem touches_update (call : Call) :
    Touches format.document entry {call.uuid} call.update := by
  rw [update_eq]
  apply touches_changeEntries rfl
  · intro key member
    exact List.mem_singleton.mp member
  · exact List.pairwise_singleton _ _
  · intro key _ old value _ changed
    cases call with
    | updateOrAdd uuid1 storage =>
      rw [Call.change] at changed
      split at changed
      · cases changed
        exact jsonData_value storage _
      · cases changed
    | delete uuid =>
      rw [Call.change] at changed
      split at changed <;> cases changed

theorem updates_program (call : Call) : Updates format.document call.update call.program := by
  have valid : ∀ storages, JsonData storages → ∀ new, call.update storages = some new →
      JsonData new := fun _ data _ => (touches_update call).valid data
  cases call with
  | updateOrAdd uuid1 storage =>
    rw [Call.program, updateOrAdd]
    cases required : assertRequired storage requiredFields with
    | error e =>
      apply Updates.refuses
      intro d
      rw [Call.update, required]
    | ok done =>
      change Updates _ _ (getStorages >>= _)
      rw [getStorages_bind]
      apply KVStore.updates_of_parse format
      intro storages data
      have valid := valid storages data
      rw [Call.update, required] at valid ⊢
      dsimp only at valid ⊢
      rcases stored : setItem storages (storage.uuid.getD uuid1)
        (storage.value (storage.uuid.getD uuid1)) with e | new
      · exact .nothing
      · rw [stored] at valid
        exact KVStore.writes_text rfl (valid new rfl) (Value.str (storage.uuid.getD uuid1))
  | delete uuid =>
    rw [Call.program, delete, getStorages_bind]
    apply KVStore.updates_of_parse format
    intro storages data
    have valid := valid storages data
    rw [Call.update] at valid ⊢
    rcases deleted : delItem storages uuid with e | new
    · exact .nothing
    · rw [deleted] at valid
      exact KVStore.writes_text rfl (valid new rfl) Value.none

end Backups.Store

/-! ## Domains -/

namespace Names

def format : KVStore.Format :=
  .text "domains" (.str "[]") loadsValue (.str "[]") KVStore.jsonData_loadsValue fun _ => rfl

def Call.update : Call → Value → Option Value
  | .domainAdd domainName, domains =>
    match contains domains domainName with
    | .ok false => (append domains domainName).toOption
    | _ => none
  | .domainDelete domainName, domains =>
    match contains domains domainName with
    | .ok true => (remove domains domainName).toOption
    | _ => none

def occurrences (domains : Value) (domainName : String) : Option Nat :=
  match domains with
  | .list elements => some (elements.countP (isText domainName))
  | _ => none

theorem eq_of_isText {text : String} {value : Value} (h : isText text value = true) :
    value = .str text := by
  cases value with
  | str s => rw [of_decide_eq_true h]
  | _ => cases h

theorem contains_list (elements : List Value) (domainName : String) :
    contains (.list elements) domainName = .ok (elements.any (isText domainName)) := by
  rw [contains]
  congr 2

theorem update_domainAdd_iff {domainName : String} {domains new : Value} :
    (Call.domainAdd domainName).update domains = some new ↔
      ∃ elements, domains = .list elements ∧ elements.countP (isText domainName) = 0 ∧
        new = .list (elements ++ [.str domainName]) := by
  rw [Call.update]
  cases domains with
  | list elements =>
    rw [contains_list]
    cases found : elements.any (isText domainName) with
    | true =>
      have pos : 0 < elements.countP (isText domainName) :=
        List.countP_pos_iff.mpr (List.any_eq_true.mp found)
      constructor
      · intro h
        cases h
      · rintro ⟨_, ⟨⟩, none, _⟩
        omega
    | false =>
      have none : elements.countP (isText domainName) = 0 :=
        List.countP_eq_zero.mpr (List.any_eq_false.mp found)
      constructor
      · intro h
        cases h
        exact ⟨elements, rfl, none, rfl⟩
      · rintro ⟨_, ⟨⟩, _, rfl⟩
        rfl
  | _ =>
    constructor
    · intro h
      split at h <;> cases h
    · rintro ⟨_, ⟨⟩, _⟩

theorem update_domainDelete_iff {domainName : String} {domains new : Value} :
    (Call.domainDelete domainName).update domains = some new ↔
      ∃ before after, domains = .list (before ++ .str domainName :: after) ∧
        before.countP (isText domainName) = 0 ∧ new = .list (before ++ after) := by
  have removed : ∀ {before after : List Value}, before.countP (isText domainName) = 0 →
      (before ++ .str domainName :: after).eraseP (isText domainName) = before ++ after := by
    intro before after none
    rw [List.eraseP_append_right _ (List.countP_eq_zero.mp none), List.eraseP_cons_of_pos]
    exact decide_eq_true rfl
  rw [Call.update]
  cases domains with
  | list elements =>
    rw [contains_list]
    constructor
    · intro h
      cases found : elements.any (isText domainName) with
      | false =>
        rw [found] at h
        cases h
      | true =>
        obtain ⟨value, member, named⟩ := List.any_eq_true.mp found
        obtain ⟨value, before, after, none, named, rfl, erased⟩ :=
          List.exists_of_eraseP member named
        rw [found] at h
        simp only [remove, found, if_true, Except.toOption, Option.some.injEq, erased] at h
        rw [eq_of_isText named]
        exact ⟨before, after, rfl, List.countP_eq_zero.mpr none, h.symm⟩
    · rintro ⟨before, after, ⟨⟩, none, rfl⟩
      have found : (before ++ .str domainName :: after).any (isText domainName) = true := by
        simp [isText]
      rw [found]
      simp only [remove, found, if_true, Except.toOption, removed none]
  | _ =>
    constructor
    · intro h
      split at h <;> cases h
    · rintro ⟨_, _, ⟨⟩, _⟩

theorem countP_isText_cons (domainName domainName' : String) (elements : List Value) :
    (.str domainName :: elements).countP (isText domainName') =
      elements.countP (isText domainName') + if domainName = domainName' then 1 else 0 := by
  rw [List.countP_cons]
  by_cases same : domainName = domainName' <;> simp [isText, same]

theorem touches_update (call : Call) :
    Touches format.document occurrences {call.domainName} call.update where
  valid := by
    intro domains new data updated
    change JsonData domains at data
    change JsonData new
    cases call with
    | domainAdd domainName =>
      obtain ⟨elements, rfl, _, rfl⟩ := update_domainAdd_iff.mp updated
      cases data with
      | list _ all =>
        apply JsonData.list
        intro value member
        rcases List.mem_append.mp member with member | last
        · exact all value member
        · rw [List.mem_singleton.mp last]
          exact .str domainName
    | domainDelete domainName =>
      obtain ⟨before, after, rfl, _, rfl⟩ := update_domainDelete_iff.mp updated
      cases data with
      | list _ all =>
        apply JsonData.list
        intro value member
        apply all
        rcases List.mem_append.mp member with member | member
        · exact List.mem_append_left _ member
        · exact List.mem_append_right _ (List.mem_cons_of_mem _ member)
  frame := by
    intro domains new updated domainName' other
    cases call with
    | domainAdd domainName =>
      obtain ⟨elements, rfl, _, rfl⟩ := update_domainAdd_iff.mp updated
      have other : domainName ≠ domainName' := fun same => other same.symm
      simp [occurrences, isText, other]
    | domainDelete domainName =>
      obtain ⟨before, after, rfl, _, rfl⟩ := update_domainDelete_iff.mp updated
      have other : domainName ≠ domainName' := fun same => other same.symm
      simp [occurrences, countP_isText_cons, other]
  depends := by
    intro domains domains' new agree updated
    have agree := agree call.domainName rfl
    cases call with
    | domainAdd domainName =>
      obtain ⟨elements, rfl, none, rfl⟩ := update_domainAdd_iff.mp updated
      cases domains' with
      | list elements' =>
        have count : elements'.countP (isText domainName) = elements.countP (isText domainName) :=
          Option.some.inj agree
        refine ⟨_, update_domainAdd_iff.mpr ⟨elements', rfl, count.trans none, rfl⟩, ?_⟩
        rintro _ rfl
        simp only [occurrences, List.countP_append, count]
      | _ => cases agree
    | domainDelete domainName =>
      obtain ⟨before, after, rfl, none, rfl⟩ := update_domainDelete_iff.mp updated
      cases domains' with
      | list elements' =>
        have count : elements'.countP (isText domainName) =
            (before ++ .str domainName :: after).countP (isText domainName) :=
          Option.some.inj agree
        have total : elements'.countP (isText domainName) =
            before.countP (isText domainName) + after.countP (isText domainName) + 1 := by
          rw [count, List.countP_append, countP_isText_cons, if_pos rfl]
          omega
        have present : 0 < elements'.countP (isText domainName) := by omega
        obtain ⟨value, member, named⟩ := List.countP_pos_iff.mp present
        obtain ⟨value, before', after', none', named, rfl, _⟩ :=
          List.exists_of_eraseP member named
        have none' := List.countP_eq_zero.mpr none'
        rw [eq_of_isText named] at total agree ⊢
        refine ⟨_, update_domainDelete_iff.mpr ⟨before', after', rfl, none', rfl⟩, ?_⟩
        intro key same
        have same : key = domainName := same
        rw [List.countP_append, countP_isText_cons, if_pos rfl] at total
        simp only [occurrences, List.countP_append, Option.some.injEq, same]
        omega
      | _ => cases agree
  unchanged := by
    intro domains new updated same
    have same := same call.domainName rfl
    cases call with
    | domainAdd domainName =>
      obtain ⟨elements, rfl, _, rfl⟩ := update_domainAdd_iff.mp updated
      simp [occurrences, Call.domainName, isText] at same
    | domainDelete domainName =>
      obtain ⟨before, after, rfl, _, rfl⟩ := update_domainDelete_iff.mp updated
      simp [occurrences, Call.domainName, countP_isText_cons] at same

theorem writes_domainsSet {new : Value} (data : JsonData new) :
    Writes format.document (some new) (domainsSet new) := by
  obtain ⟨text, dumped, _⟩ := data.loads_dumps jsonDefault
  have same : domainsSet new = do
      let text ← Program.lift (dumps jsonDefault new)
      KVStore.set format.key (.str text)
      return () := by
    rw [domainsSet, dumped]
    change KVStore.set "domains" (.str text) =
      (KVStore.set "domains" (.str text)).bind fun _ => .done (.ok ())
    rw [KVStore.set_of_jsonData (.str text)]
    rfl
  rw [same]
  exact KVStore.writes_text rfl data ()

theorem domainsList_bind {α : Type} (next : Value → Program KVStore.Table Exception α) :
    (domainsList >>= next) = .step id fun table =>
      (Program.lift (loadsValue (KVStore.valueAt "domains" (.str "[]") table)) :
        Program _ _ _).bind next := by
  have read : domainsList = .step id fun table =>
      Program.lift (loadsValue (KVStore.valueAt "domains" (.str "[]") table)) := by
    rw [domainsList, KVStore.getDefault_bind]
  rw [read]
  rfl

theorem updates_program (call : Call) : Updates format.document call.update call.program := by
  have valid : ∀ domains, JsonData domains → ∀ new, call.update domains = some new →
      JsonData new := fun _ data _ => (touches_update call).valid data
  cases call with
  | domainAdd domainName =>
    rw [Call.program, domainAdd, domainsList_bind]
    apply KVStore.updates_of_parse format
    intro domains data
    have valid := valid domains data
    rw [Call.update] at valid ⊢
    rcases contained : contains domains domainName with e | present
    · exact .nothing
    cases present with
    | true => exact .nothing
    | false =>
      rw [contained] at valid
      rcases appended : append domains domainName with e | new
      · exact .nothing
      · rw [appended] at valid
        exact writes_domainsSet (valid new rfl)
  | domainDelete domainName =>
    rw [Call.program, domainDelete, domainsList_bind]
    apply KVStore.updates_of_parse format
    intro domains data
    have valid := valid domains data
    rw [Call.update] at valid ⊢
    rcases contained : contains domains domainName with e | present
    · exact .nothing
    cases present with
    | false => exact .nothing
    | true =>
      rw [contained] at valid
      rcases removed : remove domains domainName with e | new
      · exact .nothing
      · rw [removed] at valid
        exact writes_domainsSet (valid new rfl)

end Names

/-! ## Known packages -/

namespace Package

def format : KVStore.Format :=
  .plain "packages_known" (.dict []) (.dict [] List.nodup_nil (by simp))

def Call.update : Call → Value → Option Value
  | .markKnown installedVersion packages, packagesKnown =>
    (packages.foldlM (markOne installedVersion) packagesKnown).toOption
  | .unmarkKnown packages, packagesKnown => (packages.foldlM unmarkOne packagesKnown).toOption

def Call.change : Call → String → Option Value → Option (Option Value)
  | .markKnown installedVersion _, package, old =>
    (installedVersion package).bind fun version =>
      (setItem (old.getD (.dict [])) "version" (.str version)).toOption.map some
  | .unmarkKnown _, _, _ => some none

def Call.changed : Call → List String
  | .markKnown installedVersion packages =>
    packages.filter fun package => (installedVersion package).isSome
  | .unmarkKnown packages => packages

theorem toOption_bind {α β : Type} (first : Except Exception α) (rest : α → Except Exception β) :
    (first >>= rest).toOption = first.toOption >>= fun a => (rest a).toOption := by
  cases first <;> rfl

theorem markOne_eq {installedVersion : String → Option String} (packages : List String)
    {package version : String} (installed : installedVersion package = some version)
    (packagesKnown : Value) :
    (markOne installedVersion packagesKnown package).toOption =
      changeEntry (Call.change (.markKnown installedVersion packages) package) packagesKnown
        package := by
  rw [markOne, installed, changeEntry]
  cases packagesKnown with
  | dict items =>
    have change : Call.change (.markKnown installedVersion packages) package (lookup package items) =
        (setItem ((lookup package items).getD (.dict [])) "version" (.str version)).toOption.map
          some := by
      rw [Call.change, installed]
      rfl
    rw [entry, Option.bind_eq_bind, Option.bind_some, change]
    simp only [setdefault, bind, Except.bind]
    cases setItem ((lookup package items).getD (.dict [])) "version" (.str version) <;> rfl
  | _ => rfl

theorem unmarkOne_eq (packages : List String) (package : String) (packagesKnown : Value) :
    (unmarkOne packagesKnown package).toOption =
      changeEntry (Call.change (.unmarkKnown packages) package) packagesKnown package := by
  rw [unmarkOne, changeEntry]
  cases packagesKnown with
  | dict items =>
    cases found : lookup package items with
    | none =>
      have same := eraseKey_of_lookup found
      simp [pop, found, entry, Call.change, putEntry, same, Except.toOption,
        Exception.isinstance, KeyError, builtin]
    | some old => simp [pop, found, entry, Call.change, putEntry, Except.toOption]
  | _ => rfl

theorem update_eq (call : Call) : call.update = changeEntries call.change call.changed := by
  funext packagesKnown
  cases call with
  | markKnown installedVersion packages =>
    suffices all : ∀ rest : List String, (rest.foldlM (markOne installedVersion) packagesKnown).toOption =
        changeEntries (Call.change (.markKnown installedVersion packages))
          (rest.filter fun package => (installedVersion package).isSome) packagesKnown from
      all packages
    intro rest
    induction rest generalizing packagesKnown with
    | nil => rfl
    | cons package rest ih =>
      rw [List.foldlM_cons, toOption_bind]
      cases installed : installedVersion package with
      | none =>
        rw [List.filter_cons_of_neg (by simp [installed]), ← ih, markOne, installed]
        rfl
      | some version =>
        rw [List.filter_cons_of_pos (by simp [installed]), changeEntries,
          markOne_eq packages installed]
        congr 1
        funext packagesKnown
        exact ih packagesKnown
  | unmarkKnown packages =>
    suffices all : ∀ rest : List String, (rest.foldlM unmarkOne packagesKnown).toOption =
        changeEntries (Call.change (.unmarkKnown packages)) rest packagesKnown from all packages
    intro rest
    induction rest generalizing packagesKnown with
    | nil => rfl
    | cons package rest ih =>
      rw [List.foldlM_cons, toOption_bind, changeEntries, unmarkOne_eq packages]
      congr 1
      funext packagesKnown
      exact ih packagesKnown

theorem change_twice {call : Call} {package : String} {old new : Option Value}
    (changed : call.change package old = some new) : call.change package new = some new := by
  cases call with
  | markKnown installedVersion packages =>
    rw [Call.change] at changed ⊢
    cases installed : installedVersion package with
    | none =>
      rw [installed] at changed
      cases changed
    | some version =>
      rw [installed] at changed
      cases entries : old.getD (.dict []) with
      | dict items =>
        simp only [entries, setItem, Except.toOption, Option.bind_some, Option.map_some,
          Option.some.injEq] at changed
        subst changed
        have found : lookup "version" (setKey "version" (.str version) items) =
            some (.str version) := by
          rw [lookup_setKey, if_pos rfl]
        simp [setItem, setKey_of_lookup found, Except.toOption]
      | _ =>
        rw [entries] at changed
        cases changed
  | unmarkKnown packages =>
    cases changed
    rfl

theorem touches_update (call : Call) :
    Touches format.document entry {package | package ∈ call.packages} call.update := by
  rw [update_eq]
  apply touches_changeEntries rfl
  · intro package member
    cases call with
    | markKnown => exact List.mem_of_mem_filter member
    | unmarkKnown => exact member
  · apply List.pairwise_of_forall
    rintro package _ rfl old new changed
    exact change_twice changed
  · intro package _ old value data changed
    cases call with
    | markKnown installedVersion packages =>
      rw [Call.change] at changed
      cases installed : installedVersion package with
      | none =>
        rw [installed] at changed
        cases changed
      | some version =>
        rw [installed] at changed
        have known : JsonData (old.getD (.dict [])) := by
          cases old with
          | none => exact .dict [] List.nodup_nil (by simp)
          | some old => exact data old rfl
        cases entries : old.getD (.dict []) with
        | dict items =>
          rw [entries] at known changed
          cases changed
          exact jsonData_setKey _ known (.str version)
        | _ =>
          rw [entries] at changed
          cases changed
    | unmarkKnown packages => cases changed

theorem getKnown_bind {α : Type} (next : Value → Program KVStore.Table Exception α) :
    (getKnown >>= next) = .step id fun table =>
      (Program.lift (.ok (KVStore.valueAt "packages_known" (.dict []) table)) :
        Program _ _ _).bind next :=
  KVStore.getDefault_bind _ _ next

theorem updates_program (call : Call) : Updates format.document call.update call.program := by
  have valid : ∀ known, JsonData known → ∀ new, call.update known = some new →
      JsonData new := fun _ data _ => (touches_update call).valid data
  cases call with
  | markKnown installedVersion packages =>
    rw [Call.program, markKnown, getKnown_bind]
    apply KVStore.updates_of_parse format
    intro known data
    have valid := valid known data
    rw [Call.update] at valid ⊢
    rcases marked : packages.foldlM (markOne installedVersion) known with e | new
    · exact .nothing
    · rw [marked] at valid
      exact KVStore.writes_plain rfl (valid new rfl)
  | unmarkKnown packages =>
    rw [Call.program, unmarkKnown, getKnown_bind]
    apply KVStore.updates_of_parse format
    intro known data
    have valid := valid known data
    rw [Call.update] at valid ⊢
    rcases unmarked : packages.foldlM unmarkOne known with e | new
    · exact .nothing
    · rw [unmarked] at valid
      exact KVStore.writes_plain rfl (valid new rfl)

end Package

/-! ## Two calls at a time -/

open Two

/-- Two calls on different entries, whose steps are taken in any order, have the effect of one
after the other unless both read before either writes, both go on to write, and the first to write
changes the registry. -/
theorem registry_calls_serial_iff (table : KVStore.Table) (order : List Side)
    (final : KVStore.Table) :
    (∀ calls : Side → Backups.Store.Call,
      (calls .left).uuid ≠ (calls .right).uuid →
      Interleaves (fun side => (calls side).program) table order final →
      (Serial (fun side => (calls side).program) table final ↔
        ¬ Loses Backups.Store.format.document (fun side => (calls side).update) table order)) ∧
    (∀ calls : Side → Names.Call,
      (calls .left).domainName ≠ (calls .right).domainName →
      Interleaves (fun side => (calls side).program) table order final →
      (Serial (fun side => (calls side).program) table final ↔
        ¬ Loses Names.format.document (fun side => (calls side).update) table order)) ∧
    ∀ calls : Side → Package.Call,
      (∀ package ∈ (calls .left).packages, package ∉ (calls .right).packages) →
      Interleaves (fun side => (calls side).program) table order final →
      (Serial (fun side => (calls side).program) table final ↔
        ¬ Loses Package.format.document (fun side => (calls side).update) table order) := by
  refine ⟨?_, ?_, ?_⟩
  · intro calls different interleaves
    apply serial_iff (fun side => Backups.Store.updates_program (calls side))
      (fun side => Backups.Store.touches_update (calls side)) _ interleaves
    apply apart_of_left
    rintro _ rfl
    exact different
  · intro calls different interleaves
    apply serial_iff (fun side => Names.updates_program (calls side))
      (fun side => Names.touches_update (calls side)) _ interleaves
    apply apart_of_left
    rintro _ rfl
    exact different
  · intro calls different interleaves
    apply serial_iff (fun side => Package.updates_program (calls side))
      (fun side => Package.touches_update (calls side)) _ interleaves
    exact apart_of_left different

def twoDomains : Side → Names.Call
  | .left => .domainAdd "a.example"
  | .right => .domainAdd "b.example"

theorem twoDomains_different : (twoDomains .left).domainName ≠ (twoDomains .right).domainName :=
  ne_of_beq_false rfl

theorem twoDomains_interleave : ∃ final, Interleaves (fun side => (twoDomains side).program)
    (fun _ => none) [.left, .right, .left, .right] final := by
  apply interleaves_overlap .left (fun side => Names.updates_program (twoDomains side))
  intro side
  change _ = some (Value.list [.str (twoDomains side).domainName])
  cases side <;> rfl

theorem twoDomains_lose : Loses Names.format.document (fun side => (twoDomains side).update)
    (fun _ => none) [.left, .right, .left, .right] :=
  ⟨.left, .left, [.right], .list [], _, _, rfl, rfl, rfl, rfl, by simp⟩

theorem registry_calls_serial_iff_twoDomains : ∃ final,
    Interleaves (fun side => (twoDomains side).program) (fun _ => none)
      [.left, .right, .left, .right] final ∧
    ¬ Serial (fun side => (twoDomains side).program) (fun _ => none) final := by
  obtain ⟨final, interleaves⟩ := twoDomains_interleave
  refine ⟨final, interleaves, ?_⟩
  intro serial
  have decided := (registry_calls_serial_iff _ _ final).2.1 twoDomains twoDomains_different interleaves
  exact decided.mp serial twoDomains_lose

theorem domain_lost : ¬ ∀ (calls : Side → Names.Call) table order final,
    (calls .left).domainName ≠ (calls .right).domainName →
    Interleaves (fun side => (calls side).program) table order final →
    Serial (fun side => (calls side).program) table final := by
  intro all
  obtain ⟨final, interleaves⟩ := twoDomains_interleave
  have serial := all twoDomains _ _ final twoDomains_different interleaves
  have different : ∀ k ∈ ({(twoDomains .left).domainName} : Set String),
      k ∉ ({(twoDomains .right).domainName} : Set String) := by
    rintro _ rfl
    exact twoDomains_different
  have decided := serial_iff (fun side => Names.updates_program (twoDomains side))
    (fun side => Names.touches_update (twoDomains side)) (apart_of_left different) interleaves
  exact decided.mp serial twoDomains_lose

end Plinth
