import Plinth.Lib.Atomic
import Plinth.Lib.Python.Collections

/-!
# Registries in the key/value store

`plinth/kvstore.py`, and the three modules that keep a document under a key of it:
`modules/backups/store.py`, `modules/names/__init__.py` and `package.py`. A get and a set hold the
lock of the database, and nothing holds it from one to the other.
-/

namespace Plinth

open Python Exception Atomic

namespace KVStore

/-- `value_json` of each key. -/
abbrev Table := String → Option String

def DoesNotExist : Exception :=
  ⟨⟨"plinth.models", "DoesNotExist", "KVStore.DoesNotExist", [.exception]⟩,
    [.str "KVStore matching query does not exist."]⟩

def get (table : Table) (key : String) : Except Exception Value :=
  match table key with
  | some text => loads text
  | none => .error DoesNotExist

def getDefault (key : String) (default : Value) : Program Table Exception Value :=
  .step id fun table =>
    match get table key with
    | .ok value => .done (.ok value)
    | .error _ => .done (.ok default)

def set (key : String) (value : Value) : Program Table Exception Unit :=
  match dumps jsonDefault value with
  | .ok text => .step (fun table => Function.update table key (some text)) fun _ => .done (.ok ())
  | .error e => .done (.error e)

end KVStore

/-! ## Repositories of backups -/

namespace Backups.Store

def storageKey : String := "network_storage"

def requiredFields : List String := ["path", "storage_type", "added_by_module"]

/-- A repository as it is stored, whose fields other than its uuid are JSON data. -/
structure Storage where
  uuid : Option String
  fields : List (String × Value)
  nodup : (fields.map Prod.fst).Nodup
  noUuid : "uuid" ∉ fields.map Prod.fst
  jsonData : ∀ field ∈ fields, JsonData field.2

def Storage.value (storage : Storage) (uuid : String) : Value :=
  .dict (texts (storage.fields ++ [("uuid", .str uuid)]))

def getStorages : Program KVStore.Table Exception Value := do
  let storages ← KVStore.getDefault storageKey (.dict [])
  if storages.truthy then .lift (loadsValue storages) else return storages

/-- `assertRequired` is the loop over the required fields. -/
def assertRequired (storage : Storage) : List String → Except Exception Unit
  | [] => .ok ()
  | field :: rest =>
    if field ∈ storage.fields.map Prod.fst then assertRequired storage rest
    else .error (ValueError ("missing storage parameter: " ++ field))

def updateOrAdd (uuid1 : String) (storage : Storage) : Program KVStore.Table Exception Value := do
  Program.lift (assertRequired storage requiredFields)
  let existingStorages ← getStorages
  let uuid := storage.uuid.getD uuid1
  let existingStorages ← Program.lift (setItem existingStorages uuid (storage.value uuid))
  let text ← Program.lift (dumps jsonDefault existingStorages)
  KVStore.set storageKey (.str text)
  return .str uuid

def delete (uuid : String) : Program KVStore.Table Exception Value := do
  let storages ← getStorages
  let storages ← Program.lift (delItem storages uuid)
  let text ← Program.lift (dumps jsonDefault storages)
  KVStore.set storageKey (.str text)
  return .none

inductive Call
  | updateOrAdd (uuid1 : String) (storage : Storage)
  | delete (uuid : String)

def Call.uuid : Call → String
  | .updateOrAdd uuid1 storage => storage.uuid.getD uuid1
  | .delete uuid => uuid

def Call.program : Call → Program KVStore.Table Exception Value
  | .updateOrAdd uuid1 storage => Store.updateOrAdd uuid1 storage
  | .delete uuid => Store.delete uuid

end Backups.Store

/-! ## Domains -/

namespace Names

def domainsList : Program KVStore.Table Exception Value := do
  let domains ← KVStore.getDefault "domains" (.str "[]")
  .lift (loadsValue domains)

def domainsSet (domains : Value) : Program KVStore.Table Exception Unit := do
  let text ← Program.lift (dumps jsonDefault domains)
  KVStore.set "domains" (.str text)

def domainAdd (domainName : String) : Program KVStore.Table Exception Unit := do
  let domains ← domainsList
  if ← Program.lift (contains domains domainName) then return
  let domains ← Program.lift (append domains domainName)
  domainsSet domains

def domainDelete (domainName : String) : Program KVStore.Table Exception Unit := do
  let domains ← domainsList
  if !(← Program.lift (contains domains domainName)) then return
  let domains ← Program.lift (remove domains domainName)
  domainsSet domains

inductive Call
  | domainAdd (domainName : String)
  | domainDelete (domainName : String)
  deriving DecidableEq, Repr

def Call.domainName : Call → String
  | .domainAdd domainName => domainName
  | .domainDelete domainName => domainName

def Call.program : Call → Program KVStore.Table Exception Unit
  | .domainAdd domainName => Names.domainAdd domainName
  | .domainDelete domainName => Names.domainDelete domainName

end Names

/-! ## Known packages -/

namespace Package

def getKnown : Program KVStore.Table Exception Value :=
  KVStore.getDefault "packages_known" (.dict [])

/-- The body of the loop of `mark_known`, with the version of the package that is installed. -/
def markOne (installedVersion : String → Option String) (packagesKnown : Value)
    (package : String) : Except Exception Value :=
  match installedVersion package with
  | none => .ok packagesKnown
  | some installedVersion => do
      let packageKnown ← setdefault packagesKnown package (.dict [])
      let packageKnown ← setItem packageKnown "version" (.str installedVersion)
      setItem packagesKnown package packageKnown

def unmarkOne (packagesKnown : Value) (package : String) : Except Exception Value :=
  match pop packagesKnown package with
  | .ok packagesKnown => .ok packagesKnown
  | .error e => if e.isinstance .keyError then .ok packagesKnown else .error e

def markKnown (installedVersion : String → Option String) (packages : List String) :
    Program KVStore.Table Exception Unit := do
  let packagesKnown ← getKnown
  let packagesKnown ← Program.lift (packages.foldlM (markOne installedVersion) packagesKnown)
  KVStore.set "packages_known" packagesKnown

def unmarkKnown (packages : List String) : Program KVStore.Table Exception Unit := do
  let packagesKnown ← getKnown
  let packagesKnown ← Program.lift (packages.foldlM unmarkOne packagesKnown)
  KVStore.set "packages_known" packagesKnown

inductive Call
  | markKnown (installedVersion : String → Option String) (packages : List String)
  | unmarkKnown (packages : List String)

def Call.packages : Call → List String
  | .markKnown _ packages => packages
  | .unmarkKnown packages => packages

def Call.program : Call → Program KVStore.Table Exception Unit
  | .markKnown installedVersion packages => Package.markKnown installedVersion packages
  | .unmarkKnown packages => Package.unmarkKnown packages

end Package

end Plinth
