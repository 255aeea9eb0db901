import Plinth.Lib.Distinct
import Plinth.Lib.Effect
import Plinth.Lib.Python.Text
import Plinth.Lib.Python.Value

/-!
# Static domains

`plinth/modules/names/privileged.py`, lines 41 to 78, and `plinth/modules/names/__init__.py`, lines
107 to 142 and 185 to 212: the domains in the database, and how the ones of `/etc/hosts` get there.
-/

namespace Plinth.StaticDomains

open Effect Python

abbrev Name := List Char

/-- A line of `/etc/hosts`. -/
structure Entry where
  ipaddr : List Char
  canonical : Name
  aliases : List Name
  canonical_nonempty : canonical ≠ []
  aliases_nonempty : ∀ value ∈ aliases, value ≠ []

structure System where
  /-- the value of `domains`, as the list that it encodes -/
  domains : List Name
  hosts : List Entry

inductive Call
  | superSetup
  | installResolved
  | setResolvedConfiguration
  | domainsList
  | getOldDomains
  | domainsSet
  | domainDeleteAll
  | restart
  | refeedDns
  | enable
  deriving DecidableEq, Repr

structure Environment where
  isResolvedInstalled : Bool
  isResolvedInstalledThen : Bool

abbrev Failures := Call → Option Exception

abbrev Action := Effect System Exception

def HOSTS_LOCAL_IP : List Char := "127.0.1.1".toList

/-! ## The domains in the file -/

def localEntries (hosts : List Entry) : List Entry :=
  hosts.filter fun entry => entry.ipaddr = HOSTS_LOCAL_IP

def readEntry (entry : Entry) : Name × List Name :=
  match entry.aliases.getLast? with
  | some hostname =>
    if !hostname.contains '.' && Text.startswith entry.canonical (hostname ++ ['.']) then
      ((Text.partition ['.'] entry.canonical).2, entry.aliases.dropLast)
    else (entry.canonical, entry.aliases)
  | none => (entry.canonical, entry.aliases)

def addEntry (domains : OrderedDict Name Bool) (entry : Entry) : OrderedDict Name Bool :=
  let (domain, aliases) := readEntry entry
  (domain :: aliases).foldl
    (fun domains value => if value ≠ [] then domains.set domain true else domains) domains

def getOldDomains (hosts : List Entry) : List Name :=
  ((localEntries hosts).foldl addEntry OrderedDict.empty).keys

def domainDeleteAll (hosts : List Entry) : List Entry :=
  hosts.filter fun entry => entry.ipaddr ≠ HOSTS_LOCAL_IP

/-! ## The domains in the database -/

def domainAdd (name : Name) (domains : List Name) : List Name :=
  if name ∈ domains then domains else domains ++ [name]

def domainDelete (name : Name) (domains : List Name) : List Name :=
  domains.erase name

/-! ## The setup -/

section Setup

variable (env : Environment) (failures : Failures)

def call (made : Call) : Action Unit :=
  match failures made with
  | some raised => throw raised
  | none => pure ()

def installResolved : Action Unit :=
  tryCatch (do
    call failures .installResolved
    call failures .setResolvedConfiguration) fun _ => pure ()

def migrate : Action Unit := do
  call failures .domainsList
  let stored := (← get).domains
  call failures .getOldDomains
  let domains := stored ++ getOldDomains (← get).hosts
  call failures .domainsSet
  modify fun s => { s with domains := domains }
  call failures .domainDeleteAll
  modify fun s => { s with hosts := domainDeleteAll s.hosts }

def configureResolved (oldVersion : Nat) : Action Unit := do
  when (oldVersion < 2) (call failures .setResolvedConfiguration)
  call failures .restart
  call failures .refeedDns

def setup (oldVersion : Nat) : Action Unit := do
  call failures .superSetup
  when (env.isResolvedInstalled = false) (installResolved failures)
  when (oldVersion < 4) (migrate failures)
  when (env.isResolvedInstalledThen = true) (configureResolved failures oldVersion)
  call failures .enable

end Setup

def repeatedSetup (env env' : Environment) (failures : Failures) (oldVersion : Nat) (s : System) :
    System :=
  ((setup env' (fun _ => none) oldVersion).exec ((setup env failures oldVersion).exec s).2).2

/-! ## What is to be kept -/

def IsOldStyle (entry : Entry) (domain : Name) : Prop :=
  ∃ hostname ∈ entry.aliases.getLast?, '.' ∉ hostname ∧ entry.canonical = hostname ++ '.' :: domain

open Classical in
noncomputable def domainsOf (entry : Entry) : Name × List Name :=
  if old : ∃ domain, IsOldStyle entry domain then (old.choose, entry.aliases.dropLast)
  else (entry.canonical, entry.aliases)

noncomputable def oldNames (hosts : List Entry) : List Name :=
  Distinct.distinct ((localEntries hosts).flatMap fun entry =>
    ((domainsOf entry).1 :: (domainsOf entry).2).filter (· ≠ []))

def GivesAll (hosts : List Entry) : Prop :=
  getOldDomains hosts = oldNames hosts

def Migrates (env env' : Environment) (failures : Failures) (oldVersion : Nat) (s : System) : Prop :=
  ∀ name, name ∈ s.domains ∨ name ∈ oldNames s.hosts →
    (repeatedSetup env env' failures oldVersion s).domains.count name = 1 ∧
      name ∉ domainDelete name (repeatedSetup env env' failures oldVersion s).domains

end Plinth.StaticDomains
