import Mathlib.Logic.Function.Basic
import Plinth.Lib.Effect
import Plinth.Lib.Python.Text
import Plinth.Lib.Python.Value

/-!
# Links of web server roots

`WebserverRoot` of `plinth/modules/apache/components.py`, with `link_root` and `unlink_root` of
`apache/privileged.py`. A component is known by its id, which is unique.
-/

namespace Plinth.Apache

open Effect Python Exception

inductive IncludeFile
  | symlink (target : String)
  | file
  deriving DecidableEq, Repr

structure System where
  /-- `/etc/apache2/includes/<domain>-include-freedombox.conf` of each domain -/
  includes : String → Option IncludeFile
  kvstore : String → Option String
  enabled : String → Bool

abbrev Call := Effect System Exception Unit

def System.setInclude (s : System) (domain : String) (file : Option IncludeFile) : System :=
  { s with includes := Function.update s.includes domain file }

def System.setEnabled (s : System) (component : String) (on : Bool) : System :=
  { s with enabled := Function.update s.enabled component on }

/-! ## Privileged actions -/

def linkRoot (domain name : String) : Call :=
  if '/' ∈ domain.toList ∨ '/' ∈ name.toList then throw (ValueError "Invalid domain or name")
  else modify fun s => s.setInclude domain (some (.symlink (name ++ ".conf")))

def unlinkRoot (domain : String) : Call :=
  if '/' ∈ domain.toList then throw (ValueError "Invalid domain")
  else modify fun s =>
    match s.includes domain with
    | some (.symlink _) => s.setInclude domain none
    | _ => s

/-! ## The component -/

section WebserverRoot

variable (webName : String → String)

def keyGet (component : String) : String :=
  component ++ "_domain"

/-- The domain, where one is selected: `None` and the empty string are false. -/
def domainGet (component : String) (s : System) : Option String :=
  (s.kvstore (keyGet component)).filter (· ≠ "")

def setDomain (component : String) (domain : Option String) (s : System) : System :=
  { s with kvstore := Function.update s.kvstore (keyGet component) domain }

def enable (component : String) : Call := do
  modify fun s => s.setEnabled component true
  match domainGet component (← get) with
  | some domain => linkRoot domain (webName component)
  | none => pure ()

def disable (component : String) : Call := do
  modify fun s => s.setEnabled component false
  match domainGet component (← get) with
  | some domain => unlinkRoot domain
  | none => pure ()

/-- `appIsEnabled` is what `self.app.is_enabled()` gives. -/
def domainSet (component : String) (domain : Option String) (appIsEnabled : Bool) : Call := do
  disable component
  modify (setDomain component domain)
  Effect.when (appIsEnabled = true) (enable webName component)

def uninstall (component : String) : Call :=
  modify (setDomain component none)

end WebserverRoot

/-! ## Calls in any order -/

inductive Event
  | domainSet (component : String) (domain : Option String) (appIsEnabled : Bool)
  | enable (component : String)
  | disable (component : String)
  | uninstall (component : String)
  deriving DecidableEq, Repr

def Event.component : Event → String
  | .domainSet component _ _ | .enable component | .disable component | .uninstall component =>
    component

def call (webName : String → String) : Event → Call
  | .domainSet component domain appIsEnabled => domainSet webName component domain appIsEnabled
  | .enable component => enable webName component
  | .disable component => disable component
  | .uninstall component => uninstall component

def step (webName : String → String) (s : System) (event : Event) : System :=
  ((call webName event).exec s).2

end Plinth.Apache

/-!
## Sites of domains

`domain_setup` and `domain_remove` of `plinth/modules/apache/privileged.py`, with `WebserverChange`
of `plinth/action_utils.py`. Each command of an attempt may fail, before or after it has done its
work.
-/

namespace Plinth.Apache.Sites

open Effect Python Exception

inductive Kind
  | config
  | site
  | module
  deriving DecidableEq, Repr

/-- What is found at `/etc/apache2/sites-available/<domain>.conf`. -/
inductive SiteFile
  | file (text : String)
  | directory
  deriving DecidableEq, Repr

inductive Required
  | reload
  | restart
  deriving DecidableEq, Repr

structure System where
  sitesAvailable : String → Option SiteFile
  enabled : Kind → String → Bool
  loaded : Kind → String → Bool
  /-- `actions_required` of the `WebserverChange` that is open -/
  actionsRequired : List Required

abbrev Action := Effect System Exception

inductive Command
  | writeText
  | unlink
  | a2query (kind : Kind) (name : String)
  | a2en (kind : Kind) (name : String)
  | a2dis (kind : Kind) (name : String)
  | systemctl
  deriving DecidableEq, Repr

inductive Outcome
  | succeeds
  | fails (changed : Bool)
  deriving DecidableEq, Repr

def CalledProcessError : Exception :=
  ⟨⟨"subprocess", "CalledProcessError", "CalledProcessError", [.exception]⟩, []⟩

def OSError : Exception :=
  ⟨builtin "OSError" [.exception], []⟩

def System.setFile (s : System) (domain : String) (file : Option SiteFile) : System :=
  { s with sitesAvailable := Function.update s.sitesAvailable domain file }

def System.setEnabled (s : System) (kind : Kind) (name : String) (on : Bool) : System :=
  { s with enabled := Function.update s.enabled kind (Function.update (s.enabled kind) name on) }

section Commands

variable (outcomes : Command → Outcome)

def run (command : Command) (error : Exception) (change partly : System → System) :
    Action Unit :=
  match outcomes command with
  | .succeeds => modify change
  | .fails true => do
      modify partly
      throw error
  | .fails false => throw error

/-- `webserver_is_enabled`: a query that fails says no. -/
def webserverIsEnabled (kind : Kind) (name : String) : Action Bool := do
  let s ← get
  return s.enabled kind name ∧ outcomes (.a2query kind name) = .succeeds

def a2en (kind : Kind) (name : String) : Action Unit := do
  let s ← get
  if kind = .site ∧ s.sitesAvailable name = none then throw CalledProcessError
  else
    run outcomes (.a2en kind name) CalledProcessError (fun s => s.setEnabled kind name true)
      fun s => s.setEnabled kind name true

def a2dis (kind : Kind) (name : String) : Action Unit :=
  run outcomes (.a2dis kind name) CalledProcessError (fun s => s.setEnabled kind name false)
    fun s => s.setEnabled kind name false

def requiredBy (kind : Kind) : Required :=
  if kind = .module then .restart else .reload

/-- `webserver_enable` without applying the changes -/
def webserverEnable (name : String) (kind : Kind) : Action (Option Required) := do
  let isEnabled ← webserverIsEnabled outcomes kind name
  if isEnabled = true ∧ kind = .module then return none
  else
    a2en outcomes kind name
    return some (requiredBy kind)

/-- `webserver_disable` without applying the changes -/
def webserverDisable (name : String) (kind : Kind) : Action (Option Required) := do
  let isEnabled ← webserverIsEnabled outcomes kind name
  if isEnabled = true then
    a2dis outcomes kind name
    return some (requiredBy kind)
  else return none

/-- `service_reload('apache2')` and `service_restart('apache2')`, which are run without a check -/
def serviceReload : Action Unit :=
  match outcomes .systemctl with
  | .succeeds => modify fun s => { s with loaded := s.enabled }
  | .fails _ => pure ()

/-! ## WebserverChange -/

def require (required : Option Required) : Action Unit :=
  modify fun s => { s with actionsRequired := s.actionsRequired ++ required.toList }

def enable (name : String) (kind : Kind) : Action Unit := do
  require (← webserverEnable outcomes name kind)

def disable (name : String) (kind : Kind) : Action Unit := do
  require (← webserverDisable outcomes name kind)

/-- `__exit__` -/
def leave : Action Unit := do
  let s ← get
  if .restart ∈ s.actionsRequired then serviceReload outcomes
  else if .reload ∈ s.actionsRequired then serviceReload outcomes

def webserverChange (body : Action Unit) : Action Unit := do
  modify fun s => { s with actionsRequired := [] }
  tryFinally body (leave outcomes)

/-! ## Domains -/

def configuration (domain : String) : String :=
  "Use FreedomBoxTLSSiteMacro " ++ domain ++ "\n"

/-- `path.write_text`, which may leave an empty file -/
def writeText (domain text : String) : Action Unit := do
  let s ← get
  if s.sitesAvailable domain = some .directory then throw OSError
  else
    run outcomes .writeText OSError (fun s => s.setFile domain (some (.file text)))
      fun s => s.setFile domain (some (.file ""))

/-- `path.is_file()` -/
def isFile (s : System) (domain : String) : Bool :=
  match s.sitesAvailable domain with
  | some (.file _) => true
  | _ => false

def domainSetup (domain : String) : Action Unit := do
  if '/' ∈ domain.toList then throw (ValueError "Invalid domain")
  else
    let s ← get
    if isFile s domain = true then return ()
    else
      writeText outcomes domain (configuration domain)
      webserverChange outcomes do
        enable outcomes "freedombox-tls-site-macro" .config
        enable outcomes domain .site

def unlink (domain : String) : Action Unit := do
  let s ← get
  if s.sitesAvailable domain = some .directory then throw OSError
  else run outcomes .unlink OSError (fun s => s.setFile domain none) fun s => s.setFile domain none

def domainRemove (domain : String) : Action Unit := do
  if '/' ∈ domain.toList then throw (ValueError "Invalid domain")
  else
    webserverChange outcomes (disable outcomes domain .site)
    unlink outcomes domain

end Commands

/-! ## Attempts -/

inductive Attempt
  | domainSetup (domain : String) (outcomes : Command → Outcome)
  | domainRemove (domain : String) (outcomes : Command → Outcome)

def call : Attempt → Action Unit
  | .domainSetup domain outcomes => domainSetup outcomes domain
  | .domainRemove domain outcomes => domainRemove outcomes domain

def step (s : System) (attempt : Attempt) : System :=
  ((call attempt).exec s).2

end Plinth.Apache.Sites

/-!
## User web sites

The names of directories and URLs in `plinth/modules/apache/__init__.py`, with `is_valid_user_name`
of `plinth/utils.py`.
-/

namespace Plinth.Apache.UserWebSites

open Python

def isValidUserName (userName : List Char) : Bool :=
  ¬ 32 < userName.length ∧ ¬ Text.startswith userName ['-'] ∧
    [' ', '\n', '\t', '/', '\\', ':'].all (fun forbidden => forbidden ∉ userName) = true

def publicHtml : List Char := "public_html".toList

def uwsDirectoryOfUser (user : List Char) : List Char :=
  "/home/".toList ++ user ++ '/' :: publicHtml

def uwsUrlOfUser (user : List Char) : List Char :=
  "/~".toList ++ user ++ ['/']

/-- `s[start:stop]` -/
def slice (s : List Char) (start stop : Nat) : List Char :=
  (s.take stop).drop start

def validUser (user : List Char) : Option (List Char) :=
  if isValidUserName user then some user else none

/-- `pos_ini` of `user_of_uws_directory` -/
def userStart (directory : List Char) : Option Nat :=
  if Text.startswith directory "/home/".toList then some 6
  else if Text.startswith directory "home/".toList then some 5
  else none

def userOfUwsDirectory (directory : List Char) : Option (List Char) := do
  let posIni ← userStart directory
  let posEnd ← Text.find ('/' :: publicHtml) directory
  validUser (slice directory posIni posEnd)

def userOfUwsUrl (url : List Char) : Option (List Char) := do
  let posIni ← Text.find ['~'] url
  let posEnd :=
    match Text.find ['/'] (url.drop posIni) with
    | some offset => posIni + offset
    | none => url.length
  validUser (slice url (posIni + 1) posEnd)

end Plinth.Apache.UserWebSites
