import Plinth.Lib.Effect
import Plinth.Lib.Python.ConfigParser

/-!
# Creating Git repositories

`create_repo` of `plinth/modules/gitweb/privileged.py` for a valid name or URL. What fails is said
by the environment: commands, operations on files, and the encoders of texts.
-/

namespace Plinth.Gitweb

open Effect Python

/-! ## Directories -/

/-- A directory in `GIT_REPO_PATH`. -/
structure Directory where
  content : Option (List String)
  /-- The file `description` -/
  description : Option (List Char)
  /-- What follows `owner = ` in the section `gitweb` of the file `config`. -/
  owner : Option (List Char)
  /-- The file `private` -/
  isPrivate : Bool
  /-- The file `clone_progress` -/
  cloneProgress : Bool
  /-- The commits in the directory `.temp` -/
  temp : Option (List String)
  /-- All files belong to `REPO_DIR_OWNER`. -/
  owned : Bool
  deriving DecidableEq, Repr

abbrev Repos := String → Option Directory

inductive Raised
  | calledProcessError
  | osError
  | valueError
  | parsingError
  | runtimeError
  deriving DecidableEq, Repr

/-- `action_utils.run(..., check=True)` -/
inductive Command
  | gitInit
  | chown
  | gitCredential
  deriving DecidableEq, Repr

/-- What raises an `OSError`. -/
inductive Operation
  | mkdir
  | touchPrivate
  | writeStatus
  | openDescription
  | openConfig
  | popen
  | unlinkStatus
  | move
  | removeTemp
  deriving DecidableEq, Repr

structure Environment where
  commandFails : Command → Option Bool
  operationFails : Operation → Bool
  encodes : List Char → Bool
  encodesUtf8 : List Char → Bool
  parses : List (List Char) → Bool
  parsesNothing : parses [] = true
  progressDecodes : Bool
  /-- The commits of the remote repository, unless `git clone` fails. -/
  cloned : Option (List String)

structure Url where
  name : String
  hasCredentials : Bool
  deriving DecidableEq, Repr

inductive Source
  | name (name : String)
  | url (url : Url)
  deriving DecidableEq, Repr

structure Request where
  source : Source
  description : List Char
  owner : List Char
  keepOwnership : Bool
  isPrivate : Bool
  deriving DecidableEq, Repr

abbrev Call := Effect Repos Raised Unit

def addSuffix (name : String) : String :=
  if ".git".toList.isSuffixOf name.toList then name else name ++ ".git"

def Request.repo (request : Request) : String :=
  match request.source with
  | .name name => addSuffix name
  | .url url => addSuffix url.name

def defaultDescription : List Char :=
  "Unnamed repository; edit this file 'description' to name the repository.\n".toList

def emptyDirectory : Directory where
  content := none
  description := none
  owner := none
  isPrivate := false
  cloneProgress := false
  temp := none
  owned := false

/-- `git init --bare` changes nothing that is there. -/
def Directory.initialized (directory : Directory) : Directory :=
  { directory with
    content := some (directory.content.getD [])
    description := some (directory.description.getD defaultDescription) }

/-- The files of a bare clone, which has no owner, are moved out of `.temp`. -/
def Directory.moved (directory : Directory) : Directory :=
  { directory with
    content := directory.temp
    description := some defaultDescription
    owner := none
    temp := some [] }

section Create

variable (env : Environment)

def run (command : Command) : Call :=
  match env.commandFails command with
  | none => pure ()
  | some true => throw .calledProcessError
  | some false => throw .osError

def attempt (operation : Operation) : Call :=
  Effect.when (env.operationFails operation) (throw .osError)

def change (repo : String) (f : Directory → Directory) : Call :=
  modify fun repos => Function.update repos repo ((repos repo).map f)

def rmtree (repo : String) : Call :=
  modify fun repos => Function.update repos repo none

/-! ## Setting properties -/

def setRepoDescription (repo : String) (description : List Char) : Call := do
  attempt env .openDescription
  if env.encodes description then
    change repo fun directory => { directory with description := some description }
  else
    change repo fun directory => { directory with description := some [] }
    throw .valueError

def readConfig (repo : String) : Call := do
  match ((← get) repo).bind Directory.owner with
  | none => return
  | some text =>
    if ¬ env.parses (ConfigParser.readLines text).2 then throw .parsingError

def setRepoOwner (repo : String) (owner : List Char) : Call := do
  readConfig env repo
  if ¬ ConfigParser.Accepts owner then throw .valueError
  attempt env .openConfig
  if env.encodesUtf8 owner then
    change repo fun directory => { directory with owner := some (ConfigParser.writeValue owner) }
  else
    change repo fun directory => { directory with owner := none }
    throw .valueError

/-- `_set_access_status(repo, 'private')` -/
def setPrivate (repo : String) : Call := do
  attempt env .touchPrivate
  change repo fun directory => { directory with isPrivate := true }

def chown (repo : String) (keepOwnership : Bool) : Call :=
  Effect.when (¬ keepOwnership) do
    run env .chown
    change repo fun directory => { directory with owned := true }

/-! ## Creating -/

def gitInit (repo : String) : Call := do
  run env .gitInit
  modify fun repos =>
    Function.update repos repo (some ((repos repo).getD emptyDirectory).initialized)

/-- `_create_repo`. What a command has left that fails is removed as well. -/
def createEmpty (repo : String) (description owner : List Char) (isPrivate keepOwnership : Bool) :
    Call :=
  tryCatch (do
    gitInit env repo
    chown env repo keepOwnership
    setRepoDescription env repo description
    setRepoOwner env repo owner
    Effect.when isPrivate (setPrivate env repo)) fun raised => do
      Effect.when (raised = .calledProcessError ∨ raised = .osError) (rmtree repo)
      throw raised

/-! ## Cloning -/

def prepareCloneRepo (url : Url) (isPrivate : Bool) : Call := do
  let repo := addSuffix url.name
  attempt env .mkdir
  if ((← get) repo).isSome then throw .osError
  modify fun repos => Function.update repos repo (some emptyDirectory)
  tryCatch (do
    Effect.when isPrivate (setPrivate env repo)
    attempt env .writeStatus
    change repo fun directory => { directory with cloneProgress := true }) fun raised => do
      Effect.when (raised = .osError) (rmtree repo)
      throw raised

def setupGitCredentials (url : Url) : Call :=
  Effect.when url.hasCredentials (run env .gitCredential)

def cloneWithProgressReport (url : Url) (repo : String) : Call := do
  setupGitCredentials env url
  attempt env .popen
  modify fun repos => Function.update repos repo
    (some { (repos repo).getD emptyDirectory with temp := env.cloned })
  if ¬ env.progressDecodes then throw .valueError
  attempt env .unlinkStatus
  if ((← get) repo).map Directory.cloneProgress ≠ some true then throw .osError
  change repo fun directory => { directory with cloneProgress := false }
  if env.cloned = none then
    rmtree repo
    throw .runtimeError

def cloneRepo (url : Url) (description owner : List Char) (keepOwnership : Bool) : Call := do
  let repo := addSuffix url.name
  cloneWithProgressReport env url repo
  attempt env .move
  change repo Directory.moved
  attempt env .removeTemp
  change repo fun directory => { directory with temp := none }
  chown env repo keepOwnership
  setRepoDescription env repo description
  setRepoOwner env repo owner

/-! ## Requests -/

/-- `create_repo` of a valid request -/
def createRepo (request : Request) (skipPrepare prepareOnly : Bool) : Call :=
  match request.source with
  | .url url => do
      Effect.when (¬ skipPrepare) (prepareCloneRepo env url request.isPrivate)
      Effect.when (¬ prepareOnly)
        (cloneRepo env url request.description request.owner request.keepOwnership)
  | .name name =>
    createEmpty env (addSuffix name) request.description request.owner request.isPrivate
      request.keepOwnership

/-- A URL may be cloned in two calls, of which the second runs in the background. -/
def create (request : Request) (inTwoCalls : Bool) : Call :=
  match inTwoCalls, request.source with
  | true, .url _ => do
      createRepo env request false true
      createRepo env request true false
  | _, _ => createRepo env request false false

/-! ## Reading -/

/-- `_get_repo_description` -/
def getRepoDescription (directory : Directory) : List Char :=
  (directory.description.map Text.universalNewlines).getD []

/-- `_get_repo_owner`, unless the file cannot be read. -/
def getRepoOwner (directory : Directory) : Option (List Char) :=
  match directory.owner with
  | none => some []
  | some text =>
    if ¬ env.parses (ConfigParser.readLines text).2 then none
    else ConfigParser.readValue text

end Create

end Plinth.Gitweb
