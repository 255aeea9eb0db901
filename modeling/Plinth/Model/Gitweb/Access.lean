import Plinth.Lib.OrderedDict
import Plinth.Lib.Runs

/-!
# Access to Git repositories

The access marker of each repository, the list of repositories that is derived from it, and the
configuration of the web server, for requests and background jobs whose steps come in any order:
`plinth/modules/gitweb/__init__.py`, `views.py` and `privileged.py`.
-/

namespace Plinth.GitwebAccess

structure Repo where
  /-- The file `private` exists. -/
  isPrivate : Bool
  requestedPrivate : Bool
  deriving DecidableEq, Repr

/-- What the list of repositories is read for: `update_service_access`, or
`GitwebWebserverAuth.enable`. -/
inductive Use
  | update
  | enable
  deriving DecidableEq, Repr

inductive Phase
  | list (use : Use)
  /-- Looking for the marker of each repository, with the public ones found so far. -/
  | look (entries : List (String × Repo)) (found : List Repo) (use : Use)
  | check (found : List Repo)
  | disable (found : List Repo)
  | enable
  deriving DecidableEq, Repr

inductive Process
  /-- `git init` -/
  | create (name : String) (isPrivate : Bool)
  /-- `chown`, the description and the owner -/
  | fill (name : String) (isPrivate : Bool)
  | mark (name : String)
  /-- `_prepare_clone_repo` -/
  | prepare (name : String) (isPrivate : Bool)
  | prepareMark (name : String)
  | prepareStatus (name : String)
  /-- `_clone_repo`, in the background -/
  | clone (name : String)
  /-- `shutil.rmtree`, first of the marker, after which the access may be updated. -/
  | unlink (name : String) (thenUpdate : Bool)
  | rmdir (name : String) (thenUpdate : Bool)
  /-- `edit_repo` -/
  | rename (name newName : String) (isPrivate : Option Bool)
  | setAccess (name : String) (isPrivate : Bool)
  | access (phase : Phase)
  /-- `App.enable` and `App.disable`, with the component for authentication last and first. -/
  | enableApp
  | disableAuth
  | disableApp
  deriving DecidableEq, Repr

inductive Outcome
  | done
  | error (caught : Bool)
  deriving DecidableEq, Repr

structure System where
  repos : OrderedDict String Repo
  appEnabled : Bool
  authEnabled : Bool
  running : List Process
  listed : String → Bool
  disabledFor : List (List Repo)

def updateServiceAccess : Process :=
  .access (.list .update)

namespace System

def make (name : String) (isPrivate : Bool) (s : System) : System :=
  { s with
    repos := s.repos.set name ⟨false, isPrivate⟩
    listed := Function.update s.listed name false }

def setPrivate (name : String) (isPrivate : Bool) (s : System) : System :=
  { s with repos := s.repos.set name ⟨isPrivate, isPrivate⟩ }

/-- `private_file.exists()` is false from here on. -/
def unmark (name : String) (s : System) : System :=
  match s.repos.get? name with
  | none => s
  | some repo => { s with repos := s.repos.set name { repo with isPrivate := false } }

def remove (name : String) (s : System) : System :=
  { s with repos := s.repos.erase name }

def move (name newName : String) (s : System) : System :=
  match s.repos.get? name with
  | none => s
  | some repo =>
    { s with
      repos := (s.repos.erase name).set newName repo
      listed := Function.update s.listed newName (s.listed name) }

def has (name : String) (s : System) : Bool :=
  (s.repos.get? name).isSome

/-- The file `clone_progress` exists. -/
def cloning (name : String) (s : System) : Bool :=
  s.running.any fun process => process = .clone name

/-- `have_public_repos(get_repo_list())` -/
def hasPublic (s : System) : Bool :=
  s.repos.values.any fun repo => !repo.isPrivate

/-! ## Steps -/

def look (entry : String × Repo) (s : System) : List Repo :=
  match s.repos.get? entry.1 with
  | none => [{ entry.2 with isPrivate := false }]
  | some repo => if repo.isPrivate then [] else [repo]

def advanceAccess (s : System) : Phase → System × List Process
  | .list use =>
    ({ s with listed := fun _ => true }, [.access (.look s.repos.entries [] use)])
  | .look (entry :: entries) found use => (s, [.access (.look entries (found ++ s.look entry) use)])
  | .look [] found .update => (s, [.access (.check found)])
  | .look [] found .enable => (s, if found = [] then [.access .enable] else [])
  | .check found =>
    (s, if s.appEnabled = false then []
      else if found = [] then [.access (.list .enable)]
      else [.access (.disable found)])
  | .disable found =>
    ({ s with authEnabled := false, disabledFor := found :: s.disabledFor }, [])
  | .enable => ({ s with authEnabled := true }, [])

def setAccess (name : String) (isPrivate : Bool) (s : System) (outcome : Outcome) : System :=
  if outcome = .done ∧ s.has name = true then s.setPrivate name isPrivate else s

def advance (s : System) (outcome : Outcome) : Process → System × List Process
  | .create name isPrivate => match outcome with
      | .done => (if s.has name then s else s.make name isPrivate, [.fill name isPrivate])
      | .error true => (s, [.unlink name false])
      | .error false => (s, [])
  | .fill name isPrivate => match outcome with
      | .done => (s, [if isPrivate then .mark name else updateServiceAccess])
      | .error true => (s, [.unlink name false])
      | .error false => (s, [])
  | .mark name =>
    if outcome = .done ∧ s.has name = true then (s.setPrivate name true, [updateServiceAccess])
    else (s, [.unlink name false])
  | .prepare name isPrivate =>
    if outcome = .done ∧ s.has name = false then
      (s.make name isPrivate, [if isPrivate then .prepareMark name else .prepareStatus name])
    else (s, [])
  | .prepareMark name =>
    if outcome = .done ∧ s.has name = true then (s.setPrivate name true, [.prepareStatus name])
    else (s, [.unlink name false])
  | .prepareStatus name =>
    if outcome = .done then (s, [.clone name, updateServiceAccess])
    else (s, [.unlink name false])
  | .clone name =>
    (s, if outcome = .error true then [.unlink name false] else [])
  | .unlink name thenUpdate =>
    if outcome = .done then (s.unmark name, [.rmdir name thenUpdate])
    else (s, if thenUpdate then [updateServiceAccess] else [])
  | .rmdir name thenUpdate =>
    (if outcome = .done then s.remove name else s,
      if thenUpdate then [updateServiceAccess] else [])
  | .rename name newName isPrivate =>
    if outcome = .done ∧ s.has name = true ∧ s.has newName = false then
      (s.move name newName, [match isPrivate with
        | none => updateServiceAccess
        | some isPrivate => .setAccess newName isPrivate])
    else (s, [updateServiceAccess])
  | .setAccess name isPrivate => (s.setAccess name isPrivate outcome, [updateServiceAccess])
  | .access phase => s.advanceAccess phase
  | .enableApp => ({ s with appEnabled := true }, [.access (.list .enable)])
  | .disableAuth => ({ s with authEnabled := false }, [.disableApp])
  | .disableApp => ({ s with appEnabled := false }, [])

def others (s : System) (i : Nat) : List Process :=
  s.running.take i ++ s.running.drop (i + 1)

def runProcess (s : System) (i : Nat) (outcome : Outcome) : System :=
  match s.running[i]? with
  | none => s
  | some process =>
    let (s', next) := s.advance outcome process
    { s' with running := s.running.take i ++ next ++ s.running.drop (i + 1) }

end System

/-! ## Requests -/

inductive Request
  | create (name : String) (isPrivate : Bool)
  | clone (name : String) (isPrivate : Bool)
  | edit (name newName : String) (isPrivate : Option Bool)
  | delete (name : String)
  | enableApp
  | disableApp
  deriving DecidableEq, Repr

/-- The first step of a request, after its form or its view has looked up the name. -/
def Request.process (s : System) : Request → List Process
  | .create name isPrivate => if s.has name then [] else [.create name isPrivate]
  | .clone name isPrivate => if s.has name then [] else [.prepare name isPrivate]
  | .edit name newName isPrivate =>
    if s.has name = false ∨ s.cloning name = true then []
    else if newName ≠ name then
      if s.has newName then [] else [.rename name newName isPrivate]
    else match isPrivate with
      | none => [updateServiceAccess]
      | some isPrivate => [.setAccess name isPrivate]
  | .delete name =>
    if s.has name = false ∨ s.cloning name = true then [] else [.unlink name true]
  | .enableApp => [.enableApp]
  | .disableApp => [.disableAuth]

inductive Event
  | request (request : Request)
  | run (i : Nat) (outcome : Outcome)
  deriving DecidableEq, Repr

def step (s : System) : Event → System
  | .request request => { s with running := s.running ++ request.process s }
  | .run i outcome => s.runProcess i outcome

end Plinth.GitwebAccess
