import Mathlib.Data.List.Sort
import Mathlib.Logic.Function.Basic
import Plinth.Lib.Python.Text
import Plinth.Lib.Runs

/-!
# The first boot wizard

`plinth/modules/first_boot`, the middlewares that stand before a view, and the views that sign in,
that create accounts and that do a step of the wizard, for requests served one after another.
-/

namespace Plinth.FirstBoot

open Python.Text

structure Step where
  id : String
  url : String
  order : Int
  deriving DecidableEq, Repr

structure App where
  id : String
  isEssential : Bool
  version : Nat
  firstBootSteps : List Step
  deriving Repr

def firstbootWelcome : Step := ⟨"firstboot_welcome", "first_boot:welcome", 0⟩

def usersFirstboot : Step := ⟨"users_firstboot", "users:firstboot", 1⟩

inductive View
  | welcome
  | complete
  | usersFirstboot
  | login
  | logout
  | userCreate
  | userUpdate (slug : String)
  | other
  deriving DecidableEq, Repr

structure Page where
  view : View
  app : Option String
  isPublic : Bool
  isNonAdmin : Bool
  deriving Repr

structure Site where
  apps : List App
  scriptPrefix : List Char
  otherPath : String → List Char
  otherPage : List Char → Option Page
  version_pos : ∀ app ∈ apps, 0 < app.version
  users_steps : ∀ app ∈ apps, app.id = "users" → usersFirstboot ∈ app.firstBootSteps
  others : ∀ path page, otherPage path = some page →
    page.view = .other ∨ page.view = .userCreate ∧ page.isPublic = false ∧ page.isNonAdmin = false ∨
      ∃ slug, page.view = .userUpdate slug

def urls : List (String × String) :=
  [("first_boot:index", "firstboot/"), ("first_boot:welcome", "firstboot/welcome/"),
    ("first_boot:complete", "firstboot/complete/"), ("users:firstboot", "users/firstboot/"),
    ("users:login", "accounts/login/"), ("users:logout", "accounts/logout/"),
    ("help:index", "help/"), ("status", "status/")]

namespace Site

variable (site : Site)

def path (name : String) : List Char :=
  match urls.lookup name with
  | some url => url.toList
  | none => site.otherPath name

def reverse (name : String) : List Char :=
  site.scriptPrefix ++ site.path name

def resolve (path : List Char) : Option Page :=
  if path = site.reverse "first_boot:index" ∨ path = site.reverse "first_boot:welcome" then
    some ⟨.welcome, "first_boot", true, false⟩
  else if path = site.reverse "first_boot:complete" then some ⟨.complete, "first_boot", false, false⟩
  else if path = site.reverse "users:firstboot" then some ⟨.usersFirstboot, "users", true, false⟩
  else if path = site.reverse "users:login" then some ⟨.login, "users", true, false⟩
  else if path = site.reverse "users:logout" then some ⟨.logout, "users", true, false⟩
  else site.otherPage path

def app? (id : String) : Option App :=
  site.apps.find? fun app => app.id = id

end Site

/-- What is kept about the wizard: in the database, and in the variables of the modules. -/
structure Wizard where
  setupVersion : String → Nat
  /-- the entries of the steps in `kvstore` -/
  done : String → Bool
  /-- the entry `firstboot_completed` -/
  firstbootCompleted : Bool
  /-- `_all_first_boot_steps` -/
  allSteps : Option (List Step)
  /-- `_is_completed` -/
  isCompleted : Option Bool
  isFirstSetupRunning : Bool

def Wizard.needsSetup (w : Wizard) (app : App) : Bool :=
  w.setupVersion app.id = 0

def Wizard.isUpToDate (w : Wizard) (app : App) : Bool :=
  w.setupVersion app.id ≠ 0 ∧ app.version ≤ w.setupVersion app.id

/-- `sorted(steps, key=operator.itemgetter('order'))` -/
def sortSteps (steps : List Step) : List Step :=
  steps.insertionSort fun a b => a.order ≤ b.order

def Wizard.availableSteps (w : Wizard) (apps : List App) : List Step :=
  apps.flatMap fun app => if w.needsSetup app then [] else app.firstBootSteps

structure Session where
  user : Option String
  /-- `firstboot_secret_provided` -/
  secretProvided : Bool
  deriving DecidableEq, Repr

structure State extends Wizard where
  secret : Option (List Char)
  users : List String
  /-- the members of the group `admin` -/
  admins : List String
  sessions : Nat → Session

inductive Body
  | none
  | secret (text : List Char)
  | skip
  /-- the form for the first account: whether the name is reserved or the password too simple, and
  whether the new user may sign in -/
  | account (username : String) (isValid isAuthenticated : Bool)
  | login (username : String)
  | create (username : String) (isAdmin : Bool)
  | update (username : String) (isAdmin isDeleted : Bool)
  | other (steps : List String)
  deriving DecidableEq, Repr

structure Request where
  session : Nat
  path : List Char
  body : Body
  deriving Repr

abbrev Web := StateM State

/-- `is_user_admin` -/
def State.isUserAdmin (s : State) (session : Nat) : Bool :=
  match (s.sessions session).user with
  | none => false
  | some user => user ∈ s.admins

section Steps

variable (site : Site)

/-- `_get_steps` -/
def getSteps : Web (List Step) := do
  let s ← get
  match s.allSteps with
  | some steps => return steps
  | none =>
    let steps := sortSteps (s.availableSteps site.apps)
    set { s with allSteps := some steps }
    return steps

def isFirstbootUrl (path : List Char) : Web Bool := do
  let steps ← getSteps site
  return steps.any fun step => startswith path (site.reverse step.url)

def nextStepOrNone : Web (Option String) := do
  let steps ← getSteps site
  let s ← get
  return (steps.find? fun step => !s.done step.id).map Step.url

def setCompleted : Web Unit :=
  modify fun s => { s with isCompleted := some true, firstbootCompleted := true }

def markStepDone (id : String) : Web Unit := do
  modify fun s => { s with done := Function.update s.done id true }
  match ← nextStepOrNone site with
  | some _ => return ()
  | none => setCompleted

def isCompleted : Web Bool := do
  let s ← get
  match s.isCompleted with
  | some completed => return completed
  | none =>
    set { s with isCompleted := some s.firstbootCompleted }
    return s.firstbootCompleted

end Steps

/-! ## Middlewares -/

section Middlewares

variable (site : Site)

def isExempt (path : List Char) : Bool :=
  startswith path (site.reverse "users:login") || startswith path (site.reverse "help:index") ||
    startswith path (site.reverse "status")

def processRequest (request : Request) : Web (Option String) := do
  let s ← get
  if isExempt site request.path then return none
  else if s.isFirstSetupRunning then return none
  else
    let firstbootCompleted ← isCompleted
    let userRequestsFirstboot ← isFirstbootUrl site request.path
    if userRequestsFirstboot ∧ ¬ startswith request.path (site.reverse "first_boot:welcome") ∧
        s.secret.isSome ∧ ¬ (s.sessions request.session).secretProvided ∧
        ¬ s.isUserAdmin request.session then
      return some "first_boot:welcome"
    else if ¬ firstbootCompleted ∧ ¬ userRequestsFirstboot then
      match ← nextStepOrNone site with
      | some step => return some step
      | none =>
        setCompleted
        return none
    else if firstbootCompleted ∧ userRequestsFirstboot then return some "first_boot:complete"
    else return none

/-- What `LoginRequiredMiddleware`, `AdminRequiredMiddleware`, `FirstSetupMiddleware` and
`SetupMiddleware` let through to the view of the page. -/
def processView (s : State) (request : Request) (page : Page) : Bool :=
  let isAdmin := s.isUserAdmin request.session
  (page.isPublic || isAdmin || page.isNonAdmin && (s.sessions request.session).user.isSome) &&
    !s.isFirstSetupRunning &&
    (startswith request.path (site.reverse "users:login") ||
      match page.app with
      | none => true
      | some id =>
        match site.app? id with
        | none => false
        | some app => s.isUpToDate app)

def dispatch (request : Request) : Web (Option View) := do
  match ← processRequest site request with
  | some _ => return none
  | none =>
    let s ← get
    match site.resolve request.path with
    | none => return none
    | some page => return if processView site s request page then some page.view else none

end Middlewares

/-! ## Views -/

def Session.login (session : Session) (username : String) : Session :=
  match session.user with
  | none => { session with user := some username }
  | some user => if user = username then session else ⟨some username, false⟩

def Session.rename (session : Session) (username newUsername : String) : Session :=
  { session with user := session.user.map fun user =>
      if user = username then newUsername else user }

def Session.delete (session : Session) (username : String) : Session :=
  if session.user = some username then { session with user := none } else session

def setSession (session : Nat) (change : Session → Session) : Web Unit :=
  modify fun s => { s with
    sessions := Function.update s.sessions session (change (s.sessions session)) }

def setAdmin (username : String) (isAdmin : Bool) (admins : List String) : List String :=
  if isAdmin then if username ∈ admins then admins else username :: admins
  else admins.filter (· ≠ username)

/-- `username` of `UserUpdateForm.save` -/
def State.updateUser (s : State) (slug username : String) : State :=
  let rename user := if user = slug then username else user
  { s with
    users := s.users.map rename
    admins := s.admins.map rename
    sessions := fun i => (s.sessions i).rename slug username }

def State.deleteUser (s : State) (username : String) : State :=
  { s with
    users := s.users.filter (· ≠ username)
    admins := s.admins.filter (· ≠ username)
    sessions := fun i => (s.sessions i).delete username }

section Views

variable (site : Site)

/-- `FirstBootForm.save`: that the account cannot be added to the directory, or to its group
`admin`, becomes a message. -/
def saveAccount (session : Nat) (username : String) (isAuthenticated : Bool) : Web Unit := do
  modify fun s => { s with users := username :: s.users }
  markStepDone site "users_firstboot"
  modify fun s => { s with admins := setAdmin username true s.admins }
  if isAuthenticated then setSession session fun session => session.login username

def runView (request : Request) : View → Web Unit
  | .welcome => do
      let s ← get
      match request.body with
      | .secret text =>
        if s.secret = none ∨ s.secret = some text then
          setSession request.session fun session => { session with secretProvided := true }
          markStepDone site "firstboot_welcome"
      | _ => return ()
  | .usersFirstboot => do
      let s ← get
      match request.body with
      | .skip => markStepDone site "users_firstboot"
      | .account username isValid isAuthenticated =>
        if isValid ∧ username ∉ s.users then
          saveAccount site request.session username isAuthenticated
      | _ => return ()
  | .login => do
      let s ← get
      match request.body with
      | .login username =>
        if username ∈ s.users then
          setSession request.session fun session => session.login username
      | _ => return ()
  | .logout => setSession request.session fun _ => ⟨none, false⟩
  | .userCreate => do
      let s ← get
      match request.body with
      | .create username isAdmin =>
        if username ∉ s.users then
          set { s with
            users := username :: s.users
            admins := setAdmin username isAdmin s.admins }
      | _ => return ()
  | .userUpdate slug => do
      let s ← get
      match request.body with
      | .update username isAdmin isDeleted =>
        let isOwn := (s.sessions request.session).user = some slug
        if slug ∈ s.users ∧ (username = slug ∨ username ∉ s.users) then
          -- the form of other users has the name only
          if s.isUserAdmin request.session then
            if isDeleted then set (s.deleteUser slug)
            else
              let s := s.updateUser slug username
              set { s with admins := setAdmin username isAdmin s.admins }
          else if isOwn then set (s.updateUser slug username)
      | _ => return ()
  | .other => do
      match request.body with
      | .other steps => steps.forM (markStepDone site)
      | _ => return ()
  | .complete => return ()

def handle (request : Request) : Web Unit := do
  match ← dispatch site request with
  | none => return ()
  | some view => runView site request view

/-! ## Runs -/

inductive Event
  | request (request : Request)
  /-- The setup of an app, with the signal `post_setup`. -/
  | setup (id : String)
  | firstSetup (isRunning : Bool)

def step (s : State) : Event → State
  | .request request => (handle site request s).2
  | .setup id =>
    match site.app? id with
    | none => s
    | some app =>
      { s with
        setupVersion := Function.update s.setupVersion app.id app.version
        allSteps := none }
  | .firstSetup isRunning => { s with isFirstSetupRunning := isRunning }

end Views

end Plinth.FirstBoot
