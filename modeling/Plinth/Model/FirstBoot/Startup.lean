import Plinth.Model.FirstBoot.Wizard

/-!
# The first boot wizard while the service starts

Requests to `plinth/modules/first_boot` and the setup thread of `plinth/setup.py`, each of which
can be interrupted between any two looks at the variables and the database they share.
-/

namespace Plinth.FirstBoot.Startup

open Python.Text

structure Request where
  path : List Char
  isRefused : Bool
  isAllowed : Bool
  app : Option String
  marks : Option String
  deriving DecidableEq, Repr

inductive Use
  /-- `is_firstboot_url` -/
  | url (firstbootCompleted : Bool)
  /-- `next_step_or_none` in the middleware -/
  | redirect
  /-- `next_step_or_none` in `mark_step_done` -/
  | mark
  /-- `next_step`, for the page that follows a step -/
  | next
  deriving DecidableEq, Repr

inductive Phase
  | start
  /-- The three looks of `is_completed` at its variable, and the one at the database -/
  | isCompleted
  | readCompleted
  | storeCompleted (completed : Bool)
  | returnCompleted
  /-- `_get_steps`, with the apps it has still to ask and the steps it has found -/
  | getSteps (use : Use)
  | collect (use : Use) (apps : List App) (found : List Step)
  | returnSteps (use : Use)
  /-- The loop of `next_step_or_none`, with the steps it has still to look at -/
  | pending (use : Use) (steps rest : List Step)
  /-- `set_completed`, for the variable and for the database -/
  | complete (use : Use)
  | record (use : Use)
  | view
  /-- `mark_step_done` -/
  | markDone (id : String)

inductive SetupPhase
  /-- `run_setup_on_startup` is not called yet. -/
  | waiting
  | attempt (isFirstSetup : Bool)
  /-- The loop of `setup_apps` -/
  | apps (isFirstSetup : Bool) (rest : List App)
  /-- The version of the app has been set, and `post_setup` is not sent yet. -/
  | signal (isFirstSetup : Bool) (rest : List App)
  | sleeping (isFirstSetup : Bool)
  | finish
  | done

structure System extends Wizard where
  requests : Nat → Option (Request × Phase)
  setup : SetupPhase

section Requests

variable (site : Site)

def useSteps (request : Request) (steps : List Step) : Use → Option Phase
  | .url firstbootCompleted =>
    let userRequestsFirstboot :=
      steps.any fun step => startswith request.path (site.reverse step.url)
    if userRequestsFirstboot ∧ request.isRefused then none
    else if ¬ firstbootCompleted ∧ ¬ userRequestsFirstboot then some (.getSteps .redirect)
    else if firstbootCompleted ∧ userRequestsFirstboot then none
    else some .view
  | use => some (.pending use steps steps)

def usePending : Use → Option Phase
  | .redirect => some (.complete .redirect)
  | .mark => some (.complete .mark)
  | _ => none

/-- What a request goes on with once a step is pending, or the wizard has been set as completed. -/
def afterPending (isCompleted : Bool) : Use → Option Phase
  | .redirect => if isCompleted then some .view else none
  | .mark => some (.getSteps .next)
  | _ => none

def processView (s : Wizard) (request : Request) : Bool :=
  request.isAllowed && !s.isFirstSetupRunning &&
    (startswith request.path (site.reverse "users:login") ||
      match request.app with
      | none => true
      | some id =>
        match site.app? id with
        | none => false
        | some app => s.isUpToDate app)

def advance (s : Wizard) (request : Request) : Phase → Wizard × Option Phase
  | .start =>
    (s, if isExempt site request.path ∨ s.isFirstSetupRunning then some .view
      else some .isCompleted)
  | .isCompleted =>
    (s, if s.isCompleted = none then some .readCompleted else some .returnCompleted)
  | .readCompleted => (s, some (.storeCompleted s.firstbootCompleted))
  | .storeCompleted completed => ({ s with isCompleted := some completed }, some .returnCompleted)
  | .returnCompleted => (s, some (.getSteps (.url (s.isCompleted.getD false))))
  | .getSteps use =>
    (s, if s.allSteps = none then some (.collect use site.apps []) else some (.returnSteps use))
  | .collect use (app :: apps) found =>
    (s, some (.collect use apps (if s.needsSetup app then found else found ++ app.firstBootSteps)))
  | .collect use [] found => ({ s with allSteps := some (sortSteps found) }, some (.returnSteps use))
  | .returnSteps use =>
    -- the cache may have been cleared meanwhile: a loop over `None`
    (s, s.allSteps.bind fun steps => useSteps site request steps use)
  | .pending use steps (step :: rest) =>
    (s, if s.done step.id then some (.pending use steps rest) else afterPending false use)
  | .pending use _ [] => (s, usePending use)
  | .complete use => ({ s with isCompleted := some true }, some (.record use))
  | .record use => ({ s with firstbootCompleted := true }, afterPending true use)
  | .view => (s, if processView site s request then request.marks.map .markDone else none)
  | .markDone id => ({ s with done := Function.update s.done id true }, some (.getSteps .mark))

/-! ## The setup thread -/

def isFirstSetup (s : Wizard) : Bool :=
  site.apps.any fun app => app.isEssential && s.needsSetup app

def essentialApps : List App :=
  site.apps.filter App.isEssential

/-- `_get_apps_for_regular_setup`; without any, `setup_apps` is for the essential apps. -/
def regularApps (s : Wizard) : List App :=
  let apps := site.apps.filter fun app =>
    app.isEssential && !s.isUpToDate app || !s.isUpToDate app && !s.needsSetup app
  if apps = [] then essentialApps site else apps

/-- The next step of the setup thread. An app is set up or fails, and after a failure there is
another attempt or the service shuts down. -/
def advanceSetup (s : Wizard) (succeeds : Bool) : SetupPhase → Wizard × SetupPhase
  | .waiting => (s, .attempt (isFirstSetup site s))
  | .attempt true => ({ s with isFirstSetupRunning := true }, .apps true (essentialApps site))
  | .attempt false => (s, .apps false (regularApps site s))
  | .apps isFirst (app :: rest) =>
    if app.version ≤ s.setupVersion app.id then (s, .apps isFirst rest)
    else if succeeds then
      ({ s with setupVersion := Function.update s.setupVersion app.id app.version },
        .signal isFirst rest)
    else (s, .sleeping isFirst)
  | .apps true [] => (s, .finish)
  | .apps false [] => (s, .done)
  | .signal isFirst rest => ({ s with allSteps := none }, .apps isFirst rest)
  | .sleeping isFirst => (s, if succeeds then .attempt isFirst else .done)
  | .finish => ({ s with isFirstSetupRunning := false }, .done)
  | .done => (s, .done)

/-! ## Runs -/

inductive Event
  | arrive (i : Nat) (request : Request)
  | advance (i : Nat)
  | setup (succeeds : Bool)
  /-- Another operation sets an app up; it sends `post_setup` after that. -/
  | install (id : String)
  | postSetup
  | restart

def step (s : System) : Event → System
  | .arrive i request =>
    match s.requests i with
    | some _ => s
    | none => { s with requests := Function.update s.requests i (some (request, .start)) }
  | .advance i =>
    match s.requests i with
    | none => s
    | some (request, phase) =>
      let (wizard, next) := advance site s.toWizard request phase
      { toWizard := wizard
        requests := Function.update s.requests i (next.map fun phase => (request, phase))
        setup := s.setup }
  | .setup succeeds =>
    let (wizard, next) := advanceSetup site s.toWizard succeeds s.setup
    { toWizard := wizard, requests := s.requests, setup := next }
  | .install id =>
    match site.app? id with
    | none => s
    | some app => { s with setupVersion := Function.update s.setupVersion app.id app.version }
  | .postSetup => { s with allSteps := none }
  | .restart =>
    { s with
      allSteps := none
      isCompleted := none
      isFirstSetupRunning := false
      requests := fun _ => none
      setup := .waiting }

end Requests

end Plinth.FirstBoot.Startup
