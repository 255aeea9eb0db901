import Plinth.Model.Package

/-!
# Repairing apps

`_run_repair_on_app` and `_run_setup_on_app` of `plinth/setup.py`, with `App.repair` of
`plinth/app.py` and what `plinth/operation.py` keeps of an update. The repair of an app and the
setup that it may run again tell each other of errors only through the operation and the storage
of its thread.
-/

namespace Plinth.Setup.Repair

open Effect

inductive Message
  | diagnosticsError (error : String)
  | skipped
  | repairError (error : String)
  | rerunning
  | repaired
  | repairedWithErrors (errors : List String)
  /-- of `_run_setup_on_app`, with the exception put in when the message is shown -/
  | installError
  | setupRepairError
  | updateError
  | installed
  | updated
  deriving DecidableEq, Repr

def lines (errors : List String) : String :=
  String.join (errors.map (· ++ "\n"))

def Message.text : Message → String
  | .diagnosticsError error => "Error running diagnostics: " ++ error
  | .skipped => "Skipping repair, no failed checks"
  | .repairError error => "Error repairing app: " ++ error
  | .rerunning => "Re-running setup to complete repairs"
  | .repaired => "App repaired."
  | .repairedWithErrors errors => "App repair completed with errors:\n" ++ lines errors
  | .installError => "Error installing app: \x7bexception\x7d"
  | .setupRepairError => "Error repairing app: \x7bexception\x7d"
  | .updateError => "Error updating app: \x7bexception\x7d"
  | .installed => "App installed."
  | .updated => "App updated"

structure Thread where
  message : Option Message
  exception : Option String
  /-- `thread_local_storage.errors` -/
  errors : List String
  deriving DecidableEq, Repr

abbrev Run := Effect Thread String

def onUpdate (message : Option Message) (exception : Option String) : Run Unit :=
  modify fun t => { t with
    message := message <|> t.message
    exception := exception <|> t.exception }

def storeErrorMessage (errorMessage : String) : Run Unit :=
  modify fun t => { t with errors := t.errors ++ [errorMessage] }

def retrieveErrorMessages : Run (List String) := do
  let errors := (← get).errors
  modify fun t => { t with errors := [] }
  return errors

structure Behaviour (α : Type) where
  stored : List String
  result : Except String α

def Behaviour.run {α : Type} (behaviour : Behaviour α) : Run α := do
  forEach behaviour.stored storeErrorMessage
  lift behaviour.result

structure Check where
  checkId : String
  componentId : Option String
  result : DiagnosticCheck.Result
  deriving DecidableEq, Repr

structure Component where
  componentId : String
  repair : List Check → Behaviour Bool

structure App where
  appId : String
  diagnose : Except String (List Check)
  /-- what the method `repair` of the class does before that of `App`, with the checks it leaves -/
  ownRepair : List Check → Behaviour (List Check)
  components : List Component
  setupVersion : Nat
  /-- the body of `_run_setup_on_app` -/
  setup : Behaviour Unit

namespace App

/-- The failed checks of a component; those of the empty id are of no component. -/
def ofComponent (componentId : String) (failedChecks : List Check) : List Check :=
  failedChecks.filter fun check => check.componentId = some componentId ∧ componentId ≠ ""

def withoutComponent (check : Check) : Bool :=
  check.componentId = none ∨ check.componentId = some ""

def repairComponents (failedChecks : List Check) : List Component → Bool → Run Bool
  | [], shouldRerunSetup => return shouldRerunSetup
  | component :: rest, shouldRerunSetup =>
    let checks := ofComponent component.componentId failedChecks
    if checks = [] then repairComponents failedChecks rest shouldRerunSetup
    else do
      let result ← (component.repair checks).run
      repairComponents failedChecks rest (shouldRerunSetup || result)

def repair (app : App) (failedChecks : List Check) : Run Bool := do
  let remaining ← (app.ownRepair failedChecks).run
  repairComponents remaining app.components (remaining.any withoutComponent)

end App

/-- What a `try` statement meets. -/
def attempt {α : Type} (body : Run α) : Run (Except String α) :=
  tryCatch (do
    let a ← body
    return .ok a) fun exception => return .error exception

def runSetupOnApp (app : App) (repair : Bool) : Run Unit := do
  match ← attempt app.setup.run with
  | .error exception =>
    let message :=
      if app.setupVersion = 0 then Message.installError
      else if repair then .setupRepairError else .updateError
    onUpdate (some message) (some exception)
  | .ok () =>
    if app.setupVersion = 0 then onUpdate (some .installed) none
    else if repair then return ()
    else onUpdate (some .updated) none

def hasFailed (check : Check) : Bool :=
  check.result = .failed ∨ check.result = .warning

/-- The end of `_run_repair_on_app`. -/
def reportRepair : Run Unit := do
  let errors ← retrieveErrorMessages
  if errors = [] then onUpdate (some .repaired) none
  else onUpdate (some (.repairedWithErrors errors)) (some (lines errors))

def runRepairOnApp (app : App) : Run Unit :=
  match app.diagnose with
  | .error exception => onUpdate (some (.diagnosticsError exception)) (some exception)
  | .ok checks => do
      let failedChecks := checks.filter hasFailed
      if failedChecks = [] then onUpdate (some .skipped) none
      else do
        match ← attempt (app.repair failedChecks) with
        | .error exception => onUpdate (some (.repairError exception)) (some exception)
        | .ok shouldRerunSetup => do
            when (shouldRerunSetup = true) do
              onUpdate (some .rerunning) none
              runSetupOnApp app true
            reportRepair

def initial : Thread := ⟨none, none, []⟩

def step (t : Thread) (app : App) : Thread :=
  ((runRepairOnApp app).exec t).2

end Plinth.Setup.Repair
